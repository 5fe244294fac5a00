import Simbench.Analysis.X86TlbCoherence

/-!
# The stores of the x86-64 benchmarks

The benchmarks use their code and variables, the pages of the physical memory region and the
registers of the LAPIC. None of these holds tables: the boot tables lie below the text, the runtime
tables and the gates in the heap, between the data and the region. So what the benchmarks store
changes no translation and no gate, whatever it is.
-/

set_option autoImplicit false

namespace Simbench.Analysis.X86BenchmarkStores

open Simbench.Library.NarrowStores Simbench.Library.PagedMemory Simbench.Library.TableWalk
open Simbench.Library.Outcomes Simbench.Library.TranslationCaches
open Simbench.Program Simbench.Program.X86Boot Simbench.Program.X86Kernel
open Simbench.Program.X86PageTables hiding Machine walk
open Simbench.Program.X86BootCode (Access cpuWalk)
open Simbench.Program.X86Interrupts (readGate archInitIdtr)
open Simbench.Program.X86Tlb (walk maintains storesTo storeThrough stored execStores runStores)
open Simbench.Program.Benchmarks hiding block dispatch
open Simbench.Program.MemoryKernels (sweep)
open Simbench.Analysis.X86Isolation (Any)
open Simbench.Analysis.X86HeapStack Simbench.Analysis.X86TlbCoherence
open Simbench.Analysis.BenchmarkShapes Simbench.Analysis.BenchmarkOrder
open Simbench.Analysis.BenchmarkPages Simbench.Analysis.X86InterruptTable

/-! ## Places -/

/-- INTERNAL: what the code generation benchmarks store to: functions in the text, and the table
of them in the data. SRC: benchmarks/codegen/small-blocks.c:7-22; large-blocks.c:10-76 -/
structure CodeInImage (image : Image) (site : Site) : Prop where
  fnHeads : ∀ fnHead ∈ site.fnHeads,
    textStart.toNat ≤ fnHead.toNat ∧ fnHead.toNat < image.textEnd.toNat
  block : textStart.toNat ≤ (site.symbol .block).toNat ∧
    (site.symbol .block).toNat < image.textEnd.toNat
  fnTable : (site.symbol .fnTable).toNat + 8 * site.fnHeads.length ≤ image.dataEnd.toNat

/-- INTERNAL: the places a benchmark uses: its code, its variables, the physical memory region and
the registers of the LAPIC. -/
inductive Place (image : Image) (site : Site) (ptr : BitVec 64) : Prop
  | code : textStart.toNat ≤ ptr.toNat → ptr.toNat < image.textEnd.toNat → Place image site ptr
  | data : image.dataStart.toNat ≤ ptr.toNat → ptr.toNat < image.dataEnd.toNat →
      Place image site ptr
  | region : ptr ∈ physPages site → Place image site ptr
  | lapic : ptr.toNat / 4096 = 0xfee00 → Place image site ptr

/-- INTERNAL: an address behind the boot tables and outside the heap. -/
structure Misses (image : Image) (ptr : BitVec 64) : Prop where
  bounded : ptr.toNat < 2 ^ 48
  behindBoot : 0x100000 ≤ ptr.toNat
  outside : ptr.toNat < image.heapStart.toNat ∨
    image.heapStart.toNat + heapSize.toNat ≤ ptr.toNat

section Places

variable {platform : Platform} {image : Image} {site : Site} {ptr : BitVec 64}

/-- INTERNAL: the region of either platform lies between 64 MiB and 1 GiB.
SRC: platform/x86_64/native/mem.c:3-7; platform/x86_64/qemu/mem.c:3-7 -/
theorem physPages_bounds (hsite : OnPlatform platform image site) (hptr : ptr ∈ physPages site) :
    0x4000000 ≤ ptr.toNat ∧ ptr.toNat < 2 ^ 30 := by
  cases platform with
  | native =>
    rw [(X86HeapUse.pagedRegion_native hsite).physPages_spec.2, hsite.physMemStart] at hptr
    obtain ⟨k, hk, haddr⟩ := hptr
    rw [show (physInfo .native).1.toNat = 0x4000000 from rfl] at haddr
    omega
  | qemu =>
    rw [(X86HeapUse.pagedRegion_qemu hsite).physPages_spec.2, hsite.physMemStart] at hptr
    obtain ⟨k, hk, haddr⟩ := hptr
    rw [show (physInfo .qemu).1.toNat = 0x10000000 from rfl] at haddr
    omega

/-- INTERNAL: the boot tables map every place. -/
theorem Place.bootCovers (hsite : OnPlatform platform image site) (h : Place image site ptr) :
    BootCovers ptr := by
  have hbounds := image.bounds
  have hlapic : X86Kernel.lapic.toNat = 0xfee00000 := rfl
  cases h with
  | code _ hhigh => exact Or.inl (by omega)
  | data _ hhigh => exact Or.inl (by omega)
  | region hpage => exact Or.inl (physPages_bounds hsite hpage).2
  | lapic hpage => exact Or.inr (by omega)

/-- INTERNAL: **no place holds tables**: with the image below 4 MiB the heap ends below the region.
SRC: platform/x86_64/native/sys.ld:3-51; platform/x86_64/qemu/sys.ld:3-51 -/
theorem Place.misses (hlow : image.dataEnd.toNat ≤ 0x400000)
    (hsite : OnPlatform platform image site)
    (h : Place image site ptr) : Misses image ptr := by
  have hstart := X86HeapUse.heapStart_le hlow
  have hsize := toNat_heapSize
  have htext := image.text_le
  have htextData := image.data_le
  have hdata := image.data_lt
  have hheap := image.heap_le
  have hfirst : textStart.toNat = 0x100000 := rfl
  cases h with
  | code hbelow hhigh => exact ⟨by omega, by omega, by omega⟩
  | data hbelow hhigh => exact ⟨by omega, by omega, by omega⟩
  | region hpage =>
    obtain ⟨hbelow, hhigh⟩ := physPages_bounds hsite hpage
    exact ⟨by omega, by omega, by omega⟩
  | lapic hpage => exact ⟨by omega, by omega, by omega⟩

/-- INTERNAL: the variables of the benchmarks lie in the data. -/
theorem place_data (hsite : OnPlatform platform image site) {symbol : Benchmarks.Symbol}
    (hsymbol : symbol ≠ .block) : Place image site (site.symbol symbol) :=
  .data (hsite.inData symbol hsymbol).1 (hsite.inData symbol hsymbol).2

/-- INTERNAL: the region of either platform is pages, one at least. -/
theorem exists_pagedRegion (hsite : OnPlatform platform image site) :
    ∃ pages, 0 < pages ∧ PagedRegion site pages := by
  cases platform with
  | native => exact ⟨_, by decide, X86HeapUse.pagedRegion_native hsite⟩
  | qemu => exact ⟨_, by decide, X86HeapUse.pagedRegion_qemu hsite⟩

/-- INTERNAL: the memory benchmarks read pages of the region.
SRC: benchmarks/memory/memory-cold.c:7-27 -/
theorem mem_coldSweep (hsite : OnPlatform platform image site) {iterations : ℕ}
    (hptr : ptr ∈ sweep site.physMemStart site.physMemEnd 4096 iterations site.physMemStart) :
    ptr ∈ physPages site := by
  obtain ⟨pages, hpages, hregion⟩ := exists_pagedRegion hsite
  exact hregion.mem_sweep _ (hregion.physMemStart_mem hpages) hptr

/-- INTERNAL: the TLB benchmarks write to pages of the region.
SRC: benchmarks/memory/tlb-evict.c:35-54; tlb-flush.c:38-57 -/
theorem mem_tlbSweep (hsite : OnPlatform platform image site) (hptr : ptr ∈ tlbSweep site) :
    ptr ∈ physPages site := by
  obtain ⟨pages, hpages, hregion⟩ := exists_pagedRegion hsite
  exact hregion.mem_tlbSweep hpages hptr

/-- INTERNAL: the registers a software interrupt writes. SRC: arch/x86_64/irq.h:30-62 -/
theorem place_lapic {reg : BitVec 64} (hreg : reg.toNat < 4096) :
    Place image site (lapic + reg) := by
  refine .lapic ?_
  rw [BitVec.toNat_add, show lapic.toNat = 0xfee00000 from rfl]
  omega

end Places

/-! ## The stores of a benchmark -/

section Stores

variable {platform : Platform} {image : Image} {site : Site}

/-- INTERNAL: **benchmarks without address translation** use these places only. -/
theorem execute_touching (hsite : OnPlatform platform image site) (hcode : CodeInImage image site)
    {name : Name} (hname : usesMmu name = false) :
    Touching (Place image site) (name.benchmark site).execute := by
  have hdata : ∀ {symbol : Benchmarks.Symbol}, symbol ≠ .block →
      Place image site (site.symbol symbol) := place_data hsite
  have hblock : Place image site (site.symbol .block) := .code hcode.block.1 hcode.block.2
  have hfnHeads : ∀ fnHead ∈ site.fnHeads, Place image site fnHead :=
    fun fnHead hmem => .code (hcode.fnHeads fnHead hmem).1 (hcode.fnHeads fnHead hmem).2
  have hcontrolled : ∀ {bm : Benchmark} {control : List Op}, bm.kernelPriv = false →
      bm.kernelControl = some control → Touching (Place image site) bm.kernelInit →
      Touching (Place image site) control → Touching (Place image site) bm.kernel →
      Touching (Place image site) bm.kernelCleanup → Touching (Place image site) bm.execute := by
    intro bm control hpriv hcontrol hinit hcontrol' hkernel hcleanup
    simp [Benchmark.execute, Benchmark.prologue, Benchmark.epilogue, Benchmark.priv, hpriv, hcontrol,
      hinit, hcontrol', hkernel, hcleanup]
  cases name with
  | smallBlocks =>
    refine hcontrolled rfl rfl (touching_flatMap fun i hi => ?_)
      ((touching_flatMap fun fnHead hfnHead => ?_).loop _)
      ((touching_flatMap fun fnHead hfnHead => ?_).loop _) touching_nil
    · have hroom := hcode.fnTable
      have hbounds := image.bounds
      have hi' := List.mem_range.mp hi
      have hfirst := (hsite.inData .fnTable (by decide)).1
      have haddr : (site.symbol .fnTable + BitVec.ofNat 64 (8 * i)).toNat =
          (site.symbol .fnTable).toNat + 8 * i := by
        rw [BitVec.toNat_add, BitVec.toNat_ofNat]
        omega
      have hentry : Place image site (site.symbol .fnTable + BitVec.ofNat 64 (8 * i)) :=
        .data (by omega) (by omega)
      simp [hentry]
    · simp [hfnHeads fnHead hfnHead]
    · simp [hfnHeads fnHead hfnHead]
  | largeBlocks =>
    have hvalues : Touching (Place image site) (Benchmarks.block site) := by
      simp [Benchmarks.block, hdata]
    refine hcontrolled rfl rfl touching_nil (Touching.loop ?_ _) (Touching.loop ?_ _) touching_nil
    · simp [hvalues, hblock]
    · simp [hvalues, hblock]
  | intraPageIndirect | interPageIndirect | intraPageDirect | interPageDirect => exact touching_nil
  | memoryHotNommu =>
    have hvalue : Touching (Place image site) [.load (site.symbol .memoryHotValue),
        .store (site.symbol .memoryHotValue)] := by simp [hdata]
    exact hcontrolled rfl rfl touching_nil touching_nil ((hvalue.loop 10).loop _) touching_nil
  | memoryColdNommu =>
    refine hcontrolled rfl rfl touching_nil touching_nil ?_ touching_nil
    intro op hop
    obtain ⟨ptr, hptr, rfl⟩ := List.mem_map.mp hop
    exact .region (mem_coldSweep hsite hptr)
  | deviceAccess =>
    show Touching (Place image site) (Benchmarks.deviceAccess site).execute
    rw [execute_eq rfl (Or.inl rfl)]
    have hlapic : Place image site site.nullDevptr := by
      rw [hsite.nullDevptr]
      exact .lapic (by decide)
    refine touching_append.mpr ⟨touching_append.mpr ⟨touching_nil, ?_⟩, touching_nil⟩
    exact Touching.loop (by simp [hlapic]) _
  | coprocessorAccess =>
    show Touching (Place image site) (Benchmarks.coprocessorAccess site).execute
    rw [execute_eq rfl (Or.inl rfl)]
    refine touching_append.mpr ⟨touching_append.mpr ⟨touching_nil, ?_⟩, touching_nil⟩
    exact Touching.loop (by simp) _
  | _ => cases hname

/-- INTERNAL: an operation that touches such places stores to them. -/
theorem storesTo_of_touches {P : BitVec 64 → Prop} {op : Op} (h : Touches P op) :
    ∀ ptr ∈ storesTo site op, P ptr := by
  intro ptr hptr
  cases op with
  | store ptr' =>
    rw [List.mem_singleton.mp hptr]
    exact h
  | platformTriggerSwi => exact h.elim
  | _ => cases hptr

/-- INTERNAL: the kernel of a benchmark with address translation stores to these places only. -/
theorem kernel_storesTo (hsite : OnPlatform platform image site) {name : Name}
    (hname : usesMmu name = true) {op : Op} (hop : op ∈ (name.benchmark site).kernel) :
    ∀ ptr ∈ storesTo site op, Place image site ptr := by
  intro ptr hptr
  cases name with
  | undef | syscall | dfault | ifault | memoryNonpriv =>
    obtain rfl := List.mem_singleton.mp (mem_of_mem_loop hop)
    cases hptr
  | interrupt =>
    have hflag : Place image site (site.symbol .swiFlag) := place_data hsite (by decide)
    have hboth := mem_of_mem_loop hop
    simp only [List.mem_cons, List.not_mem_nil, or_false] at hboth
    rcases hboth with rfl | rfl
    · rw [List.mem_singleton.mp hptr]
      exact hflag
    · have hregisters : ∀ ptr ∈ storesTo site .platformTriggerSwi, Place image site ptr :=
        List.forall_mem_cons.mpr ⟨place_lapic (by decide), List.forall_mem_cons.mpr
          ⟨place_lapic (by decide), List.forall_mem_cons.mpr ⟨hflag, List.forall_mem_singleton.mpr
            (place_lapic (by decide))⟩⟩⟩
      exact hregisters ptr hptr
  | memoryHotMmu =>
    have hboth := mem_of_mem_loop (mem_of_mem_loop hop)
    simp only [List.mem_cons, List.not_mem_nil, or_false] at hboth
    rcases hboth with rfl | rfl
    · cases hptr
    · rw [List.mem_singleton.mp hptr]
      exact place_data hsite (by decide)
  | memoryColdMmu =>
    obtain ⟨ptr', -, rfl⟩ := List.mem_map.mp hop
    cases hptr
  | tlbFlush | tlbEvict =>
    obtain ⟨ptr', hptr', hboth⟩ := List.mem_flatMap.mp hop
    simp only [List.mem_cons, List.not_mem_nil, or_false] at hboth
    rcases hboth with rfl | rfl
    · rw [List.mem_singleton.mp hptr]
      exact .region (mem_tlbSweep hsite hptr')
    · cases hptr
  | _ => cases hname

/-- INTERNAL: around its kernel such a benchmark stores nothing itself. -/
theorem storesTo_around {name : Name} {op : Op}
    (hop : op ∈ mmuPrologue site name ∨ op ∈ handlersFor name ∨ op ∈ leaving name ∨ op ∈ mmuOff ∨
      op ∈ afterwards name) : storesTo site op = [] := by
  rcases hop with hop | hop | hop | hop | hop
  · simp only [mmuPrologue, List.mem_append, List.mem_cons, List.mem_map, List.not_mem_nil,
      or_false] at hop
    rcases hop with ((rfl | ⟨ptr, -, rfl⟩) | rfl | rfl) | hop
    all_goals try rfl
    cases name with
    | dfault | ifault =>
      rw [List.mem_singleton.mp hop]
      rfl
    | _ => cases hop
  · cases name with
    | undef | syscall | memoryNonpriv =>
      rw [List.mem_singleton.mp hop]
      rfl
    | interrupt =>
      simp only [handlersFor, List.mem_cons, List.not_mem_nil, or_false] at hop
      rcases hop with rfl | rfl <;> rfl
    | _ => cases hop
  · cases name with
    | interrupt | memoryNonpriv =>
      rw [List.mem_singleton.mp hop]
      rfl
    | _ => cases hop
  · simp only [mmuOff, List.mem_cons, List.not_mem_nil, or_false] at hop
    rcases hop with rfl | rfl | rfl <;> rfl
  · cases name with
    | memoryNonpriv =>
      rw [List.mem_singleton.mp hop]
      rfl
    | _ => cases hop

/-- INTERNAL: **the stores of the benchmarks miss the tables**, the boot code's and the ones in the
heap, and the gates. -/
theorem stores_miss (hlow : image.dataEnd.toNat ≤ 0x400000) (hsite : OnPlatform platform image site)
    (hcode : CodeInImage image site) {names : List Name} {op : Op}
    (hop : op ∈ executeAll site names) :
    ∀ ptr ∈ storesTo site op, Misses image ptr := by
  obtain ⟨name, -, hop⟩ := List.mem_flatMap.mp hop
  have hplace : ∀ ptr ∈ storesTo site op, Place image site ptr := by
    cases hname : usesMmu name with
    | false => exact storesTo_of_touches (execute_touching hsite hcode hname op hop)
    | true =>
      rw [execute_parts site hname] at hop
      simp only [List.mem_append] at hop
      rcases hop with hop | hop | hop | hop | hop | hop
      · rw [storesTo_around (Or.inl hop)]
        exact fun ptr hptr => absurd hptr List.not_mem_nil
      · rw [storesTo_around (Or.inr (Or.inl hop))]
        exact fun ptr hptr => absurd hptr List.not_mem_nil
      · exact kernel_storesTo hsite hname hop
      · rw [storesTo_around (Or.inr (Or.inr (Or.inl hop)))]
        exact fun ptr hptr => absurd hptr List.not_mem_nil
      · rw [@storesTo_around site name op (Or.inr (Or.inr (Or.inr (Or.inl hop))))]
        exact fun ptr hptr => absurd hptr List.not_mem_nil
      · rw [storesTo_around (Or.inr (Or.inr (Or.inr (Or.inr hop))))]
        exact fun ptr hptr => absurd hptr List.not_mem_nil
  exact fun ptr hptr => (hplace ptr hptr).misses hlow hsite

end Stores

/-! ## What stores keep -/

/-- INTERNAL: nothing changes below the first MiB and in the heap. -/
def Spared (image : Image) (mem mem' : Memory) : Prop :=
  ∀ a : BitVec 64, (a.toNat < 0x100000 ∨ (image.heapStart.toNat ≤ a.toNat ∧
    a.toNat < image.heapStart.toNat + heapSize.toNat)) → mem' a = mem a

/-- INTERNAL: the machine with other memory. -/
def withMem (s : Machine) (mem : Memory) : Machine :=
  { s with pages := { s.pages with mem := mem } }

section Spared

variable {image : Image} {mem mem' mem'' : Memory}

/-- INTERNAL: memory that is not changed spares the tables. -/
theorem Spared.refl (mem : Memory) : Spared image mem mem := fun _ _ => rfl

/-- INTERNAL: stores that spare the tables, one after the other, spare them. -/
theorem Spared.trans (h : Spared image mem mem') (h' : Spared image mem' mem'') :
    Spared image mem mem'' := fun a ha => (h' a ha).trans (h a ha)

/-- INTERNAL: **one store** through a translation to the address itself. The heap starts at a page,
so the word of an address outside lies outside. -/
theorem spared_storeThrough {ptr : BitVec 64} (hptr : Misses image ptr) (word : BitVec 64)
    {translation : Option Access} (hself : ∀ access, translation = some access → access.addr = ptr)
    (mem : Memory) : Spared image mem (storeThrough word translation mem) := by
  intro a ha
  cases translation with
  | none => rfl
  | some access =>
    have hword := toNat_wordOf ptr
    have hbehind := hptr.behindBoot
    have houtside := hptr.outside
    have haligned := image.heapAligned
    have hsize := toNat_heapSize
    have hne : a ≠ wordOf ptr := by
      rintro rfl
      omega
    rw [storeThrough, hself access rfl]
    split
    · exact Function.update_of_ne hne _ _
    · rfl

/-- INTERNAL: **the stores of an operation**. Induction on the addresses. -/
theorem spared_stored {site : Site} {translate : BitVec 64 → Option Access} {op : Op}
    (hmisses : ∀ ptr ∈ storesTo site op, Misses image ptr)
    (hself : ∀ ptr : BitVec 64, ptr.toNat < 2 ^ 48 → ∀ access, translate ptr = some access →
      access.addr = ptr) (words : BitVec 64 → BitVec 64) (mem : Memory) :
    Spared image mem (stored site translate words op mem) := by
  unfold stored
  generalize storesTo site op = ptrs at hmisses
  induction ptrs generalizing mem with
  | nil => exact Spared.refl mem
  | cons ptr ptrs ih =>
    have hptr := hmisses ptr List.mem_cons_self
    rw [List.foldl_cons]
    exact (spared_storeThrough hptr (words ptr) (hself ptr hptr.bounded) mem).trans
      (ih _ fun ptr' hptr' => hmisses ptr' (List.mem_cons_of_mem _ hptr'))

end Spared

section Kept

variable {image : Image} {gigabytePages : Bool} {traps : Trap → BitVec 64} {idt root : Page}
  {calls : List Call} {s : Machine} {mem : Memory}

/-- INTERNAL: pages of the tables and of the gates. -/
theorem Spared.installed (hspared : Spared image s.pages.mem mem)
    (hidt : idt.toNat * 4096 = image.heapStart.toNat + 2 * 4096)
    (h : Installed image gigabytePages traps idt s.pages.mem) :
    Installed image gigabytePages traps idt mem := by
  have hbehind := X86BootPaths.heapStart_ge image
  have hsize := toNat_heapSize
  have hpage : ∀ q : Page, q.toNat < 0x100 ∨
      (image.heapStart.toNat ≤ q.toNat * 4096 ∧ q.toNat ≤ idt.toNat) →
        view mem q = view s.pages.mem q := by
    intro q hq
    funext i
    have haddr := toNat_slotAddr q i
    have hi := i.isLt
    refine hspared (slotAddr q i) ?_
    omega
  refine h.congr (by omega) (fun q hq => hpage q ?_) (hpage idt (Or.inr ⟨by omega, Nat.le_refl _⟩))
  exact hq.2.imp id fun hheap => ⟨hheap, Nat.le_of_lt hq.1⟩

/-- INTERNAL: the runtime tables are in the heap too. -/
theorem Mapped.withMem (h : Mapped image gigabytePages traps idt root calls s)
    (hidt : idt.toNat * 4096 = image.heapStart.toNat + 2 * 4096)
    (hspared : Spared image s.pages.mem mem) :
    Mapped image gigabytePages traps idt root calls (withMem s mem) := by
  have hbounds := image.bounds
  have hroom := h.heapCur
  have hend : s.pages.heapEnd.toNat = image.heapStart.toNat + heapSize.toNat := by
    rw [h.heapEnd, BitVec.toNat_add]
    omega
  obtain ⟨lvl, hinv, -⟩ := h.tables.represents
  have hbehind := h.behind
  have helse : X86IdentityMap.Elsewhere s (X86BenchmarkStores.withMem s mem) := by
    refine ⟨rfl, rfl, rfl, rfl, fun _ a hlow hhigh => hspared a (Or.inr ?_)⟩
    rw [hinv.table, toNat_base] at hlow
    omega
  exact ⟨hspared.installed hidt h.installed, h.initialPagetables, h.memInited,
    h.tables.elsewhere h.memInited helse, h.bootCovers, h.behind, h.root_lt, h.heapEnd, h.heapCur,
    h.cr3⟩

/-- INTERNAL: a kernel whose tables were spared still serves its exceptions. -/
theorem Served.withMem (h : Served image gigabytePages traps idt s)
    (hspared : Spared image s.pages.mem mem) :
    Served image gigabytePages traps idt (withMem s mem) :=
  ⟨hspared.installed h.idt_eq h.installed, ⟨h.heap.cur, h.heap.limit⟩, h.idt_eq, h.memInited,
    h.initialPagetables, h.cr3⟩

/-- INTERNAL: **stores elsewhere** change neither the tables nor the gates, and no translation. -/
theorem Serving.withMem (h : Serving image gigabytePages traps idt s)
    (hidt : idt.toNat * 4096 = image.heapStart.toNat + 2 * 4096)
    (hspared : Spared image s.pages.mem mem) :
    Serving image gigabytePages traps idt (withMem s mem) ∧
      walk gigabytePages (withMem s mem) = walk gigabytePages s := by
  cases h with
  | fresh h =>
    have h' := Served.withMem h hspared
    refine ⟨.fresh h', funext fun va => ?_⟩
    have hlow : (low va).toNat < 2 ^ 48 := by
      rw [toNat_low]
      exact Nat.mod_lt _ (by decide)
    unfold walk
    rw [← cpuWalk_low _ _ _ va, ← cpuWalk_low _ s.pages.mem _ va, h'.cr3, h.cr3,
      h'.installed.tables.cpuWalk_eq hlow, h.installed.tables.cpuWalk_eq hlow]
  | mapped root calls h =>
    have h' := Mapped.withMem h hidt hspared
    refine ⟨.mapped root calls h', funext fun va => ?_⟩
    rw [mapped_walk_eq h' va, mapped_walk_eq h va]
    rfl

end Kept

/-! ## Runs -/

section Runs

variable {platform : Platform} {image : Image} {site : Site} {gigabytePages : Bool}
  {traps : Trap → BitVec 64} {idt : Page} {s s₀ : Machine}

/-- INTERNAL: **one operation** with its stores: the tables and the gates stay what they are, and it
takes no translation back, or writes CR3. -/
theorem execStores_servingAfter (hsite : OnPlatform platform image site)
    (h : Served image gigabytePages traps idt s₀) {before : List Op}
    (hs : ServingAfter image gigabytePages traps idt before s) {op : Op}
    (hop : InOrder site before op) (hmisses : ∀ ptr ∈ storesTo site op, Misses image ptr)
    (input : Bool × (BitVec 64 → BitVec 64)) :
    Outcome (fun s' => ServingAfter image gigabytePages traps idt (before ++ [op]) s' ∧
      Safe (walk gigabytePages) maintains op s s') Any
        (execTables (walk gigabytePages) (execStores image site) input op s) := by
  have hself : ∀ ptr : BitVec 64, ptr.toNat < 2 ^ 48 → ∀ access,
      walk gigabytePages s ptr = some access → access.addr = ptr :=
    fun ptr hptr access haccess => ((hs.1.identity ptr hptr).1 access haccess).1
  have hplain := (exec_servingAfter hsite h.idt_ge hs hop
    (X86Tlb.envOf site (walk gigabytePages s) input.1 op)).and
      (exec_safe hsite h.idt_ge hs.1 hs.2 hop (X86Tlb.envOf site (walk gigabytePages s) input.1 op))
  refine Outcome.bind (hplain.mono (fun _ h => h) fun _ h => h.1) ?_
  rintro s₁ ⟨⟨hserving, hinited⟩, hsafe⟩
  have hspared := spared_stored hmisses hself input.2 s₁.pages.mem
  obtain ⟨hserving', hwalk⟩ := Serving.withMem hserving h.idt_eq hspared
  refine ⟨⟨hserving', hinited⟩, hsafe.imp id fun hwithin => ?_⟩
  show Within (walk gigabytePages s) (walk gigabytePages (withMem s₁ _))
  rw [hwalk]
  exact hwithin

/-- INTERNAL: **the operations of a run**, from `arch_init` to anywhere in a benchmark. -/
theorem run_servingAfter (hlow : image.dataEnd.toNat ≤ 0x400000)
    (hsite : OnPlatform platform image site) (hcode : CodeInImage image site)
    (h : Served image gigabytePages traps idt s₀) {names : List Name} {ops : List Op}
    (hops : ops <+: executeAll site names) (input : Bool × (BitVec 64 → BitVec 64))
    (before : List Op) (op : Op) (after : List Op) (s : Machine)
    (hsplit : ops = before ++ op :: after)
    (hs : ServingAfter image gigabytePages traps idt before s) :
    Outcome (fun s' => ServingAfter image gigabytePages traps idt (before ++ [op]) s' ∧
      Safe (walk gigabytePages) maintains op s s') Any
        (execTables (walk gigabytePages) (execStores image site) input op s) := by
  have hordered := (executeAll_ordered site names).of_initial hops
  have hop : op ∈ executeAll site names := hops.subset (by rw [hsplit]; simp)
  exact execStores_servingAfter hsite h hs (hordered before op after hsplit)
    (stores_miss hlow hsite hcode hop) input

/-- INTERNAL: with the stores too, the TLB makes no difference. -/
theorem runStores_same (hlow : image.dataEnd.toNat ≤ 0x400000)
    (hsite : OnPlatform platform image site) (hcode : CodeInImage image site)
    (h : Served image gigabytePages traps idt s₀) {names : List Name} {ops : List Op}
    (hops : ops <+: executeAll site names)
    (env : ℕ → (Bool × (BitVec 64 → BitVec 64)) × Activity (BitVec 64))
    {tlb : Cache (BitVec 64) Access} (htlb : Within tlb (walk gigabytePages s₀)) :
    Same (walk gigabytePages) (runStores image site gigabytePages env ops ⟨s₀, tlb⟩)
      (run (execTables (walk gigabytePages) (execStores image site))
        (fun i => (env i).1) 0 ops s₀) :=
  run_same (c := ⟨s₀, tlb⟩) (run_servingAfter hlow hsite hcode h hops) env 0 (Serving.fresh h).after_nil
    htlb

/-- INTERNAL: **runs with stores**: the tables and the gates stay what they are. -/
theorem runStores_serving (hlow : image.dataEnd.toNat ≤ 0x400000)
    (hsite : OnPlatform platform image site) (hcode : CodeInImage image site)
    (h : Served image gigabytePages traps idt s₀) {names : List Name} {ops : List Op}
    (hops : ops <+: executeAll site names)
    (env : ℕ → (Bool × (BitVec 64 → BitVec 64)) × Activity (BitVec 64))
    {tlb : Cache (BitVec 64) Access} (htlb : Within tlb (walk gigabytePages s₀))
    {c : Core Machine (BitVec 64) Access}
    (hrun : runStores image site gigabytePages env ops ⟨s₀, tlb⟩ = .ok c) :
    Serving image gigabytePages traps idt c.machine ∧ Coherent (walk gigabytePages) c := by
  have hsame := runStores_same hlow hsite hcode h hops env htlb
  have hhistory : Outcome (ServingAfter image gigabytePages traps idt ops) Any
      (run (execTables (walk gigabytePages) (execStores image site))
        (fun i => (env i).1) 0 ops s₀) :=
    run_history (fun e before op after s hsplit hs =>
      (run_servingAfter hlow hsite hcode h hops e before op after s hsplit hs).mono (fun _ h => h.1)
        fun _ h => h) 0 (Serving.fresh h).after_nil
  rw [hrun] at hsame
  generalize run (execTables (walk gigabytePages) (execStores image site)) (fun i => (env i).1) 0 ops
    s₀ = tables at hsame hhistory
  cases hsame with
  | ok c hcoherent => exact ⟨hhistory.1, hcoherent⟩

/-- INTERNAL: with the stores too, virtual addresses are physical: in every state the benchmarks get
to an address that is mapped is at itself and writable, and the kernel is mapped.
SRC: arch/x86_64/boot.S:160-232; arch/x86_64/mem.c:29-105 -/
theorem runStores_identity (hlow : image.dataEnd.toNat ≤ 0x400000)
    (hsite : OnPlatform platform image site) (hcode : CodeInImage image site)
    (h : Served image gigabytePages traps idt s₀) {names : List Name} {ops : List Op}
    (hops : ops <+: executeAll site names)
    (env : ℕ → (Bool × (BitVec 64 → BitVec 64)) × Activity (BitVec 64))
    {tlb : Cache (BitVec 64) Access} (htlb : Within tlb (walk gigabytePages s₀))
    {c : Core Machine (BitVec 64) Access}
    (hrun : runStores image site gigabytePages env ops ⟨s₀, tlb⟩ = .ok c) (va : BitVec 64)
    (hva : va.toNat < 2 ^ 48) :
    (∀ access, walk gigabytePages c.machine va = some access →
      access.addr = va ∧ access.writable = true) ∧
    ((ofImage image).Covers va → ∃ access, walk gigabytePages c.machine va = some access) :=
  (runStores_serving hlow hsite hcode h hops env htlb hrun).1.identity va hva

end Runs

/-- SOURCE: arch/x86_64/irq.c:8-16,58-69,139-174, arch/x86_64/mem.c, arch/x86_64/heap.c:10-32,
benchmarks — **the interrupt table**: whatever the benchmarks store, and whatever the TLB keeps and
loads, in every state they get to after `arch_init`, in the middle of one or behind it, the
processor finds, through the tables then in force, a gate for every vector, an interrupt gate of the
kernel's code segment to the entry of its trap, and vector 0x80 is the only one user code can take;
and the TLB holds translations of those tables only. -/
theorem runStores_readGate (platform : Platform) (image : Image) (site : Site)
    (hlow : image.dataEnd.toNat ≤ 0x400000) (hsite : OnPlatform platform image site)
    (hcode : CodeInImage image site) (traps : Trap → BitVec 64) (gigabytePages : Bool)
    (mem : Memory) :
    ∃ s₀ idtr, archInit image traps (booted gigabytePages mem) = .ok s₀ ∧
      archInitIdtr image (booted gigabytePages mem) = .ok idtr ∧
      ∀ tlb, Within tlb (walk gigabytePages s₀) → ∀ env names ops c,
        ops <+: executeAll site names →
        runStores image site gigabytePages env ops ⟨s₀, tlb⟩ = .ok c →
          Coherent (walk gigabytePages) c ∧
          ∀ vector, readGate gigabytePages idtr c.machine vector =
            some (gateFor (traps (trapOf vector)) (decide (vector = 0x80))) := by
  obtain ⟨s₀, idt, hinit, hidtr, hserved⟩ := archInit_served image traps gigabytePages mem
  refine ⟨s₀, _, hinit, hidtr, fun tlb htlb env names ops c hops hrun => ?_⟩
  obtain ⟨hserving, hcoherent⟩ := runStores_serving hlow hsite hcode hserved hops env htlb hrun
  exact ⟨hcoherent, fun vector => hserving.readGate_eq hserved.idt_eq vector⟩

/-- INTERNAL: the example's code lies in its image. -/
theorem codeInImage_smallSite (platform : Platform) :
    CodeInImage smallImage (X86HeapUse.smallSite platform) := by
  refine ⟨fun fnHead hfnHead => ?_, ?_, ?_⟩
  · rw [List.mem_singleton.mp hfnHead]
    decide
  · exact (show textStart.toNat ≤ 0x100400 ∧ 0x100400 < smallImage.textEnd.toNat by decide)
  · exact (show 0x101000 + 8 * 1 ≤ smallImage.dataEnd.toNat by decide)

/-- INTERNAL: a store that goes through, of a processor whose TLB is empty. -/
theorem execCached_store {gigabytePages : Bool} {image : Image} {site : Site} {s : Machine}
    {ptr : BitVec 64} {access : Access} (hwalk : walk gigabytePages s ptr = some access)
    (hwritable : access.writable = true) (decodes : Bool) (word : BitVec 64) :
    execCached (walk gigabytePages) (execStores image site) maintains
        ((decodes, fun _ => word), ⟨fun _ => false, fun _ => false⟩)
        (.store ptr) ⟨s, fun _ => none⟩ =
      .ok ⟨withMem s (Function.update s.pages.mem (wordOf access.addr) word), fun _ => none⟩ := by
  have hfaults : X86Tlb.faults (decide (ptr ∈ storesTo site (.store ptr)))
      (walk gigabytePages s ptr) = false := by
    rw [hwalk]
    show (_ && !access.writable) = false
    rw [hwritable, Bool.not_true, Bool.and_false]
  have hexec : X86Tlb.exec image site (walk gigabytePages s) decodes (.store ptr) s = .ok s := by
    show (if X86Tlb.faults _ (walk gigabytePages s ptr) = true then _ else _) = _
    rw [hfaults, if_neg Bool.false_ne_true]
  have hstored : stored site (walk gigabytePages s) (fun _ => word) (.store ptr) s.pages.mem =
      Function.update s.pages.mem (wordOf access.addr) word := by
    show storeThrough word (walk gigabytePages s ptr) s.pages.mem = _
    rw [hwalk, storeThrough, if_pos hwritable]
  show (execStores image site (walk gigabytePages s) (decodes, fun _ => word) (.store ptr) s >>= _) = _
  unfold execStores
  rw [hexec]
  show Except.ok (Core.mk (withMem s (stored site _ _ _ _)) _) = _
  rw [hstored]
  rfl

/-- INTERNAL: the small image behind the first store of the device benchmark, to a register of the
LAPIC, and the gate of a system call there. -/
theorem runStores_readGate_device : ∃ s₀ idtr c, archInit smallImage (fun _ => 0x100200)
    (booted false fun _ => 0xff) = .ok s₀ ∧
    runStores smallImage (X86HeapUse.smallSite .native) false
      (fun _ => ((true, fun _ => 0x1234), ⟨fun _ => false, fun _ => false⟩)) [.store 0xfee00380]
      ⟨s₀, fun _ => none⟩ = .ok c ∧ c.machine.pages.mem 0xfee00380 = 0x1234 ∧
    readGate false idtr c.machine 0x80 = some ⟨0x100200, 8, 0, 0xe, 3, true⟩ := by
  obtain ⟨s₀, idtr, hinit, -, hall⟩ := runStores_readGate .native smallImage
    (X86HeapUse.smallSite .native) (by decide) (X86HeapUse.onPlatform_smallSite .native)
    (codeInImage_smallSite .native) (fun _ => 0x100200) false fun _ => 0xff
  obtain ⟨s₀', idt, hinit', -, hserved⟩ := archInit_served smallImage (fun _ => 0x100200) false
    fun _ => 0xff
  obtain rfl : s₀ = s₀' := Except.ok.inj (hinit.symm.trans hinit')
  have hwalk : walk false s₀ 0xfee00380 = some ⟨0xfee00380, true, false⟩ := by
    rw [walk, hserved.cr3, hserved.installed.tables.cpuWalk_eq (by decide), if_pos (by decide)]
  have hrun : runStores smallImage (X86HeapUse.smallSite .native) false
      (fun _ => ((true, fun _ => 0x1234), ⟨fun _ => false, fun _ => false⟩)) [.store 0xfee00380]
      ⟨s₀, fun _ => none⟩ =
        .ok ⟨withMem s₀ (Function.update s₀.pages.mem (wordOf 0xfee00380) 0x1234), fun _ => none⟩ := by
    show (execCached _ _ _ _ (Op.store 0xfee00380) ⟨s₀, fun _ => none⟩ >>= _) = _
    rw [execCached_store hwalk rfl]
    rfl
  have hinitial : [Op.store 0xfee00380] <+:
      executeAll (X86HeapUse.smallSite .native) [.deviceAccess] := ⟨_, rfl⟩
  have hword : wordOf (0xfee00380 : BitVec 64) = 0xfee00380 := by decide
  have hstored : Function.update s₀.pages.mem (wordOf 0xfee00380) (0x1234 : BitVec 64) 0xfee00380 =
      0x1234 := by
    rw [hword]
    exact Function.update_self (0xfee00380 : BitVec 64) (0x1234 : BitVec 64) s₀.pages.mem
  obtain ⟨-, hgates⟩ := hall _ (within_none _) _ _ _ _ hinitial hrun
  exact ⟨s₀, idtr, _, hinit, hrun, hstored, hgates 0x80⟩

end Simbench.Analysis.X86BenchmarkStores
