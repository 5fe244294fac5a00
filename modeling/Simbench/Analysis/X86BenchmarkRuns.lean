import Simbench.Analysis.X86BenchmarkStores

/-!
# Whole runs of the x86-64 benchmarks

No access of a benchmark faults but those that are meant to, and for these the benchmark has
installed its handler. So a sequence of benchmarks runs to its end, unless it maps so much that the
heap hands out the page of the live stack.
-/

set_option autoImplicit false

namespace Simbench.Analysis.X86BenchmarkRuns

open Simbench.Library.PagedMemory Simbench.Library.Outcomes Simbench.Library.TranslationCaches
open Simbench.Program Simbench.Program.X86Boot Simbench.Program.X86Kernel
open Simbench.Program.X86PageTables hiding Machine walk
open Simbench.Program.X86BootCode (Access)
open Simbench.Program.X86Tlb (walk faults storesTo envOf runTables runTlb)
open Simbench.Program.Benchmarks hiding block dispatch
open Simbench.Analysis.X86Isolation (Any Kept Between ownHandler exec_plain memInit_context)
open Simbench.Analysis.X86HeapUse (regionBenchmarks)
open Simbench.Analysis.BenchmarkShapes Simbench.Analysis.BenchmarkOrder
open Simbench.Analysis.BenchmarkPages Simbench.Analysis.X86InterruptTable
open Simbench.Analysis.X86BenchmarkStores (CodeInImage codeInImage_smallSite execute_touching
  mem_coldSweep mem_tlbSweep)

/-! ## States -/

section States

variable (image : Image) (gigabytePages : Bool) (traps : Trap → BitVec 64) (idt : Page)

/-- INTERNAL: the states between two benchmarks. -/
structure Idle (s : Machine) : Prop where
  serving : Serving image gigabytePages traps idt s
  cr3 : s.cr3 = initPgt
  handler : s.pageFaultHandlerFn = .defaultPageFaultHandler

/-- INTERNAL: behind `mem_init`, with these pages mapped. -/
structure Prepared (pages : List (BitVec 64)) (handler : PageFaultHandler) (s : Machine) :
    Prop where
  tables : ∃ root calls, Mapped image gigabytePages traps idt root calls s ∧
    ∀ ptr ∈ pages, MapsPage calls ptr
  handler : s.pageFaultHandlerFn = handler

/-- INTERNAL: with the runtime tables in force. -/
structure Translated (pages : List (BitVec 64)) (handler : PageFaultHandler) (s : Machine) : Prop
    extends Prepared image gigabytePages traps idt pages handler s where
  cr3 : s.cr3 = s.pages.runtimePagetables

end States

/-- INTERNAL: an access of the address does not fault. -/
def Reachable (gigabytePages : Bool) (s : Machine) (va : BitVec 64) : Prop :=
  ∃ access, walk gigabytePages s va = some access ∧ access.writable = true

section Accesses

variable {platform : Platform} {image : Image} {site : Site} {gigabytePages : Bool}
  {traps : Trap → BitVec 64} {idt : Page} {pages : List (BitVec 64)} {handler : PageFaultHandler}
  {s : Machine} {va : BitVec 64}

/-- INTERNAL: a reachable address faults neither for a load nor for a store. -/
theorem Reachable.faults (h : Reachable gigabytePages s va) (write : Bool) :
    faults write (walk gigabytePages s va) = false := by
  obtain ⟨access, hwalk, hwritable⟩ := h
  rw [hwalk]
  show (write && !access.writable) = false
  rw [hwritable, Bool.not_true, Bool.and_false]

/-- INTERNAL: between two benchmarks the boot tables are in force, and what they cover is
reachable. -/
theorem Idle.reachable (h : Idle image gigabytePages traps idt s) (hva : BootCovers va) :
    Reachable gigabytePages s va := by
  refine ⟨⟨va, true, false⟩, ?_, rfl⟩
  rw [walk, h.cr3, h.serving.installed.tables.cpuWalk_eq hva.bounded, if_pos hva]

/-- INTERNAL: a state behind `mem_init` still serves its exceptions. -/
theorem Prepared.serving (h : Prepared image gigabytePages traps idt pages handler s) :
    Serving image gigabytePages traps idt s := by
  obtain ⟨root, calls, hmapped, -⟩ := h.tables
  exact .mapped root calls hmapped

/-- INTERNAL: with the runtime tables in force the walk finds the mapped pages, each at its own
address, and no others. -/
theorem Translated.walk_eq (h : Translated image gigabytePages traps idt pages handler s) :
    ∃ calls : List Call, (∀ c ∈ calls, BootCovers c.virtAddr) ∧
      (∀ ptr ∈ pages, MapsPage calls ptr) ∧
      ∀ va : BitVec 64, va.toNat < 2 ^ 48 →
        walk gigabytePages s va = if MapsPage calls va then some ⟨va, true, true⟩ else none := by
  obtain ⟨root, calls, hmapped, hpages⟩ := h.tables
  obtain ⟨lvl, hinv, -⟩ := hmapped.tables.represents
  refine ⟨calls, hmapped.bootCovers, hpages, fun va hva => ?_⟩
  rw [walk, h.cr3, hinv.table, tables_cpuWalk_eq hmapped.tables hmapped.root_lt hva]

/-- INTERNAL: with the runtime tables in force every mapped page is reachable. -/
theorem Translated.reachable (h : Translated image gigabytePages traps idt pages handler s)
    (hva : va ∈ pages) : Reachable gigabytePages s va := by
  obtain ⟨calls, hcovers, hpages, hwalk⟩ := h.walk_eq
  obtain ⟨c, hc, hpage⟩ := hpages va hva
  have hbounded := (hcovers c hc).bounded
  exact ⟨_, (hwalk va (by omega)).trans (if_pos ⟨c, hc, hpage⟩), rfl⟩

/-- INTERNAL: **the address of the fault benchmarks** is in none of the pages. -/
theorem Translated.walk_faultPtr (h : Translated image gigabytePages traps idt pages handler s) :
    walk gigabytePages s faultPtr = none := by
  obtain ⟨calls, hcovers, -, hwalk⟩ := h.walk_eq
  rw [hwalk faultPtr (by decide), if_neg]
  rintro ⟨c, hc, hpage⟩
  have hfault : faultPtr.toNat = 0xc0000000 := rfl
  have hlapic : lapic.toNat = 0xfee00000 := rfl
  rcases hcovers c hc with hlow | hsame
  · omega
  · omega

/-- INTERNAL: every address the layout covers is reachable under either tables. -/
theorem reachable_covers (h : Serving image gigabytePages traps idt s)
    (hva : (ofImage image).Covers va) :
    Reachable gigabytePages s va := by
  obtain ⟨hsame, hmapped⟩ := h.identity va (covers_boot hva).bounded
  obtain ⟨access, haccess⟩ := hmapped hva
  exact ⟨access, haccess, (hsame access haccess).2⟩

end Accesses

/-! ## Operations -/

/-- INTERNAL: an operation of a kernel whose faults can be skipped. -/
def execDecoding (image : Image) (site : Site) (gigabytePages : Bool) (_ : Unit) (op : Op)
    (s : Machine) : Except Halt Machine :=
  execTables (walk gigabytePages) (X86Tlb.exec image site) true op s

section Operations

variable {image : Image} {site : Site} {gigabytePages : Bool} {s : Machine} {P : BitVec 64 → Prop}

/-- INTERNAL: an access that does not fault leaves the machine alone. -/
theorem access_eq {env : Env} {ptr : BitVec 64} (h : env.faults ptr = false) :
    access env ptr s = .ok s := by
  rw [access, h, if_neg Bool.false_ne_true]

/-- INTERNAL: accesses that do not fault, one after the other, leave the machine alone. -/
theorem accesses_eq {env : Env} {ptrs : List (BitVec 64)}
    (h : ∀ ptr ∈ ptrs, env.faults ptr = false) : accesses env ptrs s = .ok s := by
  induction ptrs with
  | nil => rfl
  | cons ptr ptrs ih =>
    unfold accesses at ih ⊢
    rw [List.foldlM_cons, access_eq (h ptr List.mem_cons_self)]
    exact ih fun ptr' hptr' => h ptr' (List.mem_cons_of_mem _ hptr')

/-- INTERNAL: an operation that touches reachable addresses only leaves the machine alone. -/
theorem exec_touches (h : ∀ ptr, P ptr → Reachable gigabytePages s ptr) {op : Op}
    (hop : Touches P op) : execDecoding image site gigabytePages () op s = .ok s := by
  cases op with
  | load ptr | store ptr | archNonpriviligedRead ptr => exact access_eq ((h ptr hop).faults _)
  | memTlbFlush | memTlbEvict | archCodeFlush | archCoprocessorAccess => rfl
  | archPrivEnter | archPrivLeave => rfl
  | _ => exact hop.elim

/-- INTERNAL: the registers of the LAPIC a software interrupt uses. -/
def swiRegisters : List (BitVec 64) := [lapic + 0x310, lapic + 4, lapic + 0x300, lapic + 0xb0]

/-- INTERNAL: **a software interrupt** with its handler. SRC: platform/x86_64/qemu/platform.c:45-53;
arch/x86_64/arch.c:80-93 -/
theorem exec_swi (hflag : Reachable gigabytePages s (site.symbol .swiFlag))
    (hlapic : ∀ ptr ∈ swiRegisters, Reachable gigabytePages s ptr)
    (hhandler : s.irqHandlerFn = .archIrqHandler) (hbenchmark : s.benchmarkIrqHandler = true)
    (henabled : s.interruptFlag = true) :
    execDecoding image site gigabytePages () .platformTriggerSwi s = .ok s := by
  have hreachable : ∀ ptr ∈ site.symbol .swiFlag :: swiRegisters,
      (envOf site (walk gigabytePages s) true .platformTriggerSwi).faults ptr = false := by
    intro ptr hptr
    rcases List.mem_cons.mp hptr with rfl | hptr
    · exact hflag.faults _
    · exact (hlapic ptr hptr).faults _
  have hissue : ∀ ptr ∈ lapicWrite 0x310 ++ lapicWrite 0x300,
      ptr ∈ site.symbol .swiFlag :: swiRegisters := by
    simp [lapicWrite, swiRegisters]
  have hserve : ∀ ptr ∈ site.symbol .swiFlag :: lapicWrite 0xb0,
      ptr ∈ site.symbol .swiFlag :: swiRegisters := by
    simp [lapicWrite, swiRegisters]
  show platformTriggerSwi (envOf site (walk gigabytePages s) true .platformTriggerSwi)
    (site.symbol .swiFlag) s = .ok s
  rw [platformTriggerSwi, accesses_eq fun ptr hptr => hreachable ptr (hissue ptr hptr)]
  show (if s.interruptFlag = false then _ else _) = _
  rw [henabled, if_neg (by decide), hhandler]
  show (if s.benchmarkIrqHandler = false then _ else _) = _
  rw [hbenchmark, if_neg (by decide), accesses_eq fun ptr hptr => hreachable ptr (hserve ptr hptr)]
  exact access_eq (hreachable _ List.mem_cons_self)

end Operations

/-! ## The prologue -/

/-- INTERNAL: the one way a step that takes pages fails. -/
def Exhausted (halt : Halt) : Prop := halt = .heapExhausted

section Prologue

variable {platform : Platform} {image : Image} {site : Site} {gigabytePages : Bool}
  {traps : Trap → BitVec 64} {idt : Page}

/-- INTERNAL: a step that takes pages fails in one way only. -/
theorem onHeap_exhausted {α : Type} (pages : α → X86PageTables.Machine) (x : Option α) :
    Outcome (fun _ => True) Exhausted (onHeap pages x) := by
  unfold onHeap
  split
  · split
    · trivial
    · rfl
  · rfl

/-- INTERNAL: `mem_init` fails in no other way, from any state. -/
theorem memInit_exhausted (s : Machine) :
    Outcome (fun _ => True) Exhausted (memInit image s) := by
  unfold memInit
  split
  · trivial
  · apply (onHeap_exhausted _ _).bind
    intro pages _
    exact (onHeap_exhausted _ _).bind fun _ _ => trivial

/-- INTERNAL: `mem_init` between two benchmarks leads to the tables with no page of a benchmark, or
to the end of the heap. -/
theorem memInit_prepared (hidt : 0x100 ≤ idt.toNat) {s : Machine}
    (h : Idle image gigabytePages traps idt s) :
    Outcome (Prepared image gigabytePages traps idt [] .defaultPageFaultHandler) Exhausted
      (execDecoding image site gigabytePages () .memInit s) := by
  have hall := ((memInit_serving hidt h.serving).and (memInit_context s)).and
    (memInit_exhausted s)
  refine hall.mono ?_ fun _ h => h.2
  rintro s' ⟨⟨⟨hserving, hinited⟩, -, -, hhandler⟩, -⟩
  obtain ⟨root, calls, hmapped⟩ := hserving.exists_mapped hinited
  refine ⟨⟨root, calls, hmapped, fun ptr hptr => absurd hptr List.not_mem_nil⟩, ?_⟩
  rcases hhandler with hsame | hdefault
  · exact hsame.trans h.handler
  · exact hdefault

/-- INTERNAL: mapping a page to itself adds it to those prepared. -/
theorem mapping_prepared (hidt : 0x100 ≤ idt.toNat) {pages : List (BitVec 64)}
    {handler : PageFaultHandler} {s : Machine}
    (h : Prepared image gigabytePages traps idt pages handler s) {ptr : BitVec 64}
    (hptr : BootCovers ptr) :
    Outcome (Prepared image gigabytePages traps idt (pages ++ [ptr]) handler) Exhausted
      (execDecoding image site gigabytePages () (.memCreatePageMappingData ptr ptr) s) := by
  obtain ⟨root, calls, hmapped, hpages⟩ := h.tables
  have htables : Outcome (fun s' => Mapped image gigabytePages traps idt root
      (calls ++ [.data ptr ptr]) s' ∧ s'.cr3 = s.cr3) Any (exec image site
        (envOf site (walk gigabytePages s) true (.memCreatePageMappingData ptr ptr))
          (.memCreatePageMappingData ptr ptr) s) := hmapped.mapping hidt hptr _
  have hrest : Outcome (fun s' => s'.pageFaultHandlerFn = handler) Exhausted
      (execDecoding image site gigabytePages () (.memCreatePageMappingData ptr ptr) s) :=
    (onHeap_exhausted _ _).bind fun _ _ => h.handler
  refine (htables.and hrest).mono ?_ fun _ h => h.2
  rintro s' ⟨⟨hmapped', -⟩, hhandler⟩
  refine ⟨⟨root, _, hmapped', fun ptr' hptr' => ?_⟩, hhandler⟩
  rcases List.mem_append.mp hptr' with hbefore | hlast
  · obtain ⟨c, hc, hpage⟩ := hpages ptr' hbefore
    exact ⟨c, List.mem_append_left _ hc, hpage⟩
  · rw [List.mem_singleton.mp hlast]
    exact ⟨_, List.mem_append_right _ List.mem_cons_self, rfl⟩

/-- INTERNAL: the mapping loops. Induction on the pages left. -/
theorem mappings_prepared (hidt : 0x100 ≤ idt.toNat) {handler : PageFaultHandler}
    (pages rest : List (BitVec 64)) (hrest : ∀ ptr ∈ rest, BootCovers ptr) :
    Triple (execDecoding image site gigabytePages) Exhausted
      (Prepared image gigabytePages traps idt pages handler)
      (rest.map fun ptr => .memCreatePageMappingData ptr ptr)
      (Prepared image gigabytePages traps idt (pages ++ rest) handler) := by
  induction rest generalizing pages with
  | nil =>
    rw [List.append_nil]
    exact Triple.nil
  | cons ptr rest ih =>
    have hnext := ih (pages ++ [ptr]) fun ptr' hptr' => hrest ptr' (List.mem_cons_of_mem _ hptr')
    rw [List.append_assoc] at hnext
    exact Triple.cons (fun _ s h => mapping_prepared hidt h (hrest ptr List.mem_cons_self)) hnext

/-- INTERNAL: switching to the runtime tables puts them in force. -/
theorem memMmuEnable_translated {pages : List (BitVec 64)} {handler : PageFaultHandler}
    {s : Machine}
    (h : Prepared image gigabytePages traps idt pages handler s) :
    Translated image gigabytePages traps idt pages handler (memMmuEnable s) := by
  obtain ⟨root, calls, hmapped, hpages⟩ := h.tables
  exact ⟨⟨⟨root, calls, hmapped.memMmuEnable, hpages⟩, h.handler⟩, rfl⟩

/-- INTERNAL: another page fault handler leaves the tables in force. -/
theorem Translated.install {pages : List (BitVec 64)} {handler : PageFaultHandler} {s : Machine}
    (h : Translated image gigabytePages traps idt pages handler s) (handler' : PageFaultHandler) :
    Translated image gigabytePages traps idt pages handler'
      { s with pageFaultHandlerFn := handler' } := by
  obtain ⟨root, calls, hmapped, hpages⟩ := h.tables
  exact ⟨⟨⟨root, calls, hmapped.congr rfl rfl rfl (Or.inl rfl), hpages⟩, rfl⟩, h.cr3⟩

/-- INTERNAL: **the prologue** of a benchmark leads from the state between two benchmarks to the
runtime tables in force, with its pages mapped, or to the end of the heap. -/
theorem mmuPrologue_translated (hsite : OnPlatform platform image site) (hidt : 0x100 ≤ idt.toNat)
    (name : Name) :
    Triple (execDecoding image site gigabytePages) Exhausted (Idle image gigabytePages traps idt)
      (mmuPrologue site name)
      (Translated image gigabytePages traps idt (maps site name) (ownHandler name)) := by
  have hcovers : ∀ ptr ∈ maps site name, BootCovers ptr :=
    fun ptr hptr => maps_bootCovers hsite (maps_of_mem hptr)
  have hmappings : Triple (execDecoding image site gigabytePages) Exhausted
      (Prepared image gigabytePages traps idt [] .defaultPageFaultHandler) _ _ :=
    mappings_prepared hidt [] (maps site name) hcovers
  have htables := Triple.cons (fun _ _ h => memInit_prepared hidt h) hmappings
  have henable : Triple (execDecoding image site gigabytePages) Exhausted
      (Prepared image gigabytePages traps idt ([] ++ maps site name) .defaultPageFaultHandler)
      [.memMmuEnable, .memTlbFlush]
      (Translated image gigabytePages traps idt (maps site name) .defaultPageFaultHandler) :=
    Triple.cons (fun _ _ h => memMmuEnable_translated h) (Triple.single fun _ _ h => h)
  refine (htables.append henable).append ?_
  cases name with
  | dfault => exact Triple.single fun _ _ h => h.install _
  | ifault => exact Triple.single fun _ _ h => h.install _
  | _ => exact Triple.nil

end Prologue

/-! ## The kernels -/

/-- INTERNAL: what the kernel of a benchmark needs besides its page fault handler. -/
def Handled : Name → Machine → Prop
  | .undef, s => s.undefHandlerFn = .undefSkipHandler
  | .syscall, s => s.syscallHandlerFn = .syscallSkipHandler
  | .interrupt, s =>
    s.irqHandlerFn = .archIrqHandler ∧ s.benchmarkIrqHandler = true ∧ s.interruptFlag = true
  | _, _ => True

section Kernels

variable {platform : Platform} {image : Image} {site : Site} {gigabytePages : Bool}
  {traps : Trap → BitVec 64} {idt : Page}

/-- INTERNAL: a step that keeps tables, memory and handlers leaves the runtime tables in force. -/
theorem Translated.of_kept {pages : List (BitVec 64)} {handler : PageFaultHandler} {s s' : Machine}
    (h : Translated image gigabytePages traps idt pages handler s) (hkept : Kept s s') :
    Translated image gigabytePages traps idt pages handler s' := by
  obtain ⟨root, calls, hmapped, hpages⟩ := h.tables
  refine ⟨⟨⟨root, calls, hmapped.congr hkept.pages hkept.memInited hkept.initialPagetables
    (Or.inl hkept.cr3), hpages⟩, hkept.handler.trans h.handler⟩, ?_⟩
  rw [hkept.cr3, hkept.pages, h.cr3]

/-- INTERNAL: the operations that install a benchmark's handlers leave it ready for its kernel. -/
theorem handlersFor_handled (name : Name) {pages : List (BitVec 64)} {handler : PageFaultHandler} :
    Triple (execDecoding image site gigabytePages) Exhausted
      (Translated image gigabytePages traps idt pages handler) (handlersFor name)
      fun s => Translated image gigabytePages traps idt pages handler s ∧ Handled name s := by
  have hany : (∀ s, Handled name s) → Triple (execDecoding image site gigabytePages) Exhausted
      (Translated image gigabytePages traps idt pages handler) []
        fun s => Translated image gigabytePages traps idt pages handler s ∧ Handled name s :=
    fun hhandled => Triple.nil.mono (fun _ h => h) (fun s h => ⟨h, hhandled s⟩) fun _ h => h
  cases name with
  | undef | syscall =>
    exact Triple.single fun _ _ h => ⟨h.of_kept ⟨rfl, rfl, rfl, rfl, rfl⟩, rfl⟩
  | interrupt =>
    have hinstall : ∀ (e : Unit) (s : Machine),
        Translated image gigabytePages traps idt pages handler s →
        Outcome (fun s' => Translated image gigabytePages traps idt pages handler s' ∧
          s'.irqHandlerFn = .archIrqHandler ∧ s'.benchmarkIrqHandler = true) Exhausted
          (execDecoding image site gigabytePages e .archIrqInstallHandler s) :=
      fun _ _ h => ⟨h.of_kept ⟨rfl, rfl, rfl, rfl, rfl⟩, rfl, rfl⟩
    refine Triple.cons hinstall (Triple.single ?_)
    rintro - s ⟨h, hhandler, hbenchmark⟩
    exact ⟨h.of_kept ⟨rfl, rfl, rfl, rfl, rfl⟩, hhandler, hbenchmark, rfl⟩
  | memoryNonpriv => exact Triple.single fun _ _ h => ⟨h, trivial⟩
  | _ => exact hany fun _ => trivial

/-- INTERNAL: the variables of the benchmarks lie in the data. -/
theorem covers_data (hsite : OnPlatform platform image site) {symbol : Benchmarks.Symbol}
    (hsymbol : symbol ≠ .block) : (ofImage image).Covers (site.symbol symbol) := by
  obtain ⟨hlow, hhigh⟩ := hsite.inData symbol hsymbol
  refine ⟨(image.dataStart.toNat, image.dataEnd.toNat), ?_, hlow, hhigh⟩
  simp [Layout.regions, ofImage]

/-- INTERNAL: the page of the LAPIC is one of the regions. SRC: arch/x86_64/mem.c:44 -/
theorem covers_lapic {va : BitVec 64} (hva : va.toNat / 4096 = 0xfee00) :
    (ofImage image).Covers va := by
  refine ⟨(0xfee00000, 0xfee01000), ?_, ?_, ?_⟩
  · simp [Layout.regions]
  · dsimp only
    omega
  · dsimp only
    omega

/-- INTERNAL: **the kernel** of a benchmark changes nothing. -/
theorem kernel_same (hsite : OnPlatform platform image site) {name : Name}
    (hname : usesMmu name = true) {op : Op}
    (hop : op ∈ (name.benchmark site).kernel) {s : Machine}
    (h : Translated image gigabytePages traps idt (maps site name) (ownHandler name) s)
    (hhandled : Handled name s) : execDecoding image site gigabytePages () op s = .ok s := by
  have hcovers : ∀ ptr, (ofImage image).Covers ptr → Reachable gigabytePages s ptr :=
    fun ptr hptr => reachable_covers h.serving hptr
  have hmaps : ∀ ptr, ptr ∈ maps site name → Reachable gigabytePages s ptr :=
    fun ptr hptr => h.reachable hptr
  have hhandler := h.handler
  cases name with
  | undef =>
    obtain rfl := List.mem_singleton.mp (mem_of_mem_loop hop)
    show archUndefinedInstruction s = .ok s
    rw [archUndefinedInstruction, show s.undefHandlerFn = .undefSkipHandler from hhandled]
  | syscall =>
    obtain rfl := List.mem_singleton.mp (mem_of_mem_loop hop)
    show archSyscall s = .ok s
    rw [archSyscall, show s.syscallHandlerFn = .syscallSkipHandler from hhandled]
  | interrupt =>
    have hflag : (ofImage image).Covers (site.symbol .swiFlag) :=
      covers_data hsite (by decide)
    have hboth := mem_of_mem_loop hop
    simp only [List.mem_cons, List.not_mem_nil, or_false] at hboth
    rcases hboth with rfl | rfl
    · exact exec_touches hcovers hflag
    · obtain ⟨hirq, hbenchmark, henabled⟩ := hhandled
      refine exec_swi (hcovers _ hflag) (fun ptr hptr => hcovers ptr (covers_lapic ?_)) hirq hbenchmark
        henabled
      simp only [swiRegisters, List.mem_cons, List.not_mem_nil, or_false] at hptr
      rcases hptr with rfl | rfl | rfl | rfl <;> decide
  | dfault =>
    obtain rfl := List.mem_singleton.mp (mem_of_mem_loop hop)
    show access (envOf site (walk gigabytePages s) true (.load faultPtr)) faultPtr s = .ok s
    rw [access, dataFault, show s.pageFaultHandlerFn = .memSkipHandler from hhandler]
    exact ite_self _
  | ifault =>
    obtain rfl := List.mem_singleton.mp (mem_of_mem_loop hop)
    have hfault : (envOf site (walk gigabytePages s) true (.jump faultPtr)).faults faultPtr =
        true := by
      show faults _ (walk gigabytePages s faultPtr) = true
      rw [h.walk_faultPtr]
      rfl
    show jump (envOf site (walk gigabytePages s) true (.jump faultPtr)) faultPtr s = .ok s
    rw [jump, hfault, if_pos rfl, fetchFault, show s.pageFaultHandlerFn = .returnHandler from hhandler]
  | memoryHotMmu =>
    have hboth := mem_of_mem_loop (mem_of_mem_loop hop)
    simp only [List.mem_cons, List.not_mem_nil, or_false] at hboth
    rcases hboth with rfl | rfl
    all_goals exact exec_touches hcovers (covers_data hsite (by decide))
  | memoryColdMmu =>
    obtain ⟨ptr, hptr, rfl⟩ := List.mem_map.mp hop
    exact exec_touches hmaps (mem_coldSweep hsite hptr)
  | tlbFlush | tlbEvict =>
    obtain ⟨ptr, hptr, hboth⟩ := List.mem_flatMap.mp hop
    simp only [List.mem_cons, List.not_mem_nil, or_false] at hboth
    rcases hboth with rfl | rfl
    · exact exec_touches hmaps (mem_tlbSweep hsite hptr)
    · rfl
  | memoryNonpriv =>
    obtain rfl := List.mem_singleton.mp (mem_of_mem_loop hop)
    exact exec_touches hmaps (List.mem_singleton.mpr rfl)
  | _ => cases hname

end Kernels

/-! ## Whole benchmarks -/

section Benchmarks

variable {platform : Platform} {image : Image} {site : Site} {gigabytePages : Bool}
  {traps : Trap → BitVec 64} {idt : Page}

/-- INTERNAL: operations that change nothing keep every invariant. -/
theorem triple_same {Inv : Machine → Prop} {ops : List Op}
    (h : ∀ op ∈ ops, ∀ s, Inv s → execDecoding image site gigabytePages () op s = .ok s) :
    Triple (execDecoding image site gigabytePages) Exhausted Inv ops Inv := by
  refine Triple.invariant fun op hop _ s hs => ?_
  rw [h op hop s hs]
  exact hs

/-- INTERNAL: taking the handlers away again leaves the tables in force. -/
theorem leaving_translated (name : Name) {pages : List (BitVec 64)} {handler : PageFaultHandler} :
    Triple (execDecoding image site gigabytePages) Exhausted
      (fun s => Translated image gigabytePages traps idt pages handler s ∧ Handled name s)
      (leaving name) (Translated image gigabytePages traps idt pages handler) := by
  cases name with
  | interrupt => exact Triple.single fun _ _ h => h.1.of_kept ⟨rfl, rfl, rfl, rfl, rfl⟩
  | memoryNonpriv => exact Triple.single fun _ _ h => h.1
  | _ => exact Triple.nil.mono (fun _ h => h) (fun _ h => h.1) fun _ h => h

/-- INTERNAL: **the cleanup**. SRC: arch/x86_64/mem.c:62-95 -/
theorem mmuOff_idle {pages : List (BitVec 64)} {handler : PageFaultHandler} :
    Triple (execDecoding image site gigabytePages) Exhausted
      (Translated image gigabytePages traps idt pages handler) mmuOff
      (Idle image gigabytePages traps idt) := by
  have hdisable : ∀ (e : Unit) s, Translated image gigabytePages traps idt pages handler s →
      Outcome (fun s' => Serving image gigabytePages traps idt s' ∧ s'.cr3 = initPgt) Exhausted
        (execDecoding image site gigabytePages e .memMmuDisable s) := by
    intro _ s h
    obtain ⟨root, calls, hmapped, -⟩ := h.tables
    have hboot := hmapped.initialPagetables
    exact ⟨.mapped root calls (hmapped.congr rfl rfl rfl (Or.inr hboot)), hboot⟩
  have hflush : ∀ (e : Unit) s, Serving image gigabytePages traps idt s ∧ s.cr3 = initPgt →
      Outcome (fun s' => Serving image gigabytePages traps idt s' ∧ s'.cr3 = initPgt) Exhausted
        (execDecoding image site gigabytePages e .memTlbFlush s) := fun _ _ h => h
  refine Triple.cons hdisable (Triple.cons hflush (Triple.single ?_))
  exact fun _ _ h => ⟨h.1.congr rfl rfl rfl (Or.inl rfl), h.2, rfl⟩

/-- INTERNAL: the cleanup of a benchmark leads back to the state between two benchmarks. -/
theorem afterwards_idle (name : Name) :
    Triple (execDecoding image site gigabytePages) Exhausted (Idle image gigabytePages traps idt)
      (afterwards name) (Idle image gigabytePages traps idt) := by
  cases name with
  | memoryNonpriv => exact Triple.single fun _ _ h => h
  | _ => exact Triple.nil

/-- INTERNAL: **a benchmark** runs to its end, or up to the last page of the heap. -/
theorem execute_idle (hsite : OnPlatform platform image site) (hcode : CodeInImage image site)
    (hidt : 0x100 ≤ idt.toNat) (name : Name) :
    Triple (execDecoding image site gigabytePages) Exhausted (Idle image gigabytePages traps idt)
      (name.benchmark site).execute (Idle image gigabytePages traps idt) := by
  cases hname : usesMmu name with
  | false =>
    exact triple_same fun op hop s h =>
      exec_touches (fun _ hptr => h.reachable (hptr.bootCovers hsite))
        (execute_touching hsite hcode hname op hop)
  | true =>
    have hkernel : Triple (execDecoding image site gigabytePages) Exhausted (fun s =>
        Translated image gigabytePages traps idt (maps site name) (ownHandler name) s ∧
          Handled name s)
        (name.benchmark site).kernel _ :=
      triple_same fun op hop s h => kernel_same hsite hname hop h.1 h.2
    rw [execute_parts site hname]
    exact (mmuPrologue_translated hsite hidt name).append <| (handlersFor_handled name).append <|
      hkernel.append <| (leaving_translated name).append <| mmuOff_idle.append (afterwards_idle name)

/-- INTERNAL: a run of benchmarks leads from a state between two benchmarks to another, or to the
end of the heap. -/
theorem executeAll_idle (hsite : OnPlatform platform image site) (hcode : CodeInImage image site)
    (hidt : 0x100 ≤ idt.toNat) (names : List Name) :
    Triple (execDecoding image site gigabytePages) Exhausted (Idle image gigabytePages traps idt)
      (executeAll site names) (Idle image gigabytePages traps idt) := by
  induction names with
  | nil => exact Triple.nil
  | cons name names ih => exact (execute_idle hsite hcode hidt name).append ih

end Benchmarks

/-! ## Sequences of benchmarks -/

section Sequences

variable {platform : Platform} {image : Image} {site : Site} {gigabytePages : Bool}
  {traps : Trap → BitVec 64} {idt : Page} {s₀ : Machine}

/-- INTERNAL: the run from the boot on leads to a state between two benchmarks, or to the end of the
heap. -/
theorem runTables_idle (hsite : OnPlatform platform image site) (hcode : CodeInImage image site)
    (h : Served image gigabytePages traps idt s₀)
    (hhandler : s₀.pageFaultHandlerFn = .defaultPageFaultHandler)
    (names : List Name) :
    Outcome (Idle image gigabytePages traps idt) Exhausted
      (runTables image site gigabytePages (fun _ => true) (executeAll site names) s₀) := by
  have hrun := executeAll_idle hsite hcode h.idt_ge names (fun _ => ()) 0 s₀
    ⟨.fresh h, h.cr3, hhandler⟩
  rw [runTables, run_comap (fun _ : Unit => true) fun _ => ()]
  exact hrun

/-- INTERNAL: faults that the tables decide are faults chosen beforehand. -/
theorem runTables_runOps (decodes : ℕ → Bool) (ops : List Op) :
    ∃ env, runTables image site gigabytePages decodes ops s₀ = runOps image site env ops s₀ :=
  run_resolved (fun e op s => envOf site (walk gigabytePages s) e op) ⟨fun _ => false, false⟩
    (fun _ _ _ => rfl) decodes 0 ops s₀

/-- INTERNAL: on the native platform, and on qemu without the region benchmarks, the heap is large
enough and the run ends. -/
theorem runTables_ends (hlow : image.dataEnd.toNat ≤ 0x400000)
    (hsite : OnPlatform platform image site)
    (hcode : CodeInImage image site) (h : Served image gigabytePages traps idt s₀)
    (hstarted : X86Startup.Started image s₀) {names : List Name}
    (hnames : platform = .native ∨ ∀ name ∈ names, name ∉ regionBenchmarks) :
    ∃ s, runTables image site gigabytePages (fun _ => true) (executeAll site names) s₀ = .ok s ∧
      Idle image gigabytePages traps idt s := by
  have hends := runTables_idle hsite hcode h hstarted.handler names
  obtain ⟨env, hchosen⟩ := @runTables_runOps image site gigabytePages s₀ (fun _ => true)
    (executeAll site names)
  have hallowed : ∀ name ∈ names, platform = .native ∨ name ∉ regionBenchmarks :=
    fun name hname => hnames.imp (fun h => h) fun h => h name hname
  have hheap := X86HeapUse.executeAll_ready hlow hsite names hallowed env 0 s₀
    (X86HeapUse.Started.ready hstarted)
  cases hrun : runTables image site gigabytePages (fun _ => true) (executeAll site names) s₀ with
  | ok s => exact ⟨s, rfl, hends.of_ok hrun⟩
  | error halt => exact absurd (hends.of_error hrun) (hheap.of_error (hchosen.symm.trans hrun))

/-- INTERNAL: the heap is too small: the mapping loop takes its last page. -/
theorem runTables_exhausts (hlow : image.dataEnd.toNat ≤ 0x400000)
    (hsite : OnPlatform .qemu image site)
    (hcode : CodeInImage image site) (h : Served image gigabytePages traps idt s₀)
    (hstarted : X86Startup.Started image s₀) {names : List Name} {name : Name} (hmem : name ∈ names)
    (hname : name ∈ regionBenchmarks) :
    runTables image site gigabytePages (fun _ => true) (executeAll site names) s₀ =
      .error .heapExhausted := by
  have hends := runTables_idle hsite hcode h hstarted.handler names
  obtain ⟨env, hchosen⟩ := @runTables_runOps image site gigabytePages s₀ (fun _ => true)
    (executeAll site names)
  obtain ⟨before, after, rfl⟩ := List.append_of_mem hmem
  have hsplit : executeAll site (before ++ name :: after) =
      executeAll site before ++ executeAll site (name :: after) := List.flatMap_append
  cases hrun : runTables image site gigabytePages (fun _ => true)
      (executeAll site (before ++ name :: after)) s₀ with
  | error halt => rw [show halt = .heapExhausted from hends.of_error hrun]
  | ok s =>
    have hwhole := hchosen.symm.trans hrun
    have hparts := hwhole
    rw [runOps, hsplit, run_append] at hparts
    cases hbefore : run (exec image site) env 0 (executeAll site before) s₀ with
    | error halt =>
      rw [hbefore] at hparts
      cases hparts
    | ok s₁ =>
      have hexhausts : runBenchmarks image site env (before ++ name :: after) s₀ =
          .error .heapExhausted := X86HeapUse.runBenchmarks_exhausts hlow hsite env hname
        (X86HeapUse.Started.ready hstarted) hbefore
      rw [X86Kernel.runBenchmarks, hwhole] at hexhausts
      cases hexhausts

end Sequences

/-- SOURCE: benchmarks, harness/harness.c:11-48, arch/x86_64/mem.c, arch/x86_64/irq.c,
arch/x86_64/exception.c, platform/x86_64 — **whole runs**: after `arch_init`, with any TLB that
holds translations of the tables then in force, whatever it does, and when `decode_instruction`
knows the load of the data fault benchmark, every sequence of benchmarks on the native platform, and
on the other one every sequence without the three that map its physical memory region, runs to its
end, with the boot tables and the default page fault handler in force. A sequence with one of the
three ends where the mapping loop takes the last page of the heap, the one the stack lies in, which
`heap_alloc_page` clears under its own return address. Up to there no benchmark ends in an abort, in
a wait that does not end, or in code outside the image. -/
theorem runTlb_benchmarks (platform : Platform) (image : Image) (site : Site)
    (hlow : image.dataEnd.toNat ≤ 0x400000) (hsite : OnPlatform platform image site)
    (hcode : CodeInImage image site) (traps : Trap → BitVec 64) (gigabytePages : Bool)
    (mem : Memory) :
    ∃ s₀, archInit image traps (booted gigabytePages mem) = .ok s₀ ∧
      ∀ tlb, Within tlb (walk gigabytePages s₀) → ∀ env, (∀ i, (env i).1 = true) → ∀ names,
        ((platform = .native ∨ ∀ name ∈ names, name ∉ regionBenchmarks) → ∃ c,
          runTlb image site gigabytePages env (executeAll site names) ⟨s₀, tlb⟩ = .ok c ∧
            c.machine.cr3 = initPgt ∧ c.machine.pageFaultHandlerFn = .defaultPageFaultHandler) ∧
        (platform = .qemu → (∃ name ∈ names, name ∈ regionBenchmarks) →
          runTlb image site gigabytePages env (executeAll site names) ⟨s₀, tlb⟩ =
            .error .heapExhausted) := by
  obtain ⟨s₀, idt, hinit, -, hserved⟩ := archInit_served image traps gigabytePages mem
  obtain ⟨s₀', hinit', hstarted⟩ := X86Startup.archInit_started image traps gigabytePages mem
  obtain rfl : s₀ = s₀' := Except.ok.inj (hinit.symm.trans hinit')
  refine ⟨s₀, hinit, fun tlb htlb env hdecodes names => ?_⟩
  have hsame := X86TlbCoherence.runTlb_same hsite hserved
    (List.prefix_refl (executeAll site names)) env htlb
  rw [show (fun i => (env i).1) = fun _ => true from funext hdecodes] at hsame
  generalize runTlb image site gigabytePages env (executeAll site names) ⟨s₀, tlb⟩ =
      cached at hsame ⊢
  constructor
  · intro hnames
    obtain ⟨s, hrun, hidle⟩ := runTables_ends hlow hsite hcode hserved hstarted hnames
    rw [hrun] at hsame
    cases hsame with
    | ok c hcoherent => exact ⟨c, rfl, hidle.cr3, hidle.handler⟩
  · rintro rfl ⟨name, hmem, hname⟩
    rw [runTables_exhausts hlow hsite hcode hserved hstarted hmem hname] at hsame
    cases hsame with
    | error halt => rfl

/-- INTERNAL: a sequence on each platform, from a TLB that is full of the boot tables. -/
theorem runTlb_benchmarks_small : ∃ s₀, archInit smallImage (fun _ => 0x100200)
    (booted false fun _ => 0xff) = .ok s₀ ∧
    (∃ c, runTlb smallImage (X86HeapUse.smallSite .native) false
      (fun _ => (true, ⟨fun _ => true, fun _ => true⟩)) (executeAll (X86HeapUse.smallSite .native)
        [.interrupt, .dfault, .tlbEvict, .smallBlocks, .ifault, .memoryColdNommu])
      ⟨s₀, walk false s₀⟩ = .ok c ∧ c.machine.cr3 = initPgt) ∧
    runTlb smallImage (X86HeapUse.smallSite .qemu) false
      (fun _ => (true, ⟨fun _ => true, fun _ => true⟩)) (executeAll (X86HeapUse.smallSite .qemu)
        [.syscall, .tlbFlush]) ⟨s₀, walk false s₀⟩ = .error .heapExhausted := by
  obtain ⟨s₀, hinit, hnative⟩ := runTlb_benchmarks .native smallImage (X86HeapUse.smallSite .native)
    (by decide) (X86HeapUse.onPlatform_smallSite .native) (codeInImage_smallSite .native)
    (fun _ => 0x100200) false fun _ => 0xff
  obtain ⟨s₀', hinit', hqemu⟩ := runTlb_benchmarks .qemu smallImage (X86HeapUse.smallSite .qemu)
    (by decide) (X86HeapUse.onPlatform_smallSite .qemu) (codeInImage_smallSite .qemu)
    (fun _ => 0x100200) false fun _ => 0xff
  obtain rfl : s₀ = s₀' := Except.ok.inj (hinit.symm.trans hinit')
  obtain ⟨c, hrun, hcr3, -⟩ :=
    (hnative _ (Within.refl _) (fun _ => (true, ⟨fun _ => true, fun _ => true⟩))
    (fun _ => rfl) [.interrupt, .dfault, .tlbEvict, .smallBlocks, .ifault, .memoryColdNommu]).1
      (Or.inl rfl)
  exact ⟨s₀, hinit, ⟨c, hrun, hcr3⟩, (hqemu _ (Within.refl _)
    (fun _ => (true, ⟨fun _ => true, fun _ => true⟩)) (fun _ => rfl) [.syscall, .tlbFlush]).2 rfl
      ⟨.tlbFlush, by decide, by decide⟩⟩

end Simbench.Analysis.X86BenchmarkRuns
