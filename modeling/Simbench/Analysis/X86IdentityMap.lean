import Simbench.Analysis.X86HeapUse

/-!
# The x86-64 runtime tables map the image to itself

On any layout `mem_init` maps whole pages to themselves, and so do the benchmarks. Where all
calls agree the last one does not matter, so every page of a range ends up at itself, whatever
ranges overlap and whatever pages of the heap the tables took on the way.
-/

set_option autoImplicit false

namespace Simbench.Analysis.X86IdentityMap

open Simbench.Library.RadixTree Simbench.Library.PagedMemory Simbench.Library.TableWalk
open Simbench.Library.LastWrite Simbench.Library.Outcomes
open Simbench.Program Simbench.Program.X86Boot
open Simbench.Program.X86PageTables hiding Machine
open Simbench.Program.X86Kernel
open Simbench.Analysis.X86PageTableInvariant Simbench.Analysis.X86Refinement
open Simbench.Analysis.X86Isolation (Any)
open Simbench.Analysis.X86HeapUse (mem_mapPageRanges)

/-! ## The calls of `mem_init` -/

/-- INTERNAL: a call that maps a 48-bit address to itself. -/
structure IsIdentity (c : Call) : Prop where
  same : c.physAddr = c.virtAddr
  bounded : c.virtAddr.toNat < 2 ^ 48

/-- INTERNAL: a range mapped onto itself maps each page to itself. -/
theorem mapPageRanges_same {a : BitVec 64} {n : ℕ} {c : Call} (hc : c ∈ mapPageRanges a a n) :
    c.physAddr = c.virtAddr := by
  induction n generalizing a with
  | zero => cases hc
  | succ n ih =>
    rw [mapPageRanges, List.mem_cons] at hc
    rcases hc with rfl | hc
    · rfl
    · exact ih hc

/-- INTERNAL: every page of the range has its call. SRC: arch/x86_64/mem.c:17-27 -/
theorem exists_mapPageRanges {a : BitVec 64} {n i : ℕ} (hi : i < n)
    (hroom : a.toNat + n * 4096 ≤ 2 ^ 48) :
    ∃ c ∈ mapPageRanges a a n, c.virtAddr.toNat = a.toNat + i * 4096 := by
  induction n generalizing a i with
  | zero => omega
  | succ n ih =>
    rw [mapPageRanges]
    cases i with
    | zero => exact ⟨_, List.mem_cons_self, by rw [Call.virtAddr]; omega⟩
    | succ i =>
      have hnext : (a + 0x1000).toNat = a.toNat + 4096 := by
        rw [BitVec.toNat_add, show (0x1000 : BitVec 64).toNat = 4096 from rfl]
        omega
      obtain ⟨c, hc, haddr⟩ := ih (a := a + 0x1000) (i := i) (by omega) (by omega)
      exact ⟨c, List.mem_cons_of_mem _ hc, by omega⟩

/-- INTERNAL: calls that map addresses to themselves, among them one for each page of a range. -/
structure Maps (calls : List Call) (region : ℕ × ℕ) : Prop where
  identity : ∀ c ∈ calls, IsIdentity c
  covers : ∀ va : BitVec 64, region.1 ≤ va.toNat → va.toNat < region.2 →
    ∃ c ∈ calls, c.virtAddr.toNat / 4096 = va.toNat / 4096

/-- INTERNAL: the pages of a range cover the addresses in it. -/
theorem maps_mapPageRanges {a : BitVec 64} {n last : ℕ} (haligned : a.toNat % 4096 = 0)
    (hroom : a.toNat + n * 4096 ≤ 2 ^ 48) (hlast : last ≤ a.toNat + n * 4096) :
    Maps (mapPageRanges a a n) (a.toNat, last) := by
  refine ⟨fun c hc => ?_, fun va hlow hhigh => ?_⟩
  · obtain ⟨i, hi, haddr⟩ := mem_mapPageRanges (by omega) hc
    exact ⟨mapPageRanges_same hc, by omega⟩
  · dsimp only at hlow hhigh
    have hi : (va.toNat - a.toNat) / 4096 < n := by omega
    obtain ⟨c, hc, haddr⟩ := exists_mapPageRanges hi hroom
    exact ⟨c, hc, by omega⟩

/-- INTERNAL: an address below 2 GiB is a positive `int`. -/
theorem toInt_setWidth {a : BitVec 64} (h : a.toNat < 2 ^ 31) :
    (a.setWidth 32).toInt.toNat = a.toNat := by
  have hnat : (a.setWidth 32).toNat = a.toNat := by
    rw [BitVec.toNat_setWidth]
    omega
  rw [BitVec.toInt_eq_toNat_cond, hnat, if_pos (by omega), Int.toNat_natCast]

/-- INTERNAL: `NR_PAGES` of a section. SRC: arch/x86_64/mem.c:15 -/
theorem nrPages_eq {a b : BitVec 64} (hle : a.toNat ≤ b.toNat)
    (hcount : (b.toNat - a.toNat) / 4096 + 1 < 2 ^ 31) :
    nrPages a b = (b.toNat - a.toNat) / 4096 + 1 := by
  have hpages : ((b - a) / 0x1000 + 1).toNat = (b.toNat - a.toNat) / 4096 + 1 := by
    have hb := b.isLt
    rw [BitVec.toNat_add, BitVec.toNat_udiv, BitVec.toNat_sub,
      show (0x1000 : BitVec 64).toNat = 4096 from rfl, show (1 : BitVec 64).toNat = 1 from rfl]
    omega
  rw [nrPages, toInt_setWidth (by omega), hpages]

/-- INTERNAL: the number of heap pages is their size over the page size, while it is an `int`. -/
theorem heapPageCount_eq {size : BitVec 64} (hcount : size.toNat / 4096 < 2 ^ 31) :
    heapPageCount size = size.toNat / 4096 := by
  have hpages : (size >>> 12).toNat = size.toNat / 4096 := by
    rw [BitVec.toNat_ushiftRight, Nat.shiftRight_eq_div_pow]
  rw [heapPageCount, toInt_setWidth (by omega), hpages]

/-- INTERNAL: a section, whatever its length is: the quotient leaves out at most the last page,
and the macro adds one. SRC: arch/x86_64/mem.c:15,33-37 -/
theorem maps_section {a b : BitVec 64} (haligned : a.toNat % 4096 = 0) (hle : a.toNat ≤ b.toNat)
    (hbounded : b.toNat ≤ 2 ^ 47) (hcount : (b.toNat - a.toNat) / 4096 + 1 < 2 ^ 31) :
    Maps (mapPageRanges a a (nrPages a b)) (a.toNat, b.toNat) := by
  have hpages := nrPages_eq hle hcount
  exact maps_mapPageRanges haligned (by omega) (by omega)

/-- INTERNAL: the heap's range maps all of the heap to itself. -/
theorem maps_heap (layout : Layout) :
    Maps (mapPageRanges layout.heapStart layout.heapStart (heapPageCount layout.heapSize))
      (layout.heapStart.toNat, layout.heapStart.toNat + layout.heapSize.toNat) := by
  have hpages := heapPageCount_eq layout.heapPages
  have hbounded := layout.heapBounded
  have hsize := layout.sizeAligned
  exact maps_mapPageRanges layout.heapAligned (by omega) (by omega)

/-- INTERNAL: the call for the LAPIC maps its page to itself. -/
theorem maps_lapic : Maps [.data lapic lapic] (0xfee00000, 0xfee01000) := by
  refine ⟨fun c hc => ?_, fun va hlow hhigh => ⟨_, List.mem_cons_self, ?_⟩⟩
  · rw [List.mem_singleton.mp hc]
    exact ⟨rfl, by decide⟩
  · rw [Call.virtAddr, show lapic.toNat = 0xfee00000 by decide]
    dsimp only at hlow hhigh
    omega

/-- INTERNAL: a region mapped by calls behind others is one more region mapped. -/
theorem Maps.append {calls calls' : List Call} {regions : List (ℕ × ℕ)} {region : ℕ × ℕ}
    (h : ∀ r ∈ regions, Maps calls r) (h' : Maps calls' region)
    (hne : regions ≠ []) : ∀ r ∈ regions ++ [region], Maps (calls ++ calls') r := by
  obtain ⟨r₀, hr₀⟩ := List.exists_mem_of_ne_nil regions hne
  have hidentity : ∀ c ∈ calls ++ calls', IsIdentity c := by
    intro c hc
    rcases List.mem_append.mp hc with hc | hc
    · exact (h r₀ hr₀).identity c hc
    · exact h'.identity c hc
  intro r hr
  refine ⟨hidentity, fun va hlow hhigh => ?_⟩
  rcases List.mem_append.mp hr with hr | hr
  · obtain ⟨c, hc, hpage⟩ := (h r hr).covers va hlow hhigh
    exact ⟨c, List.mem_append_left _ hc, hpage⟩
  · rw [List.mem_singleton.mp hr] at hlow hhigh
    obtain ⟨c, hc, hpage⟩ := h'.covers va hlow hhigh
    exact ⟨c, List.mem_append_right _ hc, hpage⟩

/-- INTERNAL: **`mem_init`** maps every range. SRC: arch/x86_64/mem.c:29-47 -/
theorem maps_prepare (layout : Layout) :
    ∀ region ∈ layout.regions, Maps (prepareRuntimePagetables layout) region := by
  have hframebuffer : ∀ r ∈ [(0xb8000, 0xb9000)], Maps (mapPageRanges 0xb8000 0xb8000 1) r := by
    intro r hr
    rw [List.mem_singleton.mp hr]
    exact maps_mapPageRanges (by decide) (by decide) (by decide)
  have htext := Maps.append hframebuffer (maps_section layout.textAligned layout.text_le
    layout.textBounded layout.textPages) (List.cons_ne_nil _ _)
  have hdata := Maps.append htext (maps_section layout.dataAligned layout.data_le
    layout.dataBounded layout.dataPages) (List.cons_ne_nil _ _)
  have hheap := Maps.append hdata (maps_heap layout) (List.cons_ne_nil _ _)
  exact Maps.append hheap maps_lapic (List.cons_ne_nil _ _)

/-- INTERNAL: all calls of `prepare_runtime_pagetables` map an address to itself. -/
theorem prepare_identity (layout : Layout) :
    ∀ c ∈ prepareRuntimePagetables layout, IsIdentity c :=
  (maps_prepare layout (0xb8000, 0xb9000) List.mem_cons_self).identity

/-! ## The translation -/

/-- INTERNAL: where every call maps an address to itself, a page that has a call is at itself. -/
theorem lastWrite_identity {calls : List Call} (hcalls : ∀ c ∈ calls, IsIdentity c)
    {va : BitVec 64} (hva : va.toNat < 2 ^ 48) {c : Call} (hc : c ∈ calls)
    (hpage : c.virtAddr.toNat / 4096 = va.toNat / 4096) :
    lastWrite (effectAt va) calls = some (installed va) := by
  have heffect : ∀ c ∈ calls, c.virtAddr.toNat / 4096 = va.toNat / 4096 →
      effectAt va c = some (some (installed va)) := by
    intro c hc hpage
    have hindices : SameIndices c.virtAddr va :=
      (vaPath_eq_iff (hcalls c hc).bounded hva).mpr hpage
    have hsame : pageOf c.physAddr = pageOf va := by
      apply BitVec.eq_of_toNat_eq
      rw [toNat_pageOf, toNat_pageOf, (hcalls c hc).same, hpage]
    rw [effectAt, if_pos hindices, installed, installed, hsame]
  apply lastWrite_of_agree (effectAt va) _ hc (heffect c hc hpage)
  intro c' hc'
  by_cases hsame : SameIndices c'.virtAddr va
  · exact Or.inr (heffect c' hc' ((vaPath_eq_iff (hcalls c' hc').bounded hva).mp hsame))
  · exact Or.inl (if_neg hsame)

/-- INTERNAL: an entry of the code lets a store through. -/
theorem followWritable_entryWord (a : BitVec 64) :
    followWritable (entryWord a) = some (entryWord a &&& frameMask) := by
  have habsorb : entryWord a &&& (pfPresent ||| pfWritable) = pfPresent ||| pfWritable := by
    apply BitVec.eq_of_getLsbD_eq
    intro i hi
    have hseven : ∀ j : Fin 64, (pfPresent ||| pfWritable).getLsbD j = true →
        (7#64).getLsbD j = true := by decide
    have hbit := hseven ⟨i, hi⟩
    rw [entryWord, BitVec.getLsbD_and, BitVec.getLsbD_or]
    cases hone : (pfPresent ||| pfWritable).getLsbD i <;> simp_all
  rw [followWritable, if_pos habsorb]

/-- INTERNAL: a store walks the tables the same way as any access. -/
theorem store_walk_eq {s : X86PageTables.Machine} {root : Page} {lvl : Page → Option ℕ}
    (h : Inv s root lvl) (va : BitVec 64) :
    fourLevelWalk followWritable leafTranslation s.mem (base root) va =
      lookup x86Format (view s.mem) root (vaPath va) (vaSlot 12 va) := by
  refine fourLevelWalk_eq_lookup h.layered (fun {p n} i hp hn => ?_) va
  rcases h.entry i hp hn with he | ⟨c, he, hc⟩
  · rw [he]
    decide
  · rw [he, next_entryWord hc, followWritable_entryWord,
      (entryWord_fields (by rw [toNat_base]; exact hc)).1, pageOf_base]
    rfl

/-- INTERNAL: a page and an offset in it. -/
theorem base_or_offset (va : BitVec 64) : base (pageOf va) ||| (va &&& 0xfff) = va := by
  have hfull : ~~~0xfff#64 ||| 0xfff#64 = BitVec.allOnes 64 := by decide
  rw [← and_not_offset, ← BitVec.and_or_distrib_left]
  exact (congrArg _ hfull).trans BitVec.and_allOnes

/-- INTERNAL: the byte is at itself through `runtime_pagetables`: present, writable and user, and
a store through the CR3 of `mem_mmu_enable` goes there. SRC: arch/x86_64/mem.c:82-85 -/
structure IdentityMapped (s : Machine) (va : BitVec 64) : Prop where
  walk : walk s.pages va = some ⟨base (pageOf va), pfPresent ||| pfWritable ||| pfUser⟩
  store : storeAddress s.pages.mem (memMmuEnable s).cr3 va = some va

/-- INTERNAL: the tables represent calls that map addresses to themselves, those of `mem_init`
among them. -/
structure Tables (layout : Layout) (s : X86PageTables.Machine) (root : Page) (calls : List Call) :
    Prop where
  represents : Represents s root calls
  identity : ∀ c ∈ calls, IsIdentity c
  prepared : ∀ c ∈ prepareRuntimePagetables layout, c ∈ calls

/-- INTERNAL: what a layout covers lies below 2^48. -/
theorem covers_bounded {layout : Layout} {va : BitVec 64} (h : layout.Covers va) :
    va.toNat < 2 ^ 48 := by
  obtain ⟨region, hregion, -, hhigh⟩ := h
  have htext := layout.textBounded
  have hdata := layout.dataBounded
  have hheap := layout.heapBounded
  simp only [Layout.regions, List.mem_cons, List.not_mem_nil, or_false] at hregion
  rcases hregion with rfl | rfl | rfl | rfl | rfl
  all_goals
    dsimp only at hhigh
    omega

/-- INTERNAL: with the tables of a layout, what it covers is translated to itself. -/
theorem Tables.identityMapped {layout : Layout} {s : Machine} {root : Page} {calls : List Call}
    (h : Tables layout s.pages root calls) {va : BitVec 64} (hva : layout.Covers va) :
    IdentityMapped s va := by
  obtain ⟨lvl, hinv, hmap⟩ := h.represents
  have hbounded := covers_bounded hva
  obtain ⟨region, hregion, hlow, hhigh⟩ := hva
  obtain ⟨c, hc, hpage⟩ := (maps_prepare layout region hregion).covers va hlow hhigh
  have hlookup := (hmap va).trans
    (lastWrite_identity h.identity hbounded (h.prepared c hc) hpage)
  have hflags : (pfPresent ||| pfWritable ||| pfUser) &&& pfWritable ≠ 0 := by decide
  constructor
  · rw [walk_eq_lookup hinv, hlookup]
    rfl
  · rw [storeAddress, memMmuEnable, hinv.table, store_walk_eq hinv, hlookup, installed,
      Option.bind_some, if_neg hflags, base_or_offset]

/-! ## Reachable states -/

/-- INTERNAL: what any other code does: it leaves the statics of the heap and of `mem.c`, and the
pages taken since `mem_init`, alone. -/
structure Elsewhere (s s' : Machine) : Prop where
  memInited : s'.memInited = s.memInited
  heapCur : s'.pages.heapCur = s.pages.heapCur
  heapEnd : s'.pages.heapEnd = s.pages.heapEnd
  table : s'.pages.runtimePagetables = s.pages.runtimePagetables
  tables : s.memInited = true → ∀ a : BitVec 64, s.pages.runtimePagetables.toNat ≤ a.toNat →
    a.toNat < s.pages.heapCur.toNat → s'.pages.mem a = s.pages.mem a

/-- INTERNAL: the states from `arch_init` on: `mem_init` of one benchmark after the other, their
mappings of addresses to themselves, and any other code. SRC: arch/x86_64/arch.c:57-73;
benchmarks/memory/tlb-flush.c:12-36 -/
inductive Reached (layout : Layout) : Machine → Prop
  | archInit {traps : Trap → BitVec 64} {b s : Machine} : b.memInited = false →
      archInit layout traps b = .ok s → Reached layout s
  | memInit {s s' : Machine} : Reached layout s → memInit layout s = .ok s' → Reached layout s'
  | mapping {s : Machine} {ptr : BitVec 64} {pages : X86PageTables.Machine} : Reached layout s →
      s.memInited = true → ptr.toNat < 2 ^ 48 →
      memCreatePageMappingData ptr ptr s.pages = some pages → Reached layout
        { s with pages := pages }
  | other {s s' : Machine} : Reached layout s → Elsewhere s s' → Reached layout s'

/-- INTERNAL: the heap cursor is at a page boundary, from `start` on, and the heap ends where it has
from its initialisation on. -/
structure HeapFrom (start : ℕ) (limit : BitVec 64) (s : X86PageTables.Machine) : Prop where
  aligned : s.heapCur.toNat % 4096 = 0
  heapEnd : s.heapEnd = limit
  start_le : start ≤ s.heapCur.toNat

section Heap

variable {start : ℕ} {limit : BitVec 64} {s s' : X86PageTables.Machine}

/-- INTERNAL: a page handed out moves the cursor one page on. -/
theorem HeapFrom.heapAllocPage (h : HeapFrom start limit s) (hlimit : limit.toNat ≤ 2 ^ 52)
    {page : BitVec 64} (hcall : heapAllocPage s = some (page, s')) :
    HeapFrom (start + 4096) limit s' := by
  obtain ⟨-, rfl, hcur, -⟩ := heapAllocPage_spec h.aligned (h.heapEnd ▸ hlimit) hcall
  have haligned := h.aligned
  have hle := h.start_le
  exact ⟨by dsimp only; omega, h.heapEnd, by dsimp only; omega⟩

/-- INTERNAL: filling an entry moves it one page at most. -/
theorem HeapFrom.populate (h : HeapFrom start limit s) (hlimit : limit.toNat ≤ 2 ^ 52)
    {pte : BitVec 64} (hcall : populate pte s = some s') : HeapFrom start limit s' := by
  unfold X86PageTables.populate at hcall
  split at hcall
  · obtain rfl := Option.some.inj hcall
    exact h
  · split at hcall
    · cases halloc : X86PageTables.heapAllocPage s with
      | none => simp [halloc] at hcall
      | some result =>
        obtain ⟨page, s₁⟩ := result
        have h₁ := h.heapAllocPage hlimit halloc
        simp only [halloc, Option.bind_eq_bind, Option.bind_some, Option.some.injEq] at hcall
        subst hcall
        exact ⟨h₁.aligned, h₁.heapEnd, Nat.le_of_add_right_le h₁.start_le⟩
    · simp only [Option.bind_eq_bind, Option.bind_some, Option.some.injEq] at hcall
      subst hcall
      exact ⟨h.aligned, h.heapEnd, h.start_le⟩

/-- INTERNAL: a mapping leaves the heap cursor on a page boundary, from the start on. -/
theorem HeapFrom.createPageMapping (h : HeapFrom start limit s) (hlimit : limit.toNat ≤ 2 ^ 52)
    {pml4 pa va : BitVec 64} (hcall : createPageMapping pml4 pa va s = some s') :
    HeapFrom start limit s' := by
  simp only [X86PageTables.createPageMapping, Option.bind_eq_bind, Option.bind_eq_some_iff,
    Option.some.injEq] at hcall
  obtain ⟨s₁, h₁, s₂, h₂, s₃, h₃, rfl⟩ := hcall
  have hheap := ((h.populate hlimit h₁).populate hlimit h₂).populate hlimit h₃
  exact ⟨hheap.aligned, hheap.heapEnd, hheap.start_le⟩

/-- INTERNAL: mapping calls one after the other leave it there. Induction on the calls.
SRC: arch/x86_64/mem.c:17-27 -/
theorem HeapFrom.run {calls : List Call} (h : HeapFrom start limit s)
    (hlimit : limit.toNat ≤ 2 ^ 52)
    (hcall : X86PageTables.run s calls = some s') : HeapFrom start limit s' := by
  induction calls generalizing s with
  | nil =>
    obtain rfl := Option.some.inj hcall
    exact h
  | cons c calls ih =>
    simp only [X86PageTables.run, List.foldlM_cons, Option.bind_eq_bind,
      Option.bind_eq_some_iff] at hcall
    obtain ⟨s₁, hstep, hrest⟩ := hcall
    rw [step_eq] at hstep
    exact ih (h.createPageMapping hlimit hstep) hrest

/-- INTERNAL: taking a new root leaves it there. SRC: arch/x86_64/mem.c:107-115 -/
theorem HeapFrom.allocRuntimePagetables (h : HeapFrom start limit s) (hlimit : limit.toNat ≤ 2 ^ 52)
    (hcall : allocRuntimePagetables s = some s') : HeapFrom (start + 4096) limit s' := by
  simp only [X86PageTables.allocRuntimePagetables, Option.bind_eq_bind, Option.bind_eq_some_iff,
    Option.some.injEq, Prod.exists] at hcall
  obtain ⟨page, s₁, halloc, rfl⟩ := hcall
  have h₁ := h.heapAllocPage hlimit halloc
  exact ⟨h₁.aligned, h₁.heapEnd, h₁.start_le⟩

end Heap

/-- INTERNAL: a step goes on only if it leaves a page. SRC: arch/x86_64/heap.c:19-32 -/
theorem onHeap_some {α : Type} (pages : α → X86PageTables.Machine) (x : Option α) :
    Outcome (fun a => x = some a ∧ (pages a).heapCur.toNat < (pages a).heapEnd.toNat) Any
      (onHeap pages x) := by
  cases x with
  | none => trivial
  | some a =>
    unfold onHeap
    dsimp only
    split
    · rename_i hroom
      exact ⟨rfl, hroom⟩
    · trivial

/-- INTERNAL: `arch_init` takes the page of the interrupt table at least.
SRC: arch/x86_64/arch.c:12-18; arch/x86_64/irq.c:144 -/
theorem archInit_heapReady (layout : Layout) (traps : Trap → BitVec 64) (b : Machine) :
    Outcome (fun s => HeapReady s.pages ∧ s.memInited = b.memInited) Any
      (archInit layout traps b) := by
  have hsum : (layout.heapStart + layout.heapSize).toNat ≤ 2 ^ 52 := by
    have hbounded := layout.heapBounded
    rw [BitVec.toNat_add]
    omega
  have hstart : HeapFrom 0 (layout.heapStart + layout.heapSize)
      (heapInit layout.heapStart layout.heapSize b.pages.mem) :=
    ⟨layout.heapAligned, rfl, Nat.zero_le _⟩
  have hearly : Outcome (fun s => HeapFrom 0 (layout.heapStart + layout.heapSize) s.pages ∧
      s.memInited = b.memInited) Any
      (earlyMemInit { b with pages := heapInit layout.heapStart layout.heapSize b.pages.mem }) := by
    apply (onHeap_some _ _).bind
    rintro pages ⟨hpages, -⟩
    exact ⟨hstart.createPageMapping hsum hpages, rfl⟩
  apply hearly.bind
  rintro s ⟨hheap, hinited⟩
  apply (onHeap_some _ _).bind
  rintro ⟨idt, pages⟩ ⟨hpages, -⟩
  have htaken := hheap.heapAllocPage hsum hpages
  exact ⟨⟨htaken.aligned, Nat.lt_of_lt_of_le (by decide) htaken.start_le, htaken.heapEnd ▸ hsum⟩,
    hinited⟩

/-- INTERNAL: before `mem_init` a heap to start the tables from, behind it the tables. -/
inductive Ready (layout : Layout) (s : Machine) : Prop
  | fresh : s.memInited = false → HeapReady s.pages → Ready layout s
  | tables (root : Page) (calls : List Call) : s.memInited = true →
      Tables layout s.pages root calls → Ready layout s

/-- INTERNAL: **`mem_init`** leaves the tables, whichever benchmark calls it.
SRC: arch/x86_64/mem.c:51-60 -/
theorem memInit_tables {layout : Layout} {s : Machine} (h : Ready layout s) :
    Outcome (fun s' => s'.memInited = true ∧ ∃ root calls, Tables layout s'.pages root calls) Any
      (memInit layout s) := by
  cases h with
  | tables root calls hinited htables =>
    rw [memInit, if_pos hinited]
    exact ⟨hinited, root, calls, htables⟩
  | fresh hinited hheap =>
    rw [memInit, if_neg (by rw [hinited]; decide)]
    apply (onHeap_some _ _).bind
    rintro pages ⟨halloc, -⟩
    obtain ⟨hempty, -⟩ := represents_of_alloc hheap halloc
    apply (onHeap_some _ _).bind
    rintro pages' ⟨hrun, -⟩
    have hphys : ∀ c ∈ prepareRuntimePagetables layout, c.physAddr.toNat < 2 ^ 52 := by
      intro c hc
      have hidentity := prepare_identity layout c hc
      rw [hidentity.same]
      exact Nat.lt_of_lt_of_le hidentity.bounded (by decide)
    exact ⟨rfl, _, _, Represents.run [] hphys hempty hrun, prepare_identity layout, fun c hc => hc⟩

/-- INTERNAL: mapping a page to itself keeps the tables those of the layout and of the pages mapped
behind it. -/
theorem Tables.mapping {layout : Layout} {s s' : X86PageTables.Machine} {root : Page}
    {calls : List Call} (h : Tables layout s root calls) {ptr : BitVec 64}
    (hptr : ptr.toNat < 2 ^ 48) (hcall : memCreatePageMappingData ptr ptr s = some s') :
    Tables layout s' root (calls ++ [.data ptr ptr]) := by
  have hphys : (Call.data ptr ptr).physAddr.toNat < 2 ^ 52 := Nat.lt_of_lt_of_le hptr (by decide)
  refine ⟨h.represents.step hphys hcall, fun c hc => ?_, fun c hc => ?_⟩
  · rcases List.mem_append.mp hc with hc | hc
    · exact h.identity c hc
    · rw [List.mem_singleton.mp hc]
      exact ⟨rfl, hptr⟩
  · exact List.mem_append_left _ (h.prepared c hc)

/-- INTERNAL: the tables lie in the pages taken since the root, so nobody else changes them. -/
theorem Tables.elsewhere {layout : Layout} {s s' : Machine} {root : Page} {calls : List Call}
    (h : Tables layout s.pages root calls) (hinited : s.memInited = true)
    (helse : Elsewhere s s') : Tables layout s'.pages root calls := by
  obtain ⟨lvl, hinv, hmap⟩ := h.represents
  have hsame : ∀ p n, lvl p = some n → view s'.pages.mem p = view s.pages.mem p := by
    intro p n hp
    funext i
    have howned := hinv.owned hp
    have haligned := hinv.heapAligned
    have hslot := toNat_slotAddr p i
    have hi := i.isLt
    refine helse.tables hinited (slotAddr p i) ?_ ?_
    · rw [hinv.table, toNat_base]
      omega
    · omega
  refine ⟨⟨lvl, ⟨helse.table.trans hinv.table, hinv.layered.congr hsame, ?_, ?_, hinv.rootNonzero,
    helse.heapCur ▸ hinv.heapAligned, helse.heapEnd ▸ hinv.heapEnd_le⟩, fun va => ?_⟩,
    h.identity, h.prepared⟩
  · intro p n i hp hn
    rw [hsame p n hp]
    exact hinv.entry i hp hn
  · intro p n hp
    rw [helse.heapCur]
    exact hinv.owned hp
  · rw [hinv.layered.lookup_congr hsame _ _ (Nat.le_refl _)]
    exact hmap va

/-- INTERNAL: **every reachable state**. Induction on how it is reached. -/
theorem Reached.ready {layout : Layout} {s : Machine} (h : Reached layout s) : Ready layout s := by
  induction h with
  | archInit hinited hcall =>
    obtain ⟨hheap, hsame⟩ := (archInit_heapReady layout _ _).of_ok hcall
    exact .fresh (hsame.trans hinited) hheap
  | memInit hreached hcall ih =>
    obtain ⟨hinited, root, calls, htables⟩ := (memInit_tables ih).of_ok hcall
    exact .tables root calls hinited htables
  | mapping hreached hinited hptr hcall ih =>
    cases ih with
    | fresh hfresh => rw [hfresh] at hinited; cases hinited
    | tables root calls _ htables => exact .tables _ _ hinited (htables.mapping hptr hcall)
  | other hreached helse ih =>
    cases ih with
    | fresh hfresh hheap =>
      refine .fresh (helse.memInited.trans hfresh) ⟨?_, ?_, ?_⟩
      · rw [helse.heapCur]
        exact hheap.aligned
      · rw [helse.heapCur]
        exact hheap.nonzero
      · rw [helse.heapEnd]
        exact hheap.bounded
    | tables root calls hinited htables =>
      exact .tables root calls (helse.memInited.trans hinited) (htables.elsewhere hinited helse)

/-- SOURCE: arch/x86_64/mem.c:14-60,82-85,155-191 — **the image is mapped to itself**: on any
layout, whenever `mem_init` returns, every byte of text, data, the heap with stack and tables,
the framebuffer page and the LAPIC page is at itself through `runtime_pagetables`, writable. -/
theorem memInit_identityMaps (layout : Layout) {s s' : Machine} (h : Reached layout s)
    (hcall : memInit layout s = .ok s') {va : BitVec 64} (hva : layout.Covers va) :
    IdentityMapped s' va := by
  obtain ⟨-, root, calls, htables⟩ := (memInit_tables h.ready).of_ok hcall
  exact htables.identityMapped hva

/-- INTERNAL: an image whose text ends in the middle of a page: its last byte. -/
theorem memInit_identityMaps_small : ∃ s s', Reached (ofImage X86Boot.smallImage) s ∧
    memInit (ofImage X86Boot.smallImage) s = .ok s' ∧ IdentityMapped s' 0x1007ff := by
  obtain ⟨s, hinit, hstarted⟩ := X86Startup.archInit_started X86Boot.smallImage (fun _ => 0) false
    fun _ => 0
  obtain ⟨k, hk, hheap⟩ := hstarted.heap
  have hready : X86HeapUse.Ready .native X86Boot.smallImage s :=
    .fresh k hstarted.memInited hk hheap
  obtain ⟨s', hcall, -⟩ := X86HeapUse.memInit_tables (by decide) hready
  have hreached : Reached (ofImage X86Boot.smallImage) s := .archInit rfl hinit
  refine ⟨s, s', hreached, hcall, memInit_identityMaps _ hreached hcall ?_⟩
  exact ⟨(0x100000, 0x100800), by decide, by decide, by decide⟩

end Simbench.Analysis.X86IdentityMap
