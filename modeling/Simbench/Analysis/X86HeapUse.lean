import Mathlib.Data.Finset.Range
import Simbench.Analysis.BenchmarkPages
import Simbench.Analysis.X86Isolation
import Simbench.Analysis.X86TableCount

/-!
# The x86-64 heap across benchmarks

All mappings of all benchmarks lie on few paths: the ones of an image below 4 MiB, of the LAPIC
and of the physical memory region. The region of the native platform adds 32 tables, for which
the 63 pages of the heap in front of the stack's are enough. The region of the other platform needs
384, so its mapping loop gets to the page of the live stack.
-/

set_option autoImplicit false

namespace Simbench.Analysis.X86HeapUse

open Simbench.Library.Outcomes Simbench.Library.PagedMemory Simbench.Library.TableWalk
open Simbench.Program Simbench.Program.X86Boot Simbench.Program.X86Kernel
open Simbench.Program.X86PageTables hiding Machine
open Simbench.Analysis.X86HeapStack Simbench.Analysis.X86TableCount
open Simbench.Analysis.X86Isolation Simbench.Analysis.X86Startup
open Simbench.Analysis.BenchmarkShapes Simbench.Analysis.BenchmarkPages
open Simbench.Program.Benchmarks (Op Site Name Symbol mmuOff executeAll physPages)

/-! ## The paths of the mappings -/

/-- INTERNAL: the paths of addresses below 6 MiB and of the LAPIC. -/
def lowPaths : Finset (List Slot) :=
  {[0], [0, 0], [0, 0, 0], [0, 0, 1], [0, 0, 2], [0, 3], [0, 3, 0x1f7]}

/-- INTERNAL: the tables of the native platform's physical memory region. -/
def nativePaths : Finset (List Slot) :=
  (Finset.range 32).image fun j => [0, 0, BitVec.ofNat 9 (32 + j)]

/-- INTERNAL: all paths a benchmark is allowed to add. -/
def allowed : Platform → Finset (List Slot)
  | .native => lowPaths ∪ nativePaths
  | .qemu => lowPaths

/-- INTERNAL: the paths of the image and the LAPIC are allowed on both platforms. -/
theorem lowPaths_subset (platform : Platform) : lowPaths ⊆ allowed platform := by
  cases platform with
  | native => exact Finset.subset_union_left
  | qemu => exact Finset.Subset.refl _

/-- INTERNAL: with the root and the pages of `arch_init` they fit in front of the last page. -/
theorem card_allowed (platform : Platform) : (allowed platform).card ≤ 39 := by
  have hlow : lowPaths.card ≤ 7 := by decide
  have hnative : nativePaths.card ≤ 32 := by
    unfold nativePaths
    exact Finset.card_image_le.trans (Nat.le_of_eq (Finset.card_range 32))
  cases platform with
  | native => exact (Finset.card_union_le _ _).trans (by omega)
  | qemu => exact hlow.trans (by decide)

/-- INTERNAL: the slots of an address below 1 GiB. -/
theorem vaPath_of_lt {va : BitVec 64} (h : va.toNat < 2 ^ 30) :
    vaPath va = [0, 0, BitVec.ofNat 9 (va.toNat / 2 ^ 21)] := by
  have hslot : ∀ shift n, va.toNat / 2 ^ shift % 512 = n % 512 → vaSlot shift va =
      BitVec.ofNat 9 n := by
    intro shift n hn
    apply BitVec.eq_of_toNat_eq
    rw [toNat_vaSlot, BitVec.toNat_ofNat]
    exact hn
  unfold vaPath
  rw [hslot 39 0 (by omega), hslot 30 0 (by omega), hslot 21 (va.toNat / 2 ^ 21) (by omega)]
  rfl

/-- INTERNAL: an address below 1 GiB goes through the first entries down to its third table. -/
theorem paths_of_lt {va : BitVec 64} (h : va.toNat < 2 ^ 30) :
    paths va = {[0], [0, 0], [0, 0, BitVec.ofNat 9 (va.toNat / 2 ^ 21)]} := by
  have hpath := vaPath_of_lt h
  have hslots := hpath
  unfold vaPath at hslots
  simp only [List.cons.injEq] at hslots
  unfold paths
  rw [hpath, hslots.1, hslots.2.1]

/-- INTERNAL: one below 6 MiB goes through the first three of these. -/
theorem paths_low {va : BitVec 64} (h : va.toNat < 0x600000) : paths va ⊆ lowPaths := by
  rw [paths_of_lt (by omega)]
  have hthree : va.toNat / 2 ^ 21 = 0 ∨ va.toNat / 2 ^ 21 = 1 ∨ va.toNat / 2 ^ 21 = 2 := by omega
  rcases hthree with h | h | h
  all_goals
    rw [h]
    decide

/-- INTERNAL: the LAPIC goes through the fourth entry of the second table. -/
theorem paths_lapic : paths lapic ⊆ lowPaths := by decide

/-! ## What `mem_init` maps -/

/-- INTERNAL: each call of a range maps one of its pages. -/
theorem mem_mapPageRanges {pa va : BitVec 64} {n : ℕ} (hroom : va.toNat + n * 4096 ≤ 2 ^ 64)
    {c : Call}
    (hc : c ∈ mapPageRanges pa va n) : ∃ i < n, c.virtAddr.toNat = va.toNat + i * 4096 := by
  induction n generalizing pa va with
  | zero => cases hc
  | succ n ih =>
    rw [mapPageRanges, List.mem_cons] at hc
    rcases hc with rfl | hc
    · exact ⟨0, by omega, rfl⟩
    · cases n with
      | zero => cases hc
      | succ n =>
        have hnext : (va + 0x1000).toNat = va.toNat + 4096 := by
          rw [BitVec.toNat_add, show (0x1000 : BitVec 64).toNat = 4096 from rfl]
          omega
        obtain ⟨i, hi, haddr⟩ := ih (by omega) hc
        exact ⟨i + 1, by omega, by omega⟩

/-- INTERNAL: no more pages than the section has. -/
theorem nrPages_le {a b : BitVec 64} (h : a.toNat ≤ b.toNat) :
    nrPages a b ≤ (b.toNat - a.toNat) / 4096 + 1 := by
  have hpages : ((b - a) / 0x1000 + 1).toNat ≤ (b.toNat - a.toNat) / 4096 + 1 := by
    have hb := b.isLt
    rw [BitVec.toNat_add, BitVec.toNat_udiv, BitVec.toNat_sub,
      show (0x1000 : BitVec 64).toNat = 4096 from rfl, show (1 : BitVec 64).toNat = 1 from rfl]
    omega
  unfold nrPages
  rw [BitVec.toInt_eq_toNat_cond]
  have hle : (((b - a) / 0x1000 + 1).setWidth 32).toNat ≤ ((b - a) / 0x1000 + 1).toNat := by
    rw [BitVec.toNat_setWidth]
    exact Nat.mod_le _ _
  split <;> omega

/-- INTERNAL: a section below 6 MiB is mapped along the low paths. -/
theorem paths_section {a b : BitVec 64} (hordered : a.toNat ≤ b.toNat) (hlow : b.toNat < 0x600000)
    {c : Call} (hc : c ∈ mapPageRanges a a (nrPages a b)) : paths c.virtAddr ⊆ lowPaths := by
  have hpages := nrPages_le hordered
  obtain ⟨i, hi, haddr⟩ := mem_mapPageRanges (by omega) hc
  exact paths_low (by omega)

/-- INTERNAL: **`mem_init`** stays on the low paths. SRC: arch/x86_64/mem.c:29-47 -/
theorem paths_prepare {image : Image} (hlow : image.heapStart.toNat ≤ 0x400000) :
    pathsOf ((prepareRuntimePagetables image).map Call.virtAddr) ⊆ lowPaths := by
  have htext := image.text_le
  have htextData := image.data_le
  have hdata := image.data_lt
  have hheap := image.heap_le
  apply pathsOf_subset
  intro va hva
  rw [List.mem_map] at hva
  obtain ⟨c, hc, rfl⟩ := hva
  unfold prepareRuntimePagetables at hc
  simp only [List.mem_append, List.mem_singleton] at hc
  rcases hc with (((hc | hc) | hc) | hc) | rfl
  · obtain ⟨i, hi, haddr⟩ := mem_mapPageRanges (by decide) hc
    rw [show (0xb8000 : BitVec 64).toNat = 0xb8000 from rfl] at haddr
    exact paths_low (by omega)
  · exact paths_section htext (by omega) hc
  · exact paths_section (Nat.le_of_lt hdata) (by omega) hc
  · have hcount : heapPageCount heapSize = 64 := by decide
    have hpages : c ∈ mapPageRanges image.heapStart image.heapStart 64 := by rwa [← hcount]
    obtain ⟨i, hi, haddr⟩ := mem_mapPageRanges (by omega) hpages
    exact paths_low (by omega)
  · exact paths_lapic

/-! ## The kernel -/

/-- INTERNAL: `mem_init` has run, and the walks of its tables are the paths in `P`. -/
structure Walks (image : Image) (P : Finset (List Slot)) (s : Machine) : Prop where
  memInited : s.memInited = true
  counted : ∃ k ≤ 5, ∃ root, Counted image k root P s.pages

/-- INTERNAL: before `mem_init`, or behind it with no other paths than the allowed ones. -/
inductive Ready (platform : Platform) (image : Image) (s : Machine) : Prop
  | fresh (k : ℕ) : s.memInited = false → k ≤ 4 → HeapAt image k s.pages → Ready platform image s
  | tables (P : Finset (List Slot)) :
    P ⊆ allowed platform → Walks image P s → Ready platform image s

/-- INTERNAL: `mem_init` has run with allowed paths only. -/
def Tables (platform : Platform) (image : Image) (s : Machine) : Prop :=
  ∃ P ⊆ allowed platform, Walks image P s

section Kernel

variable {platform : Platform} {image : Image} {site : Site}

/-- INTERNAL: tables with a heap page of each path are ready for more. -/
theorem Tables.ready {s : Machine} (h : Tables platform image s) : Ready platform image s := by
  obtain ⟨P, hP, hwalks⟩ := h
  exact .tables P hP hwalks

/-- INTERNAL: room for the allowed paths, with the last page left. -/
theorem card_lt {P : Finset (List Slot)} (hP : P ⊆ allowed platform) : 5 + P.card < 64 := by
  have h := (Finset.card_le_card hP).trans (card_allowed platform)
  omega

/-- INTERNAL: the root of the runtime tables, in a page that is not the last.
SRC: arch/x86_64/mem.c:107-115 -/
theorem onHeap_runtime {k : ℕ} {pages : X86PageTables.Machine} (h : HeapAt image k pages)
    (hk : k < 64) {root : BitVec 64} :
    onHeap id (some { pages with runtimePagetables := root }) =
      .ok { pages with runtimePagetables := root } :=
  onHeap_of_heapAt ⟨h.cur, h.limit⟩ hk

/-- INTERNAL: `mem_init` returns. SRC: arch/x86_64/mem.c:49-60 -/
theorem memInit_tables (hlow : image.heapStart.toNat ≤ 0x400000) {s : Machine}
    (h : Ready platform image s) : ∃ s', memInit image s = .ok s' ∧ Tables platform image s' := by
  cases h with
  | tables P hP hwalks => exact ⟨s, by rw [memInit, if_pos hwalks.memInited], P, hP, hwalks⟩
  | fresh k hinited hk hheap =>
    rcases heapAllocPage_at hheap with ⟨-, hfull⟩ | ⟨pages, hsome, -, hnext⟩
    · omega
    · have halloc : allocRuntimePagetables s.pages =
          some { pages with runtimePagetables := s.pages.heapCur } := by
        unfold allocRuntimePagetables
        rw [hsome]
        rfl
      have hroot : onHeap id (some { pages with runtimePagetables := s.pages.heapCur }) = .ok _ :=
        onHeap_runtime hnext (by omega)
      have hP := (paths_prepare hlow).trans (lowPaths_subset platform)
      have hroom := card_lt hP
      rcases (counted_of_alloc hheap halloc).run (prepareRuntimePagetables image) with
        ⟨-, hfull⟩ | ⟨pages', hrun, hcounted, -⟩
      · rw [Finset.empty_union] at hfull
        omega
      · rw [Finset.empty_union] at hcounted
        have hmapped : onHeap id (some pages') = .ok pages' :=
          onHeap_of_heapAt hcounted.heap (by omega)
        refine ⟨{ irqResetPageFaultHandler { s with memInited := true } with pages := pages' }, ?_,
          _, hP, rfl, k + 1, by omega, _, hcounted⟩
        unfold memInit
        rw [hinited]
        show (onHeap id (allocRuntimePagetables s.pages) >>= _) = _
        rw [halloc, hroot]
        show (onHeap id (X86PageTables.run _ (prepareRuntimePagetables image)) >>= _) = _
        rw [hrun, hmapped]
        rfl

/-- INTERNAL: **one mapping**: it adds its paths, or there was no room for them. -/
theorem mapping_walks {P : Finset (List Slot)} (pa va : BitVec 64) (e : Env) (s : Machine)
    (h : Walks image P s) :
    Outcome (Walks image (P ∪ paths va))
      (fun halt => halt = .heapExhausted ∧ 64 ≤ 5 + (P ∪ paths va).card)
      (exec image site e (.memCreatePageMappingData pa va) s) := by
  obtain ⟨k, hk, root, hcounted⟩ := h.counted
  obtain ⟨lvl, hinv⟩ := hcounted.inv
  show Outcome _ _ (onHeap id (memCreatePageMappingData pa va s.pages) >>= _)
  unfold memCreatePageMappingData
  rw [hinv.table]
  rcases hcounted.createPageMapping pa va with ⟨hnone, hfull⟩ | ⟨pages, hsome, hcounted', -⟩
  · rw [hnone]
    exact ⟨rfl, by omega⟩
  · rw [hsome]
    by_cases hlast : k + (P ∪ paths va).card < 64
    · have hgoes : onHeap id (some pages) = .ok pages := onHeap_of_heapAt hcounted'.heap hlast
      rw [hgoes]
      exact ⟨h.memInited, k, hk, root, hcounted'⟩
    · have hends : onHeap id (some pages) = .error .heapExhausted :=
        onHeap_of_full hcounted'.heap (by omega)
      rw [hends]
      exact ⟨rfl, by omega⟩

/-- INTERNAL: mapping pages along allowed paths keeps the tables as they are to be: there is room
for each. -/
theorem mappings_tables (site : Site) (pages : List (BitVec 64))
    (hpages : ∀ p ∈ pages, paths p ⊆ allowed platform) :
    Triple (exec image site) NotHeap (Tables platform image)
      (pages.map fun ptr => .memCreatePageMappingData ptr ptr) (Tables platform image) := by
  apply Triple.invariant
  rintro op hop e s ⟨P, hP, hwalks⟩
  rw [List.mem_map] at hop
  obtain ⟨p, hp, rfl⟩ := hop
  have hP' := Finset.union_subset hP (hpages p hp)
  have hroom := card_lt hP'
  refine (mapping_walks p p e s hwalks).mono (fun s' h' => ⟨_, hP', h'⟩) ?_
  rintro halt ⟨-, hfull⟩
  omega

/-- INTERNAL: mappings add their paths, or the heap ends. Induction on the mappings. -/
theorem mappings_walks (pages : List (BitVec 64)) (P : Finset (List Slot)) :
    Triple (exec image site) (fun halt => halt = .heapExhausted) (Walks image P)
      (pages.map fun ptr => .memCreatePageMappingData ptr ptr)
      (Walks image (P ∪ pathsOf pages)) := by
  induction pages generalizing P with
  | nil =>
    rw [pathsOf, Finset.union_empty]
    exact Triple.nil
  | cons p pages ih =>
    rw [List.map_cons, pathsOf, ← Finset.union_assoc]
    exact Triple.cons (fun e s h => (mapping_walks p p e s h).mono (fun _ h => h) fun _ h => h.1)
      (ih (P ∪ paths p))

/-! ## Benchmarks -/

/-- INTERNAL: the operations that take pages. -/
def allocates : Op → Bool
  | .memInit | .memCreatePageMappingData _ _ => true
  | _ => false

/-- INTERNAL: a condition on what `Ready` and `Tables` speak about. -/
def OnPages (Inv : Machine → Prop) : Prop :=
  ∀ s s', s'.pages = s.pages → s'.memInited = s.memInited → Inv s → Inv s'

/-- INTERNAL: the walks depend on the tables and on whether `mem_init` has run, on nothing else. -/
theorem Walks.of_eq {P : Finset (List Slot)} {s s' : Machine} (hpages : s'.pages = s.pages)
    (hinited : s'.memInited = s.memInited) (h : Walks image P s) : Walks image P s' := by
  refine ⟨hinited.trans h.memInited, ?_⟩
  rw [hpages]
  exact h.counted

/-- INTERNAL: the tables' condition speaks of the pages and of `mem_inited` only. -/
theorem onPages_tables : OnPages (Tables platform image) := by
  rintro s s' hpages hinited ⟨P, hP, h⟩
  exact ⟨P, hP, h.of_eq hpages hinited⟩

/-- INTERNAL: the condition of a machine that may go on speaks of them only. -/
theorem onPages_ready : OnPages (Ready platform image) := by
  intro s s' hpages hinited h
  cases h with
  | fresh k hfresh hk hheap => exact .fresh k (hinited.trans hfresh) hk (by rwa [hpages])
  | tables P hP h => exact .tables P hP (h.of_eq hpages hinited)

/-- INTERNAL: an operation that takes no page leaves the page tables and the heap alone. -/
theorem exec_spares {op : Op} (hop : allocates op = false) (e : Env) (s : Machine) :
    Outcome (fun s' => s'.pages = s.pages ∧ s'.memInited = s.memInited) NotHeap
      (exec image site e op s) := by
  by_cases hplain : plain op = true
  · exact (exec_plain image site e hplain s).mono (fun _ h => ⟨h.pages, h.memInited⟩) fun _ h => h
  · cases op with
    | memInit | memCreatePageMappingData => cases hop
    | memReset | memMmuEnable | memMmuDisable => exact ⟨rfl, rfl⟩
    | archDfaultInstallSkip | archIfaultInstallReturn => exact ⟨rfl, rfl⟩
    | _ => exact absurd rfl hplain

/-- INTERNAL: operations that take no page keep such a condition. -/
theorem spares_triple {Inv : Machine → Prop} (hinv : OnPages Inv) {ops : List Op}
    (hops : ∀ op ∈ ops, allocates op = false) : Triple (exec image site) NotHeap Inv ops Inv :=
  Triple.invariant fun op hop e s h =>
    (exec_spares (hops op hop) e s).mono (fun s' hsame => hinv s s' hsame.1 hsame.2 h) fun _ h => h

/-- INTERNAL: a plain operation takes no page. -/
theorem allocates_of_plain {ops : List Op} (hops : Plain ops) :
    ∀ op ∈ ops, allocates op = false := by
  intro op hop
  have h := hops op hop
  cases op with
  | memInit | memCreatePageMappingData => cases h
  | _ => rfl

/-- INTERNAL: behind its mappings a benchmark takes no more pages. -/
theorem allocates_rest (name : Name) {middle tail : List Op} (hmiddle : Plain middle)
    (htail : Plain tail) :
    ∀ op ∈ [.memMmuEnable, .memTlbFlush] ++ installs name ++ middle ++ mmuOff ++ tail,
      allocates op = false := by
  have hinstalls : ∀ op ∈ installs name, allocates op = false := by
    cases name <;> decide
  have henable : ∀ op ∈ [Op.memMmuEnable, .memTlbFlush], allocates op = false := by decide
  have hoff : ∀ op ∈ mmuOff, allocates op = false := by decide
  intro op hop
  simp only [List.mem_append] at hop
  rcases hop with (((hop | hop) | hop) | hop) | hop
  · exact henable op hop
  · exact hinstalls op hop
  · exact allocates_of_plain hmiddle op hop
  · exact hoff op hop
  · exact allocates_of_plain htail op hop

/-- INTERNAL: a benchmark with address translation takes pages in its first operations only. -/
theorem execute_pages (site : Site) {name : Name} (hname : usesMmu name = true) :
    ∃ rest, (name.benchmark site).execute =
      .memInit :: ((maps site name).map fun ptr => .memCreatePageMappingData ptr ptr) ++ rest ∧
        ∀ op ∈ rest, allocates op = false := by
  obtain ⟨middle, tail, hexecute, hmiddle, htail⟩ := execute_mmu site hname
  refine ⟨_, ?_, allocates_rest name hmiddle htail⟩
  rw [hexecute, mmuPrologue]
  simp only [List.append_assoc]

/-- INTERNAL: `mem_init` on a low image leads to its tables and never ends the heap. -/
theorem exec_memInit (hlow : image.heapStart.toNat ≤ 0x400000) (halt : Halt → Prop) (e : Env)
    (s : Machine) (h : Ready platform image s) :
    Outcome (Tables platform image) halt (exec image site e .memInit s) := by
  obtain ⟨s', hrun, htables⟩ := memInit_tables hlow h
  show Outcome _ _ (memInit image s)
  rw [hrun]
  exact htables

/-- INTERNAL: **a benchmark that maps allowed pages** does not exhaust the heap. -/
theorem execute_ready (hlow : image.heapStart.toNat ≤ 0x400000) {name : Name}
    (hpages : ∀ p ∈ maps site name, paths p ⊆ allowed platform) :
    Triple (exec image site) NotHeap (Ready platform image) (name.benchmark site).execute
      (Ready platform image) := by
  cases hname : usesMmu name with
  | false => exact spares_triple onPages_ready (allocates_of_plain (execute_plain site hname))
  | true =>
    obtain ⟨rest, hexecute, hrest⟩ := execute_pages site hname
    have hstart := Triple.cons (exec_memInit hlow NotHeap) (mappings_tables site _ hpages)
    rw [hexecute]
    exact (hstart.append (spares_triple onPages_tables hrest)).mono (fun _ h => h)
      (fun _ h => h.ready) fun _ h => h

/-- INTERNAL: **a benchmark that maps more than the heap holds** exhausts it. -/
theorem execute_exhausts (hlow : image.heapStart.toNat ≤ 0x400000) {name : Name}
    (hname : usesMmu name = true) (hmany : 64 < (pathsOf (maps site name)).card) :
    Triple (exec image site) (fun halt => halt = .heapExhausted) (Ready platform image)
      (name.benchmark site).execute fun _ => False := by
  obtain ⟨rest, hexecute, -⟩ := execute_pages site hname
  have hstart : Triple (exec image site) (fun halt => halt = .heapExhausted) (Ready platform image)
      (.memInit :: ((maps site name).map fun ptr => .memCreatePageMappingData ptr ptr))
      fun _ => False := by
    refine Triple.cons (exec_memInit hlow _) fun env n s h => ?_
    obtain ⟨P, -, hwalks⟩ := h
    refine (mappings_walks (maps site name) P env n s hwalks).mono (fun s' h' => ?_) fun _ h => h
    obtain ⟨k, -, root, hcounted⟩ := h'.counted
    have hroom := hcounted.room
    have hsubset : pathsOf (maps site name) ⊆ P ∪ pathsOf (maps site name) :=
      Finset.subset_union_right
    have hle := Finset.card_le_card hsubset
    omega
  have hnever : Triple (exec image site) (fun halt => halt = .heapExhausted) (fun _ => False) rest
      fun _ => False := fun _ _ _ h => h.elim
  rw [hexecute]
  exact hstart.append hnever

end Kernel

/-! ## The physical memory regions -/

/-- INTERNAL: the benchmarks that map the region. -/
def regionBenchmarks : List Name := [.tlbFlush, .tlbEvict, .memoryColdMmu]

section Regions

variable {image : Image} {site : Site}

/-- INTERNAL: the native region is 0x4000 pages. -/
theorem pagedRegion_native (h : OnPlatform .native image site) : PagedRegion site 0x4000 := by
  constructor
  · rw [h.pageSize]
    decide
  · rw [h.physMemStart, h.physMemEnd]
    decide
  · rw [h.physMemEnd]
    decide

/-- INTERNAL: the qemu region is 0x30000 pages. -/
theorem pagedRegion_qemu (h : OnPlatform .qemu image site) : PagedRegion site 0x30000 := by
  constructor
  · rw [h.pageSize]
    decide
  · rw [h.physMemStart, h.physMemEnd]
    decide
  · rw [h.physMemEnd]
    decide

/-- INTERNAL: the pages of the native region are mapped along the paths allowed there. -/
theorem paths_native (h : OnPlatform .native image site) {p : BitVec 64} (hp : p ∈ physPages site) :
    paths p ⊆ allowed .native := by
  rw [(pagedRegion_native h).physPages_spec.2, h.physMemStart] at hp
  obtain ⟨k, hk, haddr⟩ := hp
  rw [show (physInfo .native).1.toNat = 0x4000000 from rfl] at haddr
  have htable : [0, 0, BitVec.ofNat 9 (p.toNat / 2 ^ 21)] ∈ nativePaths := by
    unfold nativePaths
    apply Finset.mem_image.mpr
    refine ⟨p.toNat / 2 ^ 21 - 32, Finset.mem_range.mpr (by omega), ?_⟩
    rw [show 32 + (p.toNat / 2 ^ 21 - 32) = p.toNat / 2 ^ 21 by omega]
  rw [paths_of_lt (by omega)]
  intro path hpath
  simp only [Finset.mem_insert, Finset.mem_singleton] at hpath
  unfold allowed
  rcases hpath with rfl | rfl | rfl
  · exact Finset.mem_union_left _ (by decide)
  · exact Finset.mem_union_left _ (by decide)
  · exact Finset.mem_union_right _ htable

/-- INTERNAL: the tables of the other platform's region. -/
theorem card_qemu (h : OnPlatform .qemu image site) : 384 ≤ (pathsOf (physPages site)).card := by
  have hsubset : (Finset.range 384).image (fun j => ([0, 0, BitVec.ofNat 9 (128 + j)] : List Slot)) ⊆
      pathsOf (physPages site) := by
    intro path hpath
    obtain ⟨j, hj, rfl⟩ := Finset.mem_image.mp hpath
    have hj' := Finset.mem_range.mp hj
    have haddr : (BitVec.ofNat 64 (0x10000000 + j * 2 ^ 21)).toNat = 0x10000000 + j * 2 ^ 21 := by
      rw [BitVec.toNat_ofNat]
      omega
    have hpage : BitVec.ofNat 64 (0x10000000 + j * 2 ^ 21) ∈ physPages site := by
      rw [(pagedRegion_qemu h).physPages_spec.2, h.physMemStart, haddr]
      refine ⟨j * 512, by omega, ?_⟩
      rw [show (physInfo .qemu).1.toNat = 0x10000000 from rfl]
      omega
    refine paths_subset_pathsOf hpage ?_
    rw [paths_of_lt (by omega), haddr,
      show (0x10000000 + j * 2 ^ 21) / 2 ^ 21 = 128 + j by omega]
    simp
  have hinj : Set.InjOn (fun j => ([0, 0, BitVec.ofNat 9 (128 + j)] : List Slot)) (Finset.range 384) := by
    intro i hi j hj hij
    have hi' := Finset.mem_range.mp hi
    have hj' := Finset.mem_range.mp hj
    simp only [List.cons.injEq, true_and, and_true] at hij
    have hnat := congrArg BitVec.toNat hij
    rw [BitVec.toNat_ofNat, BitVec.toNat_ofNat] at hnat
    omega
  have hcard := Finset.card_image_of_injOn hinj
  rw [Finset.card_range] at hcard
  rw [← hcard]
  exact Finset.card_le_card hsubset

/-- INTERNAL: what a benchmark maps is allowed, unless it maps the larger region. -/
theorem paths_maps {platform : Platform} (hbelow : image.dataEnd.toNat ≤ 0x400000)
    (hsite : OnPlatform platform image site) {name : Name}
    (hname : platform = .native ∨ name ∉ regionBenchmarks) :
    ∀ p ∈ maps site name, paths p ⊆ allowed platform := by
  intro p hp
  have hregion : name ∈ regionBenchmarks → p ∈ physPages site → paths p ⊆ allowed platform := by
    intro hmem hpage
    rcases hname with rfl | hnot
    · exact paths_native hsite hpage
    · exact absurd hmem hnot
  cases name with
  | tlbFlush | tlbEvict | memoryColdMmu => exact hregion (by decide) hp
  | memoryNonpriv =>
    rw [maps, List.mem_singleton] at hp
    have hsymbol := (hsite.inData .memoryNonprivValue (by decide)).2
    rw [hp]
    exact (paths_low (by omega)).trans (lowPaths_subset platform)
  | _ => cases hp

end Regions

/-! ## Runs -/

section Runs

variable {platform : Platform} {image : Image} {site : Site}

/-- INTERNAL: the heap of a low image begins below 4 MiB. -/
theorem heapStart_le (hbelow : image.dataEnd.toNat ≤ 0x400000) :
    image.heapStart.toNat ≤ 0x400000 := by
  have hlt := image.heap_lt
  have haligned := image.heapAligned
  omega

/-- INTERNAL: the machine behind its boot is ready for the benchmarks. -/
theorem Started.ready {s : Machine} (h : Started image s) : Ready platform image s := by
  obtain ⟨k, hk, hheap⟩ := h.heap
  exact .fresh k h.memInited hk hheap

/-- INTERNAL: a benchmark that maps the larger region. -/
theorem region_exhausts (hbelow : image.dataEnd.toNat ≤ 0x400000)
    (hsite : OnPlatform .qemu image site)
    {name : Name} (hname : name ∈ regionBenchmarks) :
    Triple (exec image site) (fun halt => halt = .heapExhausted) (Ready .qemu image)
      (name.benchmark site).execute fun _ => False := by
  have hcard := card_qemu hsite
  have hboth : usesMmu name = true ∧ maps site name = physPages site := by
    simp only [regionBenchmarks, List.mem_cons, List.not_mem_nil, or_false] at hname
    rcases hname with rfl | rfl | rfl
    all_goals exact ⟨rfl, rfl⟩
  apply execute_exhausts (heapStart_le hbelow) hboth.1
  rw [hboth.2]
  omega

/-- INTERNAL: sequences without a benchmark that maps the region of qemu never end the heap. -/
theorem executeAll_ready (hbelow : image.dataEnd.toNat ≤ 0x400000)
    (hsite : OnPlatform platform image site) (names : List Name)
    (hnames : ∀ name ∈ names, platform = .native ∨ name ∉ regionBenchmarks) :
    Triple (exec image site) NotHeap (Ready platform image) (executeAll site names)
      (Ready platform image) := by
  induction names with
  | nil => exact Triple.nil
  | cons name names ih =>
    have hpages := paths_maps hbelow hsite (hnames name List.mem_cons_self)
    exact (execute_ready (heapStart_le hbelow) hpages).append
      (ih fun name' h => hnames name' (List.mem_cons_of_mem _ h))

/-- INTERNAL: any sequence on qemu leads to a state that is ready for more, if it returns. -/
theorem executeAll_any (hbelow : image.dataEnd.toNat ≤ 0x400000)
    (hsite : OnPlatform .qemu image site) (names : List Name) :
    Triple (exec image site) Any (Ready .qemu image) (executeAll site names)
      (Ready .qemu image) := by
  induction names with
  | nil => exact Triple.nil
  | cons name names ih =>
    refine Triple.append ?_ ih
    by_cases hname : name ∈ regionBenchmarks
    · exact (region_exhausts hbelow hsite hname).mono (fun _ h => h) (fun _ h => h.elim)
        fun _ _ => trivial
    · exact (execute_ready (heapStart_le hbelow) (paths_maps hbelow hsite (Or.inr hname))).mono
        (fun _ h => h) (fun _ h => h) fun _ _ => trivial

/-- INTERNAL: a sequence that gets to a benchmark with the larger region. -/
theorem runBenchmarks_exhausts (hbelow : image.dataEnd.toNat ≤ 0x400000)
    (hsite : OnPlatform .qemu image site) (env : ℕ → Env) {before after : List Name} {name : Name}
    (hname : name ∈ regionBenchmarks) {s₀ s : Machine} (hready : Ready .qemu image s₀)
    (hrun : runBenchmarks image site env before s₀ = .ok s) :
    runBenchmarks image site env (before ++ name :: after) s₀ = .error .heapExhausted := by
  have hs := (executeAll_any hbelow hsite before env 0 s₀ hready).of_ok hrun
  have hrest : Triple (exec image site) (fun halt => halt = .heapExhausted) (fun _ => False)
      (executeAll site after) fun _ => False := fun _ _ _ h => h.elim
  have hnever := ((region_exhausts hbelow hsite hname).append hrest) env
    (0 + (executeAll site before).length) s hs
  have hsplit : executeAll site (before ++ name :: after) =
      executeAll site before ++ ((name.benchmark site).execute ++ executeAll site after) := by
    unfold executeAll
    rw [List.flatMap_append, List.flatMap_cons]
  have hbefore : run (exec image site) env 0 (executeAll site before) s₀ = .ok s := hrun
  unfold runBenchmarks runOps
  rw [hsplit, run_append, hbefore]
  cases hafter : run (exec image site) env (0 + (executeAll site before).length)
      ((name.benchmark site).execute ++ executeAll site after) s with
  | ok s' => exact (hnever.of_ok hafter).elim
  | error halt =>
    rw [← hnever.of_error hafter]
    exact hafter

/-- SOURCE: arch/x86_64/mem.c:29-67, arch/x86_64/heap.c:10-32, arch/x86_64/boot.S:30-32,
benchmarks/memory, platform/x86_64 — **the heap across benchmarks**: after `arch_init` no sequence
of benchmarks exhausts the heap of the native platform. On the other one no sequence does that
leaves out the three benchmarks that map the physical memory region, and every sequence does that
gets to one of them: it ends where the last page of the heap, the one the stack lies in, is handed
out and cleared. -/
theorem runBenchmarks_heap (platform : Platform) (image : Image) (site : Site)
    (hbelow : image.dataEnd.toNat ≤ 0x400000) (hsite : OnPlatform platform image site)
    (traps : Trap → BitVec 64) (gigabytePages : Bool) (mem : Memory) :
    ∃ s₀, archInit image traps (booted gigabytePages mem) = .ok s₀ ∧ ∀ env names,
      ((platform = .native ∨ ∀ name ∈ names, name ∉ regionBenchmarks) →
        runBenchmarks image site env names s₀ ≠ .error .heapExhausted) ∧
      (platform = .qemu → ∀ before name after, names = before ++ name :: after →
        name ∈ regionBenchmarks → ∀ s, runBenchmarks image site env before s₀ = .ok s →
          runBenchmarks image site env names s₀ = .error .heapExhausted) := by
  obtain ⟨s₀, hinit, hstarted⟩ := archInit_started image traps gigabytePages mem
  refine ⟨s₀, hinit, fun env names => ⟨fun hcondition hrun => ?_, ?_⟩⟩
  · have hnames : ∀ name ∈ names, platform = .native ∨ name ∉ regionBenchmarks := by
      intro name hmem
      exact hcondition.imp (fun h => h) fun h => h name hmem
    have houtcome := executeAll_ready hbelow hsite names hnames env 0 s₀ (Started.ready hstarted)
    exact houtcome.of_error hrun rfl
  · rintro rfl before name after rfl hname s hrun
    exact runBenchmarks_exhausts hbelow hsite env hname (Started.ready hstarted) hrun

end Runs

/-- INTERNAL: a build for the small image, with one function in the table. -/
def smallSite (platform : Platform) : Site where
  physMemStart := (physInfo platform).1
  physMemEnd := (physInfo platform).2
  pageSize := memGetPageSize
  nullDevptr := 0xfee00380
  symbol
    | .block => 0x100400
    | _ => 0x101000
  fnHeads := [0x100100]
  fast := true

/-- INTERNAL: the example's addresses are those of the platform's headers. -/
theorem onPlatform_smallSite (platform : Platform) :
    OnPlatform platform smallImage (smallSite platform) := by
  refine ⟨rfl, rfl, rfl, rfl, fun symbol hsymbol => ?_⟩
  cases symbol with
  | block => exact absurd rfl hsymbol
  | _ =>
    cases platform with
    | native => decide
    | qemu => decide

/-- INTERNAL: the native platform with the small image. -/
theorem runBenchmarks_heap_native :
    ∃ s₀, archInit smallImage (fun _ => 0x100200) (booted true fun _ => 0xff) = .ok s₀ ∧
      ∀ env, runBenchmarks smallImage (smallSite .native) env
        [.memoryColdMmu, .tlbEvict, .memoryNonpriv, .memoryColdMmu] s₀ ≠ .error .heapExhausted := by
  obtain ⟨s₀, hinit, hheap⟩ := runBenchmarks_heap .native smallImage (smallSite .native) (by decide)
    (onPlatform_smallSite .native) (fun _ => 0x100200) true fun _ => 0xff
  exact ⟨s₀, hinit, fun env => (hheap env _).1 (Or.inl rfl)⟩

/-- INTERNAL: one benchmark is enough on the other platform: its 384 tables need more pages than
there are. -/
theorem memoryCold_exhausts_heap : ¬ ∀ (platform : Platform) (image : Image) (site : Site),
    image.dataEnd.toNat ≤ 0x400000 → OnPlatform platform image site →
      ∀ (traps : Trap → BitVec 64) (gigabytePages : Bool) (mem : Memory) (s₀ : Machine),
        archInit image traps (booted gigabytePages mem) = .ok s₀ → ∀ env names,
          runBenchmarks image site env names s₀ ≠ .error .heapExhausted := by
  intro hclaim
  obtain ⟨s₀, hinit, hstarted⟩ := archInit_started smallImage (fun _ => 0x100200) true fun _ => 0
  have hrun : runBenchmarks smallImage (smallSite .qemu) (fun _ => ⟨fun _ => false, false⟩) [] s₀ =
      .ok s₀ := rfl
  apply hclaim .qemu smallImage (smallSite .qemu) (by decide) (onPlatform_smallSite .qemu) _ true _
    s₀ hinit (fun _ => ⟨fun _ => false, false⟩) [.memoryColdMmu]
  exact runBenchmarks_exhausts (by decide) (onPlatform_smallSite .qemu) _ (by decide)
    (Started.ready hstarted) hrun

end Simbench.Analysis.X86HeapUse
