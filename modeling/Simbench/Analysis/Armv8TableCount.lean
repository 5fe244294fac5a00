import Simbench.Analysis.Armv8Refinement
import Simbench.Library.TreePaths

/-!
# How many pages the ARMv8 translation tables take

Clearing hides tables from the walk but not from the routines that build them: an entry
remembers its table. So the pages taken since the heap was initialised are the root and one
table for every path that some mapping so far has opened, cleared or not.
-/

set_option autoImplicit false

namespace Simbench.Analysis.Armv8TableCount

open Simbench.Library.RadixTree Simbench.Library.PagedMemory Simbench.Library.TableWalk
open Simbench.Library.TreePaths
open Simbench.Program.Armv8Tables Simbench.Analysis.Armv8Descriptors
open Simbench.Analysis.Armv8TableInvariant Simbench.Analysis.Armv8TableCalls
open Simbench.Analysis.Armv8Refinement

/-- INTERNAL: the paths along remembered tables are those in `A`, and the root and the tables at
the end of these paths are what the heap has handed out. -/
structure Counted (L : HeapLayout) (root : Page) (lvl : Page → Option ℕ) (A : Finset (List Slot))
    (s : Machine) : Prop where
  inv : Inv True L s root lvl
  zero : ZeroHeap L s
  paths : Paths edgeFormat 3 (edges armFormat (view s.mem)) root A
  heap : s.heapPtr.toNat = L.heapStart.toNat + 4096 * (1 + A.card)

variable {L : HeapLayout} {s s' : Machine} {root : Page} {lvl : Page → Option ℕ}

namespace Counted

variable {A : Finset (List Slot)}

/-- INTERNAL: an entry that remembers a table leads to it, and no entry remembers anything new.
SRC: arch/armv8/txln_table.c:104-108 -/
theorem level_known (h : Counted L root lvl A s) {path : List Slot} {t c q : Page} {i : Slot}
    {lvl' : Page → Option ℕ} (hlen : path.length < 3)
    (D : Descended True L root s lvl path t i s' lvl' c)
    (hedge : edges armFormat (view s'.mem) t i = some c)
    (hrem : remembered (view s.mem t i) = some q) :
    Counted L root lvl' (insert (path ++ [i]) A) s' := by
  obtain ⟨rfl, hheap⟩ := D.known q hrem
  have hedges : edges armFormat (view s'.mem) = edges armFormat (view s.mem) := by
    funext p j
    by_cases hp : p = t ∧ j = i
    · obtain ⟨rfl, rfl⟩ := hp
      exact hedge.trans hrem.symm
    · exact D.others p j hp
  have hmem : path ++ [i] ∈ A := by
    refine h.paths.mem_step hlen (c := c) ?_
    rw [← hedges]
    exact descend_edges D.reached
  rw [Finset.insert_eq_of_mem hmem]
  refine ⟨D.inv, h.zero.of_frame D.inv D.heapMono D.ext.frame, ?_, ?_⟩
  · rw [hedges]
    exact h.paths
  · rw [hheap]
    exact h.heap

/-- INTERNAL: the next page of the heap remembers nothing yet. SRC: arch/armv8/heap.c:15-25 -/
theorem blank_heapPtr (h : Counted L root lvl A s)
    (hroom : s.heapPtr.toNat + 4096 ≤ L.heapEnd.toNat)
    (j : Slot) : edges armFormat (view s.mem) (pageOf s.heapPtr) j = none := by
  rw [edges, h.zero.blank h.inv.heapAligned (Nat.le_refl _) hroom j]
  rfl

/-- INTERNAL: an entry that remembers no table gets the next page.
SRC: arch/armv8/txln_table.c:104-115 -/
theorem level_taken (h : Counted L root lvl A s) {path : List Slot} {t c : Page} {i : Slot}
    {lvl' : Page → Option ℕ} (hd : descend armFormat (view s.mem) root path = some t)
    (hlen : path.length < 3) (D : Descended True L root s lvl path t i s' lvl' c)
    (hedge : edges armFormat (view s'.mem) t i = some c)
    (hrem : remembered (view s.mem t i) = none) :
    Counted L root lvl' (insert (path ++ [i]) A) s' := by
  obtain ⟨rfl, hheap⟩ := D.taken hrem
  have hroom := D.inv.heapBound
  have hbound := h.inv.heapBound
  have h48 := L.bounded
  have hadd : (s.heapPtr + 4096).toNat = s.heapPtr.toNat + 4096 := by
    rw [BitVec.toNat_add, show (4096 : BitVec 64).toNat = 4096 from rfl]
    omega
  rw [hheap, hadd] at hroom
  have hblank := h.blank_heapPtr hroom
  have G : CanGraft edgeFormat 3 (edges armFormat (view s.mem)) root lvl path t i
      (pageOf s.heapPtr) (some (pageOf s.heapPtr)) id :=
    { layered := layered_edges h.inv.layered
      parent := descend_edges hd
      interior := hlen
      notFollowed := hrem
      followed := rfl
      dead := fun j => ⟨hblank j, rfl⟩
      origin := Or.inr ⟨hrem, h.inv.heapPtr_unowned, fun _ j => hblank j⟩ }
  have hedges : edges armFormat (view s'.mem) = graft (edges armFormat (view s.mem)) t i
      (pageOf s.heapPtr) (some (pageOf s.heapPtr)) id := by
    funext p j
    rcases G.graft_cases p j with ⟨rfl, rfl, he⟩ | ⟨rfl, he⟩ | ⟨hne, -, he⟩ <;> rw [he]
    · exact hedge
    · exact D.others _ j fun hp => G.ne_parent hp.1
    · exact D.others p j hne
  have hnot := h.paths.notMem_step (descend_edges hd) hrem
  have hcount := h.heap
  refine ⟨D.inv, h.zero.of_frame D.inv D.heapMono D.ext.frame, ?_, ?_⟩
  · rw [hedges]
    exact h.paths.graft G
  · rw [hheap, hadd, Finset.card_insert_of_notMem hnot]
    omega

/-- INTERNAL: **one level** adds one path. SRC: arch/armv8/txln_table.c:100-176 -/
theorem level (h : Counted L root lvl A s) {path : List Slot} {t c : Page} {i : Slot}
    {lvl' : Page → Option ℕ} (hd : descend armFormat (view s.mem) root path = some t)
    (hlen : path.length < 3) (D : Descended True L root s lvl path t i s' lvl' c) :
    Counted L root lvl' (insert (path ++ [i]) A) s' := by
  have hd' := D.ext.descend_keep path t (by omega) hd
  have hnext := D.reached
  rw [descend_concat, hd', Option.bind_some] at hnext
  have hedge : edges armFormat (view s'.mem) t i = some c := armFormat.next_child _ _ hnext
  cases hrem : remembered (view s.mem t i) with
  | some q => exact h.level_known hlen D hedge hrem
  | none => exact h.level_taken hd hlen D hedge hrem

/-- INTERNAL: writing a leaf adds no path. SRC: arch/armv8/txln_table.c:184-204 -/
theorem leaf (h : Counted L root lvl A s) {t : Page} (ht : lvl t = some 3) (i : Slot)
    (w : BitVec 64) : Counted L root lvl A (s.store (slotAddr t i) w) := by
  have hinv := inv_storeLeaf h.inv ht i w
  refine ⟨hinv, h.zero.of_frame hinv (Nat.le_refl _) fun a ha => frame_storeLeaf ht i w ha, ?_,
    h.heap⟩
  have hedges : edges armFormat (view (s.store (slotAddr t i) w).mem) =
      setEntry (edges armFormat (view s.mem)) t i (remembered w) := by
    have hview : view (s.store (slotAddr t i) w).mem = setEntry (view s.mem) t i w :=
      view_update _ _ _ _
    funext p j
    rw [edges, hview]
    by_cases hp : p = t ∧ j = i
    · obtain ⟨rfl, rfl⟩ := hp
      rw [setEntry_self, setEntry_self]
      rfl
    · rw [setEntry_of_ne _ _ _ _ hp, setEntry_of_ne _ _ _ _ hp]
      rfl
  rw [hedges]
  exact h.paths.setLeaf (layered_edges h.inv.layered) ht _ _

end Counted

/-! ## Calls -/

/-- INTERNAL: the address a call maps. -/
def virtAddr : Call → Option (BitVec 64)
  | .createPageMapping _ _ va => some va
  | _ => none

/-- INTERNAL: the addresses some calls map. -/
def mapped (calls : List Call) : Finset (BitVec 64) := (calls.filterMap virtAddr).toFinset

/-- INTERNAL: a sequence maps the addresses its parts map. -/
theorem mapped_append (calls calls' : List Call) :
    mapped (calls ++ calls') = mapped calls ∪ mapped calls' := by
  rw [mapped, List.filterMap_append, List.toFinset_append]
  rfl

namespace Counted

variable {vas : Finset (BitVec 64)}

/-- INTERNAL: **a mapping call** adds the paths of its address.
SRC: arch/armv8/txln_table.c:206-246 -/
theorem mapping (h : Counted L root lvl (tablePaths vas) s) {kind : Kind} {pa va : BitVec 64}
    {rc : Int}
    (hcall : memCreatePageMapping L kind pa va s = some (rc, s')) :
    ∃ lvl', Counted L root lvl' (tablePaths (insert va vas)) s' := by
  rw [memCreatePageMapping_eq, Option.map_eq_some_iff] at hcall
  obtain ⟨⟨a, s₃⟩, hlookups, hstore⟩ := hcall
  simp only [Prod.mk.injEq] at hstore
  obtain ⟨-, rfl⟩ := hstore
  obtain ⟨s₁, lvl₁, t₁, s₂, lvl₂, t₂, lvl₃, t₃, rfl, hlvl₃, D₁, D₂, D₃⟩ :=
    getL3TableOf_levels h.inv (pathReady_of_zero h.inv h.zero va) hlookups
  have h₁ := h.level (descend_nil _ _ _) (by decide) D₁
  have h₂ := h₁.level D₁.reached (by simp) D₂
  have h₃ := h₂.level D₂.reached (by simp) D₃
  have hentry : getL3Descriptor (base t₃) va = slotAddr t₃ (vaSlot 12 va) :=
    wordAddr_tableIndex t₃ 12 va
  rw [hentry, tablePaths_insert]
  exact ⟨lvl₃, h₃.leaf hlvl₃ _ _⟩

/-- INTERNAL: **`clear_txln_table`** forgets no path. SRC: arch/armv8/txln_table.c:72-80 -/
theorem clear {A : Finset (List Slot)} (h : Counted L root lvl A s)
    (hcall : clearTxlnTable L s = some s') : Counted L root lvl A s' := by
  obtain ⟨hinv, hheap, hframe, -⟩ := clearTxlnTable_spec h.inv hcall True
  have hedges : edges armFormat (view s'.mem) = edges armFormat (view s.mem) := by
    funext p i
    exact clearTxlnTable_remembered h.inv hcall p i
  refine ⟨hinv, h.zero.of_frame hinv (Nat.le_of_eq (by rw [hheap])) fun a ha => hframe a ?_, ?_, ?_⟩
  · intro hr
    rw [hr, h.inv.layered.root_level] at ha
    cases ha
  · rw [hedges]
    exact h.paths
  · rw [hheap]
    exact h.heap

/-- INTERNAL: a call adds to the tables those on the path of its address, and the heap pointer
counts them. -/
theorem step (h : Counted L root lvl (tablePaths vas) s) {c : Call}
    (hstep : Program.Armv8Tables.step L s c = some s') :
    ∃ lvl', Counted L root lvl' (tablePaths (vas ∪ mapped [c])) s' := by
  cases c with
  | getTxlnTable =>
    simp only [Program.Armv8Tables.step, getTxlnTable, getL0Table_of_inv h.inv, Option.map_some,
      Option.some.injEq] at hstep
    subst hstep
    rw [show mapped [.getTxlnTable] = ∅ from rfl, Finset.union_empty]
    exact ⟨lvl, h⟩
  | clearTxlnTable =>
    rw [show mapped [.clearTxlnTable] = ∅ from rfl, Finset.union_empty]
    exact ⟨lvl, h.clear hstep⟩
  | createPageMapping kind pa va =>
    simp only [Program.Armv8Tables.step, Option.map_eq_some_iff, Prod.exists,
      exists_eq_right] at hstep
    obtain ⟨rc, hcall⟩ := hstep
    have hvas : vas ∪ mapped [.createPageMapping kind pa va] = insert va vas := by
      rw [show mapped [.createPageMapping kind pa va] = {va} from rfl, Finset.union_comm,
        Finset.insert_eq]
    rw [hvas]
    exact h.mapping hcall

/-- INTERNAL: **a run**. Induction on the calls. -/
theorem run {calls : List Call} (h : Counted L root lvl (tablePaths vas) s)
    (hrun : Program.Armv8Tables.run L s calls = some s') :
    ∃ lvl', Counted L root lvl' (tablePaths (vas ∪ mapped calls)) s' := by
  induction calls generalizing vas s lvl with
  | nil =>
    cases hrun
    rw [show mapped [] = ∅ from rfl, Finset.union_empty]
    exact ⟨lvl, h⟩
  | cons c calls ih =>
    simp only [Program.Armv8Tables.run, List.foldlM_cons, Option.bind_eq_bind,
      Option.bind_eq_some_iff] at hrun
    obtain ⟨s₁, hstep, hrest⟩ := hrun
    obtain ⟨lvl₁, h₁⟩ := h.step hstep
    rw [← List.singleton_append, mapped_append, ← Finset.union_assoc]
    exact ih h₁ hrest

end Counted

/-- INTERNAL: the root is one page, without paths. SRC: arch/armv8/txln_table.c:67-70 -/
theorem counted_of_fresh {a : BitVec 64} (h : Fresh L s) (hz : ZeroHeap L s)
    (hcall : getL0Table L s = some (a, s')) :
    ∃ root, a = base root ∧ Counted L root (rootOnly root) ∅ s' := by
  obtain ⟨root, rfl, hinv, hz', -⟩ := root_of_fresh h hz hcall
  have hord := L.ordered
  have halign := L.aligned
  rw [← h.heap] at hord halign
  rw [getL0Table, if_pos h.noTable, Option.bind_eq_bind, Option.bind_eq_some_iff] at hcall
  obtain ⟨⟨page, s₁⟩, hpage, hcall⟩ := hcall
  obtain ⟨rfl, rfl, hadd, hroom⟩ := heapGetPage_spec hord hpage
  simp only [Option.some.injEq, Prod.mk.injEq] at hcall
  obtain ⟨hroot, rfl⟩ := hcall
  refine ⟨root, rfl, hinv, hz', paths_empty fun i => ?_, ?_⟩
  · have hword := hz.blank halign (Nat.le_refl _) hroom i
    rw [hroot, pageOf_base] at hword
    show remembered (view s.mem root i) = none
    rw [hword]
    rfl
  · rw [Finset.card_empty, ← h.heap, ← hadd]

/-- SOURCE: arch/armv8/txln_table.c:60-176, arch/armv8/heap.c:11-25 — **remapping takes no
pages**: on a heap that reads as zero, every sequence of one or more calls that does not exhaust
the heap takes one page for the root and one for each different value of bits 47:39, of bits
47:30 and of bits 47:21 of all addresses it maps, however often and in whatever order they are
mapped and cleared. -/
theorem run_takes_pages_once (L : HeapLayout) (mem : Memory) (calls : List Call) (s : Machine)
    (hzero : ∀ a : BitVec 64, L.heapStart.toNat ≤ a.toNat → a.toNat < L.heapEnd.toNat → mem a = 0)
    (hcalls : calls ≠ []) (hrun : run L (armv8HeapInit L mem) calls = some s) :
    s.heapPtr.toNat = L.heapStart.toNat + 4096 * (1 + tableCount (mapped calls)) := by
  have hz : ZeroHeap L (armv8HeapInit L mem) := hzero
  cases calls with
  | nil => exact absurd rfl hcalls
  | cons c calls =>
    -- the first call takes the root whatever it is
    have hfirst := hrun
    rw [run, List.foldlM_cons, Option.bind_eq_bind, Option.bind_eq_some_iff] at hfirst
    obtain ⟨s₁, hstep, hrest⟩ := hfirst
    obtain ⟨a, s₀, hroot⟩ := root_of_step hstep
    obtain ⟨root, rfl, hcounted⟩ := counted_of_fresh ⟨rfl, rfl⟩ hz hroot
    rw [← tablePaths_empty] at hcounted
    rw [step_of_root c hroot (getL0Table_of_inv hcounted.inv)] at hstep
    have hcalls : run L s₀ (c :: calls) = some s := by
      rw [run, List.foldlM_cons, hstep]
      exact hrest
    obtain ⟨lvl, h⟩ := hcounted.run hcalls
    rw [← card_tablePaths, ← Finset.empty_union (mapped (c :: calls))]
    exact h.heap

/-- INTERNAL: a heap with a page for every path, and the four a call may want, never runs out. -/
theorem Counted.mapping_returns {vas : Finset (BitVec 64)}
    (h : Counted L root lvl (tablePaths vas) s)
    (hroom : L.heapStart.toNat + 4096 * (2 ^ 9 + 2 ^ 18 + 2 ^ 27 + 5) ≤ L.heapEnd.toNat)
    (kind : Kind) (pa va : BitVec 64) : ∃ s', memCreatePageMapping L kind pa va s = some (0, s') := by
  have hheap := h.heap
  have hpaths := card_tablePaths_le vas
  obtain ⟨s', hstep, -⟩ := step_returns (L := L) (s := s) (.createPageMapping kind pa va) (by omega)
  obtain ⟨⟨rc, s₁⟩, hcall, rfl⟩ := Option.map_eq_some_iff.mp hstep
  rw [memCreatePageMapping_eq, Option.map_eq_some_iff] at hcall
  obtain ⟨r, hlookups, -⟩ := hcall
  rw [memCreatePageMapping_eq, hlookups]
  exact ⟨_, rfl⟩

/-- INTERNAL: one page mapped again after a reset. -/
theorem run_takes_pages_once_remap :
    ∃ s, run smallHeap (armv8HeapInit smallHeap fun _ => 0)
      [.createPageMapping .data 0x5000 0x7123, .clearTxlnTable,
        .createPageMapping .device 0x9000 0x7000] = some s ∧
      s.heapPtr.toNat = 0x1000 + 4096 * 4 := by
  obtain ⟨s, hs⟩ := run_returns (L := smallHeap) (s := armv8HeapInit smallHeap fun _ => 0)
    [.createPageMapping .data 0x5000 0x7123, .clearTxlnTable,
      .createPageMapping .device 0x9000 0x7000] (by decide)
  exact ⟨s, hs, run_takes_pages_once smallHeap (fun _ => 0) _ s (fun _ _ _ => rfl) (by simp) hs⟩

end Simbench.Analysis.Armv8TableCount
