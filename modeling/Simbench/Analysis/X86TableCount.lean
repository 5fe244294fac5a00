import Mathlib.Data.Finset.Card
import Mathlib.Data.Finset.Lattice.Fold
import Simbench.Analysis.X86HeapStack
import Simbench.Analysis.X86Refinement
import Simbench.Library.TreePaths

/-!
# How many pages the x86-64 page tables take

The tables below the root are in bijection with the index paths a walk can follow, and every
table is one page of the heap. A mapping call adds the three paths of its address, so calls
take as many pages as their addresses have paths between them, and repeating them takes none.
-/

set_option autoImplicit false

namespace Simbench.Analysis.X86TableCount

open Simbench.Library.RadixTree Simbench.Library.PagedMemory Simbench.Library.TableWalk
open Simbench.Library.TreePaths
open Simbench.Program.X86PageTables Simbench.Program.X86Boot
open Simbench.Analysis.X86PageTableInvariant Simbench.Analysis.X86Refinement
open Simbench.Analysis.X86HeapStack

/-! ## Paths -/

/-- INTERNAL: the paths to the three tables a walk for the address meets below the root. -/
def paths (va : BitVec 64) : Finset (List Slot) :=
  {[vaSlot 39 va], [vaSlot 39 va, vaSlot 30 va], vaPath va}

/-- INTERNAL: the tables that several addresses need, those of each together. -/
def pathsOf : List (BitVec 64) → Finset (List Slot)
  | [] => ∅
  | va :: vas => paths va ∪ pathsOf vas

/-- INTERNAL: the tables of an address are among those of its list. -/
theorem paths_subset_pathsOf {vas : List (BitVec 64)} {va : BitVec 64} (h : va ∈ vas) :
    paths va ⊆ pathsOf vas := by
  induction vas with
  | nil => cases h
  | cons va' vas ih =>
    rcases List.mem_cons.mp h with rfl | h
    · exact Finset.subset_union_left
    · exact (ih h).trans Finset.subset_union_right

/-- INTERNAL: the tables of a list are in a set when each address's are. -/
theorem pathsOf_subset {vas : List (BitVec 64)} {A : Finset (List Slot)}
    (h : ∀ va ∈ vas, paths va ⊆ A) : pathsOf vas ⊆ A := by
  induction vas with
  | nil => exact Finset.empty_subset A
  | cons va vas ih =>
    exact Finset.union_subset (h va List.mem_cons_self)
      (ih fun va' h' => h va' (List.mem_cons_of_mem _ h'))

/-! ## The count -/

/-- INTERNAL: the walks of the tree are the paths in `P`, and with the `k` pages taken before
the tree was started, they are what the heap has handed out. -/
structure Counted (image : Image) (k : ℕ) (root : Page) (P : Finset (List Slot)) (s : Machine) :
    Prop where
  inv : ∃ lvl, Inv s root lvl
  heap : HeapAt image (k + P.card) s
  room : k + P.card ≤ 64
  walks : ∀ path, path ∈ P ↔ path ≠ [] ∧ path.length ≤ 3 ∧
    ∃ q, descend x86Format (view s.mem) root path = some q

/-- INTERNAL: an allocation that fails is one of an empty entry. -/
theorem populate_eq_none {pte : BitVec 64} {s : Machine} (h : populate pte s = none) :
    heapAllocPage s = none ∧ isPresent pte s.mem = false := by
  cases hpresent : isPresent pte s.mem with
  | true => simp [populate, hpresent] at h
  | false =>
    refine ⟨?_, rfl⟩
    cases halloc : heapAllocPage s with
    | none => rfl
    | some result =>
      unfold populate at h
      rw [hpresent, halloc] at h
      split at h
      · cases h
      · split at h <;> cases h

/-- INTERNAL: on a full heap an empty entry cannot be filled. -/
theorem populate_of_full {pte : BitVec 64} {s : Machine} (hzero : s.mem pte = 0)
    (halloc : heapAllocPage s = none) : populate pte s = none := by
  obtain ⟨hpresent, hbase⟩ := empty_entry hzero
  unfold populate
  rw [hpresent, hbase, halloc]
  rfl

/-- INTERNAL: the walks of the tree are the paths in `P`, on any heap. -/
structure Tree (root : Page) (P : Finset (List Slot)) (s : Machine) : Prop where
  inv : ∃ lvl, Inv s root lvl
  walks : Paths x86Format 3 (view s.mem) root P

/-- INTERNAL: as many pages were taken on the way to `s'` as paths were added. -/
structure Taken (P : Finset (List Slot)) (s : Machine) (P' : Finset (List Slot)) (s' : Machine) :
    Prop where
  heapCur : s'.heapCur.toNat + 4096 * P.card = s.heapCur.toNat + 4096 * P'.card
  heapEnd : s'.heapEnd = s.heapEnd

/-- INTERNAL: no step takes no page. -/
theorem Taken.refl {P : Finset (List Slot)} {s : Machine} : Taken P s P s := ⟨rfl, rfl⟩

/-- INTERNAL: pages taken one after the other are as many as the new paths. -/
theorem Taken.trans {P₁ P₂ P₃ : Finset (List Slot)} {s₁ s₂ s₃ : Machine}
    (h₁ : Taken P₁ s₁ P₂ s₂) (h₂ : Taken P₂ s₂ P₃ s₃) : Taken P₁ s₁ P₃ s₃ := by
  have hcur₁ := h₁.heapCur
  have hcur₂ := h₂.heapCur
  refine ⟨?_, h₂.heapEnd.trans h₁.heapEnd⟩
  omega

section Tree

variable {root t : Page} {P : Finset (List Slot)} {s s' : Machine} {path : List Slot} {i : Slot}

/-- INTERNAL: **one level** that returns adds one path, and takes a page if it was not there.
SRC: arch/x86_64/mem.c:162-186 -/
theorem Tree.populate (h : Tree root P s) (hd : descend x86Format (view s.mem) root path = some t)
    (hlen : path.length < 3) (hcall : Program.X86PageTables.populate (slotAddr t i) s = some s') :
    Tree root (insert (path ++ [i]) P) s' ∧ Taken P s (insert (path ++ [i]) P) s' ∧
      (path ++ [i] ∉ P → heapAllocPage s ≠ none) ∧ ∃ c,
        getBaseAddress (slotAddr t i) s'.mem = base c ∧
        descend x86Format (view s'.mem) root (path ++ [i]) = some c := by
  obtain ⟨lvl, hinv⟩ := h.inv
  rcases populate_cases hinv hd hlen hcall with ⟨rfl, c, he, hc⟩ | ⟨hzero, c, G⟩
  · -- the path was there before
    have hreached : descend x86Format (view s'.mem) root (path ++ [i]) = some c := by
      rw [descend_concat, hd, Option.bind_some, he, next_entryWord hc]
    have hmem := h.walks.mem_step hlen hreached
    have hread : s'.mem (slotAddr t i) = view s'.mem t i := rfl
    rw [Finset.insert_eq_of_mem hmem]
    refine ⟨h, Taken.refl, fun hnot => absurd hmem hnot, c, ?_, hreached⟩
    rw [getBaseAddress, hread, he, entryWord_base, pageOf_base]
  · -- the new table is the only new walk
    have hnot : path ++ [i] ∉ P := h.walks.notMem_step hd (by rw [hzero]; exact x86Format_zero.1)
    have hcur := G.heapCur
    refine ⟨⟨⟨_, G.inv hinv⟩, ?_⟩, ⟨?_, G.heapEnd⟩, fun _ halloc => ?_, c, G.getBaseAddress_eq,
      G.reached⟩
    · rw [G.view_eq]
      exact h.walks.graft G.canGraft
    · rw [Finset.card_insert_of_notMem hnot]
      omega
    · rw [populate_of_full hzero halloc] at hcall
      cases hcall

/-- INTERNAL: writing a leaf opens no walk. -/
theorem Tree.leaf (h : Tree root P s) {va : BitVec 64}
    (hd : descend x86Format (view s.mem) root (vaPath va) = some t) (w : BitVec 64) :
    Tree root P { s with mem := Function.update s.mem (slotAddr t (vaSlot 12 va)) w } := by
  obtain ⟨lvl, hinv⟩ := h.inv
  have hlvl : lvl t = some 3 := hinv.layered.descend_level (vaPath va) t (Nat.le_refl _) hd
  have hview : view (Function.update s.mem (slotAddr t (vaSlot 12 va)) w) =
      setEntry (view s.mem) t (vaSlot 12 va) w := view_update _ _ _ _
  refine ⟨⟨lvl, hinv.table, ?_, ?_, hinv.owned, hinv.rootNonzero, hinv.heapAligned,
    hinv.heapEnd_le⟩, ?_⟩
  · rw [hview]
    exact hinv.layered.setLeaf hlvl _ _
  · intro p n i hp hn
    have hpt : ¬(p = t ∧ i = vaSlot 12 va) := by
      rintro ⟨rfl, -⟩
      rw [hlvl, Option.some.injEq] at hp
      omega
    rw [hview, setEntry_of_ne _ _ _ _ hpt]
    exact hinv.entry i hp hn
  · rw [hview]
    exact h.walks.setLeaf hinv.layered hlvl _ _

/-- INTERNAL: **one mapping call** that returns adds the paths of its address.
SRC: arch/x86_64/mem.c:155-191 -/
theorem Tree.createPageMapping {vas : Finset (BitVec 64)} (h : Tree root (tablePaths vas) s)
    {pa va : BitVec 64}
    (hcall : Program.X86PageTables.createPageMapping (base root) pa va s = some s') :
    Tree root (tablePaths (insert va vas)) s' ∧
      Taken (tablePaths vas) s (tablePaths (insert va vas)) s' := by
  simp only [Program.X86PageTables.createPageMapping, calculateIndicies, wordAddr_tableIndex,
    Option.bind_eq_bind, Option.bind_eq_some_iff, setFlags_setBaseAddress,
      Option.some.injEq] at hcall
  obtain ⟨s₁, hcall₁, s₂, hcall₂, s₃, hcall₃, rfl⟩ := hcall
  obtain ⟨h₁, htaken₁, -, t₁, hbase₁, hd₁⟩ := h.populate (descend_nil _ _ _) (by decide) hcall₁
  rw [hbase₁, wordAddr_tableIndex] at hcall₂ hcall₃ ⊢
  obtain ⟨h₂, htaken₂, -, t₂, hbase₂, hd₂⟩ := h₁.populate hd₁ (by simp) hcall₂
  rw [hbase₂, wordAddr_tableIndex] at hcall₃ ⊢
  obtain ⟨h₃, htaken₃, -, t₃, hbase₃, hd₃⟩ := h₂.populate hd₂ (by simp) hcall₃
  rw [hbase₃, wordAddr_tableIndex, tablePaths_insert]
  have htaken := htaken₁.trans (htaken₂.trans htaken₃)
  exact ⟨h₃.leaf hd₃ _, htaken.heapCur, htaken.heapEnd⟩

/-- INTERNAL: **a run** that returns. Induction on the calls. -/
theorem Tree.run {calls : List Call} {vas : Finset (BitVec 64)} (h : Tree root (tablePaths vas) s)
    (hrun : Program.X86PageTables.run s calls = some s') :
    Taken (tablePaths vas) s (tablePaths (vas ∪ (calls.map Call.virtAddr).toFinset)) s' := by
  induction calls generalizing vas s with
  | nil =>
    cases hrun
    rw [List.map_nil, List.toFinset_nil, Finset.union_empty]
    exact Taken.refl
  | cons c calls ih =>
    obtain ⟨lvl, hinv⟩ := h.inv
    simp only [Program.X86PageTables.run, List.foldlM_cons, step_eq, hinv.table,
      Option.bind_eq_bind,
      Option.bind_eq_some_iff] at hrun
    obtain ⟨s₁, hstep, hrest⟩ := hrun
    obtain ⟨h₁, htaken⟩ := h.createPageMapping hstep
    have hvas : vas ∪ ((c :: calls).map Call.virtAddr).toFinset =
        insert c.virtAddr vas ∪ (calls.map Call.virtAddr).toFinset := by
      rw [List.map_cons, List.toFinset_cons, Finset.union_insert, Finset.insert_union]
    rw [hvas]
    exact htaken.trans (ih h₁ hrest)

end Tree

section Calls

variable {image : Image} {k : ℕ} {root : Page} {P : Finset (List Slot)} {s : Machine}

/-- INTERNAL: a call that runs out of heap when the walks are to be `P'`, or one that returns. -/
def Takes (image : Image) (k : ℕ) (root : Page) (P' : Finset (List Slot))
    (post : Machine → Prop) (r : Option Machine) : Prop :=
  (r = none ∧ 64 < k + P'.card) ∨ ∃ s', r = some s' ∧ Counted image k root P' s' ∧ post s'

/-- INTERNAL: tables that are counted are a tree. -/
theorem Counted.tree (h : Counted image k root P s) : Tree root P s := ⟨h.inv, h.walks⟩

/-- INTERNAL: what a call that takes a page for every new path leaves of the heap. -/
theorem Counted.of_tree {P' : Finset (List Slot)} {s' : Machine} (h : Counted image k root P s)
    (htree : Tree root P' s') (htaken : Taken P s P' s') (hroom : k + P'.card ≤ 64) :
    Counted image k root P' s' := by
  have hcur := htaken.heapCur
  have hcurAt := h.heap.cur
  refine ⟨htree.inv, ⟨by omega, ?_⟩, hroom, htree.walks⟩
  rw [htaken.heapEnd]
  exact h.heap.limit

/-- INTERNAL: **one level** adds one path. SRC: arch/x86_64/mem.c:162-186 -/
theorem Counted.populate (h : Counted image k root P s) {t : Page} {path : List Slot}
    (i : Slot) (hd : descend x86Format (view s.mem) root path = some t) (hlen : path.length < 3) :
    Takes image k root (insert (path ++ [i]) P) (fun s' => ∃ c,
      getBaseAddress (slotAddr t i) s'.mem = base c ∧
        descend x86Format (view s'.mem) root (path ++ [i]) = some c)
      (Program.X86PageTables.populate (slotAddr t i) s) := by
  obtain ⟨lvl, hinv⟩ := h.inv
  have ht := hinv.layered.descend_level path t (by omega) hd
  cases hcall : Program.X86PageTables.populate (slotAddr t i) s with
  | none =>
    obtain ⟨halloc, hpresent⟩ := populate_eq_none hcall
    have hzero : view s.mem t i = 0 := by
      rcases hinv.entry i ht hlen with he | ⟨c, he, -⟩
      · exact he
      · have hread : s.mem (slotAddr t i) = view s.mem t i := rfl
        rw [isPresent, getFlags, hread, he, BitVec.and_assoc, pfPresent,
          show 0xfff#64 &&& 1 = 1 by decide, entryWord_present] at hpresent
        cases hpresent
    have hnot := h.tree.walks.notMem_step hd (by rw [hzero]; exact x86Format_zero.1)
    left
    refine ⟨rfl, ?_⟩
    rw [Finset.card_insert_of_notMem hnot]
    rcases heapAllocPage_at h.heap with ⟨-, hfull⟩ | ⟨s', hsome, -⟩
    · omega
    · rw [halloc] at hsome
      cases hsome
  | some s' =>
    right
    obtain ⟨htree, htaken, hallocates, c, hbase, hreached⟩ := h.tree.populate hd hlen hcall
    have hroom : k + (insert (path ++ [i]) P).card ≤ 64 := by
      by_cases hmem : path ++ [i] ∈ P
      · rw [Finset.insert_eq_of_mem hmem]
        exact h.room
      · rw [Finset.card_insert_of_notMem hmem]
        rcases heapAllocPage_at h.heap with ⟨hnone, -⟩ | ⟨-, -, hlt, -⟩
        · exact absurd hnone (hallocates hmem)
        · omega
    exact ⟨s', rfl, h.of_tree htree htaken hroom, c, hbase, hreached⟩

/-- INTERNAL: steps one after the other take the pages of their new paths. -/
theorem Takes.bind {P₁ P₂ : Finset (List Slot)} {post₁ post₂ : Machine → Prop} {r : Option Machine}
    {f : Machine → Option Machine} (h : Takes image k root P₁ post₁ r) (hsub : P₁ ⊆ P₂)
    (hf : ∀ s₁, Counted image k root P₁ s₁ → post₁ s₁ → Takes image k root P₂ post₂ (f s₁)) :
    Takes image k root P₂ post₂ (r.bind f) := by
  rcases h with ⟨rfl, hfull⟩ | ⟨s₁, rfl, hcounted, hpost⟩
  · have hle := Finset.card_le_card hsub
    exact Or.inl ⟨rfl, by omega⟩
  · exact hf s₁ hcounted hpost

/-- INTERNAL: storing a leaf takes no page. -/
theorem Counted.leaf (h : Counted image k root P s) {va : BitVec 64} {t : Page}
    (hd : descend x86Format (view s.mem) root (vaPath va) = some t) (w : BitVec 64) :
    Counted image k root P
      { s with mem := Function.update s.mem (slotAddr t (vaSlot 12 va)) w } :=
  h.of_tree (h.tree.leaf hd w) ⟨rfl, rfl⟩ h.room

/-- INTERNAL: **one mapping call** adds the three paths of its address.
SRC: arch/x86_64/mem.c:155-191 -/
theorem Counted.createPageMapping (h : Counted image k root P s) (pa va : BitVec 64) :
    Takes image k root (P ∪ paths va) (fun _ => True)
      (Program.X86PageTables.createPageMapping (base root) pa va s) := by
  have hpaths : P ∪ paths va =
      insert (vaPath va) (insert [vaSlot 39 va, vaSlot 30 va] (insert [vaSlot 39 va] P)) := by
    ext path
    simp only [paths, Finset.mem_union, Finset.mem_insert, Finset.mem_singleton]
    tauto
  simp only [Program.X86PageTables.createPageMapping, calculateIndicies, wordAddr_tableIndex,
    Option.bind_eq_bind, setFlags_setBaseAddress]
  rw [hpaths]
  refine (h.populate (vaSlot 39 va) (descend_nil _ _ _) (by decide)).bind
    ((Finset.subset_insert _ _).trans (Finset.subset_insert _ _)) ?_
  rintro s₁ h₁ ⟨t₁, hbase₁, hd₁⟩
  simp only [hbase₁, wordAddr_tableIndex]
  refine (h₁.populate (vaSlot 30 va) hd₁ (by simp)).bind (Finset.subset_insert _ _) ?_
  rintro s₂ h₂ ⟨t₂, hbase₂, hd₂⟩
  simp only [hbase₂, wordAddr_tableIndex]
  refine (h₂.populate (vaSlot 21 va) hd₂ (by simp)).bind (Finset.Subset.refl _) ?_
  rintro s₃ h₃ ⟨t₃, hbase₃, hd₃⟩
  simp only [hbase₃, wordAddr_tableIndex]
  exact Or.inr ⟨_, rfl, h₃.leaf hd₃ _, trivial⟩

/-- INTERNAL: **a run of mapping calls**. Induction on the calls. -/
theorem Counted.run (calls : List Call) (h : Counted image k root P s) :
    Takes image k root (P ∪ pathsOf (calls.map Call.virtAddr)) (fun _ => True)
      (Program.X86PageTables.run s calls) := by
  induction calls generalizing P s with
  | nil =>
    rw [List.map_nil, pathsOf, Finset.union_empty]
    exact Or.inr ⟨s, rfl, h, trivial⟩
  | cons c calls ih =>
    obtain ⟨lvl, hinv⟩ := h.inv
    rw [List.map_cons, pathsOf, ← Finset.union_assoc, Program.X86PageTables.run, List.foldlM_cons,
      step_eq, hinv.table]
    exact (h.createPageMapping c.physAddr c.virtAddr).bind Finset.subset_union_left
      fun s₁ h₁ _ => ih h₁

end Calls

/-- INTERNAL: a new root has no walks. SRC: arch/x86_64/mem.c:58 -/
theorem tree_of_alloc {s s' : Machine} (hready : HeapReady s)
    (hcall : allocRuntimePagetables s = some s') : Tree (pageOf s.heapCur) ∅ s' := by
  obtain ⟨⟨lvl, hinv, -⟩, -⟩ := represents_of_alloc hready hcall
  simp only [allocRuntimePagetables, Option.bind_eq_bind, Option.bind_eq_some_iff,
    Option.some.injEq, Prod.exists] at hcall
  obtain ⟨page, s₁, halloc, hs'⟩ := hcall
  obtain ⟨hpage, hs₁, -⟩ := heapAllocPage_spec hready.aligned hready.bounded halloc
  have hmem : s'.mem = fastZeroPage (base (pageOf s.heapCur)) s.mem := by
    rw [← hs', hs₁, hpage]
  refine ⟨⟨lvl, hinv⟩, paths_empty fun i => ?_⟩
  rw [hmem, fastZeroPage, view_updateWords, rewrite_self]
  exact x86Format_zero.1

/-- INTERNAL: the first page taken for a root is counted as a tree of no path. -/
theorem counted_of_alloc {image : Image} {k : ℕ} {s s' : Machine} (h : HeapAt image k s)
    (hcall : allocRuntimePagetables s = some s') :
    Counted image (k + 1) (pageOf s.heapCur) ∅ s' := by
  have hbounded := image.bounded
  have haligned := image.heapAligned
  have htext := image.text_le
  have hdata := image.data_le
  have hheap := image.heap_le
  have hstart : (textStart).toNat = 0x100000 := rfl
  have hlt := image.data_lt
  have hcur := h.cur
  have hlimit := h.limit
  rw [toNat_heapSize] at hbounded
  have htree := tree_of_alloc ⟨by omega, by omega, by omega⟩ hcall
  simp only [allocRuntimePagetables, Option.bind_eq_bind, Option.bind_eq_some_iff,
    Option.some.injEq, Prod.exists] at hcall
  obtain ⟨page, s₁, halloc, rfl⟩ := hcall
  rcases heapAllocPage_at h with ⟨hnone, -⟩ | ⟨s₁', hsome, hroom, hnext⟩
  · rw [halloc] at hnone
    cases hnone
  · rw [halloc, Option.some.injEq, Prod.mk.injEq] at hsome
    obtain ⟨rfl, rfl⟩ := hsome
    refine ⟨htree.inv, ?_, ?_, htree.walks⟩
    · rw [Finset.card_empty]
      exact ⟨hnext.cur, hnext.limit⟩
    · rw [Finset.card_empty]
      omega

/-- SOURCE: arch/x86_64/mem.c:117-191, arch/x86_64/heap.c:19-32 — **how many tables**: from a
freshly allocated root, every sequence of mapping calls that does not exhaust the heap takes one
page for each different value of bits 47:39, of bits 47:30 and of bits 47:21 of the addresses it
maps. More mappings of the same addresses, in any order, take none. Every `heap_alloc_page` moves
`heap_cur` by one page, and nothing else moves it. -/
theorem run_takes_tables (s₀ s₁ s : Machine) (calls : List Call) (hheap : HeapReady s₀)
    (hroot : allocRuntimePagetables s₀ = some s₁) (hrun : run s₁ calls = some s) :
    s.heapCur.toNat = s₁.heapCur.toNat + 4096 * tableCount (calls.map Call.virtAddr).toFinset ∧
    ∀ more s', (∀ c ∈ more, c.virtAddr ∈ calls.map Call.virtAddr) → run s more = some s' →
      s'.heapCur = s.heapCur := by
  have htree : Tree (pageOf s₀.heapCur) (tablePaths ∅) s₁ := tree_of_alloc hheap hroot
  have hcount : ∀ {calls s}, run s₁ calls = some s → s.heapCur.toNat =
      s₁.heapCur.toNat + 4096 * tableCount (calls.map Call.virtAddr).toFinset := by
    intro calls s hrun
    have hcur := (htree.run hrun).heapCur
    rwa [Finset.empty_union, tablePaths_empty, Finset.card_empty, Nat.mul_zero, Nat.add_zero,
      card_tablePaths] at hcur
  refine ⟨hcount hrun, fun more s' hmore hrun' => ?_⟩
  have hboth : run s₁ (calls ++ more) = some s' := by
    rw [run, List.foldlM_append]
    exact Option.bind_eq_some_iff.mpr ⟨s, hrun, hrun'⟩
  have hsame : ((calls ++ more).map Call.virtAddr).toFinset =
      (calls.map Call.virtAddr).toFinset := by
    rw [List.map_append, List.toFinset_append]
    apply Finset.union_eq_left.mpr
    intro va hva
    rw [List.mem_toFinset, List.mem_map] at hva
    obtain ⟨c, hc, rfl⟩ := hva
    exact List.mem_toFinset.mpr (hmore c hc)
  have hboth' := hcount hboth
  rw [hsame] at hboth'
  apply BitVec.eq_of_toNat_eq
  rw [hboth', hcount hrun]

/-- INTERNAL: three addresses with two last-level tables between them. -/
theorem run_takes_tables_three :
    ∃ s₁, allocRuntimePagetables (heapInit 0x100000 0x40000 fun _ => 0xffff) = some s₁ ∧
      ∃ s, run s₁ [.data 0x5000 0x7123, .code 0x9000 0x200000, .data 0x6000 0x8000] = some s ∧
        s.heapCur.toNat = s₁.heapCur.toNat + 4096 * 4 := by
  refine ⟨_, rfl, ?_⟩
  obtain ⟨s, hs⟩ := run_returns (s := { heapInit 0x100000 0x40000 fun _ => 0xffff with
    heapCur := 0x101000
    mem := fastZeroPage 0x100000 fun _ => 0xffff
    runtimePagetables := 0x100000 }) [.data 0x5000 0x7123, .code 0x9000 0x200000,
      .data 0x6000 0x8000]
    (by decide)
  have htables := (run_takes_tables (heapInit 0x100000 0x40000 fun _ => 0xffff) _ s
    [.data 0x5000 0x7123, .code 0x9000 0x200000, .data 0x6000 0x8000]
    ⟨by decide, by decide, by decide⟩ rfl hs).1
  have hcount : tableCount ([Call.data 0x5000 0x7123, .code 0x9000 0x200000,
    .data 0x6000 0x8000].map Call.virtAddr).toFinset = 4 := by decide
  rw [hcount] at htables
  exact ⟨s, hs, htables⟩

end Simbench.Analysis.X86TableCount
