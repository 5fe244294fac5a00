import Simbench.Analysis.Armv8Descriptors

/-!
# The tree of ARMv8 translation tables

`Inv` is the invariant of the table memory: the pages the allocator has handed out for
tables form a layered radix tree below `l0_table`, where an entry *remembers* a table as
long as its address field is non-zero, whatever its valid bits say. Clearing only
touches valid bits, so a cleared subtree stays in the tree and is scrubbed one level at a
time when its parent entry is linked again.

Each level of a mapping call is one case of `Inv.link`: the next table is scrubbed while
no walk reaches it and then linked below an invalid entry, so no translation changes
(`TableWalk.Extends.lookup_eq`). Nothing is assumed about the heap beyond what a step reads: a page
taken for a table above the last level must not name tables yet.
-/

set_option autoImplicit false

namespace Simbench.Analysis.Armv8TableInvariant

open Simbench.Library.RadixTree Simbench.Library.PagedMemory Simbench.Library.TableWalk
open Simbench.Program.Armv8Tables Simbench.Analysis.Armv8Descriptors

/-- INTERNAL: the invariant once `l0_table` is set; `lvl` gives every table its level, and
`clean` says whether the words of the L0 page were valid-bit clean when it was taken. -/
structure Inv (clean : Prop) (L : HeapLayout) (s : Machine) (root : Page)
    (lvl : Page → Option ℕ) : Prop where
  table : s.l0Table = base root
  layered : Layered armFormat 3 (view s.mem) root lvl
  linked : ∀ {p n i}, lvl p = some n → n < 3 → view s.mem p i &&& addressMask ≠ 0 →
    view s.mem p i &&& 3 = 0 ∨ view s.mem p i &&& 3 = 3
  unlinked : ∀ {p n i}, lvl p = some n → p ≠ root ∨ clean → n < 3 →
    view s.mem p i &&& addressMask = 0 → view s.mem p i &&& 3 = 0
  owned : ∀ {p n}, lvl p = some n →
    L.heapStart.toNat ≤ p.toNat * 4096 ∧ p.toNat * 4096 < s.heapPtr.toNat
  heapAligned : s.heapPtr.toNat % 4096 = 0
  heapBound : s.heapPtr.toNat ≤ L.heapEnd.toNat

/-- INTERNAL: the machine after a table was scrubbed and linked below an entry. -/
def linkTable (s : Machine) (t c : Page) (i : Slot) (heapPtr : BitVec 64) : Machine :=
  { mem := Function.update (updateWords (fun data => data &&& ~~~3#64) (base c) 512 s.mem)
      (slotAddr t i) (base c ||| 3)
    l0Table := s.l0Table
    heapPtr := heapPtr }

/-- INTERNAL: clearing the new page and storing its link is one linking step of the tree. -/
theorem store_clearTable (s : Machine) (t c : Page) (i : Slot) (heapPtr : BitVec 64) :
    (clearTable 512 (base c) { s with heapPtr := heapPtr }).store (slotAddr t i) (base c ||| 3) =
      linkTable s t c i heapPtr := by
  simp only [clearTable, Machine.store, linkTable]

/-- INTERNAL: in the view of the tree that step empties the new table and sets one entry. -/
theorem view_linkTable (s : Machine) (t c : Page) (i : Slot) (heapPtr : BitVec 64) :
    view (linkTable s t c i heapPtr).mem =
      setEntry (rewrite (view s.mem) c fun data => data &&& ~~~3#64) t i (base c ||| 3) := by
  unfold linkTable
  rw [view_update, view_updateWords]

namespace Inv

variable {clean : Prop} {L : HeapLayout} {s : Machine} {root : Page} {lvl : Page → Option ℕ}

/-- INTERNAL: tables are never page zero and lie below 2^48. -/
theorem page_bounds (h : Inv clean L s root lvl) {p : Page} {n : ℕ} (hp : lvl p = some n) :
    p.toNat ≠ 0 ∧ p.toNat * 4096 < 2 ^ 48 := by
  have ho := h.owned hp
  have hb := h.heapBound
  have h0 := L.nonzero
  have h48 := L.bounded
  omega

/-- INTERNAL: a machine with tables in order has a root. -/
theorem hasTable (h : Inv clean L s root lvl) : s.l0Table ≠ 0 := by
  rw [h.table]
  exact fun hz => (h.page_bounds h.layered.root_level).1 (base_eq_zero.mp hz)

/-- INTERNAL: no page behind the heap pointer is a table. -/
theorem unowned (h : Inv clean L s root lvl) {p : Page} (hp : s.heapPtr.toNat ≤ p.toNat * 4096) :
    lvl p = none := by
  cases hl : lvl p with
  | none => rfl
  | some n =>
    have ho := h.owned hl
    omega

/-- INTERNAL: a table above the last level is not the root, or the tree would have a cycle. -/
theorem ne_root (h : Inv clean L s root lvl) {p : Page} {n : ℕ} (hp : lvl p = some (n + 1)) :
    p ≠ root := by
  rintro rfl
  rw [h.layered.root_level] at hp
  cases hp

/-- INTERNAL: below the root, an interior word without an address is invalid. -/
theorem empty_of_level (h : Inv clean L s root lvl) {p : Page} {n : ℕ} {i : Slot}
    (hp : lvl p = some (n + 1)) (hn : n + 1 < 3) :
    view s.mem p i &&& addressMask = 0 → view s.mem p i &&& 3 = 0 :=
  h.unlinked hp (Or.inl (h.ne_root hp)) hn

/-- INTERNAL: the heap pointer stands on a page boundary. -/
theorem heapPtr_page (h : Inv clean L s root lvl) : base (pageOf s.heapPtr) = s.heapPtr :=
  base_pageOf h.heapAligned

/-- INTERNAL: the next page to be handed out is no table yet. -/
theorem heapPtr_unowned (h : Inv clean L s root lvl) : lvl (pageOf s.heapPtr) = none := by
  apply h.unowned
  have hpage := congrArg BitVec.toNat h.heapPtr_page
  rw [toNat_base] at hpage
  exact Nat.le_of_eq hpage.symm

/-- INTERNAL: one page at least has been handed out. -/
theorem heapStart_lt (h : Inv clean L s root lvl) : L.heapStart.toNat < s.heapPtr.toNat := by
  have ho := h.owned h.layered.root_level
  omega

/-- INTERNAL: scrubbing and linking a table below an invalid entry keeps the invariant,
every translation and every walk. The table is the one the entry remembered, or a page
outside the tree that names no tables unless it becomes a last-level table.
SRC: arch/armv8/txln_table.c:104-115 -/
theorem link (h : Inv clean L s root lvl) {path : List Slot} {t : Page}
    (hd : descend armFormat (view s.mem) root path = some t) (hlen : path.length < 3)
    (i : Slot) (c : Page) (heapPtr : BitVec 64) (hinvalid : view s.mem t i &&& 3 = 0)
    (hnew : remembered (view s.mem t i) = some c ∨ (remembered (view s.mem t i) = none ∧
      lvl c = none ∧ (path.length + 1 < 3 → ∀ j, remembered (view s.mem c j) = none)))
    (hc : L.heapStart.toNat ≤ c.toNat * 4096 ∧ c.toNat * 4096 < heapPtr.toNat)
    (hheap : s.heapPtr.toNat ≤ heapPtr.toNat) (halign : heapPtr.toNat % 4096 = 0)
    (hbound : heapPtr.toNat ≤ L.heapEnd.toNat) :
    Inv clean L (linkTable s t c i heapPtr) root (Function.update lvl c (some (path.length + 1))) ∧
    Extends armFormat root s.mem lvl (linkTable s t c i heapPtr).mem
      (Function.update lvl c (some (path.length + 1))) ∧
    descend armFormat (view (linkTable s t c i heapPtr).mem) root (path ++ [i]) = some c ∧
    ∀ p j, ¬(p = t ∧ j = i) → remembered (view (linkTable s t c i heapPtr).mem p j) =
      remembered (view s.mem p j) := by
  have h0 := L.nonzero
  have h48 := L.bounded
  have hscrub : ∀ j, armFormat.child (view s.mem c j &&& ~~~3#64) =
      armFormat.child (view s.mem c j) := fun j => child_clear _
  have G : CanGraft armFormat 3 (view s.mem) root lvl path t i c (base c ||| 3)
      fun data => data &&& ~~~3#64 :=
    { layered := h.layered
      parent := hd
      interior := hlen
      notFollowed := (next_leaf_of_invalid hinvalid).1
      followed := (child_next_link (by omega) (by omega)).2
      dead := fun j => next_leaf_of_invalid (clear_and_three _)
      origin := hnew.imp (fun hold => ⟨hold, hscrub⟩)
        fun hfresh => ⟨hfresh.1, hfresh.2.1, fun hl j => (hscrub j).trans (hfresh.2.2 hl j)⟩ }
  have hview : view (linkTable s t c i heapPtr).mem = graft (view s.mem) t i c (base c ||| 3)
      fun data => data &&& ~~~3#64 := view_linkTable s t c i heapPtr
  have hmask : (base c ||| 3) &&& addressMask ≠ 0 := by
    rw [or_three_and_addressMask, base_and_addressMask (by omega)]
    exact fun hz => by have := base_eq_zero.mp hz; omega
  have hold : ∀ {p n}, p ≠ c → Function.update lvl c (some (path.length + 1)) p = some n →
      lvl p = some n := by
    intro p n hpc hp
    rwa [Function.update_of_ne hpc] at hp
  refine ⟨⟨h.table, ?_, ?_, ?_, ?_, halign, hbound⟩,
    extends_of_graft G hview fun a hac hat => ?_, ?_, ?_⟩
  · rw [hview]
    exact G.layered_graft
  · intro p n j hp hn hne
    rw [hview] at hne ⊢
    rcases G.graft_cases p j with ⟨-, -, he⟩ | ⟨-, he⟩ | ⟨-, hpc, he⟩ <;> rw [he] at hne ⊢
    · exact Or.inr (or_three_and_three _)
    · exact Or.inl (clear_and_three _)
    · exact h.linked (hold hpc hp) hn hne
  · intro p n j hp hpos hn hz
    rw [hview] at hz ⊢
    rcases G.graft_cases p j with ⟨-, -, he⟩ | ⟨-, he⟩ | ⟨-, hpc, he⟩ <;> rw [he] at hz ⊢
    · exact absurd hz hmask
    · exact clear_and_three _
    · exact h.unlinked (hold hpc hp) hpos hn hz
  · intro p n hp
    by_cases hpc : p = c
    · subst hpc
      exact hc
    · have ho := h.owned (hold hpc hp)
      exact ⟨ho.1, Nat.lt_of_lt_of_le ho.2 hheap⟩
  · simp only [linkTable, update_slotAddr_of_ne _ _ _ _ hat, updateWords_of_ne _ _ _ hac]
  · rw [hview]
    exact G.reached_graft
  · intro p j hp
    rw [hview]
    rcases G.graft_cases p j with ⟨hpt, hji, -⟩ | ⟨-, he⟩ | ⟨-, -, he⟩
    · exact absurd ⟨hpt, hji⟩ hp
    · rw [he]
      exact child_clear _
    · rw [he]

/-- INTERNAL: the source reads an entry where the view of the tree has it. -/
theorem read_entry (s : Machine) (t : Page) (shift : ℕ) (va : BitVec 64) :
    s.mem (wordAddr (base t) (tableIndex shift 512 va)) = view s.mem t (vaSlot shift va) := by
  rw [wordAddr_tableIndex]
  rfl

end Inv

/-- INTERNAL: what `armv8_heap_get_page` does when it returns.
SRC: arch/armv8/heap.c:15-25 -/
theorem heapGetPage_spec {L : HeapLayout} {s s' : Machine} {page : BitVec 64}
    (hbound : s.heapPtr.toNat ≤ L.heapEnd.toNat)
    (h : armv8HeapGetPage L s = some (page, s')) :
    page = s.heapPtr ∧ s' = { s with heapPtr := s.heapPtr + 4096 } ∧
      (s.heapPtr + 4096).toNat = s.heapPtr.toNat + 4096 ∧
      s.heapPtr.toNat + 4096 ≤ L.heapEnd.toNat := by
  have h48 := L.bounded
  have hadd : (s.heapPtr + 4096).toNat = s.heapPtr.toNat + 4096 := by
    rw [BitVec.toNat_add, show (4096 : BitVec 64).toNat = 4096 from rfl]
    omega
  simp only [armv8HeapGetPage] at h
  split at h
  · cases h
  · rename_i hge
    simp only [Option.some.injEq, Prod.mk.injEq] at h
    rw [BitVec.lt_def, hadd] at hge
    exact ⟨h.1.symm, h.2.symm, hadd, by omega⟩

/-- INTERNAL: the heap hands out a page while one is left. -/
theorem heapGetPage_isSome {L : HeapLayout} {s : Machine}
    (hroom : s.heapPtr.toNat + 4096 ≤ L.heapEnd.toNat) :
    ∃ r, armv8HeapGetPage L s = some r := by
  have h48 := L.bounded
  have hadd : (s.heapPtr + 4096).toNat = s.heapPtr.toNat + 4096 := by
    rw [BitVec.toNat_add, show (4096 : BitVec 64).toNat = 4096 from rfl]
    omega
  simp only [armv8HeapGetPage]
  rw [if_neg]
  · exact ⟨_, rfl⟩
  · rw [BitVec.lt_def, hadd]
    omega

/-- INTERNAL: if the heap still has the page at `a`, no word of it names a table. -/
def BlankPage (L : HeapLayout) (m : Memory) (a : BitVec 64) : Prop :=
  a.toNat + 4096 ≤ L.heapEnd.toNat → ∀ i : Slot, view m (pageOf a) i &&& addressMask = 0

/-- INTERNAL: the effect of one descriptor routine on the tree: `c` is the table its result
names, below the table at the end of `path`. -/
structure Descended (clean : Prop) (L : HeapLayout) (root : Page) (s : Machine)
    (lvl : Page → Option ℕ)
    (path : List Slot) (t : Page) (i : Slot) (s' : Machine) (lvl' : Page → Option ℕ)
    (c : Page) : Prop where
  inv : Inv clean L s' root lvl'
  ext : Extends armFormat root s.mem lvl s'.mem lvl'
  heapMono : s.heapPtr.toNat ≤ s'.heapPtr.toNat
  reached : descend armFormat (view s'.mem) root (path ++ [i]) = some c
  others : ∀ p j, ¬(p = t ∧ j = i) →
    remembered (view s'.mem p j) = remembered (view s.mem p j)
  known : ∀ q, remembered (view s.mem t i) = some q → c = q ∧ s'.heapPtr = s.heapPtr
  taken : remembered (view s.mem t i) = none →
    c = pageOf s.heapPtr ∧ s'.heapPtr = s.heapPtr + 4096

namespace Inv

variable {clean : Prop} {L : HeapLayout} {s : Machine} {root t : Page} {lvl : Page → Option ℕ}
  {path : List Slot} {i : Slot}

/-- INTERNAL: a page fresh from the heap, scrubbed and linked below an empty entry. -/
theorem descended_of_taken (h : Inv clean L s root lvl)
    (hd : descend armFormat (view s.mem) root path = some t) (hlen : path.length < 3)
    (hinvalid : view s.mem t i &&& 3 = 0) (hzero : view s.mem t i &&& addressMask = 0)
    (hblank : path.length + 1 < 3 → BlankPage L s.mem s.heapPtr)
    (hadd : (s.heapPtr + 4096).toNat = s.heapPtr.toNat + 4096)
    (hroom : s.heapPtr.toNat + 4096 ≤ L.heapEnd.toNat) :
    Descended clean L root s lvl path t i (linkTable s t (pageOf s.heapPtr) i (s.heapPtr + 4096))
      (Function.update lvl (pageOf s.heapPtr) (some (path.length + 1))) (pageOf s.heapPtr) := by
  have hstart := h.heapStart_lt
  have halign := h.heapAligned
  have hc : (pageOf s.heapPtr).toNat * 4096 = s.heapPtr.toNat := by
    rw [← toNat_base, h.heapPtr_page]
  have hnone : remembered (view s.mem t i) = none := remembered_eq_none.mpr hzero
  obtain ⟨hinv', hext, hreach, hothers⟩ := h.link hd hlen i (pageOf s.heapPtr)
    (s.heapPtr + 4096) hinvalid
    (Or.inr ⟨hnone, h.heapPtr_unowned,
      fun hl j => remembered_eq_none.mpr (hblank hl hroom j)⟩)
    (by omega) (by omega) (by omega) (by omega)
  refine ⟨hinv', hext, ?_, hreach, hothers, fun q hq => ?_, fun _ => ⟨rfl, rfl⟩⟩
  · change s.heapPtr.toNat ≤ (s.heapPtr + 4096).toNat
    omega
  · rw [hnone] at hq
    cases hq

/-- INTERNAL: the table an invalid entry remembers, scrubbed and linked again. -/
theorem descended_of_remembered (h : Inv clean L s root lvl)
    (hd : descend armFormat (view s.mem) root path = some t) (hlen : path.length < 3)
    (hinvalid : view s.mem t i &&& 3 = 0) {c : Page} (hrem : remembered (view s.mem t i) = some c) :
    Descended clean L root s lvl path t i (linkTable s t c i s.heapPtr)
      (Function.update lvl c (some (path.length + 1))) c := by
  have ht := h.layered.descend_level path t (by omega) hd
  have ho := h.owned (h.layered.child_level ht hlen hrem)
  obtain ⟨hinv', hext, hreach, hothers⟩ := h.link hd hlen i c s.heapPtr hinvalid
    (Or.inl hrem) ho (Nat.le_refl _) h.heapAligned h.heapBound
  refine ⟨hinv', hext, Nat.le_refl _, hreach, hothers, fun q hq => ?_, fun hq => ?_⟩
  · rw [hrem, Option.some.injEq] at hq
    exact ⟨hq, rfl⟩
  · rw [hrem] at hq
    cases hq

/-- INTERNAL: a valid entry leads to the table it names; nothing is written. -/
theorem descended_of_valid (h : Inv clean L s root lvl)
    (hd : descend armFormat (view s.mem) root path = some t) (hlen : path.length < 3)
    (hvalid : view s.mem t i &&& 3 ≠ 0) {c : Page} (hrem : remembered (view s.mem t i) = some c) :
    Descended clean L root s lvl path t i s lvl c := by
  have ht := h.layered.descend_level path t (by omega) hd
  have hne : view s.mem t i &&& addressMask ≠ 0 := fun hz => by
    rw [remembered_eq_none.mpr hz] at hrem
    cases hrem
  have hlow := (h.linked ht hlen hne).resolve_left hvalid
  refine ⟨h, Extends.refl, Nat.le_refl _, ?_, fun _ _ _ => rfl, fun q hq => ?_, fun hq => ?_⟩
  · rw [descend_concat, hd]
    simp only [Option.bind_some, armFormat, if_pos hlow, hrem]
  · rw [hrem, Option.some.injEq] at hq
    exact ⟨hq, rfl⟩
  · rw [hrem] at hq
    cases hq

end Inv

/-- INTERNAL: **the descriptor routines.** On a table of the tree, when the word the call
looks at is either linked or empty, and the page taken for a new interior table names no
tables.
SRC: arch/armv8/txln_table.c:100-176 -/
theorem getDescriptor_spec {clean : Prop} {L : HeapLayout} {s s' : Machine} {root t : Page}
    {lvl : Page → Option ℕ} {path : List Slot} {shift : ℕ} {va d : BitVec 64}
    (h : Inv clean L s root lvl) (hd : descend armFormat (view s.mem) root path = some t)
    (hlen : path.length < 3)
    (hempty : view s.mem t (vaSlot shift va) &&& addressMask = 0 →
      view s.mem t (vaSlot shift va) &&& 3 = 0)
    (hblank : view s.mem t (vaSlot shift va) &&& addressMask = 0 → path.length + 1 < 3 →
      BlankPage L s.mem s.heapPtr)
    (hcall : getDescriptor L shift 512 (clearTable 512) (base t) va s = some (d, s')) :
    ∃ lvl' c, d &&& addressMask = base c ∧
      Descended clean L root s lvl path t (vaSlot shift va) s' lvl' c := by
  set i := vaSlot shift va with hi
  unfold getDescriptor at hcall
  simp only [Inv.read_entry, ← hi] at hcall
  split at hcall
  · -- the entry is invalid: take or find the next table, scrub it and link it
    rename_i hinvalid
    rw [Option.bind_eq_bind, Option.bind_eq_some_iff] at hcall
    obtain ⟨⟨page, s₁⟩, hpage, hcall⟩ := hcall
    simp only [Option.some.injEq, Prod.mk.injEq, wordAddr_tableIndex, ← hi] at hcall
    obtain ⟨rfl, rfl⟩ := hcall
    simp only [tablePage] at hpage
    split at hpage
    · rename_i hzero
      obtain ⟨hptr, rfl, hadd, hroom⟩ := heapGetPage_spec h.heapBound hpage
      rw [← h.heapPtr_page] at hptr
      subst hptr
      rw [store_clearTable]
      refine ⟨_, _, ?_, h.descended_of_taken hd hlen hinvalid hzero (hblank hzero) hadd hroom⟩
      have h48 := L.bounded
      have hc : (pageOf s.heapPtr).toNat * 4096 = s.heapPtr.toNat := by
        rw [← toNat_base, h.heapPtr_page]
      rw [or_three_and_addressMask, base_and_addressMask (by omega)]
    · rename_i hne
      simp only [Option.some.injEq, Prod.mk.injEq] at hpage
      obtain ⟨rfl, rfl⟩ := hpage
      have hrem : remembered (view s.mem t i) = some (pageOf (view s.mem t i &&& addressMask)) :=
        if_neg hne
      have hbase := (remembered_eq_some hrem).1
      rw [hbase]
      set c := pageOf (view s.mem t i &&& addressMask)
      rw [show (clearTable 512 (base c) s).store _ _ = _ from store_clearTable s t c i s.heapPtr]
      refine ⟨_, c, ?_, h.descended_of_remembered hd hlen hinvalid hrem⟩
      rw [or_three_and_addressMask, ← hbase, BitVec.and_assoc, BitVec.and_self]
  · -- the entry is valid: it names its table already
    rename_i hvalid
    simp only [Option.some.injEq, Prod.mk.injEq] at hcall
    obtain ⟨rfl, rfl⟩ := hcall
    have hrem : remembered (view s.mem t i) = some (pageOf (view s.mem t i &&& addressMask)) :=
      if_neg fun hz => hvalid (hempty hz)
    exact ⟨lvl, _, (remembered_eq_some hrem).1, h.descended_of_valid hd hlen hvalid hrem⟩

end Simbench.Analysis.Armv8TableInvariant
