import Simbench.Analysis.Armv8TableInvariant

/-!
# What each call does to the translation tables

One specification per routine of the interface: `get_txln_table` takes the root page
once, a mapping call changes the lookup of one page and nothing else, `clear_txln_table`
empties every lookup and keeps the tree.
-/

set_option autoImplicit false

namespace Simbench.Analysis.Armv8TableCalls

open Simbench.Library.RadixTree Simbench.Library.PagedMemory Simbench.Library.TableWalk
open Simbench.Program.Armv8Tables Simbench.Analysis.Armv8Descriptors Simbench.Analysis.Armv8TableInvariant

variable {clean : Prop} {L : HeapLayout} {s s' : Machine} {root : Page} {lvl : Page → Option ℕ}

/-! ## The root -/

/-- INTERNAL: the machine before the first table was taken. -/
structure Fresh (L : HeapLayout) (s : Machine) : Prop where
  noTable : s.l0Table = 0
  heap : s.heapPtr = L.heapStart

/-- INTERNAL: only the root is a table. -/
def rootOnly (root : Page) (p : Page) : Option ℕ := if p = root then some 0 else none

/-- INTERNAL: a table that exists is returned as it is.
SRC: arch/armv8/txln_table.c:67-70 -/
theorem getL0Table_of_inv (h : Inv clean L s root lvl) : getL0Table L s = some (base root, s) := by
  rw [getL0Table, if_neg h.hasTable, h.table]

/-- INTERNAL: the first page of the heap becomes the root; it must name no tables.
SRC: arch/armv8/txln_table.c:67-70 -/
theorem getL0Table_of_fresh {a : BitVec 64} (h : Fresh L s) (hblank : BlankPage L s.mem s.heapPtr)
    (hclean : clean → s.heapPtr.toNat + 4096 ≤ L.heapEnd.toNat →
      ∀ i, view s.mem (pageOf s.heapPtr) i &&& 3 = 0)
    (hcall : getL0Table L s = some (a, s')) :
    a = base (pageOf s.heapPtr) ∧
      s' = { mem := s.mem, l0Table := s.heapPtr, heapPtr := s.heapPtr + 4096 } ∧
      Inv clean L s' (pageOf s.heapPtr) (rootOnly (pageOf s.heapPtr)) := by
  have hstart := L.nonzero
  have halign := L.aligned
  have hord := L.ordered
  rw [← h.heap] at hstart halign hord
  rw [getL0Table, if_pos h.noTable, Option.bind_eq_bind, Option.bind_eq_some_iff] at hcall
  obtain ⟨⟨page, s₁⟩, hpage, hcall⟩ := hcall
  obtain ⟨rfl, rfl, hadd, hroom⟩ := heapGetPage_spec hord hpage
  simp only [Option.some.injEq, Prod.mk.injEq] at hcall
  obtain ⟨rfl, rfl⟩ := hcall
  have hbase := base_pageOf halign
  have hnum : (pageOf s.heapPtr).toNat * 4096 = s.heapPtr.toNat := by rw [← toNat_base, hbase]
  have honly : ∀ {p n}, rootOnly (pageOf s.heapPtr) p = some n → p = pageOf s.heapPtr ∧ n = 0 := by
    intro p n hp
    unfold rootOnly at hp
    split at hp
    · exact ⟨by assumption, (Option.some.inj hp).symm⟩
    · cases hp
  have hnone : ∀ {p n i q}, rootOnly (pageOf s.heapPtr) p = some n →
      armFormat.child (view s.mem p i) ≠ some q := by
    intro p n i q hp hq
    obtain ⟨rfl, -⟩ := honly hp
    exact (remembered_eq_some hq).2 (hblank hroom i)
  refine ⟨hbase.symm, rfl, hbase.symm, ⟨if_pos rfl, ?_, ?_⟩, ?_, ?_, ?_, ?_, ?_⟩
  · intro p n i q hp _ hq
    exact absurd hq (hnone hp)
  · intro p n i p' n' i' q hp _ hq
    exact absurd hq (hnone hp)
  · intro p n i hp _ hne
    obtain ⟨rfl, -⟩ := honly hp
    exact absurd (hblank hroom i) hne
  · intro p n i hp hpos _ _
    obtain ⟨rfl, -⟩ := honly hp
    exact hclean (hpos.resolve_left fun hne => hne rfl) hroom i
  · intro p n hp
    obtain ⟨rfl, -⟩ := honly hp
    rw [← h.heap, hnum, hadd]
    omega
  · rw [hadd]
    omega
  · rw [hadd]
    exact hroom

/-- INTERNAL: every call takes the root first, so a call on a machine without tables is the
same call on the machine with its root.
SRC: arch/armv8/txln_table.c:62-80,206-246 -/
theorem step_of_root {s₁ : Machine} {a : BitVec 64} (c : Call)
    (h : getL0Table L s = some (a, s₁)) (h₁ : getL0Table L s₁ = some (a, s₁)) :
    step L s c = step L s₁ c := by
  cases c with
  | getTxlnTable => simp only [step, getTxlnTable, h, h₁]
  | clearTxlnTable => simp only [step, clearTxlnTable, h, h₁]
  | createPageMapping kind pa va =>
    cases kind <;> simp only [step, memCreatePageMapping, memCreatePageMappingCode,
      memCreatePageMappingData, memCreatePageMappingDevice, getL3TableOf, h, h₁]

/-- INTERNAL: a call that returns has a root table. -/
theorem root_of_step {c : Call} (h : step L s c = some s') :
    ∃ a s₁, getL0Table L s = some (a, s₁) := by
  cases hr : getL0Table L s with
  | some r => exact ⟨r.1, r.2, rfl⟩
  | none =>
    exfalso
    cases c with
    | getTxlnTable => simp [step, getTxlnTable, hr] at h
    | clearTxlnTable => simp [step, clearTxlnTable, hr] at h
    | createPageMapping kind pa va =>
      cases kind <;> simp [step, memCreatePageMapping, memCreatePageMappingCode,
        memCreatePageMappingData, memCreatePageMappingDevice, getL3TableOf, hr] at h

/-! ## The path of a mapping -/

/-- INTERNAL: the words a mapping call looks at above the last level are linked or empty,
and the pages it will take for L1 and L2 tables name no tables. -/
structure PathReady (L : HeapLayout) (s : Machine) (root : Page) (va : BitVec 64) : Prop where
  rootWord : view s.mem root (vaSlot 39 va) &&& addressMask = 0 →
    view s.mem root (vaSlot 39 va) &&& 3 = 0
  bothTables : view s.mem root (vaSlot 39 va) &&& addressMask = 0 →
    BlankPage L s.mem s.heapPtr ∧ BlankPage L s.mem (s.heapPtr + 4096)
  l2Table : ∀ t, remembered (view s.mem root (vaSlot 39 va)) = some t →
    view s.mem t (vaSlot 30 va) &&& addressMask = 0 → BlankPage L s.mem s.heapPtr

/-- INTERNAL: pages outside the tree keep their words, so a blank page stays blank until it
is taken. -/
theorem BlankPage.of_extends {lvl' : Page → Option ℕ} {a : BitVec 64}
    (he : Extends armFormat root s.mem lvl s'.mem lvl') (ha : lvl' (pageOf a) = none)
    (hb : BlankPage L s.mem a) : BlankPage L s'.mem a := by
  intro hroom i
  have hsame : view s'.mem (pageOf a) i = view s.mem (pageOf a) i := by
    unfold view
    rw [he.frame _ (by rw [pageOf_slotAddr]; exact ha)]
  rw [hsame]
  exact hb hroom i

/-- INTERNAL: one level of the lookup: the result is a table of the tree, one level down.
SRC: arch/armv8/txln_table.c:119-176 -/
theorem tableOf_spec {t : Page} {path : List Slot} {shift : ℕ} {va a : BitVec 64}
    (h : Inv clean L s root lvl) (hd : descend armFormat (view s.mem) root path = some t)
    (hlen : path.length < 3)
    (hempty : view s.mem t (vaSlot shift va) &&& addressMask = 0 →
      view s.mem t (vaSlot shift va) &&& 3 = 0)
    (hblank : view s.mem t (vaSlot shift va) &&& addressMask = 0 → path.length + 1 < 3 →
      BlankPage L s.mem s.heapPtr)
    (hcall : tableOf (getDescriptor L shift 512 (clearTable 512)) (base t) va s = some (a, s')) :
    ∃ lvl' c, a = base c ∧ lvl' c = some (path.length + 1) ∧
      Descended clean L root s lvl path t (vaSlot shift va) s' lvl' c := by
  simp only [tableOf, Option.bind_eq_bind, Option.bind_eq_some_iff, Option.some.injEq,
    Prod.exists, Prod.mk.injEq] at hcall
  obtain ⟨d, s₁, hdesc, rfl, rfl⟩ := hcall
  obtain ⟨lvl', c, hd', D⟩ := getDescriptor_spec h hd hlen hempty hblank hdesc
  have hc := D.inv.layered.descend_level _ c (by rw [List.length_append, List.length_singleton]; omega)
    D.reached
  rw [List.length_append, List.length_singleton] at hc
  exact ⟨lvl', c, hd', hc, D⟩

/-- INTERNAL: the L1 table, and what is known of the page an L2 table will take: it is the
next heap page, or the one after an L1 table.
SRC: arch/armv8/txln_table.c:119-124 -/
theorem getL1Table_spec {va a : BitVec 64} (h : Inv clean L s root lvl)
    (hready : PathReady L s root va) (hcall : getL1Table L (base root) va s = some (a, s')) :
    ∃ lvl' t, a = base t ∧ lvl' t = some 1 ∧
      Descended clean L root s lvl [] root (vaSlot 39 va) s' lvl' t ∧
      (view s'.mem t (vaSlot 30 va) &&& addressMask = 0 → BlankPage L s'.mem s'.heapPtr) := by
  have hd : descend armFormat (view s.mem) root [] = some root := rfl
  obtain ⟨lvl', t, ha, hlvl, D⟩ := tableOf_spec h hd (by decide) hready.rootWord
    (fun hz _ => (hready.bothTables hz).1) hcall
  refine ⟨lvl', t, ha, hlvl, D, fun hz => ?_⟩
  apply BlankPage.of_extends D.ext D.inv.heapPtr_unowned
  cases hrem : remembered (view s.mem root (vaSlot 39 va)) with
  | none =>
    rw [(D.taken hrem).2]
    exact (hready.bothTables (remembered_eq_none.mp hrem)).2
  | some t' =>
    obtain ⟨rfl, hheap⟩ := D.known t' hrem
    rw [hheap]
    refine hready.l2Table t hrem (remembered_eq_none.mp ?_)
    rw [← D.others t (vaSlot 30 va) fun he => D.inv.ne_root hlvl he.1]
    exact remembered_eq_none.mpr hz

/-- INTERNAL: the three levels of a mapping call, one below the other.
SRC: arch/armv8/txln_table.c:119-176,210-213 -/
theorem getL3TableOf_levels {va a : BitVec 64} (h : Inv clean L s root lvl)
    (hready : PathReady L s root va) (hcall : getL3TableOf L va s = some (a, s')) :
    ∃ s₁ lvl₁ t₁ s₂ lvl₂ t₂ lvl₃ t₃, a = base t₃ ∧ lvl₃ t₃ = some 3 ∧
      Descended clean L root s lvl [] root (vaSlot 39 va) s₁ lvl₁ t₁ ∧
      Descended clean L root s₁ lvl₁ [vaSlot 39 va] t₁ (vaSlot 30 va) s₂ lvl₂ t₂ ∧
      Descended clean L root s₂ lvl₂ [vaSlot 39 va, vaSlot 30 va] t₂ (vaSlot 21 va) s' lvl₃ t₃ := by
  rw [getL3TableOf, getL0Table_of_inv h] at hcall
  simp only [Option.bind_eq_bind, Option.bind_some, Option.bind_eq_some_iff, Prod.exists] at hcall
  obtain ⟨_, s₁, h₁, _, s₂, h₂, h₃⟩ := hcall
  obtain ⟨lvl₁, t₁, rfl, hlvl₁, D₁, hblank⟩ := getL1Table_spec h hready h₁
  obtain ⟨lvl₂, t₂, rfl, hlvl₂, D₂⟩ := tableOf_spec D₁.inv D₁.reached (by simp)
    (D₁.inv.empty_of_level hlvl₁ (by decide)) (fun hz _ => hblank hz) h₂
  obtain ⟨lvl₃, t₃, rfl, hlvl₃, D₃⟩ := tableOf_spec D₂.inv D₂.reached (by simp)
    (D₂.inv.empty_of_level hlvl₂ (by simp)) (fun _ hl => absurd hl (by simp)) h₃
  exact ⟨s₁, lvl₁, t₁, s₂, lvl₂, t₂, lvl₃, t₃, rfl, hlvl₃, D₁, D₂, D₃⟩

/-- INTERNAL: **the lookups of a mapping call.** They end in a last-level table of the tree
for the page of `va` and change no translation.
SRC: arch/armv8/txln_table.c:119-176,210-213 -/
theorem getL3TableOf_spec {va a : BitVec 64} (h : Inv clean L s root lvl)
    (hready : PathReady L s root va) (hcall : getL3TableOf L va s = some (a, s')) :
    ∃ lvl' t, a = base t ∧ Inv clean L s' root lvl' ∧
      Extends armFormat root s.mem lvl s'.mem lvl' ∧ s.heapPtr.toNat ≤ s'.heapPtr.toNat ∧
      descend armFormat (view s'.mem) root (vaPath va) = some t ∧ lvl' t = some 3 := by
  obtain ⟨_, _, _, _, _, _, lvl₃, t₃, rfl, hlvl₃, D₁, D₂, D₃⟩ := getL3TableOf_levels h hready hcall
  exact ⟨lvl₃, t₃, rfl, D₃.inv, D₁.ext.trans (D₂.ext.trans D₃.ext),
    Nat.le_trans D₁.heapMono (Nat.le_trans D₂.heapMono D₃.heapMono), D₃.reached, hlvl₃⟩

/-! ## The mapping calls -/

/-- INTERNAL: the descriptor a mapping call stores.
SRC: arch/armv8/txln_table.c:184-204 -/
def leafWord : Kind → BitVec 64 → BitVec 64
  | .code, pa => pa &&& ~~~0xfff#64 ||| 3 ||| privsCode.setWidth 64 <<< 6 ||| 1 <<< 10
  | .data, pa => pa &&& ~~~0xfff#64 ||| 3 ||| privsData.setWidth 64 <<< 6 ||| 1 <<< 10
  | .device, pa => pa &&& ~~~0xfff#64 ||| 3 ||| 1 <<< 6 ||| 1 <<< 2 ||| 1 <<< 10

/-- INTERNAL: the three mapping routines are the table lookups and one store.
SRC: arch/armv8/txln_table.c:206-246 -/
theorem memCreatePageMapping_eq (kind : Kind) (pa va : BitVec 64) (s : Machine) :
    memCreatePageMapping L kind pa va s = (getL3TableOf L va s).map fun r =>
      (0, r.2.store (getL3Descriptor r.1 va) (leafWord kind pa)) := by
  cases kind <;> exact (Option.map_eq_bind ..).symm

/-- INTERNAL: the effect of a mapping call on the tables. -/
structure Mapped (clean : Prop) (L : HeapLayout) (root : Page) (s : Machine)
    (lvl : Page → Option ℕ) (kind : Kind) (pa va : BitVec 64) (s' : Machine)
    (lvl' : Page → Option ℕ) : Prop where
  inv : Inv clean L s' root lvl'
  keeps : ∀ {p n}, lvl p = some n → lvl' p = some n
  frame : ∀ a, lvl' (pageOf a) = none → s'.mem a = s.mem a
  heapMono : s.heapPtr.toNat ≤ s'.heapPtr.toNat
  lookup_eq : ∀ path last, path.length = 3 →
    lookup armFormat (view s'.mem) root path last =
      if path = vaPath va ∧ last = vaSlot 12 va then armFormat.leaf (leafWord kind pa)
      else lookup armFormat (view s.mem) root path last

/-- INTERNAL: writing a leaf keeps the tree. SRC: arch/armv8/txln_table.c:184-204 -/
theorem inv_storeLeaf (h : Inv clean L s root lvl) {t : Page} (ht : lvl t = some 3) (i : Slot)
    (w : BitVec 64) : Inv clean L (s.store (slotAddr t i) w) root lvl := by
  have hview : view (s.store (slotAddr t i) w).mem = setEntry (view s.mem) t i w :=
    view_update _ _ _ _
  have hother : ∀ {p n}, lvl p = some n → n < 3 → ∀ j,
      view (s.store (slotAddr t i) w).mem p j = view s.mem p j := by
    intro p n hp hn j
    rw [hview]
    refine setEntry_of_ne _ _ _ _ ?_
    rintro ⟨rfl, -⟩
    rw [ht, Option.some.injEq] at hp
    omega
  refine ⟨h.table, ?_, ?_, ?_, h.owned, h.heapAligned, h.heapBound⟩
  · rw [hview]
    exact h.layered.setLeaf ht _ _
  · intro p n i hp hn hne
    rw [hother hp hn] at hne ⊢
    exact h.linked hp hn hne
  · intro p n i hp hpos hn hz
    rw [hother hp hn] at hz ⊢
    exact h.unlinked hp hpos hn hz

/-- INTERNAL: it is a store to a table. -/
theorem frame_storeLeaf {t : Page} {n : ℕ} (ht : lvl t = some n) (i : Slot) (w : BitVec 64)
    {a : BitVec 64} (ha : lvl (pageOf a) = none) : (s.store (slotAddr t i) w).mem a = s.mem a := by
  apply update_slotAddr_of_ne
  rintro rfl
  rw [ht] at ha
  cases ha

/-- INTERNAL: **a mapping call** returns 0 and changes the lookup of its page only.
SRC: arch/armv8/txln_table.c:184-246 -/
theorem mapping_spec {kind : Kind} {pa va : BitVec 64} {rc : Int} (h : Inv clean L s root lvl)
    (hready : PathReady L s root va)
    (hcall : memCreatePageMapping L kind pa va s = some (rc, s')) :
    rc = 0 ∧ ∃ lvl', Mapped clean L root s lvl kind pa va s' lvl' := by
  rw [memCreatePageMapping_eq, Option.map_eq_some_iff] at hcall
  obtain ⟨⟨a, s₁⟩, hpath, hstore⟩ := hcall
  simp only [Prod.mk.injEq] at hstore
  obtain ⟨hrc, rfl⟩ := hstore
  obtain ⟨lvl', t₃, rfl, hinv, hext, hheap, hreach, hl₃⟩ := getL3TableOf_spec h hready hpath
  have haddr : getL3Descriptor (base t₃) va = slotAddr t₃ (vaSlot 12 va) :=
    wordAddr_tableIndex t₃ 12 va
  rw [haddr]
  refine ⟨hrc.symm, lvl', ⟨inv_storeLeaf hinv hl₃ _ _, hext.keeps, ?_, hheap, ?_⟩⟩
  · intro a ha
    rw [frame_storeLeaf hl₃ _ _ ha]
    exact hext.frame a ha
  · intro path last hlen
    have hview : view (s₁.store (slotAddr t₃ (vaSlot 12 va)) (leafWord kind pa)).mem =
        setEntry (view s₁.mem) t₃ (vaSlot 12 va) (leafWord kind pa) := view_update _ _ _ _
    rw [hview, hinv.layered.lookup_setLeaf (vaPath va) rfl hreach _ _ path hlen last,
      hext.lookup_eq path last hlen]

/-! ## Clearing -/

/-- INTERNAL: **`clear_txln_table`** keeps the tree, whatever its words were, leaves every
page but the root alone, and leaves nothing translated.
SRC: arch/armv8/txln_table.c:72-80 -/
theorem clearTxlnTable_spec (h : Inv clean L s root lvl)
    (hcall : clearTxlnTable L s = some s') (clean' : Prop) :
    Inv clean' L s' root lvl ∧ s'.heapPtr = s.heapPtr ∧
      (∀ a, pageOf a ≠ root → s'.mem a = s.mem a) ∧
      ∀ path last, lookup armFormat (view s'.mem) root path last = none := by
  rw [clearTxlnTable, getL0Table_of_inv h] at hcall
  simp only [Option.bind_eq_bind, Option.bind_some, Option.some.injEq] at hcall
  have hmem : s'.mem = updateWords (fun data => data &&& ~~~3#64) (base root) 512 s.mem := by
    rw [← hcall]
    rfl
  have hview : view s'.mem = rewrite (view s.mem) root fun data => data &&& ~~~3#64 := by
    rw [hmem, view_updateWords]
  have hlow : ∀ i, view s'.mem root i &&& 3 = 0 := by
    intro i
    rw [hview, rewrite_self]
    exact clear_and_three _
  have hother : ∀ {p}, p ≠ root → view s'.mem p = view s.mem p := by
    intro p hp
    rw [hview, rewrite_of_ne _ _ _ hp]
  have hheap : s'.heapPtr = s.heapPtr := by rw [← hcall]; rfl
  have htable : s'.l0Table = s.l0Table := by rw [← hcall]; rfl
  refine ⟨⟨by rw [htable, h.table], ?_, ?_, ?_, ?_, ?_, ?_⟩, hheap, ?_, ?_⟩
  · rw [hview]
    exact h.layered.rewrite root _ fun i => child_clear _
  · intro p n i hp hn hne
    by_cases hr : p = root
    · subst hr
      exact Or.inl (hlow i)
    · rw [hother hr] at hne ⊢
      exact h.linked hp hn hne
  · intro p n i hp _ hn hz
    by_cases hr : p = root
    · subst hr
      exact hlow i
    · rw [hother hr] at hz ⊢
      exact h.unlinked hp (Or.inl hr) hn hz
  · rw [hheap]
    exact h.owned
  · rw [hheap]
    exact h.heapAligned
  · rw [hheap]
    exact h.heapBound
  · intro a ha
    rw [hmem, updateWords_of_ne _ _ _ ha]
  · intro path last
    exact lookup_of_dead (fun i => next_leaf_of_invalid (hlow i)) path last

/-- INTERNAL: and every entry still remembers its table. SRC: arch/armv8/txln_table.c:72-76 -/
theorem clearTxlnTable_remembered (h : Inv clean L s root lvl)
    (hcall : clearTxlnTable L s = some s') (p : Page) (i : Slot) :
    remembered (view s'.mem p i) = remembered (view s.mem p i) := by
  rw [clearTxlnTable, getL0Table_of_inv h] at hcall
  simp only [Option.bind_eq_bind, Option.bind_some, Option.some.injEq] at hcall
  have hmem : s'.mem = updateWords (fun data => data &&& ~~~3#64) (base root) 512 s.mem := by
    rw [← hcall]
    rfl
  rw [hmem, view_updateWords]
  by_cases hp : p = root
  · rw [hp, rewrite_self]
    exact child_clear _
  · rw [rewrite_of_ne _ _ _ hp]

/-! ## Room -/

/-- INTERNAL: the routine returns, having moved the heap pointer by at most `n` pages. -/
def Returns {α : Type} (s : Machine) (n : ℕ) (r : Option (α × Machine)) : Prop :=
  ∃ x s', r = some (x, s') ∧ s'.heapPtr.toNat ≤ s.heapPtr.toNat + n * 4096

/-- INTERNAL: the allocator returns when a page is left. SRC: arch/armv8/heap.c:15-25 -/
theorem heapGetPage_returns (hroom : s.heapPtr.toNat + 4096 ≤ L.heapEnd.toNat) :
    Returns s 1 (armv8HeapGetPage L s) := by
  obtain ⟨⟨a, s₁⟩, h⟩ := heapGetPage_isSome hroom
  obtain ⟨-, rfl, hadd, -⟩ := heapGetPage_spec (by omega) h
  exact ⟨a, _, h, Nat.le_of_eq hadd⟩

/-- INTERNAL: with a page left the root table is there or is made, and takes one page at most. -/
theorem getL0Table_returns (hroom : s.heapPtr.toNat + 4096 ≤ L.heapEnd.toNat) :
    Returns s 1 (getL0Table L s) := by
  unfold getL0Table
  split
  · obtain ⟨a, s₁, h, hle⟩ := heapGetPage_returns hroom
    exact ⟨a, { s₁ with l0Table := a }, by rw [h]; rfl, hle⟩
  · exact ⟨_, s, rfl, by omega⟩

/-- INTERNAL: a descriptor routine returns when a page is left.
SRC: arch/armv8/txln_table.c:100-176 -/
theorem tableOf_returns {shift : ℕ} {table va : BitVec 64}
    (hroom : s.heapPtr.toNat + 4096 ≤ L.heapEnd.toNat) :
    Returns s 1 (tableOf (getDescriptor L shift 512 (clearTable 512)) table va s) := by
  have hpage : ∀ d, Returns s 1 (tablePage L d s) := by
    intro d
    simp only [tablePage]
    split
    · exact heapGetPage_returns hroom
    · exact ⟨_, s, rfl, by omega⟩
  simp only [tableOf, getDescriptor]
  split
  · obtain ⟨a, s₁, h, hle⟩ := hpage (s.mem (wordAddr table (tableIndex shift 512 va)))
    exact ⟨(a ||| 3) &&& addressMask,
      (clearTable 512 a s₁).store (wordAddr table (tableIndex shift 512 va)) (a ||| 3),
      by rw [h]; rfl, hle⟩
  · exact ⟨_, s, rfl, by omega⟩

/-- INTERNAL: a call with four pages left returns and takes no more than these. -/
theorem step_returns (c : Call) (hroom : s.heapPtr.toNat + 16384 ≤ L.heapEnd.toNat) :
    ∃ s', step L s c = some s' ∧ s'.heapPtr.toNat ≤ s.heapPtr.toNat + 16384 := by
  obtain ⟨a₀, s₀, h₀, hle₀⟩ := getL0Table_returns (L := L) (s := s) (by omega)
  cases c with
  | getTxlnTable =>
    exact ⟨s₀, by simp only [step, getTxlnTable, h₀, Option.map_some], by omega⟩
  | clearTxlnTable =>
    refine ⟨clearL0Table a₀ s₀, by simp only [step, clearTxlnTable, h₀, Option.bind_eq_bind,
      Option.bind_some], ?_⟩
    simp only [clearL0Table, clearTable]
    omega
  | createPageMapping kind pa va =>
    obtain ⟨a₁, s₁, h₁, hle₁⟩ : Returns s₀ 1 (getL1Table L a₀ va s₀) :=
      tableOf_returns (by omega)
    obtain ⟨a₂, s₂, h₂, hle₂⟩ : Returns s₁ 1 (getL2Table L a₁ va s₁) :=
      tableOf_returns (by omega)
    obtain ⟨a₃, s₃, h₃, hle₃⟩ : Returns s₂ 1 (getL3Table L a₂ va s₂) :=
      tableOf_returns (by omega)
    refine ⟨s₃.store (getL3Descriptor a₃ va) (leafWord kind pa), ?_, ?_⟩
    · simp only [step, memCreatePageMapping_eq, getL3TableOf, h₀, h₁, h₂, h₃,
        Option.bind_eq_bind, Option.bind_some, Option.map_some]
    · exact Nat.le_trans hle₃ (by omega)

/-- INTERNAL: a run with four pages left for each of its calls returns. -/
theorem run_returns (calls : List Call)
    (hroom : s.heapPtr.toNat + 4 * calls.length * 4096 ≤ L.heapEnd.toNat) :
    ∃ s', run L s calls = some s' := by
  induction calls generalizing s with
  | nil => exact ⟨s, rfl⟩
  | cons c calls ih =>
    rw [List.length_cons] at hroom
    have hhere : s.heapPtr.toNat + 16384 ≤ L.heapEnd.toNat := by omega
    obtain ⟨s₁, h₁, hle⟩ := step_returns c hhere
    obtain ⟨s', h'⟩ := ih (s := s₁) (by omega)
    exact ⟨s', by simp only [run, List.foldlM_cons, h₁, Option.bind_eq_bind, Option.bind_some]; exact h'⟩

end Simbench.Analysis.Armv8TableCalls
