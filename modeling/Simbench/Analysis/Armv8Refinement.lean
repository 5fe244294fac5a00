import Simbench.Analysis.Armv8TableCalls
import Simbench.Library.LastWrite

/-!
# The ARMv8 tables refine a partial map, across resets

The abstract component is a partial map from pages to translations: a mapping call
inserts, `clear_txln_table` empties. On a heap that reads as zero, the hardware walk of
the tables is that map after every sequence of calls, although clearing only resets the
valid bits of the L0 table and the lower tables are reused.
-/

set_option autoImplicit false

namespace Simbench.Analysis.Armv8Refinement

open Simbench.Library.RadixTree Simbench.Library.PagedMemory Simbench.Library.TableWalk
open Simbench.Library.LastWrite
open Simbench.Program.Armv8Tables Simbench.Analysis.Armv8Descriptors Simbench.Analysis.Armv8TableInvariant
open Simbench.Analysis.Armv8TableCalls

/-! ## The abstract map -/

/-- INTERNAL: the descriptor bits other than the address: page and valid bits, MAIR index,
AP[2:1] and the access flag. -/
def attributes : Kind → BitVec 64
  | .code => 3 ||| 3 <<< 6 ||| 1 <<< 10
  | .data => 3 ||| 1 <<< 6 ||| 1 <<< 10
  | .device => 3 ||| 1 <<< 2 ||| 1 <<< 6 ||| 1 <<< 10

/-- INTERNAL: what a mapping of `pa` makes its page translate to. -/
def installed (kind : Kind) (pa : BitVec 64) : Translation := ⟨base (pageOf pa), attributes kind⟩

/-- INTERNAL: one call on the partial map, seen at `va`: a mapping of the page of `va` writes
it, a clear empties it, every other call passes by. -/
def effectAt (va : BitVec 64) : Call → Option (Option Translation)
  | .getTxlnTable => none
  | .clearTxlnTable => some none
  | .createPageMapping kind pa va' =>
    if va'.toNat / 4096 = va.toNat / 4096 then some (some (installed kind pa)) else none

/-- INTERNAL: the last mapping of the page of `va` made after the last clear. -/
def lastMapping (calls : List Call) (va : BitVec 64) : Option Translation :=
  lastWrite (effectAt va) calls

/-- INTERNAL: the addresses of a call are 48-bit. -/
def InRange : Call → Prop
  | .createPageMapping _ pa va => pa.toNat < 2 ^ 48 ∧ va.toNat < 2 ^ 48
  | _ => True

/-! ## Leaf descriptors -/

/-- INTERNAL: a mapping call stores the page and the attributes of its kind.
SRC: arch/armv8/txln_table.c:184-204 -/
theorem leafWord_eq (kind : Kind) (pa : BitVec 64) :
    leafWord kind pa = base (pageOf pa) ||| attributes kind := by
  rw [← and_not_offset]
  cases kind <;> simp only [leafWord, BitVec.or_assoc] <;> rfl

/-- INTERNAL: the descriptor a call stores is read back as what the call installs. -/
theorem leaf_leafWord (kind : Kind) {pa : BitVec 64} (hpa : pa.toNat < 2 ^ 48) :
    armFormat.leaf (leafWord kind pa) = some (installed kind pa) := by
  have hbase := base_and_addressMask (p := pageOf pa) (by rw [toNat_pageOf]; omega)
  have hattr : attributes kind &&& 3 = 3 ∧ attributes kind &&& addressMask = 0 ∧
      attributes kind &&& ~~~addressMask = attributes kind := by
    cases kind <;> decide
  have hlow : base (pageOf pa) &&& 3 = 0 := by
    rw [← hbase, BitVec.and_assoc]
    exact BitVec.and_zero
  have hhigh : base (pageOf pa) &&& ~~~addressMask = 0 := by
    rw [← hbase, BitVec.and_assoc]
    exact BitVec.and_zero
  have h3 : leafWord kind pa &&& 3 = 3 := by
    rw [leafWord_eq, BitVec.and_or_distrib_right, hlow, hattr.1]
    rfl
  have hpage : leafWord kind pa &&& addressMask = base (pageOf pa) := by
    rw [leafWord_eq, BitVec.and_or_distrib_right, hbase, hattr.2.1]
    exact BitVec.or_zero
  have hrest : leafWord kind pa &&& ~~~addressMask = attributes kind := by
    rw [leafWord_eq, BitVec.and_or_distrib_right, hhigh, hattr.2.2]
    exact BitVec.zero_or
  simp only [armFormat, leafTranslation, if_pos h3, hpage, hrest, installed]

/-! ## The hardware walk is the lookup -/

variable {L : HeapLayout} {s s' : Machine} {root : Page} {lvl : Page → Option ℕ}

/-- INTERNAL: at an interior table the hardware follows exactly the entries the tree
follows. -/
theorem followTable_eq (h : Inv True L s root lvl) {p : Page} {n : ℕ} (i : Slot)
    (hp : lvl p = some n) (hn : n < 3) :
    followTable (view s.mem p i) = (armFormat.next (view s.mem p i)).map base := by
  simp only [followTable, armFormat]
  by_cases h3 : view s.mem p i &&& 3 = 3
  · rw [if_pos h3, if_pos h3]
    have hne : view s.mem p i &&& addressMask ≠ 0 := by
      intro hz
      rw [h.unlinked hp (Or.inr trivial) hn hz] at h3
      exact absurd h3 (by decide)
    rw [remembered, if_neg hne, Option.map_some, base_pageOf_addressMask]
  · rw [if_neg h3, if_neg h3, Option.map_none]

/-- INTERNAL: the hardware's walk is a lookup in the tree of tables. -/
theorem walk_eq_lookup (h : Inv True L s root lvl) (va : BitVec 64) :
    walk s va = lookup armFormat (view s.mem) root (vaPath va) (vaSlot 12 va) := by
  rw [walk, if_neg h.hasTable, h.table]
  exact fourLevelWalk_eq_lookup h.layered (followTable_eq h) va

/-! ## Runs -/

/-- INTERNAL: the heap pages not yet handed out read as zero. -/
def ZeroHeap (L : HeapLayout) (s : Machine) : Prop :=
  ∀ a : BitVec 64, s.heapPtr.toNat ≤ a.toNat → a.toNat < L.heapEnd.toNat → s.mem a = 0

/-- INTERNAL: a page not yet handed out holds zeros. -/
theorem ZeroHeap.blank (h : ZeroHeap L s) {a : BitVec 64} (halign : a.toNat % 4096 = 0)
    (ha : s.heapPtr.toNat ≤ a.toNat) (hroom : a.toNat + 4096 ≤ L.heapEnd.toNat) (i : Slot) :
    view s.mem (pageOf a) i = 0 := by
  have hi := i.isLt
  have hp : (pageOf a).toNat * 4096 = a.toNat := by rw [← toNat_base, base_pageOf halign]
  apply h <;> rw [toNat_slotAddr] <;> omega

/-- INTERNAL: a step that writes to tables only leaves the pages not yet handed out zero. -/
theorem ZeroHeap.of_frame (h : ZeroHeap L s) {clean : Prop} (hinv : Inv clean L s' root lvl)
    (hmono : s.heapPtr.toNat ≤ s'.heapPtr.toNat)
    (hframe : ∀ a, lvl (pageOf a) = none → s'.mem a = s.mem a) : ZeroHeap L s' := by
  intro a ha hend
  rw [hframe a, h a (by omega) hend]
  apply hinv.unowned
  have halign := hinv.heapAligned
  rw [toNat_pageOf]
  omega

/-- INTERNAL: the relation between the machine and the calls made so far. -/
inductive Represents (L : HeapLayout) (s : Machine) (calls : List Call) : Prop
  | fresh : Fresh L s → ZeroHeap L s → (∀ va, lastMapping calls va = none) →
    Represents L s calls
  | tables (root : Page) (lvl : Page → Option ℕ) : Inv True L s root lvl → ZeroHeap L s →
    (∀ va, va.toNat < 2 ^ 48 →
      lookup armFormat (view s.mem) root (vaPath va) (vaSlot 12 va) = lastMapping calls va) →
    Represents L s calls

/-- INTERNAL: the first call takes the root from zeroed pages: a tree with no mapping at all. -/
theorem root_of_fresh {a : BitVec 64} (h : Fresh L s) (hz : ZeroHeap L s)
    (hcall : getL0Table L s = some (a, s')) :
    ∃ root, a = base root ∧ Inv True L s' root (rootOnly root) ∧ ZeroHeap L s' ∧
      ∀ path last, lookup armFormat (view s'.mem) root path last = none := by
  have halign : s.heapPtr.toNat % 4096 = 0 := by
    rw [h.heap]
    exact L.aligned
  have hblank := fun hroom i => hz.blank halign (Nat.le_refl _) hroom i
  obtain ⟨rfl, hs', hinv⟩ : a = base (pageOf s.heapPtr) ∧ _ ∧
      Inv True L s' (pageOf s.heapPtr) (rootOnly (pageOf s.heapPtr)) :=
    getL0Table_of_fresh h (fun hroom i => by rw [hblank hroom i]; rfl)
      (fun _ hroom i => by rw [hblank hroom i]; rfl) hcall
  have hmem : s'.mem = s.mem := by rw [hs']
  have hroom : s.heapPtr.toNat + 4096 ≤ L.heapEnd.toNat := by
    have hb := hinv.heapBound
    have h48 := L.bounded
    have hord := L.ordered
    rw [hs', BitVec.toNat_add, show (4096 : BitVec 64).toNat = 4096 from rfl] at hb
    rw [h.heap] at hb ⊢
    omega
  refine ⟨pageOf s.heapPtr, rfl, hinv, ?_, ?_⟩
  · intro b hb hend
    rw [hmem]
    refine hz b ?_ hend
    have hs := hinv.heapStart_lt
    rw [h.heap]
    omega
  · intro path last
    refine lookup_of_dead (fun i => next_leaf_of_invalid ?_) path last
    rw [hmem, hblank hroom i]
    rfl

/-- INTERNAL: on zeroed pages every path is ready to be built. -/
theorem pathReady_of_zero (h : Inv True L s root lvl) (hz : ZeroHeap L s) (va : BitVec 64) :
    PathReady L s root va := by
  have halign := h.heapAligned
  have hbound := h.heapBound
  have h48 := L.bounded
  have hadd : (s.heapPtr + 4096).toNat = s.heapPtr.toNat + 4096 := by
    rw [BitVec.toNat_add, show (4096 : BitVec 64).toNat = 4096 from rfl]
    omega
  have hblank : BlankPage L s.mem s.heapPtr := fun hroom i => by
    rw [hz.blank halign (Nat.le_refl _) hroom i]
    rfl
  refine ⟨h.unlinked h.layered.root_level (Or.inr trivial) (by decide), fun _ => ⟨hblank, ?_⟩,
    fun _ _ _ => hblank⟩
  intro hroom i
  rw [hz.blank (by omega) (by omega) hroom i]
  rfl

/-- INTERNAL: **one call** on the tables is one call on the partial map. -/
theorem Represents.step_tables {calls : List Call} {c : Call} (hc : InRange c)
    (h : Inv True L s root lvl) (hz : ZeroHeap L s)
    (hmap : ∀ va, va.toNat < 2 ^ 48 →
      lookup armFormat (view s.mem) root (vaPath va) (vaSlot 12 va) = lastMapping calls va)
    (hstep : step L s c = some s') : Represents L s' (calls ++ [c]) := by
  have hlast : ∀ va, lastMapping (calls ++ [c]) va =
      (effectAt va c).getD (lastMapping calls va) := fun va => lastWrite_concat _ calls c
  cases c with
  | getTxlnTable =>
    simp only [step, getTxlnTable, getL0Table_of_inv h, Option.map_some,
      Option.some.injEq] at hstep
    subst hstep
    exact .tables root lvl h hz fun va hva => by rw [hlast, hmap va hva]; rfl
  | clearTxlnTable =>
    obtain ⟨hinv, hheap, hframe, hnone⟩ := clearTxlnTable_spec h hstep True
    refine .tables root lvl hinv (hz.of_frame hinv (Nat.le_of_eq (by rw [hheap])) fun a ha => hframe a ?_)
      fun va _ => ?_
    · intro hr
      rw [hr, h.layered.root_level] at ha
      cases ha
    · rw [hnone, hlast]
      rfl
  | createPageMapping kind pa va =>
    simp only [step, Option.map_eq_some_iff, Prod.exists, exists_eq_right] at hstep
    obtain ⟨rc, hcall⟩ := hstep
    obtain ⟨-, lvl', M⟩ := mapping_spec h (pathReady_of_zero h hz va) hcall
    refine .tables root lvl' M.inv (hz.of_frame M.inv M.heapMono M.frame) fun va' hva' => ?_
    rw [M.lookup_eq _ _ rfl, hlast, hmap va' hva', leaf_leafWord kind hc.1]
    simp only [effectAt, eq_comm (a := vaPath va'), eq_comm (a := vaSlot 12 va'),
      vaPath_eq_iff hc.2 hva']
    split <;> rfl

/-- INTERNAL: a call in range takes tables that stand for some calls to tables that stand for one
more. -/
theorem Represents.step {calls : List Call} {c : Call} (hc : InRange c)
    (h : Represents L s calls) (hstep : Program.Armv8Tables.step L s c = some s') :
    Represents L s' (calls ++ [c]) := by
  cases h with
  | tables root lvl hinv hz hmap => exact Represents.step_tables hc hinv hz hmap hstep
  | fresh hfresh hz hnone =>
    obtain ⟨a, s₁, hroot⟩ := root_of_step hstep
    obtain ⟨root, rfl, hinv, hz₁, hlookup⟩ := root_of_fresh hfresh hz hroot
    rw [step_of_root c hroot (getL0Table_of_inv hinv)] at hstep
    exact Represents.step_tables hc hinv hz₁ (fun va _ => by rw [hlookup, hnone]) hstep

/-- INTERNAL: a run of calls in range takes tables that stand for some calls to tables that stand
for these and its own. Induction on the calls. -/
theorem Represents.run {calls : List Call} (done : List Call) (hc : ∀ c ∈ calls, InRange c)
    (h : Represents L s done) (hrun : Program.Armv8Tables.run L s calls = some s') :
    Represents L s' (done ++ calls) := by
  induction calls generalizing s done with
  | nil =>
    simp only [Program.Armv8Tables.run, List.foldlM_nil, Option.pure_def, Option.some.injEq] at hrun
    subst hrun
    rwa [List.append_nil]
  | cons c calls ih =>
    simp only [Program.Armv8Tables.run, List.foldlM_cons, Option.bind_eq_bind,
      Option.bind_eq_some_iff] at hrun
    obtain ⟨s₁, hstep, hrest⟩ := hrun
    have h₁ := h.step (hc c List.mem_cons_self) hstep
    have h₂ := ih (done ++ [c]) (fun c' hc' => hc c' (List.mem_cons_of_mem _ hc')) h₁ hrest
    rwa [List.append_assoc, List.singleton_append] at h₂

/-- INTERNAL: **the ARMv8 translation tables refine a partial map.** On a heap that reads
as zero, the calls return as long as the heap lasts, and the four-level walk after any
sequence of them translates a page exactly as the last mapping made after the last clear.
SRC: arch/armv8/txln_table.c:62-246; arch/armv8/mem.c:97-99 -/
theorem walk_refines_lastMapping (L : HeapLayout) (mem : Memory) (calls : List Call)
    (hzero : ∀ a : BitVec 64, L.heapStart.toNat ≤ a.toNat → a.toNat < L.heapEnd.toNat →
      mem a = 0)
    (hcalls : ∀ c ∈ calls, InRange c) :
    (L.heapStart.toNat + 4 * calls.length * 4096 ≤ L.heapEnd.toNat →
      ∃ s, run L (armv8HeapInit L mem) calls = some s) ∧
    ∀ s, run L (armv8HeapInit L mem) calls = some s →
      ∀ va, va.toNat < 2 ^ 48 → ∀ t, walk s va = some t ↔ WrittenLast (effectAt va) calls t := by
  refine ⟨run_returns (L := L) (s := armv8HeapInit L mem) calls, fun s hrun va hva t => ?_⟩
  have hstart : Represents L (armv8HeapInit L mem) [] :=
    .fresh ⟨rfl, rfl⟩ hzero fun _ => rfl
  rw [← lastWrite_eq_some_iff]
  cases Represents.run [] hcalls hstart hrun with
  | fresh hfresh _ hnone =>
    rw [List.nil_append] at hnone
    rw [walk, if_pos hfresh.noTable, ← hnone va, lastMapping]
  | tables root lvl hinv _ hmap =>
    rw [walk_eq_lookup hinv, hmap va hva, List.nil_append, lastMapping]

/-- INTERNAL: a page mapped before a clear stays hidden when its neighbour, which shares
all its tables, is mapped again. -/
theorem walk_refines_lastMapping_remap :
    ∃ s, run smallHeap (armv8HeapInit smallHeap fun _ => 0)
      [.createPageMapping .data 0x5000 0x7123, .clearTxlnTable,
        .createPageMapping .device 0x9fff 0x8000] = some s ∧
      walk s 0x8765 = some ⟨0x9000, 0x447⟩ ∧ walk s 0x7123 = none := by
  obtain ⟨hruns, hwalk⟩ := walk_refines_lastMapping smallHeap (fun _ => 0)
    [.createPageMapping .data 0x5000 0x7123, .clearTxlnTable,
      .createPageMapping .device 0x9fff 0x8000] (fun _ _ _ => rfl) (by
        simp only [List.mem_cons, List.not_mem_nil, or_false, forall_eq_or_imp, forall_eq]
        exact ⟨⟨by decide, by decide⟩, trivial, by decide, by decide⟩)
  obtain ⟨s, hs⟩ := hruns (by decide)
  refine ⟨s, hs, (hwalk s hs _ (by decide) _).mpr ?_, Option.eq_none_iff_forall_ne_some.mpr ?_⟩
  · rw [← lastWrite_eq_some_iff]
    decide
  · intro t ht
    rw [hwalk s hs _ (by decide), ← lastWrite_eq_some_iff] at ht
    rw [show lastWrite _ _ = none by decide] at ht
    cases ht

end Simbench.Analysis.Armv8Refinement
