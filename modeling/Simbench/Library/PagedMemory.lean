import Simbench.Library.RadixTree
import Mathlib.Tactic.Common

/-!
# Word memory seen as pages of tables

A 64-bit memory of aligned 64-bit words, and its view as 4 KiB pages of 512 words: page
`p` and slot `i` name the word at byte address `p * 4096 + i * 8`. Stores and table-wide
loops on the flat memory are stores and rewrites of the view, which is how a table
routine written with pointers meets the radix-tree lemmas.
-/

set_option autoImplicit false

namespace Simbench.Library.PagedMemory

open Simbench.Library.RadixTree

/-- INTERNAL: the 64-bit word at every (8-aligned) byte address. -/
abbrev Memory := BitVec 64 → BitVec 64

/-- INTERNAL: a 4 KiB page number. -/
abbrev Page := BitVec 52

/-- INTERNAL: the index of a word in a page. -/
abbrev Slot := BitVec 9

/-- INTERNAL: the byte address of a page. -/
def base (p : Page) : BitVec 64 := p ++ 0#12

/-- INTERNAL: the page that holds a byte address. -/
def pageOf (a : BitVec 64) : Page := a.extractLsb' 12 52

/-- INTERNAL: the byte address of a word of a page. -/
def slotAddr (p : Page) (i : Slot) : BitVec 64 := p ++ (i ++ 0#3)

/-- INTERNAL: the memory as pages of words. -/
def view (m : Memory) : Page → Slot → BitVec 64 := fun p i => m (slotAddr p i)

/-- INTERNAL: the address of word `i` of the array at `table`, as C pointer arithmetic
computes it. -/
def wordAddr (table : BitVec 64) (i : BitVec 32) : BitVec 64 := table + 8 * i.setWidth 64

/-- INTERNAL: the loop that replaces words `0 .. n - 1` of the array at `table` by `f` of
themselves. -/
def updateWords (f : BitVec 64 → BitVec 64) (table : BitVec 64) : ℕ → Memory → Memory
  | 0, m => m
  | n + 1, m =>
    let m' := updateWords f table n m
    Function.update m' (wordAddr table (BitVec.ofNat 32 n))
      (f (m' (wordAddr table (BitVec.ofNat 32 n))))

section Addresses

/-- INTERNAL: a page begins at its number times the page size. -/
theorem toNat_base (p : Page) : (base p).toNat = p.toNat * 4096 := by
  unfold base
  rw [BitVec.toNat_append]
  simp [Nat.shiftLeft_eq]

/-- INTERNAL: a slot lies eight bytes times its index behind the start of its page. -/
theorem toNat_slotAddr (p : Page) (i : Slot) :
    (slotAddr p i).toNat = p.toNat * 4096 + i.toNat * 8 := by
  unfold slotAddr
  rw [BitVec.toNat_append, BitVec.toNat_append]
  have hi := i.isLt
  have hin : i.toNat <<< 3 ||| (0#3).toNat = i.toNat * 8 := by
    simp [Nat.shiftLeft_eq]
  rw [hin, ← Nat.shiftLeft_add_eq_or_of_lt (by omega), Nat.shiftLeft_eq]

/-- INTERNAL: the page number of an address is its quotient by the page size. -/
theorem toNat_pageOf (a : BitVec 64) : (pageOf a).toNat = a.toNat / 4096 := by
  unfold pageOf
  have ha := a.isLt
  rw [BitVec.extractLsb'_toNat, Nat.shiftRight_eq_div_pow]
  omega

/-- INTERNAL: the page of a page's base is that page. -/
@[simp] theorem pageOf_base (p : Page) : pageOf (base p) = p := by
  apply BitVec.eq_of_toNat_eq
  rw [toNat_pageOf, toNat_base]
  omega

/-- INTERNAL: the page of a slot is the page it was made from. -/
@[simp] theorem pageOf_slotAddr (p : Page) (i : Slot) : pageOf (slotAddr p i) = p := by
  apply BitVec.eq_of_toNat_eq
  have hi := i.isLt
  rw [toNat_pageOf, toNat_slotAddr]
  omega

/-- INTERNAL: an aligned address is the base of its page. -/
theorem base_pageOf {a : BitVec 64} (h : a.toNat % 4096 = 0) : base (pageOf a) = a := by
  apply BitVec.eq_of_toNat_eq
  rw [toNat_base, toNat_pageOf]
  omega

/-- INTERNAL: only page zero begins at zero. -/
theorem base_eq_zero {p : Page} : base p = 0 ↔ p.toNat = 0 := by
  constructor
  · intro h
    have hn := congrArg BitVec.toNat h
    rw [toNat_base] at hn
    simp only [BitVec.ofNat_eq_ofNat, BitVec.toNat_ofNat, Nat.zero_mod] at hn
    omega
  · intro h
    apply BitVec.eq_of_toNat_eq
    rw [toNat_base, h]
    rfl

/-- INTERNAL: different slots have different addresses. -/
theorem slotAddr_inj {p q : Page} {i j : Slot} :
    slotAddr p i = slotAddr q j ↔ p = q ∧ i = j := by
  constructor
  · intro h
    have hp : p = q := by rw [← pageOf_slotAddr p i, h, pageOf_slotAddr]
    subst hp
    have hn := congrArg BitVec.toNat h
    rw [toNat_slotAddr, toNat_slotAddr] at hn
    exact ⟨rfl, BitVec.eq_of_toNat_eq (by omega)⟩
  · rintro ⟨rfl, rfl⟩
    rfl

/-- INTERNAL: the words of a page are its slots. -/
theorem wordAddr_base (p : Page) (i : BitVec 32) (hi : i.toNat < 512) :
    wordAddr (base p) i = slotAddr p (i.setWidth 9) := by
  apply BitVec.eq_of_toNat_eq
  have hp := p.isLt
  unfold wordAddr
  rw [BitVec.toNat_add, BitVec.toNat_mul, toNat_slotAddr, toNat_base, BitVec.toNat_setWidth,
    BitVec.toNat_setWidth]
  have h8 : (8 : BitVec 64).toNat = 8 := rfl
  rw [h8]
  omega

/-- INTERNAL: clearing the offset leaves the base of the page. -/
theorem and_not_offset (a : BitVec 64) : a &&& ~~~0xfff#64 = base (pageOf a) := by
  apply BitVec.eq_of_getLsbD_eq
  intro i hi
  have hoff : (0xfff#64).getLsbD i = decide (i < 12) := by
    have h : ∀ j : Fin 64, (0xfff#64).getLsbD j = decide (j.val < 12) := by decide
    exact h ⟨i, hi⟩
  have hbase : (base (pageOf a)).getLsbD i = (decide (12 ≤ i) && a.getLsbD i) := by
    rw [BitVec.getLsbD, toNat_base, toNat_pageOf,
      show a.toNat / 4096 * 4096 = a.toNat >>> 12 <<< 12 by
        rw [Nat.shiftLeft_eq, Nat.shiftRight_eq_div_pow],
      Nat.testBit_shiftLeft, Nat.testBit_shiftRight]
    by_cases h12 : 12 ≤ i
    · simp [h12, BitVec.getLsbD, show 12 + (i - 12) = i by omega]
    · simp [h12]
  rw [BitVec.getLsbD_and, BitVec.getLsbD_not, hoff, hbase]
  by_cases h12 : i < 12
  · simp [h12]
  · simp [h12, hi, show 12 ≤ i by omega]

/-- INTERNAL: a page address below `2 ^ n` is its own field of bits `n - 1` to 12. -/
theorem base_and_mask {mask : BitVec 64} {n : ℕ}
    (hmask : ∀ i : Fin 64, mask.getLsbD i = (decide (12 ≤ i.val) && decide (i.val < n))) {p : Page}
    (h : p.toNat * 4096 < 2 ^ n) : base p &&& mask = base p := by
  apply BitVec.eq_of_getLsbD_eq
  intro i hi
  rw [BitVec.getLsbD_and, hmask ⟨i, hi⟩]
  by_cases hn : i < n
  · by_cases h12 : 12 ≤ i
    · simp [h12, hn]
    · have hlow : (base p).getLsbD i = false := by
        rw [BitVec.getLsbD, toNat_base, show p.toNat * 4096 = p.toNat <<< 12 by
          rw [Nat.shiftLeft_eq], Nat.testBit_shiftLeft]
        simp [h12]
      simp [hlow]
  · have hhigh : (base p).getLsbD i = false := by
      rw [BitVec.getLsbD, toNat_base]
      exact Nat.testBit_lt_two_pow
        (Nat.lt_of_lt_of_le h (Nat.pow_le_pow_right (by omega) (by omega)))
    simp [hhigh]

/-- INTERNAL: a field without the offset bits is a multiple of the page size. -/
theorem base_pageOf_and {mask : BitVec 64} (hmask : mask &&& 0xfff#64 = 0) (w : BitVec 64) :
    base (pageOf (w &&& mask)) = w &&& mask := by
  apply base_pageOf
  have hlow : (w &&& mask) &&& 0xfff#64 = 0 := by
    rw [BitVec.and_assoc, hmask]
    exact BitVec.and_zero
  have h := congrArg BitVec.toNat hlow
  rw [BitVec.toNat_and, show (0xfff#64).toNat = 2 ^ 12 - 1 from rfl,
    Nat.and_two_pow_sub_one_eq_mod] at h
  exact h

end Addresses

section Views

variable (m : Memory)

/-- INTERNAL: storing a word of a page sets one entry of its table. -/
theorem view_update (p : Page) (i : Slot) (w : BitVec 64) :
    view (Function.update m (slotAddr p i) w) = setEntry (view m) p i w := by
  funext q j
  by_cases h : q = p ∧ j = i
  · obtain ⟨rfl, rfl⟩ := h
    simp [view]
  · rw [setEntry_of_ne _ _ _ _ h]
    unfold view
    rw [Function.update_of_ne]
    exact fun he => h (slotAddr_inj.mp he)

/-- INTERNAL: the words a table loop has reached are rewritten, the rest of memory is
unchanged. -/
theorem updateWords_apply (f : BitVec 64 → BitVec 64) (p : Page) (n : ℕ) (hn : n ≤ 512)
    (a : BitVec 64) :
    updateWords f (base p) n m a =
      if ∃ i : Slot, i.toNat < n ∧ a = slotAddr p i then f (m a) else m a := by
  induction n with
  | zero => simp [updateWords]
  | succ n ih =>
    have hlt : (BitVec.ofNat 32 n).toNat < 512 := by
      rw [BitVec.toNat_ofNat]
      omega
    have hslot : ((BitVec.ofNat 32 n).setWidth 9).toNat = n := by
      rw [BitVec.toNat_setWidth, BitVec.toNat_ofNat]
      omega
    simp only [updateWords]
    rw [wordAddr_base p _ hlt]
    by_cases ha : a = slotAddr p ((BitVec.ofNat 32 n).setWidth 9)
    · -- the word stored by this iteration has not been touched by the earlier ones
      have hfresh : ¬∃ i : Slot, i.toNat < n ∧ a = slotAddr p i := by
        rintro ⟨i, hi, he⟩
        rw [ha, slotAddr_inj] at he
        rw [← he.2, hslot] at hi
        omega
      have hnow : ∃ i : Slot, i.toNat < n + 1 ∧ a = slotAddr p i := ⟨_, by omega, ha⟩
      rw [← ha, Function.update_self, ih (by omega), if_neg hfresh, if_pos hnow]
    · rw [Function.update_of_ne ha, ih (by omega)]
      congr 1
      apply propext
      constructor
      · rintro ⟨i, hi, he⟩
        exact ⟨i, by omega, he⟩
      · rintro ⟨i, hi, he⟩
        refine ⟨i, ?_, he⟩
        rcases Nat.lt_or_ge i.toNat n with hlt' | hge
        · exact hlt'
        · exact absurd (by rw [he]; congr 1; exact BitVec.eq_of_toNat_eq (by omega)) ha

/-- INTERNAL: rewriting all words of a page rewrites its table. -/
theorem view_updateWords (f : BitVec 64 → BitVec 64) (p : Page) :
    view (updateWords f (base p) 512 m) = rewrite (view m) p f := by
  funext q j
  unfold view
  rw [updateWords_apply m f p 512 (Nat.le_refl _)]
  by_cases hq : q = p
  · subst hq
    rw [if_pos ⟨j, by have := j.isLt; omega, rfl⟩, rewrite_self]
  · rw [if_neg, rewrite_of_ne _ _ _ hq]
    rintro ⟨i, -, he⟩
    exact hq (slotAddr_inj.mp he).1

/-- INTERNAL: rewriting all words of a page leaves every other page alone. -/
theorem updateWords_of_ne (f : BitVec 64 → BitVec 64) (p : Page) {a : BitVec 64}
    (ha : pageOf a ≠ p) : updateWords f (base p) 512 m a = m a := by
  rw [updateWords_apply m f p 512 (Nat.le_refl _), if_neg]
  rintro ⟨i, -, rfl⟩
  exact ha (pageOf_slotAddr p i)

/-- INTERNAL: storing one word of a page leaves every other page alone. -/
theorem update_slotAddr_of_ne (p : Page) (i : Slot) (w : BitVec 64) {a : BitVec 64}
    (ha : pageOf a ≠ p) : Function.update m (slotAddr p i) w a = m a := by
  apply Function.update_of_ne
  rintro rfl
  exact ha (pageOf_slotAddr p i)

end Views

end Simbench.Library.PagedMemory
