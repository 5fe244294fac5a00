import Simbench.Program.Armv8Tables

/-!
# ARMv8 descriptors as a radix-tree word format

The bit-level facts about table words: which table a word remembers (bits 47:12), which
one a walk follows (only when bits 1:0 are 3), and what the two ways the code writes a
word, clearing the valid bits and linking a page, do to them.
-/

set_option autoImplicit false

namespace Simbench.Analysis.Armv8Descriptors

open Simbench.Library.RadixTree Simbench.Library.PagedMemory Simbench.Library.TableWalk
open Simbench.Program.Armv8Tables

/-! ## Bits -/

/-- INTERNAL: clearing the two type bits of a descriptor keeps its address. -/
theorem clear_and_addressMask (w : BitVec 64) :
    (w &&& ~~~3#64) &&& addressMask = w &&& addressMask := by
  rw [BitVec.and_assoc]
  rfl

/-- INTERNAL: a descriptor with its type bits cleared is invalid. -/
theorem clear_and_three (w : BitVec 64) : (w &&& ~~~3#64) &&& 3 = 0 := by
  rw [BitVec.and_assoc]
  simp

/-- INTERNAL: setting them makes it a table or a page. -/
theorem or_three_and_three (w : BitVec 64) : (w ||| 3) &&& 3 = 3 := by
  apply BitVec.eq_of_getLsbD_eq
  intro i _
  rw [BitVec.getLsbD_and, BitVec.getLsbD_or]
  cases (3#64).getLsbD i <;> simp_all

/-- INTERNAL: setting the type bits keeps the address field. -/
theorem or_three_and_addressMask (w : BitVec 64) :
    (w ||| 3) &&& addressMask = w &&& addressMask := by
  rw [BitVec.and_or_distrib_right]
  exact BitVec.or_zero

/-- INTERNAL: the base of a page below 2^48 is its own address field. -/
theorem base_and_addressMask {p : Page} (h : p.toNat * 4096 < 2 ^ 48) :
    base p &&& addressMask = base p :=
  base_and_mask (by decide) h

/-- INTERNAL: the address field of a descriptor is a multiple of the page size. -/
theorem base_pageOf_addressMask (w : BitVec 64) :
    base (pageOf (w &&& addressMask)) = w &&& addressMask :=
  base_pageOf_and (by decide) w

/-! ## Indices -/

/-- INTERNAL: the index into a level is nine bits of the address, from that level's shift on. -/
theorem toNat_tableIndex (shift : ℕ) (va : BitVec 64) :
    (tableIndex shift 512 va).toNat = va.toNat / 2 ^ shift % 512 := by
  unfold tableIndex
  rw [BitVec.toNat_and, BitVec.toNat_setWidth, BitVec.toNat_ushiftRight,
    Nat.shiftRight_eq_div_pow]
  have h := Nat.and_two_pow_sub_one_eq_mod (va.toNat / 2 ^ shift % 2 ^ 32) 9
  rw [show (BitVec.ofNat 32 (512 - 1)).toNat = 2 ^ 9 - 1 from rfl, h]
  omega

/-- INTERNAL: the address of an entry in the source is the slot of the tree the address goes
through. -/
theorem wordAddr_tableIndex (p : Page) (shift : ℕ) (va : BitVec 64) :
    wordAddr (base p) (tableIndex shift 512 va) = slotAddr p (vaSlot shift va) := by
  have hn := toNat_tableIndex shift va
  rw [wordAddr_base p _ (by omega)]
  congr 1
  apply BitVec.eq_of_toNat_eq
  rw [BitVec.toNat_setWidth, toNat_vaSlot, hn]
  omega

/-! ## The format -/

/-- INTERNAL: the table a word remembers in bits 47:12. -/
def remembered (w : BitVec 64) : Option Page :=
  if w &&& addressMask = 0 then none else some (pageOf (w &&& addressMask))

/-- INTERNAL: ARMv8 descriptors as radix-tree words. -/
def armFormat : Format Page (BitVec 64) Translation where
  child := remembered
  next w := if w &&& 3 = 3 then remembered w else none
  leaf := leafTranslation
  next_child w q h := by
    split at h
    · exact h
    · cases h

/-- INTERNAL: a page is remembered when the address field is its base and is not zero. -/
theorem remembered_eq_some {w : BitVec 64} {q : Page} (h : remembered w = some q) :
    w &&& addressMask = base q ∧ w &&& addressMask ≠ 0 := by
  unfold remembered at h
  split at h
  · cases h
  · rw [← Option.some.inj h, base_pageOf_addressMask]
    exact ⟨rfl, by assumption⟩

/-- INTERNAL: nothing is remembered exactly when the address field is zero. -/
theorem remembered_eq_none {w : BitVec 64} :
    remembered w = none ↔ w &&& addressMask = 0 := by
  unfold remembered
  split <;> simp_all

/-- INTERNAL: the child of an entry does not depend on its type bits: an invalid entry still names
its table. -/
theorem child_clear (w : BitVec 64) : armFormat.child (w &&& ~~~3#64) = armFormat.child w := by
  simp only [armFormat, remembered, clear_and_addressMask]

/-- INTERNAL: a word whose valid bits are clear is not followed and yields nothing. -/
theorem next_leaf_of_invalid {w : BitVec 64} (h : w &&& 3 = 0) :
    armFormat.next w = none ∧ armFormat.leaf w = none := by
  have h3 : ¬w &&& 3 = 3 := by
    rw [h]
    decide
  simp only [armFormat, leafTranslation, if_neg h3, and_self]

/-- INTERNAL: a fresh link of a page is followed both by the walk and by the next call. -/
theorem child_next_link {c : Page} (hc : c.toNat ≠ 0) (h48 : c.toNat * 4096 < 2 ^ 48) :
    armFormat.child (base c ||| 3) = some c ∧ armFormat.next (base c ||| 3) = some c := by
  have hne : base c ≠ 0 := fun h => hc (base_eq_zero.mp h)
  simp only [armFormat, remembered, or_three_and_addressMask, or_three_and_three,
    base_and_addressMask h48, hne, if_false, if_true, pageOf_base, and_self]

end Simbench.Analysis.Armv8Descriptors
