import Mathlib.Algebra.Group.Nat.Defs

/-!
# Single bits of a word

A mask `1#w <<< i` tests, sets and clears bit `i` of a word. Setting or clearing a bit leaves
the other bits as they were, and leaves the whole word as it was exactly when the bit already
had that value.
-/

set_option autoImplicit false

namespace Simbench.Library.BitFields

variable {w : ℕ}

/-- INTERNAL: the bits of a single set bit. -/
theorem getLsbD_bit (i j : ℕ) : (1#w <<< i).getLsbD j = (decide (i < w) && decide (i = j)) := by
  rw [← BitVec.twoPow_eq, BitVec.getLsbD_twoPow]

/-- INTERNAL: setting a bit sets it and no other. -/
theorem getLsbD_or_bit (x : BitVec w) {i : ℕ} (hi : i < w) (j : ℕ) :
    (x ||| 1#w <<< i).getLsbD j = (x.getLsbD j || decide (i = j)) := by
  rw [BitVec.getLsbD_or, getLsbD_bit, decide_eq_true hi, Bool.true_and]

/-- INTERNAL: clearing a bit clears it and no other. -/
theorem getLsbD_and_not_bit (x : BitVec w) {i : ℕ} (hi : i < w) (j : ℕ) :
    (x &&& ~~~(1#w <<< i)).getLsbD j = (x.getLsbD j && !decide (i = j)) := by
  rw [BitVec.getLsbD_and, BitVec.getLsbD_not, getLsbD_bit, decide_eq_true hi, Bool.true_and]
  by_cases hj : j < w
  · rw [decide_eq_true hj, Bool.true_and]
  · rw [BitVec.getLsbD_of_ge x j (Nat.le_of_not_lt hj), Bool.false_and, Bool.false_and]

/-- INTERNAL: masking a single bit out gives zero exactly when it is clear. -/
theorem and_bit_eq_zero_iff (x : BitVec w) {i : ℕ} (hi : i < w) :
    x &&& 1#w <<< i = 0 ↔ x.getLsbD i = false := by
  constructor
  · intro hzero
    have hbit := congrArg (fun y => y.getLsbD i) hzero
    simpa [BitVec.getLsbD_and, getLsbD_bit, hi] using hbit
  · intro hbit
    apply BitVec.eq_of_getLsbD_eq
    intro j _
    rw [BitVec.getLsbD_and, getLsbD_bit, decide_eq_true hi, Bool.true_and]
    by_cases hij : i = j
    · rw [← hij, hbit]
      simp
    · simp [hij]

/-- INTERNAL: setting a bit changes nothing exactly when it is set. -/
theorem or_bit_eq_self_iff (x : BitVec w) {i : ℕ} (hi : i < w) :
    x ||| 1#w <<< i = x ↔ x.getLsbD i = true := by
  constructor
  · intro hsame
    rw [← hsame, getLsbD_or_bit x hi]
    simp
  · intro hbit
    apply BitVec.eq_of_getLsbD_eq
    intro j _
    rw [getLsbD_or_bit x hi]
    by_cases hij : i = j
    · rw [← hij, hbit]
      simp
    · simp [hij]

/-- INTERNAL: clearing a bit changes nothing exactly when it is clear. -/
theorem and_not_bit_eq_self_iff (x : BitVec w) {i : ℕ} (hi : i < w) :
    x &&& ~~~(1#w <<< i) = x ↔ x.getLsbD i = false := by
  constructor
  · intro hsame
    rw [← hsame, getLsbD_and_not_bit x hi]
    simp
  · intro hbit
    apply BitVec.eq_of_getLsbD_eq
    intro j _
    rw [getLsbD_and_not_bit x hi]
    by_cases hij : i = j
    · rw [← hij, hbit]
      simp
    · simp [hij]

end Simbench.Library.BitFields
