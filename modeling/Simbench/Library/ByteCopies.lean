import Mathlib.Algebra.Group.Nat.Defs
import Mathlib.Logic.Function.Basic

/-!
# Copies of ranges

A memory with addresses that wrap around, and the memory after the first cells of a range have
been copied to another, upwards and one at a time. The copy reads each cell of the source before
it is written when the destination begins at the source or at none of its cells.
-/

set_option autoImplicit false

namespace Simbench.Library.ByteCopies

variable {w : ℕ} {β : Type}

/-- INTERNAL: `x` is one of the `n` cells from `a` on. -/
def InRange (a : BitVec w) (n : ℕ) (x : BitVec w) : Prop := (x - a).toNat < n

/-- INTERNAL: whether an address is in a range is decided by its distance from the start. -/
instance (a : BitVec w) (n : ℕ) (x : BitVec w) : Decidable (InRange a n x) :=
  inferInstanceAs (Decidable ((x - a).toNat < n))

/-- INTERNAL: two ranges of `n` cells have no cell in common. -/
def Apart (a b : BitVec w) (n : ℕ) : Prop := ∀ x, InRange a n x → ¬ InRange b n x

/-- INTERNAL: `mem` with the `i` cells from `dest` on as it has them from `src` on. -/
def copied (mem : BitVec w → β) (dest src : BitVec w) (i : ℕ) : BitVec w → β :=
  fun x => if InRange dest i x then mem (src + (x - dest)) else mem x

/-- INTERNAL: `dest` is no cell of the `n` from `src` on but the first. -/
def Upwards (dest src : BitVec w) (n : ℕ) : Prop := dest = src ∨ ¬ InRange src n dest

variable {a b dest src temp x : BitVec w} {n i : ℕ} {mem : BitVec w → β}

/-! ## Ranges -/

/-- INTERNAL: the `i`-th address from the start is in the range. -/
theorem inRange_add (hi : i < n) (hn : n ≤ 2 ^ w) : InRange a n (a + BitVec.ofNat w i) := by
  have hoffset : a + BitVec.ofNat w i - a = BitVec.ofNat w i := by
    rw [BitVec.add_comm, BitVec.add_sub_cancel]
  rw [InRange, hoffset, BitVec.toNat_ofNat, Nat.mod_eq_of_lt (by omega)]
  exact hi

/-- INTERNAL: a range that is not empty holds its start. -/
theorem inRange_start (hn : 0 < n) : InRange a n a := by
  rw [InRange, BitVec.sub_self, BitVec.toNat_zero]
  exact hn

/-- INTERNAL: ranges apart are apart the other way round. -/
theorem Apart.symm (h : Apart a b n) : Apart b a n := fun x hb ha => h x ha hb

/-- INTERNAL: the cells of one range more. -/
theorem inRange_succ (hi : i < 2 ^ w) :
    InRange a (i + 1) x ↔ x = a + BitVec.ofNat w i ∨ InRange a i x := by
  have hlast : x = a + BitVec.ofNat w i ↔ (x - a).toNat = i := by
    rw [BitVec.add_comm, ← BitVec.sub_eq_iff_eq_add, ← BitVec.toNat_inj, BitVec.toNat_ofNat,
      Nat.mod_eq_of_lt hi]
  rw [hlast, InRange, InRange]
  omega

/-! ## Copies that may go upwards -/

/-- INTERNAL: a copy between ranges apart may go upwards. -/
theorem Upwards.of_apart (h : Apart dest src n) : Upwards dest src n := by
  refine .inr fun hin => ?_
  cases n with
  | zero => exact Nat.not_lt_zero _ hin
  | succ n => exact h dest (inRange_start (Nat.succ_pos n)) hin

/-- INTERNAL: the destination is not above the source. -/
theorem Upwards.of_le (h : dest ≤ src) (hsrc : src.toNat + n ≤ 2 ^ w) : Upwards dest src n := by
  by_cases heq : dest = src
  · exact .inl heq
  · have hlt : dest.toNat < src.toNat :=
      Nat.lt_of_le_of_ne h fun hsame => heq (BitVec.eq_of_toNat_eq hsame)
    have hbound := src.isLt
    refine .inr fun hin => ?_
    rw [InRange, BitVec.toNat_sub, Nat.mod_eq_of_lt (by omega)] at hin
    omega

/-- INTERNAL: the next cell of the source is none of those already written, or written with what
it had. -/
theorem copied_source (h : Upwards dest src n) (hi : i < n) (hn : n ≤ 2 ^ w) :
    copied mem dest src i (src + BitVec.ofNat w i) = mem (src + BitVec.ofNat w i) := by
  obtain rfl | hout := h
  · rw [copied, BitVec.add_comm dest (_ - dest), BitVec.sub_add_cancel, ite_self]
  · refine if_neg fun hwritten => hout ?_
    have hsize : (BitVec.ofNat w i).toNat = i := by
      rw [BitVec.toNat_ofNat, Nat.mod_eq_of_lt (by omega)]
    have hoffset : src + BitVec.ofNat w i - dest = BitVec.ofNat w i - (dest - src) := by grind
    by_contra habove
    -- the difference wraps around, to more than the cells written so far
    have hlt : BitVec.ofNat w i < dest - src := by
      rw [BitVec.lt_def, hsize]
      exact Nat.lt_of_lt_of_le hi (Nat.le_of_not_lt habove)
    rw [InRange, hoffset, BitVec.toNat_sub_of_lt hlt, hsize] at hwritten
    have hdistance := (dest - src).isLt
    omega

/-- INTERNAL: **one cell more**: a copy upwards does not read what it has written. -/
theorem copied_succ (h : Upwards dest src n) (hi : i < n) (hn : n ≤ 2 ^ w) :
    Function.update (copied mem dest src i) (dest + BitVec.ofNat w i)
      (copied mem dest src i (src + BitVec.ofNat w i)) = copied mem dest src (i + 1) := by
  have hsize : i < 2 ^ w := by omega
  funext x
  rw [copied_source h hi hn]
  by_cases hlast : x = dest + BitVec.ofNat w i
  · have hoffset : dest + BitVec.ofNat w i - dest = BitVec.ofNat w i := by
      rw [BitVec.add_comm, BitVec.add_sub_cancel]
    rw [hlast, Function.update_self, copied, if_pos (inRange_add (Nat.lt_succ_self i) (by omega)),
      hoffset]
  · rw [Function.update_of_ne hlast, copied, copied]
    refine if_congr ?_ rfl rfl
    rw [inRange_succ hsize, or_iff_right hlast]

/-! ## The cells of a copy -/

/-- INTERNAL: a copy of no cell changes nothing. -/
theorem copied_zero (mem : BitVec w → β) (dest src : BitVec w) : copied mem dest src 0 = mem :=
  funext fun _ => if_neg (Nat.not_lt_zero _)

/-- INTERNAL: behind a copy an address of the destination holds what its counterpart held. -/
theorem copied_of_mem (h : InRange dest n x) : copied mem dest src n x = mem (src + (x - dest)) :=
  if_pos h

/-- INTERNAL: behind a copy every address outside the destination holds what it held. -/
theorem copied_of_notMem (h : ¬ InRange dest n x) : copied mem dest src n x = mem x := if_neg h

/-- INTERNAL: the `i`-th byte of the destination is the `i`-th of the source. -/
theorem copied_add (hi : i < n) (hn : n ≤ 2 ^ w) :
    copied mem dest src n (dest + BitVec.ofNat w i) = mem (src + BitVec.ofNat w i) := by
  rw [copied_of_mem (inRange_add hi hn), BitVec.add_comm dest, BitVec.add_sub_cancel]

/-- INTERNAL: **a copy through a third range** is the copy, outside that range. -/
theorem copied_copied (hx : ¬ InRange temp n x) :
    copied (copied mem temp src n) dest temp n x = copied mem dest src n x := by
  by_cases hin : InRange dest n x
  · have hoffset : temp + (x - dest) - temp = x - dest := by
      rw [BitVec.add_comm, BitVec.add_sub_cancel]
    have htemp : InRange temp n (temp + (x - dest)) := by
      rw [InRange, hoffset]
      exact hin
    rw [copied_of_mem hin, copied_of_mem htemp, hoffset, copied_of_mem hin]
  · rw [copied_of_notMem hin, copied_of_notMem hx, copied_of_notMem hin]

end Simbench.Library.ByteCopies
