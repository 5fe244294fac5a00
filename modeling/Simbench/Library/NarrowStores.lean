import Simbench.Library.PagedMemory

/-!
# Stores narrower than a word

32-bit code on the memory of 64-bit words: a store of `n` bits at a byte address replaces a field
of the word that holds the address. Storing into a cleared word leaves the value alone, and filling
a table with zeros in halves is filling it with zeros in words.
-/

set_option autoImplicit false

namespace Simbench.Library.NarrowStores

open Simbench.Library.PagedMemory

/-- INTERNAL: the address of the word that holds a byte. -/
def wordOf (a : BitVec 64) : BitVec 64 := a >>> 3 <<< 3

/-- INTERNAL: the bit of its word a byte starts at, in little-endian order. -/
def bitOf (a : BitVec 64) : ℕ := 8 * (a.toNat % 8)

/-- INTERNAL: a word with the field that starts at a bit replaced. -/
def replaceBits {n : ℕ} (w : BitVec 64) (bit : ℕ) (v : BitVec n) : BitVec 64 :=
  (w &&& ~~~((BitVec.allOnes n).setWidth 64 <<< bit)) ||| v.setWidth 64 <<< bit

/-- INTERNAL: a store of `n` bits that lies in one word. -/
def storePart {n : ℕ} (a : BitVec 64) (v : BitVec n) (m : Memory) : Memory :=
  Function.update m (wordOf a) (replaceBits (m (wordOf a)) (bitOf a) v)

/-- INTERNAL: `rep stosl`: `%eax` is stored `%ecx` times, upwards from `%edi`. -/
def repStosl (eax : BitVec 32) : ℕ → BitVec 32 → Memory → Memory
  | 0, _, m => m
  | ecx + 1, edi, m => repStosl eax ecx (edi + 4) (storePart (edi.setWidth 64) eax m)

/-! ## Single stores -/

/-- INTERNAL: the word of an address begins at the multiple of eight below it. -/
theorem toNat_wordOf (a : BitVec 64) : (wordOf a).toNat = a.toNat / 8 * 8 := by
  have ha := a.isLt
  rw [wordOf, BitVec.toNat_shiftLeft, BitVec.toNat_ushiftRight, Nat.shiftRight_eq_div_pow,
    Nat.shiftLeft_eq]
  omega

/-- INTERNAL: **a store into a cleared word** at its start. -/
theorem storePart_of_zero {n : ℕ} {a : BitVec 64} {m : Memory} (ha : a.toNat % 8 = 0)
    (hzero : m a = 0) (v : BitVec n) :
    storePart a v m = Function.update m a (v.setWidth 64) := by
  have hword : wordOf a = a := by
    apply BitVec.eq_of_toNat_eq
    rw [toNat_wordOf]
    omega
  have hbit : bitOf a = 0 := by
    rw [bitOf, ha]
  rw [storePart, hword, hbit, hzero, replaceBits, BitVec.ofNat_eq_ofNat, BitVec.zero_and,
    BitVec.zero_or, BitVec.shiftLeft_zero]

/-- INTERNAL: both halves of a word cleared, the lower one first. -/
theorem storePart_halves {a a' : BitVec 64} (ha : a.toNat % 8 = 0) (ha' : a'.toNat = a.toNat + 4)
    (m : Memory) :
    storePart a' (0 : BitVec 32) (storePart a (0 : BitVec 32) m) = Function.update m a 0 := by
  have hword : wordOf a = a ∧ wordOf a' = a := by
    constructor <;> apply BitVec.eq_of_toNat_eq <;> rw [toNat_wordOf] <;> omega
  have hbit : bitOf a = 0 ∧ bitOf a' = 32 := by
    simp only [bitOf]
    omega
  have hclear : ∀ w : BitVec 64,
      replaceBits (replaceBits w 0 (0 : BitVec 32)) 32 (0 : BitVec 32) = 0 := by
    intro w
    have hmasks : ~~~((BitVec.allOnes 32).setWidth 64 <<< 0) &&&
        ~~~((BitVec.allOnes 32).setWidth 64 <<< 32) = 0#64 := by decide
    have hvalue : ∀ bit : ℕ, (0 : BitVec 32).setWidth 64 <<< bit = 0#64 := by
      intro bit
      simp
    rw [replaceBits, replaceBits, hvalue, hvalue, BitVec.or_zero, BitVec.or_zero, BitVec.and_assoc,
      hmasks]
    exact BitVec.and_zero
  rw [storePart, storePart, hword.1, hword.2, hbit.1, hbit.2, Function.update_idem,
    Function.update_self, hclear]

/-! ## `rep stosl` -/

/-- INTERNAL: a fill of `n + k` words is one of `n` and one of `k` behind it. -/
theorem repStosl_add (eax : BitVec 32) (n k : ℕ) (edi : BitVec 32) (m : Memory) :
    repStosl eax (n + k) edi m =
      repStosl eax k (edi + 4 * BitVec.ofNat 32 n) (repStosl eax n edi m) := by
  induction n generalizing edi m with
  | zero =>
    have hstart : edi + 4 * BitVec.ofNat 32 0 = edi := by simp
    rw [Nat.zero_add, hstart]
    rfl
  | succ n ih =>
    have hnext : edi + 4 + 4 * BitVec.ofNat 32 n = edi + 4 * BitVec.ofNat 32 (n + 1) := by
      rw [BitVec.ofNat_add]
      grind
    rw [Nat.add_right_comm, repStosl, ih, hnext]
    rfl

/-- INTERNAL: **a table cleared in halves** is a table cleared in words. Induction on the words. -/
theorem repStosl_eq_updateWords {table : BitVec 32} (halign : table.toNat % 8 = 0) (n : ℕ)
    (hfit : table.toNat + 8 * n ≤ 2 ^ 32) (m : Memory) :
    repStosl 0 (2 * n) table m = updateWords (fun _ => 0) (table.setWidth 64) n m := by
  induction n with
  | zero => rfl
  | succ n ih =>
    have hhalf : (table + 4 * BitVec.ofNat 32 (2 * n)).toNat = table.toNat + 8 * n := by
      rw [BitVec.toNat_add, BitVec.toNat_mul, BitVec.toNat_ofNat, show (4 : BitVec 32).toNat = 4
        from rfl]
      omega
    have hlow : ((table + 4 * BitVec.ofNat 32 (2 * n)).setWidth 64).toNat =
        table.toNat + 8 * n := by
      rw [BitVec.toNat_setWidth, hhalf]
      omega
    have hhigh : ((table + 4 * BitVec.ofNat 32 (2 * n) + 4).setWidth 64).toNat =
        table.toNat + 8 * n + 4 := by
      rw [BitVec.toNat_setWidth, BitVec.toNat_add, hhalf, show (4 : BitVec 32).toNat = 4 from rfl]
      omega
    have hword : (table + 4 * BitVec.ofNat 32 (2 * n)).setWidth 64 =
        wordAddr (table.setWidth 64) (BitVec.ofNat 32 n) := by
      apply BitVec.eq_of_toNat_eq
      rw [hlow, wordAddr, BitVec.toNat_add, BitVec.toNat_mul, BitVec.toNat_setWidth,
        BitVec.toNat_setWidth, BitVec.toNat_ofNat, show (8 : BitVec 64).toNat = 8 from rfl]
      omega
    have hpair := storePart_halves (by rw [hlow]; omega) (by rw [hhigh, hlow])
      (repStosl 0 (2 * n) table m)
    rw [Nat.mul_add, repStosl_add]
    simp only [repStosl, updateWords]
    rw [hpair, ih (by omega), hword]

end Simbench.Library.NarrowStores
