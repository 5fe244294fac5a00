import Mathlib.Algebra.Group.Nat.Defs
import Mathlib.Data.List.Basic
import Mathlib.Tactic.Common

/-!
# Parsers over a list of bytes

A parser takes the bytes that are left and returns a value with the bytes it did not
read, or an error. A parse that succeeds splits its input into the bytes read and the rest.
-/

set_option autoImplicit false

namespace Simbench.Library.ByteParser

variable {ε α β : Type}

/-- INTERNAL: two steps succeed when both do. -/
theorem bind_eq_ok {r : Except ε α} {f : α → Except ε β} {b : β} :
    r >>= f = .ok b ↔ ∃ a, r = .ok a ∧ f a = .ok b := by
  cases r with
  | error e => simp [bind, Except.bind]
  | ok a => simp [bind, Except.bind]

/-- INTERNAL: two steps fail when the first does, or the second behind it. -/
theorem bind_eq_error {r : Except ε α} {f : α → Except ε β} {e : ε} :
    r >>= f = .error e ↔ r = .error e ∨ ∃ a, r = .ok a ∧ f a = .error e := by
  cases r with
  | error e => simp [bind, Except.bind]
  | ok a => simp [bind, Except.bind]

/-- INTERNAL: a step behind a result. -/
@[simp] theorem ok_bind {a : α} {f : α → Except ε β} : (Except.ok a >>= f) = f a := rfl

/-- INTERNAL: the next element; `eof` when none is left. -/
def next (eof : ε) : List β → Except ε (β × List β)
  | [] => .error eof
  | b :: rest => .ok (b, rest)

/-- INTERNAL: the next byte of a list that has one. -/
@[simp] theorem next_cons (eof : ε) (b : β) (rest : List β) :
    next eof (b :: rest) = .ok (b, rest) := rfl

/-- INTERNAL: a next byte is taken only of a list that has one. -/
theorem next_eq_ok {eof : ε} {code rest : List β} {b : β} :
    next eof code = .ok (b, rest) ↔ code = b :: rest := by
  cases code with
  | nil => simp [next]
  | cons c code => simp [next]

/-- INTERNAL: the little-endian value of a list of bytes. -/
def littleEndianValue : List (BitVec 8) → ℕ
  | [] => 0
  | b :: bytes => b.toNat + 256 * littleEndianValue bytes

/-- INTERNAL: the little-endian value of the next `n` bytes. -/
def littleEndian (eof : ε) : ℕ → List (BitVec 8) → Except ε (ℕ × List (BitVec 8))
  | 0, code => .ok (0, code)
  | _ + 1, [] => .error eof
  | n + 1, b :: code => do
    let (high, code) ← littleEndian eof n code
    .ok (b.toNat + 256 * high, code)

/-- INTERNAL: reading as many bytes as there are gives their value, whatever follows. -/
theorem littleEndian_append (eof : ε) (bytes rest : List (BitVec 8)) :
    littleEndian eof bytes.length (bytes ++ rest) = .ok (littleEndianValue bytes, rest) := by
  induction bytes with
  | nil => rfl
  | cons b bytes ih =>
    simp only [List.length_cons, List.cons_append, littleEndian, ih, ok_bind, littleEndianValue]

/-- INTERNAL: a read of `n` bytes splits off `n` bytes and returns their value. -/
theorem littleEndian_eq_ok {eof : ε} {n v : ℕ} {code rest : List (BitVec 8)} :
    littleEndian eof n code = .ok (v, rest) ↔
      ∃ bytes, code = bytes ++ rest ∧ bytes.length = n ∧ v = littleEndianValue bytes := by
  constructor
  · intro h
    induction n generalizing code v with
    | zero =>
      simp only [littleEndian, Except.ok.injEq, Prod.mk.injEq] at h
      exact ⟨[], by simp [h.2], rfl, h.1.symm⟩
    | succ n ih =>
      cases code with
      | nil => cases h
      | cons b code =>
        simp only [littleEndian, bind_eq_ok, Prod.exists, Except.ok.injEq, Prod.mk.injEq] at h
        obtain ⟨high, code', hrest, rfl, rfl⟩ := h
        obtain ⟨bytes, rfl, hlen, rfl⟩ := ih hrest
        exact ⟨b :: bytes, rfl, by rw [List.length_cons, hlen], rfl⟩
  · rintro ⟨bytes, rfl, rfl, rfl⟩
    exact littleEndian_append eof bytes rest

/-- INTERNAL: the four bytes of a 32-bit word, low byte first. -/
def bytesOf32 (x : BitVec 32) : List (BitVec 8) :=
  [x.extractLsb' 0 8, x.extractLsb' 8 8, x.extractLsb' 16 8, x.extractLsb' 24 8]

/-- INTERNAL: the bytes of a word have its value. -/
theorem littleEndianValue_bytesOf32 (x : BitVec 32) :
    littleEndianValue (bytesOf32 x) = x.toNat := by
  have hx := x.isLt
  simp only [bytesOf32, littleEndianValue, BitVec.extractLsb'_toNat, Nat.shiftRight_eq_div_pow]
  omega

end Simbench.Library.ByteParser
