import Mathlib.Algebra.Group.Nat.Defs
import Mathlib.Data.List.Basic
import Mathlib.Logic.Function.Basic
import Mathlib.Tactic.Common

/-!
# Buffers that log their stores

The cells behind a pointer, and the index of every store made through it. A piece of code
that stores between two indices only (`WritesIn`) leaves every other cell and the earlier
log as they were; such pieces compose, and the text below or above them is kept.
-/

set_option autoImplicit false

namespace Simbench.Library.LoggedBuffer

variable {α : Type}

/-- INTERNAL: the cells, and the indices stored to, latest first. -/
structure Buffer (α : Type) where
  data : ℕ → α
  writes : List ℕ

/-- INTERNAL: a store of one character, logged with its place. -/
def Buffer.store (b : Buffer α) (i : ℕ) (c : α) : Buffer α :=
  { data := Function.update b.data i c, writes := i :: b.writes }

/-- INTERNAL: the `n` cells from `lo` on. -/
def Buffer.content (b : Buffer α) (lo : ℕ) : ℕ → List α
  | 0 => []
  | n + 1 => b.data lo :: b.content (lo + 1) n

/-- INTERNAL: `b'` is `b` after stores to indices from `lo` to below `hi`. -/
structure WritesIn (lo hi : ℕ) (b b' : Buffer α) : Prop where
  log : ∃ log, b'.writes = log ++ b.writes ∧ ∀ i ∈ log, lo ≤ i ∧ i < hi
  frame : ∀ i, i < lo ∨ hi ≤ i → b'.data i = b.data i

/-- INTERNAL: a store is read back at its place. -/
theorem Buffer.store_data_self (b : Buffer α) (i : ℕ) (c : α) : (b.store i c).data i = c :=
  Function.update_self ..

/-- INTERNAL: a store leaves every other place alone. -/
theorem Buffer.store_data_of_ne (b : Buffer α) {i j : ℕ} (c : α) (h : j ≠ i) :
    (b.store i c).data j = b.data j :=
  Function.update_of_ne h ..

/-- INTERNAL: a content has the length asked for. -/
theorem Buffer.length_content (b : Buffer α) (lo n : ℕ) : (b.content lo n).length = n := by
  induction n generalizing lo with
  | zero => rfl
  | succ n ih => rw [Buffer.content, List.length_cons, ih]

namespace WritesIn

variable {lo hi : ℕ} {b b₁ b₂ : Buffer α}

/-- INTERNAL: no write lies within any bounds. -/
theorem refl (lo hi : ℕ) (b : Buffer α) : WritesIn lo hi b b :=
  ⟨⟨[], rfl, by simp⟩, fun _ _ => rfl⟩

/-- INTERNAL: writes within bounds lie within wider ones. -/
theorem mono {lo' hi' : ℕ} (h : WritesIn lo hi b b₁) (hlo : lo' ≤ lo) (hhi : hi ≤ hi') :
    WritesIn lo' hi' b b₁ := by
  obtain ⟨log, hlog, hrange⟩ := h.log
  refine ⟨⟨log, hlog, fun i hi => ?_⟩, fun i hi => h.frame i (by omega)⟩
  have := hrange i hi
  omega

/-- INTERNAL: writes within bounds one after the other. -/
theorem trans (h₁ : WritesIn lo hi b b₁) (h₂ : WritesIn lo hi b₁ b₂) : WritesIn lo hi b b₂ := by
  obtain ⟨log₁, hlog₁, hrange₁⟩ := h₁.log
  obtain ⟨log₂, hlog₂, hrange₂⟩ := h₂.log
  refine ⟨⟨log₂ ++ log₁, ?_, fun i hi => ?_⟩, fun i hi => ?_⟩
  · rw [hlog₂, hlog₁, List.append_assoc]
  · rcases List.mem_append.mp hi with hi | hi
    · exact hrange₂ i hi
    · exact hrange₁ i hi
  · rw [h₂.frame i hi, h₁.frame i hi]

/-- INTERNAL: a store within the bounds. -/
theorem store (b : Buffer α) {i : ℕ} (c : α) (hlo : lo ≤ i) (hhi : i < hi) :
    WritesIn lo hi b (b.store i c) := by
  refine ⟨⟨[i], rfl, fun j hj => ?_⟩, fun j hj => b.store_data_of_ne c (by omega)⟩
  rw [List.mem_singleton.mp hj]
  exact ⟨hlo, hhi⟩

/-- INTERNAL: every write of a fresh buffer lies within the bounds. -/
theorem writes_range (h : WritesIn lo hi b b₁) (hfresh : b.writes = []) :
    ∀ i ∈ b₁.writes, lo ≤ i ∧ i < hi := by
  obtain ⟨log, hlog, hrange⟩ := h.log
  rwa [hlog, hfresh, List.append_nil]

/-- INTERNAL: content outside the bounds is left alone. -/
theorem content_eq (h : WritesIn lo hi b b₁) {i n : ℕ} (hout : i + n ≤ lo ∨ hi ≤ i) :
    b₁.content i n = b.content i n := by
  induction n generalizing i with
  | zero => rfl
  | succ n ih =>
    rw [Buffer.content, Buffer.content, h.frame i (by omega), ih (by omega)]

end WritesIn

/-! ## Contents -/

/-- INTERNAL: a content is its first part and the one behind it. -/
theorem Buffer.content_append (b : Buffer α) (lo n m : ℕ) :
    b.content lo (n + m) = b.content lo n ++ b.content (lo + n) m := by
  induction n generalizing lo with
  | zero => rw [Nat.zero_add, Nat.add_zero]; rfl
  | succ n ih =>
    rw [Nat.add_right_comm, Buffer.content, Buffer.content, ih, List.cons_append,
      Nat.add_assoc lo 1 n, Nat.add_comm 1 n]

/-- INTERNAL: equal data has equal content. -/
theorem Buffer.content_congr {b b' : Buffer α} {lo lo' n : ℕ}
    (h : ∀ k, k < n → b'.data (lo' + k) = b.data (lo + k)) :
    b'.content lo' n = b.content lo n := by
  induction n generalizing lo lo' with
  | zero => rfl
  | succ n ih =>
    have hhead : b'.data lo' = b.data lo := h 0 (Nat.succ_pos n)
    have htail : b'.content (lo' + 1) n = b.content (lo + 1) n := by
      refine ih fun k hk => ?_
      rw [Nat.add_right_comm lo' 1 k, Nat.add_right_comm lo 1 k]
      exact h (k + 1) (Nat.succ_lt_succ hk)
    rw [Buffer.content, Buffer.content, hhead, htail]

end Simbench.Library.LoggedBuffer
