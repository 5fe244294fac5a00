import Mathlib.Algebra.Group.Nat.Defs
import Mathlib.Data.List.Range

/-!
# Loops

The three loops of C. A `for` loop over `0, …, n - 1` has a body that can fail. A `while` loop has
a condition that may have effects, and a `do` loop a body that says whether to go on; both have
fuel for their rounds. The rules follow the states a loop goes through, or say when and where a
`while` loop returns, without speaking of fuel.
-/

set_option autoImplicit false

namespace Simbench.Library.Loops

variable {σ : Type}

/-! ## Counted loops -/

/-- INTERNAL: `for (i = 0; i < n; i++)`, left at the first failure. -/
def forRange (n : ℕ) (body : ℕ → σ → Option σ) (s : σ) : Option σ :=
  (List.range n).foldlM (fun s i => body i s) s

/-- INTERNAL: a loop of no round changes nothing. -/
@[simp] theorem forRange_zero (body : ℕ → σ → Option σ) (s : σ) : forRange 0 body s = some s := rfl

/-- INTERNAL: the last of `n + 1` rounds comes behind the others. -/
theorem forRange_succ (n : ℕ) (body : ℕ → σ → Option σ) (s : σ) :
    forRange (n + 1) body s = (forRange n body s).bind (body n) := by
  unfold forRange
  rw [List.range_succ, List.foldlM_append]
  simp [Option.bind_eq_bind]

/-- INTERNAL: the loop goes through the states `states 0, …, states n`. Induction on `n`. -/
theorem forRange_eq (n : ℕ) (body : ℕ → σ → Option σ) (states : ℕ → σ)
    (hbody : ∀ i < n, body i (states i) = some (states (i + 1))) :
    forRange n body (states 0) = some (states n) := by
  induction n with
  | zero => simp
  | succ n ih =>
    have hbefore := ih fun i hi => hbody i (Nat.lt_succ_of_lt hi)
    rw [forRange_succ, hbefore, Option.bind_some]
    exact hbody n (Nat.lt_succ_self n)

/-! ## Do-while loops -/

/-- INTERNAL: `do body while (again)`, for at most `fuel` rounds. -/
def doWhile (body : σ → Option (σ × Bool)) : ℕ → σ → Option σ
  | 0, _ => none
  | fuel + 1, s => do
    let (s, again) ← body s
    if again then doWhile body fuel s else some s

/-- INTERNAL: **a countdown**: the loop goes through the states `states 0, …, states (n + 1)` and
goes on after each of its first `n` rounds. Induction on `n`. -/
theorem doWhile_eq (body : σ → Option (σ × Bool)) (n : ℕ) (states : ℕ → σ)
    (hbody : ∀ i ≤ n, body (states i) = some (states (i + 1), decide (i < n))) {fuel : ℕ}
    (hfuel : n < fuel) : doWhile body fuel (states 0) = some (states (n + 1)) := by
  induction n generalizing states fuel with
  | zero =>
    obtain ⟨fuel, rfl⟩ := Nat.exists_eq_succ_of_ne_zero (Nat.ne_of_gt hfuel)
    rw [doWhile, hbody 0 (Nat.le_refl 0)]
    rfl
  | succ n ih =>
    obtain ⟨fuel, rfl⟩ := Nat.exists_eq_succ_of_ne_zero (Nat.ne_of_gt (Nat.zero_lt_of_lt hfuel))
    have hfirst := hbody 0 (Nat.zero_le _)
    rw [decide_eq_true (Nat.succ_pos n)] at hfirst
    have hrest : ∀ i ≤ n, body (states (i + 1)) = some (states (i + 1 + 1), decide (i < n)) := by
      intro i hi
      rw [hbody (i + 1) (Nat.succ_le_succ hi)]
      simp only [Nat.succ_lt_succ_iff]
    rw [doWhile, hfirst]
    exact ih (fun i => states (i + 1)) hrest (Nat.lt_of_succ_lt_succ hfuel)

/-! ## While loops -/

/-- INTERNAL: `while (cond) body`, for at most `fuel` tests of the condition. -/
def whileLoop (cond : σ → Bool × σ) (body : σ → σ) : ℕ → σ → Option σ
  | 0, _ => none
  | fuel + 1, s =>
    let (more, s) := cond s
    if more then whileLoop cond body fuel (body s) else some s

/-- INTERNAL: the loop returns, in the state `r`. -/
def Returns (cond : σ → Bool × σ) (body : σ → σ) (s r : σ) : Prop :=
  ∃ fuel, whileLoop cond body fuel s = some r

variable {cond : σ → Bool × σ} {body : σ → σ} {s r : σ}

/-- INTERNAL: where the condition is false the loop returns the state the condition leaves. -/
theorem returns_of_stop (h : (cond s).1 = false) : Returns cond body s r ↔ r = (cond s).2 := by
  constructor
  · rintro ⟨fuel, hrun⟩
    cases fuel with
    | zero => cases hrun
    | succ fuel =>
      simp only [whileLoop, h, Bool.false_eq_true, if_false, Option.some.injEq] at hrun
      exact hrun.symm
  · rintro rfl
    refine ⟨1, ?_⟩
    simp only [whileLoop, h, Bool.false_eq_true, if_false]

/-- INTERNAL: where it is true the loop returns what it does behind one round of its body. -/
theorem returns_of_step (h : (cond s).1 = true) :
    Returns cond body s r ↔ Returns cond body (body (cond s).2) r := by
  constructor
  · rintro ⟨fuel, hrun⟩
    cases fuel with
    | zero => cases hrun
    | succ fuel =>
      simp only [whileLoop, h, if_true] at hrun
      exact ⟨fuel, hrun⟩
  · rintro ⟨fuel, hrun⟩
    refine ⟨fuel + 1, ?_⟩
    simp only [whileLoop, h, if_true]
    exact hrun

/-- INTERNAL: a loop returns in one state. Induction on the fuel of one of the runs. -/
theorem Returns.unique {r' : σ} (h : Returns cond body s r) (h' : Returns cond body s r') :
    r = r' := by
  obtain ⟨fuel, hrun⟩ := h
  induction fuel generalizing s with
  | zero => cases hrun
  | succ fuel ih =>
    cases htest : (cond s).1 with
    | false =>
      rw [(returns_of_stop htest).mp h']
      simp only [whileLoop, htest, Bool.false_eq_true, if_false, Option.some.injEq] at hrun
      exact hrun.symm
    | true =>
      simp only [whileLoop, htest, if_true] at hrun
      exact ih ((returns_of_step htest).mp h') hrun

/-- INTERNAL: **the invariant rule**. Induction on the fuel. -/
theorem Returns.invariant (Inv : σ → Prop) (hcond : ∀ s, Inv s → Inv (cond s).2)
    (hbody : ∀ s, Inv s → Inv (body s)) (hs : Inv s) (h : Returns cond body s r) : Inv r := by
  obtain ⟨fuel, hrun⟩ := h
  induction fuel generalizing s with
  | zero => cases hrun
  | succ fuel ih =>
    have htest := hcond s hs
    rw [whileLoop] at hrun
    dsimp only at hrun
    split at hrun
    · exact ih (hbody _ htest) hrun
    · rwa [← Option.some.inj hrun]

/-- INTERNAL: **an endless loop**: an invariant under which the condition stays true. -/
theorem not_returns (Inv : σ → Prop) (hmore : ∀ s, Inv s → (cond s).1 = true)
    (hbody : ∀ s, Inv s → Inv (body (cond s).2)) (hs : Inv s) : ¬ Returns cond body s r := by
  rintro ⟨fuel, hrun⟩
  induction fuel generalizing s with
  | zero => cases hrun
  | succ fuel ih =>
    simp only [whileLoop, hmore s hs, if_true] at hrun
    exact ih (hbody s hs) hrun

end Simbench.Library.Loops
