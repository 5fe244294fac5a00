import Mathlib.Algebra.Group.Nat.Defs
import Mathlib.Data.List.Nodup

/-!
# Loops over addresses

`for (i = first; i <= last; i += step)` over machine addresses, with a body that may fail, as
the relation between where the loop starts and what it has done when it returns. The address
wraps around: the loop returns when `last + step` is an address, and never when it is not. `Bounded`
carries this over to a program that counts rounds.
-/

set_option autoImplicit false

namespace Simbench.Library.AddressLoops

variable {w : ℕ} {σ : Type}

/-- INTERNAL: the loop at the address `i` returns, after calls of the body that all succeed, with
the addresses in the list, one after the other. -/
inductive Loop (step last : BitVec w) (body : BitVec w → σ → Option σ) :
    BitVec w → σ → List (BitVec w) → σ → Prop
  | done {i : BitVec w} {s : σ} : ¬ i ≤ last → Loop step last body i s [] s
  | round {i : BitVec w} {s s₁ s' : σ} {visited : List (BitVec w)} : i ≤ last →
    body i s = some s₁ → Loop step last body (i + step) s₁ visited s' →
    Loop step last body i s (i :: visited) s'

/-- INTERNAL: rounds of the loop lead from the address `i` to another. -/
inductive Reaches (step last : BitVec w) (body : BitVec w → σ → Option σ) (i : BitVec w) (s : σ) :
    BitVec w → σ → Prop
  | start : Reaches step last body i s i s
  | round {i' : BitVec w} {s' s₁ : σ} : Reaches step last body i s i' s' → i' ≤ last →
    body i' s' = some s₁ → Reaches step last body i s (i' + step) s₁

/-- INTERNAL: no call of the loop fails, however many rounds it takes. -/
def CallsSucceed (step last : BitVec w) (body : BitVec w → σ → Option σ) (i : BitVec w) (s : σ) :
    Prop :=
  ∀ i' s', Reaches step last body i s i' s' → i' ≤ last → ∃ s₁, body i' s' = some s₁

/-- INTERNAL: the pages from the one of `first` through the one of `last`, each once. -/
structure EachOnce (step first last : BitVec w) (pages : List (BitVec w)) : Prop where
  nodup : pages.Nodup
  mem_iff : ∀ p, p ∈ pages ↔ p.toNat % step.toNat = 0 ∧
    first.toNat / step.toNat ≤ p.toNat / step.toNat ∧ p.toNat / step.toNat ≤ last.toNat / step.toNat

variable {step last : BitVec w} {body : BitVec w → σ → Option σ} {i : BitVec w} {s s' : σ}
variable {visited : List (BitVec w)}

/-! ## Calls that succeed -/

/-- INTERNAL: what is reached behind the first round is reached from before it. -/
theorem Reaches.head {i' : BitVec w} {s₁ : σ} (hle : i ≤ last) (hbody : body i s = some s₁)
    (h : Reaches step last body (i + step) s₁ i' s') : Reaches step last body i s i' s' := by
  induction h with
  | start => exact .round .start hle hbody
  | round _ hle' hbody' ih => exact .round ih hle' hbody'

namespace CallsSucceed

/-- INTERNAL: where every call succeeds, the first does, and so do the others behind it. -/
theorem next (h : CallsSucceed step last body i s) (hle : i ≤ last) :
    ∃ s₁, body i s = some s₁ ∧ CallsSucceed step last body (i + step) s₁ := by
  obtain ⟨s₁, hbody⟩ := h i s .start hle
  exact ⟨s₁, hbody, fun i' s' hreaches => h i' s' (hreaches.head hle hbody)⟩

/-- INTERNAL: **the invariant rule**: a condition under which the body succeeds and that it
keeps. -/
theorem of_invariant (Ok : BitVec w → σ → Prop)
    (hok : ∀ i s, Ok i s → i ≤ last → ∃ s₁, body i s = some s₁ ∧ Ok (i + step) s₁) (h : Ok i s) :
    CallsSucceed step last body i s := by
  have hinv : ∀ i' s', Reaches step last body i s i' s' → Ok i' s' := by
    intro i' s' hreaches
    induction hreaches with
    | start => exact h
    | @round i' s' s₁ _ hle hbody ih =>
      obtain ⟨s₂, hbody', hnext⟩ := hok i' s' ih hle
      obtain rfl := Option.some.inj (hbody.symm.trans hbody')
      exact hnext
  intro i' s' hreaches hle
  obtain ⟨s₁, hbody, -⟩ := hok i' s' (hinv i' s' hreaches) hle
  exact ⟨s₁, hbody⟩

end CallsSucceed

/-! ## With room for one step more -/

/-- INTERNAL: a step that does not wrap adds to the address. -/
theorem toNat_add_step (h : i.toNat + step.toNat < 2 ^ w) :
    (i + step).toNat = i.toNat + step.toNat := by
  rw [BitVec.toNat_add, Nat.mod_eq_of_lt h]

/-- INTERNAL: the first address of a row and the row behind it. -/
theorem strided_cons {p : BitVec w} {stride rounds : ℕ} :
    (p = i ∨ ∃ k < rounds, p.toNat = i.toNat + stride + k * stride) ↔
      ∃ k < rounds + 1, p.toNat = i.toNat + k * stride := by
  constructor
  · rintro (rfl | ⟨k, hk, hp⟩)
    · exact ⟨0, by omega, by omega⟩
    · exact ⟨k + 1, by omega, by rw [hp, Nat.succ_mul]; omega⟩
  · rintro ⟨k, hk, hp⟩
    cases k with
    | zero =>
      left
      apply BitVec.eq_of_toNat_eq
      omega
    | succ k => exact Or.inr ⟨k, by omega, by rw [hp, Nat.succ_mul]; omega⟩

namespace Loop

/-- INTERNAL: how often the body is called. Induction on the rounds. -/
theorem length_le (hroom : last.toNat + step.toNat < 2 ^ w)
    (h : Loop step last body i s visited s') :
    visited.length * step.toNat ≤ last.toNat + step.toNat - i.toNat := by
  induction h with
  | done => simp
  | round hle _ _ ih =>
    rw [BitVec.le_def] at hle
    rw [toNat_add_step (by omega)] at ih
    rw [List.length_cons, Nat.succ_mul]
    omega

/-- INTERNAL: which addresses it is called with. -/
theorem mem_iff (hroom : last.toNat + step.toNat < 2 ^ w) (h : Loop step last body i s visited s')
    (p : BitVec w) :
    p ∈ visited ↔ ∃ k, p.toNat = i.toNat + k * step.toNat ∧ p.toNat ≤ last.toNat := by
  induction h with
  | done hgt =>
    rw [BitVec.le_def] at hgt
    constructor
    · intro hp
      cases hp
    · rintro ⟨k, hp, hle⟩
      omega
  | @round i s s₁ s' visited hle _ _ ih =>
    rw [BitVec.le_def] at hle
    rw [toNat_add_step (by omega)] at ih
    rw [List.mem_cons, ih]
    constructor
    · rintro (rfl | ⟨k, hp, hlast⟩)
      · exact ⟨0, by omega, hle⟩
      · refine ⟨k + 1, ?_, hlast⟩
        rw [Nat.succ_mul]
        omega
    · rintro ⟨k, hp, hlast⟩
      cases k with
      | zero =>
        left
        apply BitVec.eq_of_toNat_eq
        omega
      | succ k =>
        right
        refine ⟨k, ?_, hlast⟩
        rw [Nat.succ_mul] at hp
        omega

/-- INTERNAL: a loop that does not wrap visits no address twice. -/
theorem nodup (hroom : last.toNat + step.toNat < 2 ^ w) (hstep : 0 < step.toNat)
    (h : Loop step last body i s visited s') : visited.Nodup := by
  induction h with
  | done => exact List.nodup_nil
  | round hle _ hrest ih =>
    rw [BitVec.le_def] at hle
    refine List.nodup_cons.mpr ⟨fun hmem => ?_, ih⟩
    obtain ⟨k, hk, -⟩ := (hrest.mem_iff hroom _).mp hmem
    rw [toNat_add_step (by omega)] at hk
    omega

/-- INTERNAL: **a loop that returns** from the page of `first` has visited each page once. -/
theorem eachOnce {first : BitVec w} (hroom : last.toNat + step.toNat < 2 ^ w)
    (hstep : 0 < step.toNat) (hfirst : i.toNat = first.toNat / step.toNat * step.toNat)
    (h : Loop step last body i s visited s') : EachOnce step first last visited := by
  refine ⟨h.nodup hroom hstep, fun p => ?_⟩
  rw [h.mem_iff hroom p]
  constructor
  · rintro ⟨k, hp, hle⟩
    rw [hfirst, ← Nat.add_mul] at hp
    refine ⟨by rw [hp, Nat.mul_mod_left], ?_, Nat.div_le_div_right hle⟩
    rw [hp, Nat.mul_div_cancel _ hstep]
    exact Nat.le_add_right _ _
  · rintro ⟨haligned, hlow, hhigh⟩
    have hp : p.toNat / step.toNat * step.toNat = p.toNat :=
      Nat.div_mul_cancel (Nat.dvd_of_mod_eq_zero haligned)
    refine ⟨p.toNat / step.toNat - first.toNat / step.toNat, ?_, ?_⟩
    · rw [hfirst, ← Nat.add_mul, Nat.add_sub_cancel' hlow, hp]
    · rw [← hp]
      exact (Nat.le_div_iff_mul_le hstep).mp hhigh

/-- INTERNAL: **termination**: a loop no call of which fails returns. Induction on what is left up
to the last address. -/
theorem of_callsSucceed (hroom : last.toNat + step.toNat < 2 ^ w) (hstep : 0 < step.toNat)
    (h : CallsSucceed step last body i s) : ∃ visited s', Loop step last body i s visited s' := by
  induction hleft : last.toNat + 1 - i.toNat using Nat.strongRecOn generalizing i s with
  | ind left ih =>
    by_cases hle : i ≤ last
    · obtain ⟨s₁, hbody, hnext⟩ := h.next hle
      have hle' : i.toNat ≤ last.toNat := hle
      have hadd : (i + step).toNat = i.toNat + step.toNat := toNat_add_step (by omega)
      obtain ⟨visited, s', hrest⟩ := ih _ (by omega) hnext rfl
      exact ⟨i :: visited, s', .round hle hbody hrest⟩
    · exact ⟨[], s, .done hle⟩

end Loop

/-! ## Without -/

/-- INTERNAL: a step that divides the size of the space reaches its end at most. -/
theorem add_step_le (hdvd : step.toNat ∣ 2 ^ w) (hi : step.toNat ∣ i.toNat) :
    i.toNat + step.toNat ≤ 2 ^ w := by
  have hlt := i.isLt
  obtain ⟨a, ha⟩ := hi
  obtain ⟨b, hb⟩ := hdvd
  rw [ha, hb] at hlt ⊢
  rw [← Nat.mul_succ]
  exact Nat.mul_le_mul_left _ (Nat.lt_of_mul_lt_mul_left hlt)

/-- INTERNAL: where the last address is in the last step of the space, every multiple of the step is
at most that: the loop never ends. -/
theorem le_of_dvd (hdvd : step.toNat ∣ 2 ^ w) (hi : step.toNat ∣ i.toNat)
    (hlast : 2 ^ w ≤ last.toNat + step.toNat) : i ≤ last := by
  have hpage := add_step_le hdvd hi
  rw [BitVec.le_def]
  omega

/-! ## With a bound on the rounds -/

section Bounded

variable {ε ρ : Type} [OfNat ρ 0] [DecidableEq ρ]

/-- INTERNAL: a call as the body of a loop: it succeeds when it returns zero. -/
def afterSuccess (call : BitVec w → σ → Except ε (ρ × σ)) (i : BitVec w) (s : σ) : Option σ :=
  match call i s with
  | .ok (rc, s') => if rc = 0 then some s' else none
  | .error _ => none

/-- INTERNAL: the state goes on behind a call that returns 0, and behind no other. -/
theorem afterSuccess_eq_some {call : BitVec w → σ → Except ε (ρ × σ)} :
    afterSuccess call i s = some s' ↔ call i s = .ok (0, s') := by
  unfold afterSuccess
  cases hcall : call i s with
  | error halt => simp
  | ok r =>
    obtain ⟨rc, s₁⟩ := r
    by_cases hrc : rc = 0 <;> simp [hrc]

/-- INTERNAL: `loop` makes the calls of the loop for some number of rounds and ends with `endless`
when they are not enough; `spare` rounds are left over for the last test. -/
structure Bounded (step last : BitVec w) (call : BitVec w → σ → Except ε (ρ × σ)) (endless : ε)
    (spare : ℕ) (loop : ℕ → BitVec w → σ → Except ε (ρ × σ)) : Prop where
  zero : ∀ i s, i ≤ last → loop 0 i s = .error endless
  stop : ∀ rounds i s, ¬ i ≤ last → spare ≤ rounds → loop rounds i s = .ok (0, s)
  next : ∀ rounds i s s₁, i ≤ last → call i s = .ok (0, s₁) →
    loop (rounds + 1) i s = loop rounds (i + step) s₁

/-- INTERNAL: the loop returns, having called its body with each page once. -/
def VisitsEachOnce (step first last : BitVec w) (call : BitVec w → σ → Except ε (ρ × σ))
    (i : BitVec w) (s s' : σ) : Prop :=
  ∃ visited, Loop step last (afterSuccess call) i s visited s' ∧ EachOnce step first last visited

variable {call : BitVec w → σ → Except ε (ρ × σ)} {endless : ε} {spare : ℕ}
variable {loop : ℕ → BitVec w → σ → Except ε (ρ × σ)}

namespace Bounded

/-- INTERNAL: enough rounds. Induction on the rounds of the loop. -/
theorem returns (B : Bounded step last call endless spare loop)
    (h : Loop step last (afterSuccess call) i s visited s') {rounds : ℕ}
    (hrounds : visited.length + spare ≤ rounds) : loop rounds i s = .ok (0, s') := by
  induction h generalizing rounds with
  | done hgt => exact B.stop rounds _ _ hgt (by simpa using hrounds)
  | round hle hbody _ ih =>
    rw [List.length_cons] at hrounds
    cases rounds with
    | zero => omega
    | succ rounds =>
      rw [B.next rounds _ _ _ hle (afterSuccess_eq_some.mp hbody)]
      exact ih (by omega)

variable {first : BitVec w}

/-- INTERNAL: **below the last page** the loop visits each page once, when no call fails. -/
theorem visits (B : Bounded step last call endless spare loop) (hstep : 0 < step.toNat)
    (hfirst : i.toNat = first.toNat / step.toNat * step.toNat)
    (hcalls : CallsSucceed step last (afterSuccess call) i s)
    (hroom : last.toNat + step.toNat < 2 ^ w) :
    ∃ visited s', Loop step last (afterSuccess call) i s visited s' ∧
      EachOnce step first last visited ∧
      ∀ rounds, visited.length + spare ≤ rounds → loop rounds i s = .ok (0, s') := by
  obtain ⟨visited, s', h⟩ := Loop.of_callsSucceed hroom hstep hcalls
  exact ⟨visited, s', h, h.eachOnce hroom hstep hfirst, fun _ => B.returns h⟩

/-- INTERNAL: **up to the last page** no number of rounds is enough: every page starts at or below
the last address. Induction on the rounds. -/
theorem never (B : Bounded step last call endless spare loop) (hdvd : step.toNat ∣ 2 ^ w)
    (hi : step.toNat ∣ i.toNat) (hcalls : CallsSucceed step last (afterSuccess call) i s)
    (hlast : 2 ^ w ≤ last.toNat + step.toNat) (rounds : ℕ) : loop rounds i s = .error endless := by
  induction rounds generalizing i s with
  | zero => exact B.zero i s (le_of_dvd hdvd hi hlast)
  | succ rounds ih =>
    have hle := le_of_dvd hdvd hi hlast
    obtain ⟨s₁, hbody, hnext⟩ := hcalls.next hle
    have hdvd' : step.toNat ∣ (i + step).toNat := by
      rw [BitVec.toNat_add]
      exact (Nat.dvd_mod_iff hdvd).mpr (Nat.dvd_add hi (Nat.dvd_refl _))
    rw [B.next rounds i s s₁ hle (afterSuccess_eq_some.mp hbody)]
    exact ih hdvd' hnext

end Bounded

end Bounded

end Simbench.Library.AddressLoops
