import Mathlib.Algebra.Group.Nat.Defs
import Mathlib.Data.List.Perm.Basic
import Mathlib.Logic.Function.Basic
import Mathlib.Tactic.Common

/-!
# Stores that are written once

A store gives a key a value or leaves it free. A value is put at a key that is free or holds
that very value; anything else is refused. A list of requests goes through exactly when no two
of them, and no request and the store, differ at a key, and what the store then holds does not
depend on the order of the list.
-/

set_option autoImplicit false

namespace Simbench.Library.WriteOnce

variable {κ α : Type}

/-- INTERNAL: a value for some keys. -/
abbrev Store (κ α : Type) := κ → Option α

/-- INTERNAL: the store with no value at all. -/
def empty : Store κ α := fun _ => none

/-- INTERNAL: no two requests, and no request and the store, differ at a key. -/
def Compatible (m : Store κ α) (requests : List (κ × α)) : Prop :=
  ∀ k a b, (k, a) ∈ requests → m k = some b ∨ (k, b) ∈ requests → a = b

/-- INTERNAL: requests stay compatible in another order. -/
theorem Compatible.perm {m : Store κ α} {requests requests' : List (κ × α)}
    (hperm : requests.Perm requests') (h : Compatible m requests) : Compatible m requests' :=
  fun k a b hmem hother => h k a b (hperm.mem_iff.mpr hmem)
    (hother.imp_right fun hmem' => hperm.mem_iff.mpr hmem')

variable [DecidableEq κ] [DecidableEq α]

/-- INTERNAL: write a value, unless the key holds a different one. -/
def put (m : Store κ α) (k : κ) (a : α) : Option (Store κ α) :=
  if m k = none ∨ m k = some a then some (Function.update m k (some a)) else none

/-- INTERNAL: write the requests one after the other. -/
def putAll (m : Store κ α) : List (κ × α) → Option (Store κ α)
  | [] => some m
  | r :: requests => (put m r.1 r.2).bind fun m' => putAll m' requests

/-- INTERNAL: a request succeeds on an empty place or on its own value, and puts that there. -/
theorem put_eq_some_iff {m m' : Store κ α} {k : κ} {a : α} :
    put m k a = some m' ↔
      (m k = none ∨ m k = some a) ∧ Function.update m k (some a) = m' := by
  rw [put]
  split
  · next hfree => simp [hfree]
  · next hfree => simp [hfree]

/-- INTERNAL: a list of requests behind another is served from where the first ends. -/
theorem putAll_append (m : Store κ α) (requests later : List (κ × α)) :
    putAll m (requests ++ later) = (putAll m requests).bind fun m' => putAll m' later := by
  induction requests generalizing m with
  | nil => rfl
  | cons r requests ih =>
    rw [List.cons_append, putAll, putAll]
    cases put m r.1 r.2 with
    | none => rfl
    | some m' => exact ih m'

/-- INTERNAL: a store that took the requests holds them and what it held before. -/
theorem putAll_apply {m m' : Store κ α} {requests : List (κ × α)}
    (h : putAll m requests = some m') (k : κ) (a : α) :
    m' k = some a ↔ m k = some a ∨ (k, a) ∈ requests := by
  induction requests generalizing m with
  | nil =>
    obtain rfl := Option.some.inj h
    simp
  | cons r requests ih =>
    rw [putAll, Option.bind_eq_some_iff] at h
    obtain ⟨m₁, hput, hrest⟩ := h
    obtain ⟨hfree, rfl⟩ := put_eq_some_iff.mp hput
    rw [ih hrest, List.mem_cons, ← or_assoc]
    refine or_congr_left ?_
    by_cases hk : k = r.1
    · subst hk
      rcases hfree with hfree | hfree
      · simp [hfree, Prod.ext_iff, eq_comm]
      · simp [hfree, Prod.ext_iff, eq_comm]
    · simp [Prod.ext_iff, hk]

/-- INTERNAL: the requests go through exactly when they are compatible. -/
theorem putAll_isSome_iff (m : Store κ α) (requests : List (κ × α)) :
    (∃ m', putAll m requests = some m') ↔ Compatible m requests := by
  constructor
  · rintro ⟨m', hall⟩ k a b hmem hother
    have ha := (putAll_apply hall k a).mpr (.inr hmem)
    have hb := (putAll_apply hall k b).mpr hother
    exact Option.some.inj (ha.symm.trans hb)
  · intro hcompat
    induction requests generalizing m with
    | nil => exact ⟨m, rfl⟩
    | cons r requests ih =>
      have hfree : m r.1 = none ∨ m r.1 = some r.2 := by
        cases hheld : m r.1 with
        | none => exact .inl rfl
        | some b => rw [hcompat r.1 r.2 b List.mem_cons_self (.inl hheld)]; exact .inr rfl
      have hput := put_eq_some_iff.mpr ⟨hfree, rfl⟩
      have hafter : Compatible (Function.update m r.1 (some r.2)) requests := by
        intro k a b hmem hother
        refine hcompat k a b (List.mem_cons_of_mem r hmem) ?_
        rcases hother with hheld | hlater
        · by_cases hk : k = r.1
          · -- the value just put is that of an earlier request
            subst hk
            simp only [Function.update_self, Option.some.injEq] at hheld
            subst hheld
            exact .inr List.mem_cons_self
          · rw [Function.update_of_ne hk] at hheld
            exact .inl hheld
        · exact .inr (List.mem_cons_of_mem r hlater)
      obtain ⟨m', hrest⟩ := ih _ hafter
      refine ⟨m', ?_⟩
      rw [putAll, hput]
      exact hrest

/-- INTERNAL: the order of the requests changes neither whether they go through nor what the
store then holds. -/
theorem putAll_perm (m : Store κ α) {requests requests' : List (κ × α)}
    (hperm : requests.Perm requests') : putAll m requests = putAll m requests' := by
  cases hall : putAll m requests with
  | none =>
    cases hall' : putAll m requests' with
    | none => rfl
    | some m' =>
      have hcompat := ((putAll_isSome_iff m requests').mp ⟨m', hall'⟩).perm hperm.symm
      obtain ⟨m₁, hsome⟩ := (putAll_isSome_iff m requests).mpr hcompat
      rw [hall] at hsome
      cases hsome
  | some m₁ =>
    have hcompat := ((putAll_isSome_iff m requests).mp ⟨m₁, hall⟩).perm hperm
    obtain ⟨m₂, hall'⟩ := (putAll_isSome_iff m requests').mpr hcompat
    rw [hall']
    refine congrArg some (funext fun k => Option.ext fun a => ?_)
    rw [putAll_apply hall, putAll_apply hall', hperm.mem_iff]

end Simbench.Library.WriteOnce
