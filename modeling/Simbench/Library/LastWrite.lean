import Mathlib.Algebra.Group.Nat.Defs
import Mathlib.Data.List.Induction
import Mathlib.Data.Option.Basic

/-!
# The last write of a history

A cell seen through a sequence of events: an event passes the cell by, empties it, or
writes a value. What the cell holds at the end is the value of the last write that no later
event emptied or overwrote.
-/

set_option autoImplicit false

namespace Simbench.Library.LastWrite

variable {ε β : Type}

/-- INTERNAL: the content of the cell after a history; `effect e` is `none` for an event that
passes by, `some none` for one that empties the cell, `some (some b)` for a write of `b`. -/
def lastWrite (effect : ε → Option (Option β)) (history : List ε) : Option β :=
  history.foldl (fun cell e => (effect e).getD cell) none

/-- INTERNAL: some event wrote `b`, and every later one passes by. -/
def WrittenLast (effect : ε → Option (Option β)) (history : List ε) (b : β) : Prop :=
  ∃ before e after, history = before ++ e :: after ∧ effect e = some (some b) ∧
    ∀ e' ∈ after, effect e' = none

variable (effect : ε → Option (Option β))

/-- INTERNAL: the last write is that of the last event, where it writes. -/
theorem lastWrite_concat (history : List ε) (e : ε) :
    lastWrite effect (history ++ [e]) = (effect e).getD (lastWrite effect history) := by
  rw [lastWrite, List.foldl_append]
  rfl

/-- INTERNAL: after one more event, the last write is that event's or an earlier one's. -/
theorem writtenLast_concat (history : List ε) (e : ε) (b : β) :
    WrittenLast effect (history ++ [e]) b ↔
      effect e = some (some b) ∨ (effect e = none ∧ WrittenLast effect history b) := by
  constructor
  · rintro ⟨before, e', after, hhist, hwrite, hafter⟩
    rcases List.eq_nil_or_concat after with rfl | ⟨after, e'', rfl⟩
    · obtain ⟨-, he⟩ := List.append_inj' hhist rfl
      rw [List.singleton_inj.mp he]
      exact Or.inl hwrite
    · rw [List.concat_eq_append, ← List.cons_append, ← List.append_assoc] at hhist
      obtain ⟨rfl, he⟩ := List.append_inj' hhist rfl
      rw [List.singleton_inj.mp he]
      exact Or.inr ⟨hafter e'' (by simp), before, e', after, rfl, hwrite,
        fun x hx => hafter x (by simp [hx])⟩
  · rintro (hwrite | ⟨hpass, before, e', after, rfl, hwrite, hafter⟩)
    · exact ⟨history, e, [], rfl, hwrite, by simp⟩
    · refine ⟨before, e', after ++ [e], by simp, hwrite, fun x hx => ?_⟩
      rcases List.mem_append.mp hx with hx | hx
      · exact hafter x hx
      · rwa [List.mem_singleton.mp hx]

/-- INTERNAL: a value is the last written exactly when some event wrote it and none wrote behind
it. -/
theorem lastWrite_eq_some_iff (history : List ε) (b : β) :
    lastWrite effect history = some b ↔ WrittenLast effect history b := by
  induction history using List.reverseRecOn with
  | nil =>
    constructor
    · intro h
      cases h
    · rintro ⟨before, e, after, hhist, -⟩
      exact absurd hhist (by simp)
  | append_singleton history e ih =>
    rw [lastWrite_concat, writtenLast_concat, ← ih]
    cases effect e <;> simp

/-- INTERNAL: when every write is of `b` and there is one, the cell holds `b`. -/
theorem lastWrite_of_agree {history : List ε} {b : β}
    (hagree : ∀ e ∈ history, effect e = none ∨ effect e = some (some b)) {e : ε}
    (he : e ∈ history) (hwrite : effect e = some (some b)) : lastWrite effect history = some b := by
  induction history using List.reverseRecOn with
  | nil => cases he
  | append_singleton history e' ih =>
    rw [lastWrite_concat]
    rcases hagree e' (by simp) with hpass | hwrite'
    · rw [hpass, Option.getD_none]
      rcases List.mem_append.mp he with he | he
      · exact ih (fun x hx => hagree x (List.mem_append_left _ hx)) he
      · rw [List.mem_singleton.mp he, hpass] at hwrite
        cases hwrite
    · rw [hwrite', Option.getD_some]

end Simbench.Library.LastWrite
