import Mathlib.Algebra.Group.Nat.Defs
import Mathlib.Data.List.Basic
import Mathlib.Tactic.Common

/-!
# Text in a bounded room

A printer is given room for a number of characters. `Cut p r s` says that in the room `r` it
writes its text of the room `s` cut off behind `r` characters. Printers follow one another in
the room that is left. What keeps its beginning always cuts well; what keeps its end, or is
padded up to the room, does so only where its characters repeat.
-/

set_option autoImplicit false

namespace Simbench.Library.BoundedText

variable {α : Type}

/-- INTERNAL: `p`, then `q` in the room left. -/
def andThen (p q : ℕ → List α) (room : ℕ) : List α := p room ++ q (room - (p room).length)

/-- INTERNAL: the text of the room `r` is the beginning of the text of the room `s`. -/
def Cut (p : ℕ → List α) (r s : ℕ) : Prop := p r = (p s).take r

/-- INTERNAL: the last `n` characters of a text whose characters are counted from its end. -/
def fromEnd (f : ℕ → α) (n : ℕ) : List α := ((List.range n).map f).reverse

/-! ## Texts counted from their end -/

variable {f : ℕ → α} {c : α}

/-- INTERNAL: a text of `n` characters has `n`. -/
theorem length_fromEnd (f : ℕ → α) (n : ℕ) : (fromEnd f n).length = n := by
  rw [fromEnd, List.length_reverse, List.length_map, List.length_range]

/-- INTERNAL: the `i`-th character of a text given from its end. -/
theorem getElem_fromEnd (f : ℕ → α) {n i : ℕ} (h : i < (fromEnd f n).length) :
    (fromEnd f n)[i] = f (n - 1 - i) := by
  simp only [fromEnd, List.getElem_reverse, List.getElem_map, List.getElem_range, List.length_map,
    List.length_range]

/-- INTERNAL: a character more at the end. -/
theorem fromEnd_succ (f : ℕ → α) (n : ℕ) :
    fromEnd f (n + 1) = fromEnd (fun k => f (k + 1)) n ++ [f 0] := by
  rw [fromEnd, List.range_succ_eq_map, List.map_cons, List.map_map, List.reverse_cons]
  rfl

/-- INTERNAL: a text of one character throughout is that character repeated. -/
theorem fromEnd_eq_replicate {n : ℕ} (h : ∀ k, k < n → f k = c) :
    fromEnd f n = List.replicate n c := by
  apply List.ext_getElem
  · rw [length_fromEnd, List.length_replicate]
  · intro i hi _
    rw [length_fromEnd] at hi
    rw [getElem_fromEnd, List.getElem_replicate]
    exact h _ (by omega)

/-- INTERNAL: the end of a text is the beginning of the padded text, read character by
character. -/
theorem fromEnd_eq_take_iff {r n : ℕ} (hr : r ≤ n) (pads : ℕ) :
    fromEnd f r = (List.replicate pads c ++ fromEnd f n).take r ↔
      ∀ i, i < r → f (r - 1 - i) = if i < pads then c else f (n - 1 - (i - pads)) := by
  have hlength : (fromEnd f r).length =
      ((List.replicate pads c ++ fromEnd f n).take r).length := by
    rw [List.length_take, List.length_append, List.length_replicate, length_fromEnd,
      length_fromEnd]
    omega
  have hpadded : ∀ i (hi : i < ((List.replicate pads c ++ fromEnd f n).take r).length),
      ((List.replicate pads c ++ fromEnd f n).take r)[i] =
        if i < pads then c else f (n - 1 - (i - pads)) := by
    intro i hi
    rw [List.getElem_take, List.getElem_append]
    simp only [List.length_replicate, List.getElem_replicate, getElem_fromEnd]
    split <;> rfl
  constructor
  · intro h i hi
    rw [← hpadded i (by rw [← hlength, length_fromEnd]; exact hi), ← getElem_fromEnd f (n := r)
      (by rw [length_fromEnd]; exact hi)]
    exact List.getElem_of_eq h _
  · intro h
    apply List.ext_getElem hlength
    intro i hi hi'
    rw [hpadded i hi', getElem_fromEnd]
    exact h i (by rwa [length_fromEnd] at hi)

/-- INTERNAL: a text that is moved to the right by a padding and still reads the same has the
padding's characters only. -/
theorem fromEnd_eq_take_self_iff {n pads : ℕ} (hpads : 0 < pads) :
    fromEnd f n = (List.replicate pads c ++ fromEnd f n).take n ↔ ∀ k, k < n → f k = c := by
  rw [fromEnd_eq_take_iff Nat.le.refl]
  constructor
  · intro h
    -- from the left: the first characters are the padding, later ones repeat earlier ones
    have hleft : ∀ i, i < n → f (n - 1 - i) = c := by
      intro i
      induction i using Nat.strongRecOn with
      | ind i ih =>
        intro hi
        rw [h i hi]
        by_cases hpad : i < pads
        · rw [if_pos hpad]
        · rw [if_neg hpad]
          exact ih (i - pads) (by omega) (by omega)
    intro k hk
    have hindex : n - 1 - (n - 1 - k) = k := by omega
    rw [← hindex]
    exact hleft (n - 1 - k) (by omega)
  · intro h i hi
    rw [h _ (by omega)]
    split
    · rfl
    · rw [h _ (by omega)]

/-! ## Cuts -/

variable {p q : ℕ → List α} {r s : ℕ}

/-- INTERNAL: a first part that is the same in both rooms leaves the cut to the second. -/
theorem cut_andThen_of_eq {text : List α} (hr : p r = text) (hs : p s = text)
    (hfit : text.length ≤ r) :
    Cut (andThen p q) r s ↔ Cut q (r - text.length) (s - text.length) := by
  unfold Cut andThen
  rw [hr, hs, List.take_append, List.take_of_length_le hfit]
  rw [List.append_cancel_left_eq]

/-- INTERNAL: a first part that fills the narrow room is cut by itself. -/
theorem cut_andThen_of_fill (hq : q 0 = []) (hr : (p r).length = r) (hs : r ≤ (p s).length) :
    Cut (andThen p q) r s ↔ p r = (p s).take r := by
  unfold Cut andThen
  rw [hr, Nat.sub_self, hq, List.append_nil, List.take_append_of_le_length hs]

/-- INTERNAL: a first part that keeps its beginning. -/
theorem cut_andThen_take (full : List α) (hq : q 0 = []) (hle : r ≤ s) :
    Cut (andThen (fun room => full.take room) q) r s ↔
      (full.length ≤ r → Cut q (r - full.length) (s - full.length)) := by
  by_cases hfit : full.length ≤ r
  · rw [cut_andThen_of_eq (List.take_of_length_le hfit)
      (List.take_of_length_le (Nat.le_trans hfit hle)) hfit]
    rw [forall_prop_of_true hfit]
  · have hfill : (full.take r).length = r := by
      rw [List.length_take]
      omega
    have hlong : r ≤ (full.take s).length := by
      rw [List.length_take]
      omega
    rw [cut_andThen_of_fill hq hfill hlong, List.take_take, Nat.min_eq_left hle]
    exact iff_of_true rfl fun h => absurd h hfit

/-! ## Less room -/

/-- INTERNAL: a first part that less room does not change leaves the comparison to the second. -/
theorem andThen_sub_iff {room k : ℕ} (hp : p (room - k) = p room) :
    andThen p q (room - k) = andThen p q room ↔
      q (room - (p room).length - k) = q (room - (p room).length) := by
  rw [andThen, andThen, hp, List.append_cancel_left_eq, Nat.sub_right_comm]

/-- INTERNAL: a text that does not fill the room is there whole. -/
theorem take_sub_of_spare (full : List α) {room k : ℕ}
    (hspare : (full.take room).length + k < room) :
    full.take (room - k) = full.take room := by
  rw [List.length_take] at hspare
  rw [List.take_of_length_le (by omega), List.take_of_length_le (by omega)]

/-! ## Padded texts -/

variable {n narrow wide : ℕ}

/-- INTERNAL: a shorter padding in the same text, both of them taken off. -/
theorem take_replicate_append (hpads : narrow < wide) (text : List α) (n : ℕ) :
    (List.replicate wide c ++ text).take (narrow + n) =
      List.replicate narrow c ++ (List.replicate (wide - narrow) c ++ text).take n := by
  have hsplit : List.replicate wide c =
      List.replicate narrow c ++ List.replicate (wide - narrow) c := by
    rw [List.replicate_append_replicate]
    congr 1
    omega
  rw [hsplit, List.append_assoc, List.take_append, List.length_replicate,
    List.take_of_length_le (by rw [List.length_replicate]; omega), Nat.add_sub_cancel_left]

/-- INTERNAL: a padding that is cut to fill the room. -/
theorem cut_padded_filled (hq : q 0 = [])
    (hr : p r = List.replicate narrow c ++ fromEnd f n)
    (hs : p s = List.replicate wide c ++ fromEnd f n) (hfill : narrow + n = r)
    (hpads : narrow < wide) : Cut (andThen p q) r s ↔ ∀ k, k < n → f k = c := by
  have hlength : (p r).length = r := by
    rw [hr, List.length_append, List.length_replicate, length_fromEnd, hfill]
  have hlong : r ≤ (p s).length := by
    rw [hs, List.length_append, List.length_replicate, length_fromEnd]
    omega
  rw [cut_andThen_of_fill hq hlength hlong, hr, hs, ← hfill, take_replicate_append hpads,
    List.append_cancel_left_eq]
  exact fromEnd_eq_take_self_iff (Nat.sub_pos_of_lt hpads)

/-- INTERNAL: a padding that is cut to leave one character of the room, which the second part
takes. -/
theorem cut_padded_clipped
    (hr : p r = List.replicate narrow c ++ fromEnd f n)
    (hs : p s = List.replicate wide c ++ fromEnd f n) (hfill : narrow + n + 1 = r)
    (hpads : narrow < wide) :
    Cut (andThen p q) r s ↔ (∀ k, k < n → f k = c) ∧ q 1 = [c] := by
  have hroom : r - (p r).length = 1 := by
    rw [hr, List.length_append, List.length_replicate, length_fromEnd]
    omega
  have hleft : andThen p q r = List.replicate narrow c ++ (fromEnd f n ++ q 1) := by
    rw [andThen, hroom, hr, List.append_assoc]
  have hright : (andThen p q s).take r = List.replicate narrow c ++
      (List.replicate (wide - narrow) c ++ fromEnd f n).take (n + 1) := by
    rw [andThen, List.take_append_of_le_length, hs, ← hfill, Nat.add_assoc]
    · exact take_replicate_append hpads _ _
    · rw [hs, List.length_append, List.length_replicate, length_fromEnd]
      omega
  have hgap : 0 < wide - narrow := Nat.sub_pos_of_lt hpads
  have hcut : Cut (andThen p q) r s ↔ fromEnd f n ++ q 1 =
      (List.replicate (wide - narrow) c ++ fromEnd f n).take (n + 1) := by
    rw [Cut, hleft, hright, List.append_cancel_left_eq]
  have hrepeat : (∀ k, k < n → f k = c) →
      (List.replicate (wide - narrow) c ++ fromEnd f n).take (n + 1) = fromEnd f n ++ [c] := by
    intro hall
    rw [fromEnd_eq_replicate hall, List.replicate_append_replicate, List.take_replicate,
      Nat.min_eq_left (by omega), List.replicate_succ']
  rw [hcut]
  constructor
  · intro h
    have hall : ∀ k, k < n → f k = c := by
      rw [← fromEnd_eq_take_self_iff hgap]
      have hprefix := congrArg (List.take n) h
      rw [List.take_left' (length_fromEnd f n), List.take_take,
        Nat.min_eq_left (Nat.le_succ n)] at hprefix
      exact hprefix
    rw [hrepeat hall, List.append_cancel_left_eq] at h
    exact ⟨hall, h⟩
  · rintro ⟨hall, hnext⟩
    rw [hrepeat hall, hnext]

end Simbench.Library.BoundedText
