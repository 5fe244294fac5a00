import Simbench.Analysis.PrintfRender

/-!
# Truncation

The text of a smaller size against the text of a larger one, for one format and its
arguments. Literal characters, strings and single characters are cut off cleanly. A number
that the smaller size cannot hold keeps its last digits, and a width is clipped to one
character less than the room: there the two texts agree only where characters repeat.
-/

set_option autoImplicit false

namespace Simbench.Analysis.PrintfTruncation

open Simbench.Library.LoggedBuffer Simbench.Library.BoundedText Simbench.Program.Printf
open Simbench.Analysis.PrintfMemory Simbench.Analysis.PrintfRender

/-! ## The condition -/

/-- INTERNAL: the first character the pieces write. -/
def firstChar : List Piece → Option Byte
  | [] => none
  | .text [] :: ps => firstChar ps
  | .text (c :: _) :: _ => some c
  | .number n :: _ => some (n.charAt 0)

/-- INTERNAL: the last `r` characters of the number are the first ones of its padded text in the
room `s`. -/
def EndsAsBegins (n : Number) (r s : ℕ) : Prop :=
  ∀ i, i < r → n.charAt (r - 1 - i) =
    if i < n.padding s then n.padChar else n.charAt (n.charCount s - 1 - (i - n.padding s))

/-- INTERNAL: whether a number's cut text is a beginning of it is decided character by character. -/
instance (n : Number) (r s : ℕ) : Decidable (EndsAsBegins n r s) :=
  inferInstanceAs (Decidable (∀ i, i < r → _ = _))

/-- INTERNAL: every character of the number is its pad character. -/
def OnlyPads (n : Number) (s : ℕ) : Prop := ∀ k, k < n.charCount s → n.charAt k = n.padChar

/-- INTERNAL: whether a number has pad characters only is decided character by character. -/
instance (n : Number) (s : ℕ) : Decidable (OnlyPads n s) :=
  inferInstanceAs (Decidable (∀ k, k < n.charCount s → n.charAt k = n.padChar))

/-- INTERNAL: the pieces in the room `r` against the room `s`. A text is cut off cleanly. A
number that fills the room `r` must end as the wide text begins; one whose padding is shorter
than in the room `s` must be made of pad characters, and where a place is left behind it the
next character is a pad character too. Otherwise the rest decides. -/
def CutSafe : List Piece → (r s : ℕ) → Prop
  | [], _, _ => True
  | .text full :: ps, r, s => full.length ≤ r → CutSafe ps (r - full.length) (s - full.length)
  | .number n :: ps, r, s =>
    if r ≤ n.charCount s then EndsAsBegins n r s
    else if n.padding r < n.padding s then
      OnlyPads n s ∧ (n.padding r + n.charCount s < r → firstChar ps = some n.padChar)
    else
      CutSafe ps (r - (n.padding r + n.charCount s)) (s - (n.padding r + n.charCount s))

/-- INTERNAL: the condition on the pieces is decided one piece after the other. -/
instance CutSafe.decidable : (ps : List Piece) → (r s : ℕ) → Decidable (CutSafe ps r s)
  | [], _, _ => isTrue trivial
  | .text full :: ps, r, s =>
    have := CutSafe.decidable ps (r - full.length) (s - full.length)
    inferInstanceAs (Decidable (full.length ≤ r → CutSafe ps (r - full.length) (s - full.length)))
  | .number n :: ps, r, s =>
    have := CutSafe.decidable ps (r - (n.padding r + n.charCount s))
      (s - (n.padding r + n.charCount s))
    inferInstanceAs (Decidable (if r ≤ n.charCount s then EndsAsBegins n r s
      else if n.padding r < n.padding s then
        OnlyPads n s ∧ (n.padding r + n.charCount s < r → firstChar ps = some n.padChar)
      else CutSafe ps (r - (n.padding r + n.charCount s)) (s - (n.padding r + n.charCount s))))

/-! ## Paddings -/

/-- INTERNAL: a number that fills its room has no padding. -/
theorem padding_of_fill {n : Number} {r s : ℕ} (hle : r ≤ s) (hfill : r ≤ n.charCount s) :
    n.padding r = 0 ∧ n.charCount r = r := by
  have hcount : n.charCount r = r := by rw [n.charCount_of_le hle, Nat.min_eq_left hfill]
  refine ⟨?_, hcount⟩
  rw [Number.padding, hcount, Nat.sub_self, Nat.min_zero]

/-- INTERNAL: where the digits fit, more room has the same padding or the padding goes up to the
room: to its end, or to one place before. SRC: util/printf.c:41-43,79-83 -/
theorem padding_of_fit {n : Number} {r s : ℕ} (hle : r ≤ s) (hint : s < 2 ^ 31)
    (hfit : n.charCount s < r) :
    n.padding r = n.padding s ∨ n.padding r < n.padding s ∧
      (n.padding r + n.charCount s = r ∨ n.padding r + n.charCount s + 1 = r) := by
  have hcount : n.charCount r = n.charCount s := by
    rw [n.charCount_of_le hle, Nat.min_eq_right (Nat.le_of_lt hfit)]
  have hwide : ∀ room : ℕ, n.charCount s < room → room ≤ s → (n.charCount s : Int) < n.pad →
      wrap ((if (room : Int) ≤ n.pad then (room : Int) - 1 else n.pad) - n.charCount s) =
        (if (room : Int) ≤ n.pad then (room : Int) - 1 else n.pad) - n.charCount s := by
    intro room hroom hbound hpad
    apply wrap_of_bounds <;> split <;> omega
  simp only [Number.padding, hcount]
  by_cases hpad : (n.charCount s : Int) < n.pad
  · rw [hwide r hfit hle hpad, hwide s (by omega) (Nat.le_refl s) hpad]
    split <;> split <;> omega
  · -- a width that the digits reach is not clipped, whatever it wraps to
    rw [if_neg (by omega), if_neg (by omega)]
    omega

/-! ## Pieces -/

/-- INTERNAL: in room for one character the first one is printed. -/
theorem render_one (ps : List Piece) : render ps 1 = (firstChar ps).toList := by
  induction ps with
  | nil => rfl
  | cons piece ps ih =>
    rw [render, andThen]
    cases piece with
    | text full =>
      cases full with
      | nil => exact ih
      | cons c full => exact congrArg (c :: ·) (render_zero ps)
    | number n =>
      have hcount : n.charCount 1 = 1 :=
        Nat.le_antisymm (n.charCount_le 1) (n.charCount_pos Nat.one_pos)
      have hone : n.text 1 = [n.charAt 0] := by
        rw [Number.text, (padding_of_fill (Nat.le_refl 1) (Nat.le_of_eq hcount.symm)).1, hcount]
        rfl
      rw [Piece.print, hone]
      exact congrArg (n.charAt 0 :: ·) (render_zero ps)

/-- INTERNAL: a number in front. SRC: util/printf.c:37-86 -/
theorem cut_number_iff (n : Number) (ps : List Piece) {r s : ℕ} (hle : r ≤ s) (hint : s < 2 ^ 31)
    (hrest : ∀ k, Cut (render ps) (r - k) (s - k) ↔ CutSafe ps (r - k) (s - k)) :
    Cut (render (.number n :: ps)) r s ↔ CutSafe (.number n :: ps) r s := by
  have hwide : n.text s =
      List.replicate (n.padding s) n.padChar ++ fromEnd n.charAt (n.charCount s) := rfl
  rw [render, CutSafe]
  by_cases hfill : r ≤ n.charCount s
  · obtain ⟨hpadding, hcount⟩ := padding_of_fill hle hfill
    have hnarrow : n.text r = fromEnd n.charAt r := by
      rw [Number.text, hpadding, hcount]
      rfl
    have hlong : r ≤ (n.text s).length := by
      rw [n.length_text]
      omega
    have hlength : (n.text r).length = r := by
      rw [hnarrow, length_fromEnd]
    rw [if_pos hfill, EndsAsBegins, ← fromEnd_eq_take_iff hfill, ← hnarrow, ← hwide]
    exact cut_andThen_of_fill (render_zero ps) hlength hlong
  · have hfit : n.charCount s < r := Nat.lt_of_not_le hfill
    have hnarrow : n.text r =
        List.replicate (n.padding r) n.padChar ++ fromEnd n.charAt (n.charCount s) := by
      rw [Number.text, n.charCount_of_le hle, Nat.min_eq_right (Nat.le_of_lt hfit)]
    rw [if_neg hfill]
    rcases padding_of_fit hle hint hfit with hsame | ⟨hless, hfilled | hclipped⟩
    · have hlength := n.length_text_le r
      rw [hnarrow] at hlength
      rw [if_neg (by omega), ← hrest,
        cut_andThen_of_eq (p := Piece.print (.number n)) hnarrow (by rw [hsame]; rfl) hlength,
        List.length_append, List.length_replicate, length_fromEnd]
    · rw [if_pos hless, and_iff_left fun h => absurd hfilled (Nat.ne_of_lt h)]
      exact cut_padded_filled (render_zero ps) hnarrow hwide hfilled hless
    · have hnext : firstChar ps = some n.padChar ↔ render ps 1 = [n.padChar] := by
        rw [render_one, Option.toList_eq_singleton_iff]
      rw [if_pos hless, forall_prop_of_true (by omega), hnext]
      exact cut_padded_clipped hnarrow hwide hclipped hless

/-- INTERNAL: the text in the smaller room is a beginning of the other exactly under that
condition. -/
theorem cut_render_iff (ps : List Piece) {r s : ℕ} (hle : r ≤ s) (hint : s < 2 ^ 31) :
    Cut (render ps) r s ↔ CutSafe ps r s := by
  induction ps generalizing r s with
  | nil => exact iff_of_true (List.take_nil).symm trivial
  | cons piece ps ih =>
    have hrest : ∀ k, Cut (render ps) (r - k) (s - k) ↔ CutSafe ps (r - k) (s - k) := fun k =>
      ih (Nat.sub_le_sub_right hle k) (by omega)
    cases piece with
    | text full =>
      rw [render, CutSafe, ← hrest]
      exact cut_andThen_take full (render_zero ps) hle
    | number n => exact cut_number_iff n ps hle hint hrest

example : CutSafe [.text [ch 'a', ch 'b'], .number ⟨42, 10, true, 0, ch ' '⟩] 1 4 := by decide

example : ¬ CutSafe [.text [ch 'a', ch 'b'], .number ⟨42, 10, true, 0, ch ' '⟩] 3 4 := by decide

/-! ## Sizes -/

/-- INTERNAL: the text of size `m` is the beginning of the text of size `n`. -/
def Truncates (build : Build) (b b' : TextBuffer) (fmt : List Byte) (args : List Arg)
    (m n : ℕ) : Prop :=
  ∃ long, writtenText build b n fmt args = some long ∧
    writtenText build b' m fmt args = some (long.take (min (m - 1) long.length))

section Sizes

variable (build : Build) (harm : build.arm = false) (b b' : TextBuffer)
variable (fmt : List Byte) (hfmt : NulTerminated fmt)
variable (args : List Arg) (hargs : ArgsMatch (argTypes build fmt none) args)
variable (m n : ℕ) (hm : 1 ≤ m) (hmn : m ≤ n)

include harm hfmt hargs hm hmn

/-- INTERNAL: the two texts are the pieces in two rooms. -/
theorem truncates_iff_cut : Truncates build b b' fmt args m n ↔
    Cut (render (pieces build fmt .text args)) (m - 1) (n - 1) := by
  have hlong := writtenText_eq_render build harm b n (Nat.le_trans hm hmn) fmt hfmt args hargs
  have hshort := writtenText_eq_render build harm b' m hm fmt hfmt args hargs
  unfold Truncates Cut
  rw [hlong, hshort]
  constructor
  · rintro ⟨long, hn, hm⟩
    rw [Option.some.injEq] at hn hm
    rw [hm, ← hn, ← List.take_eq_take_min]
  · intro h
    refine ⟨_, rfl, ?_⟩
    rw [h, ← List.take_eq_take_min]

/-- SOURCE: util/printf.c:37-233 — **truncation**: on the generic build, for every format with
matching arguments and all sizes `1 ≤ m ≤ n`, the text of size `m` is the first
`min (m - 1) length` characters of the text of size `n` exactly where the pieces can be cut. -/
theorem truncates_iff (hint : n < 2 ^ 31) : Truncates build b b' fmt args m n ↔
    CutSafe (pieces build fmt .text args) (m - 1) (n - 1) := by
  rw [truncates_iff_cut build harm b b' fmt hfmt args hargs m n hm hmn]
  exact cut_render_iff _ (Nat.sub_le_sub_right hmn 1) (by omega)

end Sizes

/-- INTERNAL: a string cut inside, with a number behind it. -/
theorem truncates_iff_string :
    Truncates ⟨false, true⟩ ⟨fun _ => 0, []⟩ ⟨fun _ => 0xaa, []⟩
        [ch '%', ch 's', ch '=', ch '%', ch 'd', 0] [.str [ch 'a', ch 'b', 0], .int 42] 3 16 ↔
      CutSafe (pieces ⟨false, true⟩ [ch '%', ch 's', ch '=', ch '%', ch 'd', 0] .text
        [.str [ch 'a', ch 'b', 0], .int 42]) (3 - 1) (16 - 1) :=
  truncates_iff ⟨false, true⟩ rfl ⟨fun _ => 0, []⟩ ⟨fun _ => 0xaa, []⟩
    [ch '%', ch 's', ch '=', ch '%', ch 'd', 0]
    ⟨[ch '%', ch 's', ch '=', ch '%', ch 'd'], by decide, rfl⟩ [.str [ch 'a', ch 'b', 0], .int 42]
    ⟨⟨[ch 'a', ch 'b'], by decide, rfl⟩, trivial, trivial⟩ 3 16 (by decide) (by decide) (by decide)

/-- INTERNAL: the size 2 keeps the last digit of 42. -/
theorem truncates_fails :
    ¬ ∀ (build : Build) (b b' : TextBuffer) (fmt : List Byte) (args : List Arg) (m n : ℕ),
      build.arm = false → NulTerminated fmt → ArgsMatch (argTypes build fmt none) args →
      1 ≤ m → m ≤ n → n < 2 ^ 31 → Truncates build b b' fmt args m n := by
  intro h
  obtain ⟨long, hlong, hshort⟩ := h ⟨false, true⟩ ⟨fun _ => 0, []⟩ ⟨fun _ => 0, []⟩
    [ch '%', ch 'd', 0] [.int 42] 2 3 rfl ⟨[ch '%', ch 'd'], by decide, rfl⟩ ⟨trivial, trivial⟩
    (by decide) (by decide) (by decide)
  have hthree : writtenText ⟨false, true⟩ ⟨fun _ => 0, []⟩ 3 [ch '%', ch 'd', 0] [.int 42] =
      some [ch '4', ch '2'] := by decide
  have htwo : writtenText ⟨false, true⟩ ⟨fun _ => 0, []⟩ 2 [ch '%', ch 'd', 0] [.int 42] =
      some [ch '2'] := by decide
  rw [hthree, Option.some.injEq] at hlong
  rw [htwo, ← hlong] at hshort
  exact absurd hshort (by decide)

end Simbench.Analysis.PrintfTruncation
