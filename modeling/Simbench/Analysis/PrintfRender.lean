import Simbench.Analysis.PrintfText
import Simbench.Library.BoundedText

/-!
# What the printer writes in its room

The format with its arguments is a list of pieces: texts, and numbers with their width. A text
keeps its beginning. A number is counted from its end: the sign is written first, the digits
are put before it, and what the room leaves over is padded; an `__ARM` build gives most numbers
up. `vsnprintf` writes the pieces one behind the other in the room before the terminator.
-/

set_option autoImplicit false

namespace Simbench.Analysis.PrintfRender

open Simbench.Library.LoggedBuffer Simbench.Library.BoundedText Simbench.Program.Printf
open Simbench.Analysis.PrintfMemory Simbench.Analysis.PrintfText

/-! ## Digits -/

/-- INTERNAL: the value that is left behind `k` digits. SRC: util/printf.c:58,72 -/
def quotient (base : ℕ) (value : BitVec 64) : ℕ → BitVec 64
  | 0 => value
  | k + 1 => quotient base (narrow (value / BitVec.ofNat 64 base)) k

/-- INTERNAL: the digit `k`, counted from the right. SRC: util/printf.c:59-70 -/
def digitAt (base : ℕ) (value : BitVec 64) (k : ℕ) : Byte :=
  digitChar (quotient base value k % BitVec.ofNat 64 base).toNat

/-- INTERNAL: the number of digits the loop takes while `room` lasts. SRC: util/printf.c:51 -/
def digitCount (base : ℕ) : (room : ℕ) → (value : BitVec 64) → ℕ
  | 0, _ => 0
  | room + 1, value =>
    if value = 0 then 0
    else digitCount base room (narrow (value / BitVec.ofNat 64 base)) + 1

/-- INTERNAL: the digits taken in the rounds are those of the quotients, from the end. -/
theorem peel_eq_fromEnd (base room : ℕ) (value : BitVec 64) :
    peel base room value = fromEnd (digitAt base value) (digitCount base room value) := by
  induction room generalizing value with
  | zero => rfl
  | succ room ih =>
    unfold peel digitCount
    split
    · rfl
    · rw [fromEnd_succ, ih]
      rfl

/-- INTERNAL: less room takes the same digits as far as it lasts. -/
theorem digitCount_of_le (base : ℕ) {r s : ℕ} (hle : r ≤ s) (value : BitVec 64) :
    digitCount base r value = min r (digitCount base s value) := by
  induction s generalizing r value with
  | zero =>
    obtain rfl := Nat.le_zero.mp hle
    rfl
  | succ s ih =>
    cases r with
    | zero => exact (Nat.zero_min _).symm
    | succ r =>
      unfold digitCount
      split
      · exact (Nat.min_zero _).symm
      · rw [ih (Nat.le_of_succ_le_succ hle), Nat.succ_min_succ]

/-! ## Numbers -/

/-- INTERNAL: an `int` stands for itself. -/
theorem wrap_of_bounds {x : Int} (hlo : -(2 ^ 31) ≤ x) (hhi : x < 2 ^ 31) : wrap x = x := by
  rw [wrap, Int.bmod_def]
  omega

/-- INTERNAL: what `append_num` is asked to print. SRC: util/printf.c:37 -/
structure Number where
  value : BitVec 64
  base : ℕ
  sgn : Bool
  pad : Int
  padChar : Byte
  deriving DecidableEq, Repr

namespace Number

/-- INTERNAL: whether a sign is written. SRC: util/printf.c:45 -/
def negative (n : Number) : Bool := n.sgn && n.value.slt 0

/-- INTERNAL: the character `k` without the width, counted from the right; the sign is the
rightmost. SRC: util/printf.c:45-77 -/
def charAt (n : Number) : ℕ → Byte
  | 0 => if n.negative then ch '-' else digitAt n.base n.value 0
  | k + 1 => if n.negative then digitAt n.base (-n.value) k else digitAt n.base n.value (k + 1)

/-- INTERNAL: the number of characters without the width. SRC: util/printf.c:45-77 -/
def charCount (n : Number) : (room : ℕ) → ℕ
  | 0 => 0
  | room + 1 =>
    if n.negative then digitCount n.base room (-n.value) + 1
    else if n.value = 0 then 1
    else digitCount n.base (room + 1) n.value

/-- INTERNAL: the number of pad characters. SRC: util/printf.c:41-43,79-83 -/
def padding (n : Number) (room : ℕ) : ℕ :=
  let pad := if (room : Int) ≤ n.pad then (room : Int) - 1 else n.pad
  min (wrap (pad - n.charCount room)).toNat (room - n.charCount room)

/-- INTERNAL: the text of the number in its room. -/
def text (n : Number) (room : ℕ) : List Byte :=
  List.replicate (n.padding room) n.padChar ++ fromEnd n.charAt (n.charCount room)

/-- INTERNAL: in less room a number writes as many characters as fit. -/
theorem charCount_of_le (n : Number) {r s : ℕ} (hle : r ≤ s) :
    n.charCount r = min r (n.charCount s) := by
  cases r with
  | zero => exact (Nat.zero_min _).symm
  | succ r =>
    obtain ⟨s, rfl⟩ : ∃ t, s = t + 1 := ⟨s - 1, by omega⟩
    rw [charCount, charCount]
    split
    · rw [digitCount_of_le n.base (Nat.le_of_succ_le_succ hle), Nat.succ_min_succ]
    · split
      · omega
      · exact digitCount_of_le n.base hle n.value

/-- INTERNAL: a number never writes more characters than fit the room. -/
theorem charCount_le (n : Number) (room : ℕ) : n.charCount room ≤ room := by
  rw [n.charCount_of_le (Nat.le_refl room)]
  exact Nat.min_le_left ..

/-- INTERNAL: with room it writes one at least. -/
theorem charCount_pos (n : Number) {room : ℕ} (hroom : 0 < room) : 0 < n.charCount room := by
  obtain ⟨room, rfl⟩ : ∃ t, room = t + 1 := ⟨room - 1, by omega⟩
  rw [charCount]
  split
  · exact Nat.succ_pos _
  · split
    · exact Nat.one_pos
    · rename_i hvalue
      rw [digitCount, if_neg hvalue]
      exact Nat.succ_pos _

/-- INTERNAL: its text is the padding and the characters. -/
theorem length_text (n : Number) (room : ℕ) :
    (n.text room).length = n.padding room + n.charCount room := by
  rw [text, List.length_append, List.length_replicate, length_fromEnd]

/-- INTERNAL: the text of a number fits its room. -/
theorem length_text_le (n : Number) (room : ℕ) : (n.text room).length ≤ room := by
  have hcount := n.charCount_le room
  have hpadding : n.padding room ≤ room - n.charCount room := Nat.min_le_right ..
  rw [length_text]
  omega

/-- INTERNAL: an `__ARM` build gives up at the first digit of another base than 16.
SRC: util/printf.c:52-54 -/
def mute (build : Build) (n : Number) : Bool := build.arm && n.base != 16 && n.value != 0

/-- INTERNAL: the text of the number that the build counts. A sign is in the buffer before the
digits are given up; it counts where it fills the room. SRC: util/printf.c:45-54 -/
def textOn (build : Build) (n : Number) (room : ℕ) : List Byte :=
  if n.mute build then if n.negative ∧ room = 1 then [ch '-'] else [] else n.text room

/-- INTERNAL: what a build counts of a number fits its room. -/
theorem length_textOn_le (build : Build) (n : Number) (room : ℕ) :
    (n.textOn build room).length ≤ room := by
  rw [textOn]
  split
  · split
    · next hone =>
      rw [hone.2]
      exact Nat.le_refl 1
    · exact Nat.zero_le room
  · exact n.length_text_le room

/-- INTERNAL: the generic build gives no number up. -/
theorem mute_generic {build : Build} (harm : build.arm = false) (n : Number) :
    n.mute build = false := by
  rw [mute, harm]
  rfl

/-- INTERNAL: it prints the text of every number. -/
theorem textOn_generic {build : Build} (harm : build.arm = false) (n : Number) :
    n.textOn build = n.text := by
  funext room
  rw [textOn, if_neg (ne_true_of_eq_false (n.mute_generic harm))]

end Number

/-- INTERNAL: the pad characters go before the text. SRC: util/printf.c:81-84 -/
theorem padLoop_content (buffer : ℕ) (padChar : Byte) (room n : ℕ) (pad : Int) (b : TextBuffer) :
    ∃ b', padLoop buffer padChar room n pad b = (min pad.toNat room + n, b') ∧
      b'.content buffer (min pad.toNat room + n) =
        List.replicate (min pad.toNat room) padChar ++ b.content buffer n := by
  induction room generalizing n pad b with
  | zero =>
    rw [Nat.min_zero, Nat.zero_add]
    exact ⟨b, rfl, rfl⟩
  | succ room ih =>
    by_cases hpad : 0 < pad
    · obtain ⟨b', hloop, hcontent⟩ := ih (n + 1) (pad - 1) (prependToBuffer padChar buffer n b)
      have hcount : min pad.toNat (room + 1) = min (pad - 1).toNat room + 1 := by omega
      refine ⟨b', ?_, ?_⟩
      · rw [padLoop, if_pos hpad, hloop, hcount, Nat.add_assoc, Nat.add_comm 1 n]
      · rw [hcount, Nat.add_assoc, Nat.add_comm 1 n, hcontent, content_prependToBuffer,
          List.replicate_succ', List.append_assoc]
        rfl
    · have hcount : min pad.toNat (room + 1) = 0 := by omega
      rw [hcount, Nat.zero_add]
      exact ⟨b, padLoop_of_nonpos _ _ _ _ _ (Int.not_lt.mp hpad), rfl⟩

/-- INTERNAL: `append_num` puts the sign and the digits of the number at the end of the text
and goes on to its padding. -/
def DigitsWritten (build : Build) (buffer size : ℕ) (n : Number) (b : TextBuffer) : Prop :=
  ∃ b', b'.content buffer (n.charCount size) = fromEnd n.charAt (n.charCount size) ∧
    appendNum build buffer size n.value n.base n.sgn n.pad n.padChar b =
      padLoop buffer n.padChar (size - n.charCount size) (n.charCount size)
        (wrap ((if (size : Int) ≤ n.pad then (size : Int) - 1 else n.pad) - n.charCount size)) b'

section Digits

variable {n : Number}

/-- INTERNAL: a negative number: the sign, then the digits of its negation.
SRC: util/printf.c:45-77 -/
theorem appendNum_negative {build : Build} (hbuild : build.arm = true → n.base = 16) (buffer : ℕ)
    (room : ℕ) (hnegative : n.negative = true) (b : TextBuffer) :
    DigitsWritten build buffer (room + 1) n b := by
  have hsigned : (n.sgn && n.value.slt 0) = true := hnegative
  have hvalue : n.value ≠ 0 := by
    intro hzero
    rw [hzero, Bool.and_eq_true_iff] at hsigned
    exact absurd hsigned.2 (by decide)
  have hcount : n.charCount (room + 1) = digitCount n.base room (-n.value) + 1 := by
    rw [Number.charCount, if_pos hnegative]
  have hminus : n.charAt 0 = ch '-' := by
    rw [Number.charAt, if_pos hnegative]
  have hdigits : (fun k => n.charAt (k + 1)) = digitAt n.base (-n.value) := by
    funext k
    rw [Number.charAt, if_pos hnegative]
  obtain ⟨b', hloop, hcontent⟩ := digitLoop_text hbuild buffer room 1 (-n.value)
    (prependToBuffer (ch '-') buffer 0 b)
  have hlength : 1 + (peel n.base room (-n.value)).length = n.charCount (room + 1) := by
    rw [peel_eq_fromEnd, length_fromEnd, hcount, Nat.add_comm]
  rw [hlength] at hloop hcontent
  refine ⟨b', ?_, ?_⟩
  · rw [hcontent, hcount, fromEnd_succ, hdigits, hminus, peel_eq_fromEnd,
      content_prependToBuffer (ch '-') buffer 0 b]
    rfl
  · have hsign : appendSign buffer n.value n.sgn b =
        (1, -n.value, prependToBuffer (ch '-') buffer 0 b) := by
      rw [appendSign, if_pos hsigned]
    have hnonzero : -n.value ≠ 0 := fun h => hvalue (BitVec.neg_eq_zero_iff.mp h)
    simp only [appendNum, hsign, ne_eq, hnonzero, not_false_eq_true, if_true,
      Nat.add_sub_cancel, hloop]

/-- INTERNAL: no sign is stored for a number that is not negative. -/
theorem appendSign_of_not_negative (hnegative : n.negative = false) (buffer : ℕ) (b : TextBuffer) :
    appendSign buffer n.value n.sgn b = (0, n.value, b) := by
  rw [appendSign]
  exact if_neg (ne_true_of_eq_false hnegative)

/-- INTERNAL: its characters are its digits. -/
theorem Number.charAt_of_not_negative (hnegative : n.negative = false) :
    n.charAt = digitAt n.base n.value := by
  funext k
  cases k <;> rw [Number.charAt, if_neg (ne_true_of_eq_false hnegative)]

/-- INTERNAL: zero: its one digit, where there is room. SRC: util/printf.c:45-77 -/
theorem appendNum_zero (build : Build) (buffer size : ℕ) (hnegative : n.negative = false)
    (hvalue : n.value = 0) (b : TextBuffer) : DigitsWritten build buffer size n b := by
  have hsign := appendSign_of_not_negative hnegative buffer b
  have hdigit : digitAt n.base n.value 0 = ch '0' := by
    have hrem : (0 : BitVec 64) % BitVec.ofNat 64 n.base = 0 := BitVec.zero_umod
    rw [digitAt, quotient, hvalue, hrem]
    rfl
  rw [hvalue] at hsign
  cases size with
  | zero =>
    refine ⟨b, rfl, ?_⟩
    simp only [appendNum, hsign, ne_eq, hvalue, not_true_eq_false, if_false, Nat.not_lt_zero,
      Number.charCount]
  | succ room =>
    have hcount : n.charCount (room + 1) = 1 := by
      rw [Number.charCount, if_neg (ne_true_of_eq_false hnegative), if_pos hvalue]
    rw [DigitsWritten, hcount, Number.charAt_of_not_negative hnegative]
    refine ⟨(prependToBuffer (ch '0') buffer 0 b).store buffer (ch '0'), ?_, ?_⟩
    · rw [fromEnd_succ, hdigit, Buffer.content, Buffer.store_data_self]
      rfl
    · simp only [appendNum, hsign, ne_eq, hvalue, not_true_eq_false, if_false,
        Nat.zero_lt_succ, if_true]

/-- INTERNAL: a positive number: its digits. SRC: util/printf.c:45-77 -/
theorem appendNum_positive {build : Build} (hbuild : build.arm = true → n.base = 16) (buffer : ℕ)
    (size : ℕ) (hnegative : n.negative = false) (hvalue : n.value ≠ 0) (b : TextBuffer) :
    DigitsWritten build buffer size n b := by
  have hsign := appendSign_of_not_negative hnegative buffer b
  have hcount : n.charCount size = digitCount n.base size n.value := by
    cases size with
    | zero => rfl
    | succ room =>
      rw [Number.charCount, if_neg (ne_true_of_eq_false hnegative), if_neg hvalue]
  obtain ⟨b', hloop, hcontent⟩ := digitLoop_text hbuild buffer size 0 n.value b
  rw [Nat.zero_add, peel_eq_fromEnd, length_fromEnd, ← hcount] at hloop hcontent
  refine ⟨b', ?_, ?_⟩
  · rw [hcontent, Number.charAt_of_not_negative hnegative]
    exact List.append_nil _
  · simp only [appendNum, hsign, ne_eq, hvalue, not_false_eq_true, if_true, Nat.sub_zero, hloop]

/-- INTERNAL: the sign and the digits. SRC: util/printf.c:45-77 -/
theorem appendNum_digits {build : Build} (buffer : ℕ) {size : ℕ} (n : Number)
    (hmute : n.mute build = false) (hsize : n.sgn = true → 1 ≤ size) (b : TextBuffer) :
    DigitsWritten build buffer size n b := by
  by_cases hvalue : n.value = 0
  · refine appendNum_zero build buffer size ?_ hvalue b
    have hslt : (0 : BitVec 64).slt 0 = false := by decide
    rw [Number.negative, hvalue, hslt, Bool.and_false]
  · have hbuild : build.arm = true → n.base = 16 := by
      intro harm
      rw [Number.mute, harm, Bool.true_and, bne_iff_ne.mpr hvalue, Bool.and_true] at hmute
      simpa using hmute
    cases hnegative : n.negative with
    | true =>
      have hone := hsize (Bool.and_eq_true_iff.mp hnegative).1
      obtain ⟨room, rfl⟩ : ∃ room, size = room + 1 := ⟨size - 1, by omega⟩
      exact appendNum_negative hbuild buffer room hnegative b
    | false => exact appendNum_positive hbuild buffer size hnegative hvalue b

/-- INTERNAL: a number that is given up: only a sign that fills the room is counted.
SRC: util/printf.c:45-54 -/
theorem appendNum_mute {build : Build} (buffer : ℕ) {size : ℕ} (hmute : n.mute build = true)
    (hsize : n.sgn = true → 1 ≤ size) (b : TextBuffer) :
    ∃ b', appendNum build buffer size n.value n.base n.sgn n.pad n.padChar b =
        ((n.textOn build size).length, b') ∧
      b'.content buffer (n.textOn build size).length = n.textOn build size := by
  have hgiven : (build.arm = true ∧ n.base ≠ 16) ∧ n.value ≠ 0 := by
    simpa [Number.mute] using hmute
  obtain ⟨⟨harm, hbase⟩, hvalue⟩ := hgiven
  have hloop : ∀ room k value b, value ≠ 0 →
      digitLoop build buffer n.base (room + 1) k value b = .error b := by
    intro room k value b hne
    rw [digitLoop, if_neg hne, if_pos harm, if_pos hbase]
  rw [Number.textOn, if_pos hmute]
  cases hnegative : n.negative with
  | true =>
    have hone := hsize (Bool.and_eq_true_iff.mp hnegative).1
    obtain ⟨room, rfl⟩ : ∃ room, size = room + 1 := ⟨size - 1, by omega⟩
    have hsign : appendSign buffer n.value n.sgn b =
        (1, -n.value, prependToBuffer (ch '-') buffer 0 b) := by
      rw [appendSign]
      exact if_pos hnegative
    have hnonzero : -n.value ≠ 0 := fun h => hvalue (BitVec.neg_eq_zero_iff.mp h)
    refine ⟨prependToBuffer (ch '-') buffer 0 b, ?_, ?_⟩
    · cases room with
      | zero =>
        simp only [appendNum, hsign, ne_eq, hnonzero, not_false_eq_true, if_true, Nat.sub_self,
          digitLoop]
        rfl
      | succ room =>
        simp only [appendNum, hsign, ne_eq, hnonzero, not_false_eq_true, if_true,
          Nat.add_sub_cancel, hloop _ _ _ _ hnonzero]
        rfl
    · cases room with
      | zero => exact content_prependToBuffer (ch '-') buffer 0 b
      | succ room => rfl
  | false =>
    have hsign := appendSign_of_not_negative hnegative buffer b
    rw [if_neg (fun h => Bool.false_ne_true h.1)]
    refine ⟨b, ?_, rfl⟩
    cases size with
    | zero =>
      simp only [appendNum, hsign, ne_eq, hvalue, not_false_eq_true, if_true, Nat.sub_zero,
        digitLoop]
      rfl
    | succ room =>
      simp only [appendNum, hsign, ne_eq, hvalue, not_false_eq_true, if_true, Nat.sub_zero,
        hloop _ _ _ _ hvalue]
      rfl

end Digits

/-- INTERNAL: `append_num` writes the text of the number. SRC: util/printf.c:37-86 -/
theorem appendNum_renderOn {build : Build} (buffer : ℕ) {size : ℕ} (n : Number)
    (hsize : n.sgn = true → 1 ≤ size) (b : TextBuffer) :
    ∃ b', appendNum build buffer size n.value n.base n.sgn n.pad n.padChar b =
        ((n.textOn build size).length, b') ∧
      b'.content buffer (n.textOn build size).length = n.textOn build size := by
  cases hmute : n.mute build with
  | true => exact appendNum_mute buffer hmute hsize b
  | false =>
    obtain ⟨b₁, hdigits, hnum⟩ := appendNum_digits buffer n hmute hsize b
    obtain ⟨b', hloop, hcontent⟩ := padLoop_content buffer n.padChar (size - n.charCount size)
      (n.charCount size)
      (wrap ((if (size : Int) ≤ n.pad then (size : Int) - 1 else n.pad) - n.charCount size)) b₁
    rw [Number.textOn, if_neg (ne_true_of_eq_false hmute)]
    refine ⟨b', ?_, ?_⟩
    · rw [hnum, hloop, n.length_text]
      rfl
    · rw [n.length_text, Number.text, ← hdigits]
      exact hcontent

/-! ## Strings -/

/-- INTERNAL: `pad_str` stores as many pad characters as are missing and fit. -/
theorem padStr_content (padChar : Byte) (pad : Int) (room buffer n : ℕ) (b : TextBuffer) :
    ∃ b', padStr padChar pad room buffer n b = (n + min (pad - n).toNat room, b') ∧
      b'.content buffer (min (pad - n).toNat room) =
        List.replicate (min (pad - n).toNat room) padChar := by
  induction room generalizing buffer n b with
  | zero =>
    rw [Nat.min_zero]
    exact ⟨b, rfl, rfl⟩
  | succ room ih =>
    by_cases hpad : (n : Int) < pad
    · obtain ⟨b', hloop, hcontent⟩ := ih (buffer + 1) (n + 1) (b.store buffer padChar)
      have hwrites := (padStr_writesIn padChar pad room (buffer + 1) (n + 1)
        (b.store buffer padChar)).2
      rw [hloop] at hwrites
      have hcount : min (pad - n).toNat (room + 1) = min (pad - (n + 1 : ℕ)).toNat room + 1 := by
        omega
      rw [hcount]
      refine ⟨b', ?_, ?_⟩
      · rw [padStr, if_pos hpad, hloop, Nat.add_assoc, Nat.add_comm 1]
      · rw [Buffer.content, hcontent, hwrites.frame _ (Or.inl (Nat.lt_succ_self _)),
          Buffer.store_data_self, List.replicate_succ]
    · have hcount : min (pad - n).toNat (room + 1) = 0 := by omega
      rw [hcount, padStr, if_neg hpad]
      exact ⟨b, rfl, rfl⟩

/-- INTERNAL: `append_str` writes the string and its padding as far as the room lasts.
SRC: util/printf.c:88-107 -/
theorem appendStr_render (size : ℕ) (pad : Int) (padChar : Byte) (content : List Byte)
    (hnul : 0 ∉ content) (buffer n : ℕ) (b : TextBuffer) (hn : n ≤ size) {out : List Byte}
    (hout : out = (content ++
      List.replicate (pad - (n + content.length : ℕ)).toNat padChar).take (size - n)) :
    ∃ b', appendStr size pad padChar (content ++ [0]) buffer n b = some (n + out.length, b') ∧
      b'.content buffer out.length = out := by
  induction content generalizing buffer n b out with
  | nil =>
    obtain ⟨b', hloop, hcontent⟩ := padStr_content padChar pad (size - n) buffer n b
    rw [List.nil_append, List.length_nil, Nat.add_zero, List.take_replicate, Nat.min_comm] at hout
    rw [List.nil_append, appendStr, if_neg (fun h => h.1 rfl), hloop, hout, List.length_replicate]
    exact ⟨b', rfl, hcontent⟩
  | cons c content ih =>
    rw [List.mem_cons, not_or] at hnul
    rw [List.cons_append, appendStr]
    by_cases hroom : n < size
    · rw [if_pos ⟨Ne.symm hnul.1, hroom⟩]
      obtain ⟨tail, htail⟩ : ∃ tail, tail = (content ++ List.replicate
          (pad - (n + 1 + content.length : ℕ)).toNat padChar).take (size - (n + 1)) := ⟨_, rfl⟩
      obtain ⟨b', hstr, hcontent⟩ := ih hnul.2 (buffer + 1) (n + 1) (b.store buffer c) hroom htail
      obtain ⟨rc, b₁, hstr₁, -, hwrites⟩ := appendStr_writesIn size pad padChar content (buffer + 1)
        (n + 1) (b.store buffer c) hroom
      rw [hstr, Option.some.injEq, Prod.mk.injEq] at hstr₁
      rw [← hstr₁.2] at hwrites
      have hcons : out = c :: tail := by
        have hsplit : size - n = size - (n + 1) + 1 := by omega
        have hlength : n + (c :: content).length = n + 1 + content.length := by
          rw [List.length_cons]
          omega
        rw [hout, hsplit, hlength, List.cons_append, List.take_succ_cons, ← htail]
      refine ⟨b', ?_, ?_⟩
      · rw [hstr, hcons, List.length_cons, Nat.add_assoc, Nat.add_comm 1]
      · rw [hcons, List.length_cons, Buffer.content, hcontent,
          hwrites.frame _ (Or.inl (Nat.lt_succ_self _)), Buffer.store_data_self]
    · have hfull : size - n = 0 := by omega
      rw [if_neg (fun h => hroom h.2), hout, hfull, List.take_zero]
      exact ⟨b, rfl, rfl⟩

/-! ## Pieces -/

/-- INTERNAL: a text, or a number. -/
inductive Piece
  | text (full : List Byte)
  | number (n : Number)
  deriving DecidableEq, Repr

/-- INTERNAL: what a piece prints in a given room. -/
def Piece.print : Piece → ℕ → List Byte
  | .text full => fun room => full.take room
  | .number n => n.text

/-- INTERNAL: the pieces one behind the other. -/
def render : List Piece → ℕ → List Byte
  | [] => fun _ => []
  | piece :: rest => andThen piece.print (render rest)

/-- INTERNAL: what a build counts of a piece in a given room. -/
def Piece.printOn (build : Build) : Piece → ℕ → List Byte
  | .text full => fun room => full.take room
  | .number n => n.textOn build

/-- INTERNAL: the pieces one behind the other on a build. -/
def renderOn (build : Build) : List Piece → ℕ → List Byte
  | [] => fun _ => []
  | piece :: rest => andThen (piece.printOn build) (renderOn build rest)

section Builds

variable {build : Build}

/-- INTERNAL: never more than the room. -/
theorem Piece.length_printOn_le (piece : Piece) (room : ℕ) :
    (piece.printOn build room).length ≤ room := by
  cases piece with
  | text full => exact List.length_take_le ..
  | number n => exact n.length_textOn_le build room

/-- INTERNAL: without room nothing is printed. -/
theorem renderOn_zero (ps : List Piece) : renderOn build ps 0 = [] := by
  induction ps with
  | nil => rfl
  | cons piece ps ih =>
    have hprint : piece.printOn build 0 = [] :=
      List.eq_nil_of_length_eq_zero (Nat.le_zero.mp (piece.length_printOn_le 0))
    rw [renderOn, andThen, hprint, List.length_nil, ih]
    rfl

/-- INTERNAL: pieces behind pieces print in the room the first have left. -/
theorem renderOn_append (ps rest : List Piece) (room : ℕ) :
    renderOn build (ps ++ rest) room = andThen (renderOn build ps) (renderOn build rest) room := by
  induction ps generalizing room with
  | nil => rfl
  | cons piece ps ih =>
    rw [List.cons_append, renderOn, andThen, ih, andThen, andThen, renderOn, andThen,
      List.append_assoc, List.length_append, Nat.sub_add_eq]

/-- INTERNAL: in the generic build a format prints its pieces' texts. -/
theorem renderOn_generic (harm : build.arm = false) (ps : List Piece) :
    renderOn build ps = render ps := by
  induction ps with
  | nil => rfl
  | cons piece ps ih =>
    have hprint : piece.printOn build = piece.print := by
      cases piece with
      | text full => rfl
      | number n => exact n.textOn_generic harm
    rw [renderOn, render, ih, hprint]

/-- INTERNAL: without room, nothing there either. -/
theorem render_zero (ps : List Piece) : render ps 0 = [] := by
  have hgeneric : renderOn ⟨false, true⟩ ps = render ps := renderOn_generic rfl ps
  rw [← hgeneric]
  exact renderOn_zero ps

end Builds

/-- INTERNAL: the pieces of a conversion and the arguments left. SRC: util/printf.c:148-218 -/
def conversionPieces (build : Build) (c : Byte) (pad : Int) (padChar : Byte) (long : Bool)
    (args : List Arg) : Option (List Piece × List Arg) :=
  match switchCase c with
  | .d => (fetchDecimal long args).map fun r => ([.number ⟨r.1, 10, true, pad, padChar⟩], r.2)
  | .u => (fetchDecimal long args).map fun r => ([.number ⟨r.1, 10, false, pad, padChar⟩], r.2)
  | .b => (fetchUnsigned long args).map fun r => ([.number ⟨r.1, 2, false, pad, padChar⟩], r.2)
  | .x => (fetchUnsigned long args).map fun r => ([.number ⟨r.1, 16, false, pad, padChar⟩], r.2)
  | .p => (fetchPointer build long args).map fun r =>
    ([.text [ch '0', ch 'x'], .number ⟨r.1, 16, false, pad, padChar⟩], r.2)
  | .s => (vaArgStr args).map fun r =>
    let content := r.1.takeWhile (· ≠ 0)
    ([.text (content ++ List.replicate (pad - content.length).toNat padChar)], r.2)
  | .c => (vaArgInt args).map fun r => ([.text [r.1.setWidth 8]], r.2)
  | _ => some ([.text [c]], args)

/-- INTERNAL: the pieces of a format with its arguments, from a place of the loop on.
SRC: util/printf.c:120-229 -/
def pieces (build : Build) : (fmt : List Byte) → Mode → List Arg → List Piece
  | [], _, _ => []
  | c :: fmt, .text, args =>
    if c = 0 then []
    else if c = ch '%' then pieces build fmt .start args
    else .text [c] :: pieces build fmt .text args
  | c :: fmt, .spec pad padChar long, args =>
    match switchCase c with
    | .nul => []
    | .zero =>
      if 0 < pad then pieces build fmt (.spec (wrap (pad * 10)) padChar long) args
      else pieces build fmt (.spec pad (ch '0') long) args
    | .digit d => pieces build fmt (.spec (wrap (wrap (pad * 10) + d)) padChar long) args
    | .l => pieces build fmt (.spec pad padChar true) args
    | _ =>
      match conversionPieces build c pad padChar long args with
      | none => []
      | some (ps, args) => ps ++ pieces build fmt .text args

/-- INTERNAL: a single piece has all the room. -/
theorem renderOn_singleton (build : Build) (piece : Piece) (room : ℕ) :
    renderOn build [piece] room = piece.printOn build room :=
  List.append_nil _

/-- INTERNAL: one character stored. SRC: util/printf.c:207-220 -/
theorem store_render (build : Build) {room : ℕ} (hroom : 1 ≤ room) (buffer : ℕ) (v : Byte)
    (b : TextBuffer) :
    (renderOn build [.text [v]] room).length = 1 ∧
      (b.store buffer v).content buffer (renderOn build [.text [v]] room).length =
        renderOn build [.text [v]] room := by
  have hone : renderOn build [.text [v]] room = [v] := by
    rw [renderOn_singleton]
    exact List.take_of_length_le hroom
  rw [hone, List.length_singleton, Buffer.content, Buffer.store_data_self]
  exact ⟨rfl, rfl⟩

/-- INTERNAL: a number with its padding. -/
theorem number_render (build : Build) {room : ℕ} (buffer : ℕ) (n : Number)
    (hroom : n.sgn = true → 1 ≤ room) (b : TextBuffer) :
    (appendNum build buffer room n.value n.base n.sgn n.pad n.padChar b).1 =
        (renderOn build [.number n] room).length ∧
      (appendNum build buffer room n.value n.base n.sgn n.pad n.padChar b).2.content buffer
        (renderOn build [.number n] room).length = renderOn build [.number n] room := by
  obtain ⟨b', happend, hcontent⟩ := appendNum_renderOn buffer n hroom b
  rw [renderOn_singleton, happend]
  exact ⟨rfl, hcontent⟩

/-- INTERNAL: `0x` and the digits, in the room the `0x` leaves. SRC: util/printf.c:184-193 -/
theorem pointer_render (build : Build) (buffer room : ℕ) (n : Number) (hsgn : n.sgn = false)
    (b : TextBuffer) : ∃ rc b₁,
    appendStr room 0 (ch ' ') [ch '0', ch 'x', 0] buffer 0 b = some (rc, b₁) ∧
    rc + (appendNum build (buffer + rc) (room - rc) n.value n.base n.sgn n.pad n.padChar b₁).1 =
      (renderOn build [.text [ch '0', ch 'x'], .number n] room).length ∧
    (appendNum build (buffer + rc) (room - rc) n.value n.base n.sgn n.pad n.padChar b₁).2.content
      buffer (renderOn build [.text [ch '0', ch 'x'], .number n] room).length =
        renderOn build [.text [ch '0', ch 'x'], .number n] room := by
  obtain ⟨lead, hlead⟩ : ∃ lead, lead = [ch '0', ch 'x'].take room := ⟨_, rfl⟩
  obtain ⟨b₁, hstr, hcontent₁⟩ := appendStr_render room 0 (ch ' ') [ch '0', ch 'x'] (by decide)
    buffer 0 b (Nat.zero_le _) hlead
  rw [Nat.zero_add] at hstr
  have hunsigned : n.sgn = true → 1 ≤ room - lead.length := by
    rw [hsgn]
    exact fun h => absurd h Bool.false_ne_true
  obtain ⟨b', hdigits, hcontent₂⟩ := appendNum_renderOn (buffer + lead.length) n hunsigned b₁
  have hwrites := (appendNum_writesIn build (buffer + lead.length) (room - lead.length) n.value
    n.base n.sgn n.pad n.padChar b₁ hunsigned).2
  rw [hdigits] at hwrites
  have hout : renderOn build [.text [ch '0', ch 'x'], .number n] room =
      lead ++ n.textOn build (room - lead.length) := by
    rw [renderOn, andThen, renderOn_singleton, hlead]
    rfl
  refine ⟨lead.length, b₁, hstr, ?_, ?_⟩
  · rw [hdigits, hout, List.length_append]
  · rw [hdigits, hout, List.length_append, Buffer.content_append, hcontent₂,
      hwrites.content_eq (Or.inl (Nat.le_refl _)), hcontent₁]

/-- INTERNAL: the characters of a string. -/
theorem takeWhile_terminated {content : List Byte} (hnul : 0 ∉ content) :
    (content ++ [0]).takeWhile (· ≠ 0) = content := by
  have hkept : ∀ c ∈ content, decide (c ≠ 0) = true := by
    intro c hmem
    apply decide_eq_true
    rintro rfl
    exact hnul hmem
  rw [List.takeWhile_append_of_pos hkept]
  exact List.append_nil _

/-- INTERNAL: a conversion takes its argument and writes its pieces. SRC: util/printf.c:148-218 -/
theorem convert_render {build : Build} (c : Byte) (pad : Int) (padChar : Byte) (long : Bool)
    {room : ℕ} (hroom : 1 ≤ room) {types : List ArgType} {args : List Arg}
    (hargs : ArgsMatch ((conversionType build long c).toList ++ types) args)
    (buffer : ℕ) (b : TextBuffer) :
    ∃ ps rest b', conversionPieces build c pad padChar long args = some (ps, rest) ∧
      convert build c pad padChar long room args buffer b =
        some ((renderOn build ps room).length, rest, b') ∧
      b'.content buffer (renderOn build ps room).length = renderOn build ps room := by
  have hnum : ∀ v base sgn, _ := fun v base sgn =>
    number_render build buffer ⟨v, base, sgn, pad, padChar⟩ (fun _ => hroom) b
  cases hc : switchCase c with
  | d | u =>
    simp only [conversionType, hc, Option.toList_some, List.singleton_append] at hargs
    obtain ⟨a, rest, rfl, htype, -⟩ := hargs.uncons
    obtain ⟨_, v, hfetch⟩ := fetch_of_type htype
    simp only [conversionPieces, convert, hc, hfetch, Option.map_some, Option.bind_eq_bind,
      Option.bind_some]
    refine ⟨_, rest, _, rfl, ?_, (hnum _ _ _).2⟩
    rw [← (hnum _ _ _).1]
  | b | x =>
    simp only [conversionType, hc, Option.toList_some, List.singleton_append] at hargs
    obtain ⟨a, rest, rfl, htype, -⟩ := hargs.uncons
    obtain ⟨v, _, hfetch⟩ := fetch_of_type htype
    simp only [conversionPieces, convert, hc, hfetch, Option.map_some, Option.bind_eq_bind,
      Option.bind_some]
    refine ⟨_, rest, _, rfl, ?_, (hnum _ _ _).2⟩
    rw [← (hnum _ _ _).1]
  | p =>
    simp only [conversionType, hc, Option.toList_some, List.singleton_append] at hargs
    obtain ⟨a, rest, rfl, htype, -⟩ := hargs.uncons
    obtain ⟨v, _, hfetch⟩ := fetch_of_type htype
    obtain ⟨rc, b₁, hstr, hlength, hcontent⟩ :=
      pointer_render build buffer room ⟨v, 16, false, pad, padChar⟩ rfl b
    simp only [conversionPieces, convert, hc, fetchPointer, hfetch, hstr, Option.map_some,
      Option.bind_eq_bind, Option.bind_some]
    refine ⟨_, rest, _, rfl, ?_, hcontent⟩
    rw [← hlength]
  | s =>
    simp only [conversionType, hc, Option.toList_some, List.singleton_append] at hargs
    obtain ⟨a, rest, rfl, htype, -⟩ := hargs.uncons
    obtain ⟨_, rfl, content, hnul, rfl⟩ := str_of_type htype
    obtain ⟨b', hstr, hcontent⟩ := appendStr_render room pad padChar content hnul buffer 0 b
      (Nat.zero_le _) rfl
    rw [Nat.zero_add, Nat.zero_add, Nat.sub_zero] at hstr
    rw [Nat.zero_add, Nat.sub_zero] at hcontent
    simp only [conversionPieces, convert, hc, vaArgStr, hstr, takeWhile_terminated hnul,
      Option.map_some, Option.bind_eq_bind, Option.bind_some]
    refine ⟨_, rest, b', rfl, ?_, ?_⟩
    · rw [renderOn_singleton]
      rfl
    · rw [renderOn_singleton]
      exact hcontent
  | c =>
    simp only [conversionType, hc, Option.toList_some, List.singleton_append] at hargs
    obtain ⟨a, rest, rfl, htype, -⟩ := hargs.uncons
    obtain ⟨v, rfl⟩ := int_of_type htype
    obtain ⟨hlength, hcontent⟩ := store_render build hroom buffer (v.setWidth 8) b
    simp only [conversionPieces, convert, hc, vaArgInt, Option.map_some, Option.bind_eq_bind,
      Option.bind_some]
    refine ⟨_, rest, b.store buffer (v.setWidth 8), rfl, ?_, hcontent⟩
    rw [hlength]
  | nul | zero | digit | l | other =>
    obtain ⟨hlength, hcontent⟩ := store_render build hroom buffer c b
    simp only [conversionPieces, convert, hc]
    refine ⟨_, args, b.store buffer c, rfl, ?_, hcontent⟩
    rw [hlength]

/-! ## The loop -/

/-- INTERNAL: a result that appends `out` to the text before `count`. -/
def Renders (r : Option (ℕ × TextBuffer)) (b : TextBuffer) (count : ℕ) (out : List Byte) : Prop :=
  ∃ b', r = some (count + out.length, b') ∧
    b'.content 0 (count + out.length) = b.content 0 count ++ out

namespace Renders

variable {r : Option (ℕ × TextBuffer)} {b b' : TextBuffer} {count : ℕ} {out text : List Byte}

/-- INTERNAL: the terminator is behind the text. -/
theorem stop (b : TextBuffer) (count : ℕ) :
    Renders (some (count, b.store count 0)) b count [] := by
  have hstore : WritesIn count (count + 1) b (b.store count 0) :=
    WritesIn.store b 0 (Nat.le_refl _) (Nat.lt_succ_self _)
  refine ⟨b.store count 0, rfl, ?_⟩
  rw [List.length_nil, Nat.add_zero, List.append_nil]
  exact hstore.content_eq (Or.inl (Nat.le_of_eq (Nat.zero_add _)))

/-- INTERNAL: a text written at `count`, and what the rest appends behind it. -/
theorem step {hi : ℕ} (hcontent : b'.content count text.length = text)
    (hwrites : WritesIn count hi b b') (h : Renders r b' (count + text.length) out) :
    Renders r b count (text ++ out) := by
  obtain ⟨b₂, hr, hrest⟩ := h
  refine ⟨b₂, ?_, ?_⟩
  · rw [hr, List.length_append, Nat.add_assoc]
  · rw [List.length_append, ← Nat.add_assoc, hrest, Buffer.content_append, Nat.zero_add, hcontent,
      hwrites.content_eq (Or.inl (Nat.le_of_eq (Nat.zero_add _))), List.append_assoc]

end Renders

/-- INTERNAL: where the loop stops, at the terminator or with no room, no text is left. -/
theorem renderOn_text_stop {build : Build} {c : Byte} {count size : ℕ} (fmt : List Byte)
    (args : List Arg) (hc : ¬ (c ≠ 0 ∧ count < size - 1)) :
    renderOn build (pieces build (c :: fmt) .text args) (size - 1 - count) = [] := by
  by_cases hnul : c = 0
  · rw [pieces, if_pos hnul]
    rfl
  · have hfull : size - 1 - count = 0 :=
      Nat.sub_eq_zero_of_le (Nat.le_of_not_lt fun h => hc ⟨hnul, h⟩)
    rw [hfull, renderOn_zero]

/-- INTERNAL: the loop writes the pieces from its place on, by induction on the rest of the
format. SRC: util/printf.c:120-232 -/
theorem vsnprintfLoop_render {build : Build} (size : ℕ) (fmt : List Byte) (mode : Mode)
    (args : List Arg) (count : ℕ) (b : TextBuffer)
    (hmode : ModeInv size count mode)
    (hargs : ArgsMatch (argTypes build (fmt ++ [0]) (Mode.longFlag mode)) args) :
    Renders (vsnprintfLoop build size (fmt ++ [0]) mode args count count b) b count
      (renderOn build (pieces build (fmt ++ [0]) mode args) (size - 1 - count)) := by
  induction fmt generalizing mode args count b with
  | nil =>
    cases mode with
    | text =>
      rw [List.nil_append, vsnprintfLoop, if_neg (fun h => h.1 rfl), pieces, if_pos rfl]
      exact Renders.stop b count
    | spec pad padChar long => exact Renders.stop b count
  | cons c fmt ih =>
    rw [List.cons_append] at hargs ⊢
    cases mode with
    | text =>
      rw [vsnprintfLoop]
      by_cases hc : c ≠ 0 ∧ count < size - 1
      · rw [if_pos hc, pieces, if_neg hc.1]
        rw [Mode.longFlag, argTypes, if_neg hc.1] at hargs
        by_cases hpercent : c = ch '%'
        · rw [if_pos hpercent] at hargs
          rw [if_pos hpercent, if_pos hpercent]
          exact ih .start args count b hc.2 hargs
        · rw [if_neg hpercent] at hargs
          rw [if_neg hpercent, if_neg hpercent]
          have hone : (Piece.text [c]).printOn build (size - 1 - count) = [c] :=
            List.take_of_length_le (Nat.sub_pos_of_lt hc.2)
          rw [renderOn, andThen, hone, List.length_singleton, Nat.sub_sub (size - 1)]
          refine Renders.step ?_ (WritesIn.store b c (Nat.le_refl _) (Nat.lt_succ_self _))
            (ih .text args (count + 1) _ hc.2 hargs)
          rw [List.length_singleton, Buffer.content, Buffer.store_data_self]
          rfl
      · rw [if_neg hc]
        rw [renderOn_text_stop _ _ hc]
        exact Renders.stop b count
    | spec pad padChar long =>
      have hlt : count < size - 1 := hmode
      rw [vsnprintfLoop, pieces]
      rw [Mode.longFlag, argTypes] at hargs
      cases hcase : switchCase c with
      | nul => exact Renders.stop b count
      | zero =>
        rw [hcase] at hargs
        by_cases hpad : 0 < pad
        · simp only [if_pos hpad]
          exact ih _ args count b hlt hargs
        · simp only [if_neg hpad]
          exact ih _ args count b hlt hargs
      | digit d =>
        rw [hcase] at hargs
        exact ih _ args count b hlt hargs
      | l =>
        rw [hcase] at hargs
        exact ih _ args count b hlt hargs
      | d | u | b | x | p | s | c | other =>
        rw [hcase] at hargs
        have hroom : 1 ≤ size - 1 - count := Nat.sub_pos_of_lt hlt
        obtain ⟨rc, rest, b', hconvert, hle, hrest, hwrites⟩ :=
          convert_writesIn build c pad padChar long hroom hargs count b
        obtain ⟨ps, rest', b₁, hpieces, hrender, hcontent⟩ :=
          convert_render c pad padChar long hroom hargs count b
        rw [hconvert, Option.some.injEq, Prod.mk.injEq, Prod.mk.injEq] at hrender
        obtain ⟨rfl, rfl, rfl⟩ := hrender
        simp only [hconvert, hpieces, Option.bind_eq_bind, Option.bind_some]
        rw [renderOn_append, andThen, Nat.sub_sub (size - 1)]
        have hnext : ModeInv size (count + (renderOn build ps (size - 1 - count)).length) .text :=
          show count + (renderOn build ps (size - 1 - count)).length ≤ size - 1 by omega
        exact Renders.step hcontent hwrites (ih .text rest _ b' hnext hrest)

/-- INTERNAL: the text a call writes before the terminator. -/
def writtenText (build : Build) (b : TextBuffer) (size : ℕ) (fmt : List Byte) (args : List Arg) :
    Option (List Byte) :=
  (vsnprintf build b size fmt args).map fun r => r.2.content 0 r.1

/-- SOURCE: util/printf.c:109-233 — **the printed text**: on both builds, for every
NUL-terminated format with matching arguments and every size from 1, the text before the
terminator is the pieces of the format in the room that the size leaves, whatever the buffer
held. -/
theorem writtenText_eq_renderOn (build : Build) (b : TextBuffer) (size : ℕ) (hsize : 1 ≤ size)
    (fmt : List Byte) (hfmt : NulTerminated fmt) (args : List Arg)
    (hargs : ArgsMatch (argTypes build fmt none) args) :
    writtenText build b size fmt args =
      some (renderOn build (pieces build fmt .text args) (size - 1)) := by
  obtain ⟨content, -, rfl⟩ := hfmt
  obtain ⟨b', hloop, hcontent⟩ := vsnprintfLoop_render size content .text args 0 b
    (Nat.zero_le _) hargs
  rw [Nat.zero_add, Nat.sub_zero] at hloop hcontent
  rw [writtenText, vsnprintf, if_neg (by omega), hloop, Option.map_some, hcontent]
  rfl

/-- INTERNAL: on the generic build `vsnprintf` leaves the text of the format's pieces in the
buffer. -/
theorem writtenText_eq_render (build : Build) (harm : build.arm = false) (b : TextBuffer)
    (size : ℕ) (hsize : 1 ≤ size) (fmt : List Byte) (hfmt : NulTerminated fmt) (args : List Arg)
    (hargs : ArgsMatch (argTypes build fmt none) args) :
    writtenText build b size fmt args = some (render (pieces build fmt .text args) (size - 1)) := by
  rw [writtenText_eq_renderOn build b size hsize fmt hfmt args hargs, renderOn_generic harm]

end Simbench.Analysis.PrintfRender
