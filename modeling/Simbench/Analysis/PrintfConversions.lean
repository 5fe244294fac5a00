import Simbench.Analysis.PrintfNumerals
import Simbench.Analysis.PrintfRender

/-!
# The 32-bit number conversions

`%d`, `%u`, `%x` and `%b` at any place of a format. The sign of a negative number is written
first and the digits are put before it, so that it ends up last. `%u` takes its argument for a
signed one, and a quotient of a widened negative value stays negative until the room is full. With
a width and a flag, `%x` and `%b` pad the numeral on its left.
-/

set_option autoImplicit false

namespace Simbench.Analysis.PrintfConversions

open Simbench.Library.LoggedBuffer Simbench.Library.BoundedText Simbench.Program.Printf
open Simbench.Analysis.PrintfMemory Simbench.Analysis.PrintfText Simbench.Analysis.PrintfNumerals
open Simbench.Analysis.PrintfRender

/-! ## The text of a number -/

section Text

variable {n : Number} {room : ℕ}

/-- INTERNAL: a numeral that fits the room has no more digits than that. -/
theorem digits_length_le {base v : ℕ} (h : (numeral base v).length ≤ room) (hv : v ≠ 0) :
    (Nat.digits base v).length ≤ room := by
  rwa [numeral, if_neg hv, List.length_map, List.length_reverse] at h

/-- INTERNAL: the digits of a value that survives its first quotient.
SRC: util/printf.c:50-77 -/
theorem peel_eq_numeral {base : ℕ} (hbase : IsBase base) {v : BitVec 64} (hv : v ≠ 0)
    (hsmall : v.toNat / base < 2 ^ 31) (hroom : (numeral base v.toNat).length ≤ room) :
    peel base room v = numeral base v.toNat := by
  have hbounds := hbase.bounds
  have hnat : v.toNat ≠ 0 := fun h => hv (BitVec.eq_of_toNat_eq h)
  rw [peel_eq_digits hbounds.1 (by omega) room v hsmall (digits_length_le hroom hnat), numeral,
    if_neg hnat]

/-- INTERNAL: the characters of an unsigned number without its width. -/
theorem chars_of_not_negative (hnegative : n.negative = false) (hbase : IsBase n.base)
    (hsmall : n.value.toNat / n.base < 2 ^ 31)
    (hroom : (numeral n.base n.value.toNat).length ≤ room) :
    fromEnd n.charAt (n.charCount room) = numeral n.base n.value.toNat := by
  have hchars := Number.charAt_of_not_negative hnegative
  by_cases hvalue : n.value = 0
  · have hzero : numeral n.base n.value.toNat = [ch '0'] := by
      rw [hvalue]
      rfl
    rw [hzero, List.length_singleton] at hroom
    obtain ⟨room, rfl⟩ : ∃ r, room = r + 1 := ⟨room - 1, by omega⟩
    have hdigit : digitAt n.base n.value 0 = ch '0' := by
      have hrem : (0 : BitVec 64) % BitVec.ofNat 64 n.base = 0 := BitVec.zero_umod
      rw [digitAt, quotient, hvalue, hrem]
      rfl
    rw [Number.charCount, if_neg (ne_true_of_eq_false hnegative), if_pos hvalue, hchars,
      fromEnd_succ, hdigit, hzero]
    rfl
  · have hcount : n.charCount room = digitCount n.base room n.value := by
      cases room with
      | zero => rfl
      | succ room =>
        rw [Number.charCount, if_neg (ne_true_of_eq_false hnegative), if_neg hvalue]
    rw [hcount, hchars, ← peel_eq_fromEnd, peel_eq_numeral hbase hvalue hsmall hroom]

/-- INTERNAL: those of a negative one: the sign is the last. SRC: util/printf.c:45-77 -/
theorem chars_of_negative (hnegative : n.negative = true) (hbase : IsBase n.base)
    (hsmall : (-n.value).toNat / n.base < 2 ^ 31)
    (hroom : (numeral n.base (-n.value).toNat).length < room) :
    fromEnd n.charAt (n.charCount room) = numeral n.base (-n.value).toNat ++ [ch '-'] := by
  obtain ⟨room, rfl⟩ : ∃ r, room = r + 1 := ⟨room - 1, by omega⟩
  have hvalue : -n.value ≠ 0 := by
    intro hneg
    have hzero : n.value = 0 := BitVec.neg_eq_zero_iff.mp hneg
    rw [Number.negative, hzero, Bool.and_eq_true_iff] at hnegative
    exact absurd hnegative.2 (by decide)
  have hsign : n.charAt 0 = ch '-' := by
    rw [Number.charAt, if_pos hnegative]
  have hdigits : (fun k => n.charAt (k + 1)) = digitAt n.base (-n.value) := by
    funext k
    rw [Number.charAt, if_pos hnegative]
  rw [Number.charCount, if_pos hnegative, fromEnd_succ, hsign, hdigits, ← peel_eq_fromEnd,
    peel_eq_numeral hbase hvalue hsmall (Nat.le_of_lt_succ hroom)]

/-- INTERNAL: the characters a number writes are as many as it counts. -/
theorem charCount_of_chars {chars : List Byte} (h : fromEnd n.charAt (n.charCount room) = chars) :
    n.charCount room = chars.length := by
  rw [← h, length_fromEnd]

/-- INTERNAL: a width below the room is not clipped and not wrapped around.
SRC: util/printf.c:41-43,79-83 -/
theorem text_eq_padded {width : ℕ} (hpad : n.pad = width) (hwidth : width < room)
    (hint : room < 2 ^ 31) {chars : List Byte}
    (hchars : fromEnd n.charAt (n.charCount room) = chars) :
    n.text room = List.replicate (width - chars.length) n.padChar ++ chars := by
  have hcount := charCount_of_chars hchars
  have hle := n.charCount_le room
  have hwrap : wrap ((width : Int) - (n.charCount room : ℕ)) = width - (n.charCount room : ℕ) := by
    rw [wrap, Int.bmod_def]
    omega
  have hpadding : n.padding room = width - chars.length := by
    simp only [Number.padding, hpad]
    rw [if_neg (by omega), hwrap]
    omega
  rw [Number.text, hpadding, hchars]

/-- INTERNAL: without a width nothing is padded. -/
theorem text_eq_chars (hpad : n.pad = 0) (hroom : 1 ≤ room) {chars : List Byte}
    (hshort : chars.length ≤ 2 ^ 31) (hchars : fromEnd n.charAt (n.charCount room) = chars) :
    n.text room = chars := by
  have hcount := charCount_of_chars hchars
  have hpadding : n.padding room = 0 := by
    have hwrap : wrap (0 - (n.charCount room : ℕ)) ≤ 0 := by
      rw [wrap, Int.bmod_def]
      omega
    simp only [Number.padding, hpad]
    rw [if_neg (by omega)]
    omega
  rw [Number.text, hpadding, hchars]
  rfl

end Text

/-! ## Numbers in a format -/

variable {build : Build} {size buffer count : ℕ} {b : TextBuffer}

/-- INTERNAL: a number conversion behind the flag and the width that `front` holds.
SRC: util/printf.c:120-193 -/
theorem appends_number (harm : build.arm = false) {front : List Byte} {c : Byte} {a : Arg}
    (n : Number) (hcount : count < size - 1) (hc : Appends.Converts c = true)
    (hfront : ∀ rest args, vsnprintfLoop build size (front ++ rest) .text args buffer count b =
      vsnprintfLoop build size rest (.spec n.pad n.padChar false) args buffer count b)
    (hconvert : ∀ more,
      convert build c n.pad n.padChar false (size - 1 - count) (a :: more) buffer b =
      some ((appendNum build buffer (size - 1 - count) n.value n.base n.sgn n.pad n.padChar b).1,
        more,
        (appendNum build buffer (size - 1 - count) n.value n.base n.sgn n.pad n.padChar b).2)) :
    Appends build size buffer count b (front ++ [c]) [a] (n.text (size - 1 - count)) := by
  have hroom : n.sgn = true → 1 ≤ size - 1 - count := fun _ => by omega
  obtain ⟨b', hnum, hcontent⟩ := @appendNum_renderOn build buffer _ n hroom b
  rw [n.textOn_generic harm] at hnum hcontent
  have hwrites := (appendNum_writesIn build buffer (size - 1 - count) n.value n.base n.sgn n.pad
    n.padChar b hroom).2
  have hfit := n.length_text_le (size - 1 - count)
  rw [hnum] at hwrites
  refine ⟨by omega, b', hcontent, hwrites, fun rest more => ?_⟩
  rw [List.append_assoc, hfront, List.singleton_append, Appends.loop_convert hc,
    List.singleton_append, hconvert, hnum]
  rfl

/-- INTERNAL: the `%` opens a conversion. -/
theorem loop_percent (hcount : count < size - 1) (rest : List Byte) (args : List Arg) :
    vsnprintfLoop build size ([ch '%'] ++ rest) .text args buffer count b =
      vsnprintfLoop build size rest .start args buffer count b := by
  rw [List.singleton_append, vsnprintfLoop, if_pos ⟨by decide, hcount⟩, if_pos rfl]

/-! ## `%d` -/

/-- INTERNAL: the decimal numeral of an `int`: a sign, then the digits. -/
def signedNumeral (v : BitVec 32) : List Byte :=
  if v.toInt < 0 then ch '-' :: numeral 10 v.toInt.natAbs else numeral 10 v.toInt.natAbs

/-- INTERNAL: an `int` has ten decimal digits at most. -/
theorem numeral_length_le {v : ℕ} (hv : v < 10 ^ 10) : (numeral 10 v).length ≤ 10 :=
  (isNumeral_numeral (by decide) (by decide) v).length_le (by decide) hv (by decide)

/-- INTERNAL: the number of a `%d`. SRC: util/printf.c:148-163 -/
def signedNumber (v : BitVec 32) : Number := ⟨v.signExtend 64, 10, true, 0, ch ' '⟩

/-- INTERNAL: `%d` passes its argument on widened, with its sign. -/
theorem toInt_signedNumber (v : BitVec 32) : (signedNumber v).value.toInt = v.toInt :=
  BitVec.toInt_signExtend_of_le (by decide)

/-- INTERNAL: `%d` takes its argument for negative when it is. -/
theorem signedNumber_negative_iff (v : BitVec 32) :
    (signedNumber v).negative = true ↔ v.toInt < 0 := by
  have hzero : (0 : BitVec 64).toInt = 0 := rfl
  have hsgn : (signedNumber v).sgn = true := rfl
  rw [Number.negative, hsgn, Bool.true_and, BitVec.slt_iff_toInt_lt, toInt_signedNumber, hzero]

/-- INTERNAL: what `%d` prints: the digits, and the sign behind them. -/
theorem appends_signed (harm : build.arm = false) (hcount : count + 12 ≤ size) (v : BitVec 32) :
    Appends build size buffer count b [ch '%', ch 'd'] [.int v]
      (numeral 10 v.toInt.natAbs ++ if v.toInt < 0 then [ch '-'] else []) := by
  have hbounds := v.toInt_lt
  have hlo := v.le_toInt
  have hshort : (numeral 10 v.toInt.natAbs).length ≤ 10 := numeral_length_le (by omega)
  have hvalue := toInt_signedNumber v
  have hnat := (signedNumber v).value.isLt
  rw [BitVec.toInt_eq_toNat_cond] at hvalue
  have hchars : fromEnd (signedNumber v).charAt ((signedNumber v).charCount (size - 1 - count)) =
      numeral 10 v.toInt.natAbs ++ if v.toInt < 0 then [ch '-'] else [] := by
    by_cases hneg : v.toInt < 0
    · have hmagnitude : (-(signedNumber v).value).toNat = v.toInt.natAbs := by
        rw [BitVec.toNat_neg]
        split at hvalue <;> omega
      rw [if_pos hneg, ← hmagnitude]
      refine chars_of_negative ((signedNumber_negative_iff v).mpr hneg) (Or.inr (Or.inl rfl)) ?_ ?_
      · rw [hmagnitude]
        show v.toInt.natAbs / 10 < 2 ^ 31
        omega
      · rw [hmagnitude]
        show (numeral 10 v.toInt.natAbs).length < size - 1 - count
        omega
    · have hmagnitude : (signedNumber v).value.toNat = v.toInt.natAbs := by
        split at hvalue <;> omega
      rw [if_neg hneg, List.append_nil, ← hmagnitude]
      refine chars_of_not_negative ?_ (Or.inr (Or.inl rfl)) ?_ ?_
      · rw [← Bool.not_eq_true, signedNumber_negative_iff]
        exact hneg
      · rw [hmagnitude]
        show v.toInt.natAbs / 10 < 2 ^ 31
        omega
      · rw [hmagnitude]
        show (numeral 10 v.toInt.natAbs).length ≤ size - 1 - count
        omega
  rw [← text_eq_chars (show (signedNumber v).pad = 0 from rfl) (by omega) ?_ hchars]
  · exact appends_number harm (signedNumber v) (by omega) (by decide)
      (fun rest args => loop_percent (by omega) rest args) fun _ => rfl
  · rw [List.length_append]
    split <;> simp only [List.length_singleton, List.length_nil] <;> omega

/-- INTERNAL: a digit is no sign. -/
theorem digitChar_ne_minus {d : ℕ} (hd : d < 10) : digitChar d ≠ ch '-' := by
  have hall : ∀ d, d < 10 → digitChar d ≠ ch '-' := by decide
  exact hall d hd

/-- SOURCE: util/printf.c:27-86,148-167 — **signed decimal printing**: at every place of a format
with twelve free characters, `%d` appends the decimal numeral of its argument exactly when that
is not negative. -/
theorem prints_signed_iff (build : Build) (harm : build.arm = false) (size buffer count : ℕ)
    (hcount : count + 12 ≤ size) (b : TextBuffer) (v : BitVec 32) :
    Appends build size buffer count b [ch '%', ch 'd'] [.int v] (signedNumeral v) ↔
      0 ≤ v.toInt := by
  have hprinted : Appends build size buffer count b [ch '%', ch 'd'] [.int v]
      (numeral 10 v.toInt.natAbs ++ if v.toInt < 0 then [ch '-'] else []) :=
    appends_signed harm hcount v
  constructor
  · intro happends
    by_contra hneg
    have htext := happends.text_unique hprinted
    rw [signedNumeral, if_pos (by omega), if_pos (by omega)] at htext
    -- the text begins with a digit
    have hnumeral := isNumeral_numeral (show 2 ≤ 10 by decide) (by decide) v.toInt.natAbs
    obtain ⟨c, rest, hcons⟩ : ∃ c rest, numeral 10 v.toInt.natAbs = c :: rest := by
      rcases hnumeral.canonical with h | ⟨c, rest, h, -⟩
      · exact ⟨_, _, h⟩
      · exact ⟨c, rest, h⟩
    have hdigit := hnumeral.digits c (by rw [hcons]; exact List.mem_cons_self)
    obtain ⟨d, hd, rfl⟩ := hdigit
    rw [hcons, List.cons_append, List.cons.injEq] at htext
    exact digitChar_ne_minus hd htext.1.symm
  · intro hnonneg
    have hneg : ¬ v.toInt < 0 := by omega
    rw [if_neg hneg, List.append_nil] at hprinted
    rwa [signedNumeral, if_neg hneg]

/-- INTERNAL: the largest `int`, at the start of a buffer of twelve bytes. -/
theorem prints_signed_iff_largest :
    Appends ⟨false, true⟩ 12 0 0 ⟨fun _ => 0, []⟩ [ch '%', ch 'd'] [.int 0x7fffffff]
      (signedNumeral 0x7fffffff) :=
  (prints_signed_iff ⟨false, true⟩ rfl 12 0 0 (by decide) ⟨fun _ => 0, []⟩ 0x7fffffff).mpr
    (by decide)

/-- INTERNAL: `%d` prints minus five as `5-`. -/
theorem prints_signed_fails :
    Appends ⟨false, true⟩ 4096 0 0 ⟨fun _ => 0, []⟩ [ch '%', ch 'd'] [.int (-5)] (str "5-") ∧
      signedNumeral (-5) = str "-5" ∧
      ¬ Appends ⟨false, true⟩ 4096 0 0 ⟨fun _ => 0, []⟩ [ch '%', ch 'd'] [.int (-5)]
        (signedNumeral (-5)) := by
  have htext : (numeral 10 (-5 : BitVec 32).toInt.natAbs ++
      if (-5 : BitVec 32).toInt < 0 then [ch '-'] else []) = str "5-" := by decide
  have hsigned : signedNumeral (-5) = str "-5" := by decide
  have hprinted : Appends ⟨false, true⟩ 4096 0 0 ⟨fun _ => 0, []⟩ [ch '%', ch 'd'] [.int (-5)]
      (str "5-") := by
    rw [← htext]
    exact appends_signed rfl (by decide) (-5)
  refine ⟨hprinted, hsigned, fun happends => ?_⟩
  have hsame := happends.text_unique hprinted
  rw [hsigned] at hsame
  exact absurd hsame (by decide)

/-! ## `%u` -/

/-- INTERNAL: the number of a `%u`: the argument is fetched as an `int` and widened with its sign.
SRC: util/printf.c:156-163 -/
def unsignedNumber (v : BitVec 32) : Number := ⟨v.signExtend 64, 10, false, 0, ch ' '⟩

/-- INTERNAL: `%u` appends the text of its number. -/
theorem appends_unsignedNumber (harm : build.arm = false) (hcount : count < size - 1)
    (v : BitVec 32) :
    Appends build size buffer count b [ch '%', ch 'u'] [.int v]
      ((unsignedNumber v).text (size - 1 - count)) :=
  appends_number harm (unsignedNumber v) hcount (by decide)
    (fun rest args => loop_percent hcount rest args) fun _ => rfl

/-- INTERNAL: the value of an `int` widened as a signed one. -/
theorem toNat_signExtend (v : BitVec 32) :
    (v.signExtend 64).toNat = v.toNat + if v.toNat < 2 ^ 31 then 0 else 2 ^ 64 - 2 ^ 32 := by
  have hlt := v.isLt
  have hmod : v.toNat % 2 ^ 64 = v.toNat := Nat.mod_eq_of_lt (by omega)
  rw [BitVec.toNat_signExtend, BitVec.toNat_setWidth, hmod, BitVec.msb_eq_decide]
  by_cases h : v.toNat < 2 ^ 31
  · rw [if_pos h, if_neg (by simpa using h)]
  · rw [if_neg h, if_pos (by simpa using h)]

/-- INTERNAL: a value above the largest `int` fills the room. -/
theorem length_text_of_large {v : BitVec 32} (hlarge : 2 ^ 31 ≤ v.toNat) {room : ℕ}
    (hroom : 1 ≤ room) : ((unsignedNumber v).text room).length = room := by
  have hnat := toNat_signExtend v
  rw [if_neg (by omega)] at hnat
  have hvalue : v.signExtend 64 ≠ 0 := by
    intro hzero
    have hnone : (0 : BitVec 64).toNat = 0 := rfl
    rw [hzero, hnone] at hnat
    omega
  have hnegative : Negative (v.signExtend 64) := by
    rw [Negative, hnat]
    omega
  obtain ⟨room, rfl⟩ : ∃ r, room = r + 1 := ⟨room - 1, by omega⟩
  have hcount : (unsignedNumber v).charCount (room + 1) = room + 1 := by
    have hpeel := hnegative.length_peel (Or.inr (Or.inl rfl)) (room + 1)
    rw [peel_eq_fromEnd, length_fromEnd] at hpeel
    rw [Number.charCount, if_neg (show ¬ (unsignedNumber v).negative = true from Bool.false_ne_true),
      if_neg (show ¬ (unsignedNumber v).value = 0 from hvalue)]
    exact hpeel
  have hle := (unsignedNumber v).length_text_le (room + 1)
  rw [Number.length_text] at hle ⊢
  omega

/-- SOURCE: util/printf.c:37-86,148-167 — **unsigned decimal printing**: at every place of a format
with twenty-one free characters, `%u` appends the decimal numeral of its argument exactly when
that is at most the largest `int`. -/
theorem prints_unsigned_iff (build : Build) (harm : build.arm = false) (size buffer count : ℕ)
    (hcount : count + 21 ≤ size) (b : TextBuffer) (v : BitVec 32) :
    Appends build size buffer count b [ch '%', ch 'u'] [.int v] (numeral 10 v.toNat) ↔
      v.toNat < 2 ^ 31 := by
  have hlt := v.isLt
  have hprinted : Appends build size buffer count b [ch '%', ch 'u'] [.int v]
      ((unsignedNumber v).text (size - 1 - count)) :=
    appends_unsignedNumber harm (by omega) v
  have hshort : (numeral 10 v.toNat).length ≤ 10 := numeral_length_le (by omega)
  constructor
  · intro happends
    by_contra hlarge
    have hlength := congrArg List.length (happends.text_unique hprinted)
    rw [length_text_of_large (by omega) (by omega)] at hlength
    omega
  · intro hsmall
    have hnat : (unsignedNumber v).value.toNat = v.toNat := by
      show (v.signExtend 64).toNat = v.toNat
      rw [toNat_signExtend, if_pos hsmall, Nat.add_zero]
    have hchars : fromEnd (unsignedNumber v).charAt
        ((unsignedNumber v).charCount (size - 1 - count)) = numeral 10 v.toNat := by
      rw [← hnat]
      refine chars_of_not_negative rfl (Or.inr (Or.inl rfl)) ?_ ?_
      · rw [hnat]
        show v.toNat / 10 < 2 ^ 31
        omega
      · rw [hnat]
        show (numeral 10 v.toNat).length ≤ size - 1 - count
        omega
    rwa [text_eq_chars rfl (by omega) (by omega) hchars] at hprinted

/-- INTERNAL: the largest value that prints, at the start of a buffer of 21 bytes. -/
theorem prints_unsigned_iff_largest :
    Appends ⟨false, true⟩ 21 0 0 ⟨fun _ => 0, []⟩ [ch '%', ch 'u'] [.int 0x7fffffff]
      (numeral 10 0x7fffffff) :=
  (prints_unsigned_iff ⟨false, true⟩ rfl 21 0 0 (by decide) ⟨fun _ => 0, []⟩ 0x7fffffff).mpr
    (by decide)

/-- INTERNAL: `%u` prints `2^31` with twenty digits where there is room for twenty. -/
theorem prints_unsigned_fails :
    Appends ⟨false, true⟩ 21 0 0 ⟨fun _ => 0, []⟩ [ch '%', ch 'u'] [.int 0x80000000]
        ((unsignedNumber 0x80000000).text 20) ∧
      ((unsignedNumber 0x80000000).text 20).length = 20 ∧
      ¬ Appends ⟨false, true⟩ 21 0 0 ⟨fun _ => 0, []⟩ [ch '%', ch 'u'] [.int 0x80000000]
        (numeral 10 (0x80000000 : BitVec 32).toNat) := by
  have hprinted : Appends ⟨false, true⟩ 21 0 0 ⟨fun _ => 0, []⟩ [ch '%', ch 'u'] [.int 0x80000000]
      ((unsignedNumber 0x80000000).text 20) := appends_unsignedNumber rfl (by decide) 0x80000000
  have hlength : ((unsignedNumber 0x80000000).text 20).length = 20 :=
    length_text_of_large (by decide) (by decide)
  refine ⟨hprinted, hlength, fun happends => ?_⟩
  have hshort : (numeral 10 (0x80000000 : BitVec 32).toNat).length ≤ 10 :=
    numeral_length_le (by decide)
  have hsame := congrArg List.length (happends.text_unique hprinted)
  rw [hlength] at hsame
  omega

/-! ## Widths -/

/-- INTERNAL: the decimal numeral of a width; nothing for no width. -/
def widthNumeral (width : ℕ) : List Byte := if width = 0 then [] else numeral 10 width

/-- INTERNAL: `%`, the flag, the width and the conversion. -/
def paddedFormat (zero : Bool) (width : ℕ) (c : Byte) : List Byte :=
  ch '%' :: ((if zero then [ch '0'] else []) ++ widthNumeral width ++ [c])

/-- INTERNAL: a decimal digit is the label `0`, or one of the labels `1` to `9`.
SRC: util/printf.c:135-146 -/
theorem switchCase_digitChar {d : ℕ} (hd : d < 10) :
    switchCase (digitChar d) = if d = 0 then .zero else .digit d := by
  have hall : ∀ d, d < 10 → switchCase (digitChar d) = if d = 0 then .zero else .digit d := by
    decide
  exact hall d hd

/-- INTERNAL: digits go into the width; a `0` in front of them would be the flag.
SRC: util/printf.c:131-146 -/
theorem loop_digits {text : List Byte} (hdigits : ∀ c ∈ text, ∃ d, d < 10 ∧ c = digitChar d)
    {pad : ℕ} (hlead : 0 < pad ∨ text.head? ≠ some (ch '0'))
    (hint : text.foldl (fun value c => value * 10 + digitValue c) pad < 2 ^ 31) (padChar : Byte)
    (long : Bool) (rest : List Byte) (args : List Arg) :
    vsnprintfLoop build size (text ++ rest) (.spec pad padChar long) args buffer count b =
      vsnprintfLoop build size rest
        (.spec (text.foldl (fun value c => value * 10 + digitValue c) pad : ℕ) padChar long) args
        buffer count b := by
  induction text generalizing pad with
  | nil => rfl
  | cons c text ih =>
    obtain ⟨d, hd, rfl⟩ := hdigits c List.mem_cons_self
    have hvalue := digitValue_digitChar (show d < 36 by omega)
    rw [List.foldl_cons, hvalue] at hint
    have hle := le_readNumeral 10 text (pad * 10 + d)
    have hpow : 1 ≤ 10 ^ text.length := Nat.one_le_pow _ _ (by decide)
    have hbound : pad * 10 + d < 2 ^ 31 :=
      ((Nat.le_mul_of_pos_right _ hpow).trans hle).trans_lt hint
    have hrest : ∀ c ∈ text, ∃ d, d < 10 ∧ c = digitChar d := fun c hc =>
      hdigits c (List.mem_cons_of_mem _ hc)
    rw [List.cons_append, vsnprintfLoop, switchCase_digitChar hd, List.foldl_cons, hvalue]
    by_cases hzero : d = 0
    · subst hzero
      -- the flag is excluded: there are digits in front, or this is none of a width
      have hpad : 0 < pad := by
        rcases hlead with hpad | hhead
        · exact hpad
        · exact absurd rfl hhead
      have hwrap : wrap ((pad : Int) * 10) = (pad * 10 + 0 : ℕ) := by
        rw [wrap_of_bounds (by omega) (by omega)]
        rfl
      rw [if_pos rfl]
      simp only [Int.natCast_pos.mpr hpad, if_true, hwrap]
      exact ih hrest (Or.inl (by omega)) hint
    · have hwrap : wrap (wrap ((pad : Int) * 10) + d) = (pad * 10 + d : ℕ) := by
        rw [@wrap_of_bounds ((pad : Int) * 10) (by omega) (by omega),
          wrap_of_bounds (by omega) (by omega)]
        rfl
      rw [if_neg hzero]
      simp only [hwrap]
      exact ih hrest (Or.inl (by omega)) hint

/-- INTERNAL: a width is read back. -/
theorem loop_widthNumeral {width : ℕ} (hint : width < 2 ^ 31) (padChar : Byte) (long : Bool)
    (rest : List Byte) (args : List Arg) :
    vsnprintfLoop build size (widthNumeral width ++ rest) (.spec 0 padChar long) args
        buffer count b =
      vsnprintfLoop build size rest (.spec width padChar long) args buffer count b := by
  by_cases hwidth : width = 0
  · rw [widthNumeral, if_pos hwidth, hwidth]
    rfl
  · have hnumeral := isNumeral_numeral (show 2 ≤ 10 by decide) (by decide) width
    have hread : (numeral 10 width).foldl (fun value c => value * 10 + digitValue c) 0 = width :=
      hnumeral.value
    have hhead : (numeral 10 width).head? ≠ some (ch '0') := by
      rcases hnumeral.canonical with hzero | ⟨c, rest, hcons, hc⟩
      · rw [hzero] at hread
        exact absurd hread.symm hwidth
      · rw [hcons, List.head?_cons]
        exact fun h => hc (Option.some.inj h)
    rw [widthNumeral, if_neg hwidth]
    have hloop := @loop_digits build size buffer count b _ hnumeral.digits 0 (Or.inr hhead)
      (by rw [hread]; exact hint) padChar long rest args
    rw [hread] at hloop
    exact hloop

/-- INTERNAL: the flag and the width. SRC: util/printf.c:122-146 -/
theorem loop_paddedFormat (zero : Bool) {width : ℕ} (hint : width < 2 ^ 31)
    (hcount : count < size - 1) (rest : List Byte) (args : List Arg) :
    vsnprintfLoop build size
        (ch '%' :: ((if zero then [ch '0'] else []) ++ widthNumeral width) ++ rest) .text args
        buffer count b =
      vsnprintfLoop build size rest (.spec width (if zero then ch '0' else ch ' ') false) args
        buffer count b := by
  have hflag : ∀ rest, vsnprintfLoop build size (ch '0' :: rest) .start args buffer count b =
      vsnprintfLoop build size rest (.spec 0 (ch '0') false) args buffer count b := by
    intro rest
    rw [Mode.start, vsnprintfLoop]
    rfl
  rw [List.cons_append, ← List.singleton_append, loop_percent hcount, List.append_assoc]
  cases zero with
  | true =>
    rw [if_pos rfl, if_pos rfl, List.singleton_append, hflag]
    exact loop_widthNumeral hint _ _ _ _
  | false =>
    rw [if_neg Bool.false_ne_true, if_neg Bool.false_ne_true, List.nil_append]
    exact loop_widthNumeral hint _ _ _ _

/-- INTERNAL: the conversions of an unsigned 32-bit value. -/
inductive RadixConversion
  | x
  | b
  deriving DecidableEq, Repr

/-- INTERNAL: its character in the format. -/
def RadixConversion.char : RadixConversion → Byte
  | .x => ch 'x'
  | .b => ch 'b'

/-- INTERNAL: the base the conversion prints in. -/
def RadixConversion.base : RadixConversion → ℕ
  | .x => 16
  | .b => 2

/-- SOURCE: util/printf.c:27-86,122-193 — **padded hexadecimal and binary printing**: with room
for more than the width and more than the digits, `%x` and `%b` append the canonical numeral
behind as many pad characters as the width asks for. -/
theorem prints_padded (build : Build) (harm : build.arm = false) (c : RadixConversion) (zero : Bool)
    (width size buffer count : ℕ) (hint : size < 2 ^ 31) (b : TextBuffer) (v : BitVec 32)
    (hwidth : width < size - 1 - count)
    (hdigits : (numeral c.base v.toNat).length < size - 1 - count) :
    Appends build size buffer count b (paddedFormat zero width c.char) [.int v]
      (List.replicate (width - (numeral c.base v.toNat).length) (if zero then ch '0' else ch ' ') ++
        numeral c.base v.toNat) := by
  have hlt := v.isLt
  have hnat : (v.setWidth 64).toNat = v.toNat := by
    rw [BitVec.toNat_setWidth, Nat.mod_eq_of_lt (by omega)]
  have hbase : IsBase c.base := by
    cases c with
    | x => exact Or.inr (Or.inr rfl)
    | b => exact Or.inl rfl
  have hconverts : Appends.Converts c.char = true := by
    cases c <;> decide
  have hbounds := hbase.bounds
  have hquotient : v.toNat / c.base < 2 ^ 31 := by
    calc v.toNat / c.base ≤ v.toNat / 2 := Nat.div_le_div_left hbounds.1 (by decide)
      _ < 2 ^ 31 := by omega
  have hwidth' : width < 2 ^ 31 := by omega
  have hcount : count < size - 1 := by omega
  have hchars := @chars_of_not_negative
    ⟨v.setWidth 64, c.base, false, width, if zero then ch '0' else ch ' '⟩ (size - 1 - count) rfl hbase
    (by rw [hnat]; exact hquotient) (by rw [hnat]; exact Nat.le_of_lt hdigits)
  rw [hnat] at hchars
  rw [← text_eq_padded rfl hwidth (by omega) hchars]
  refine appends_number harm
    ⟨v.setWidth 64, c.base, false, width, if zero then ch '0' else ch ' '⟩ hcount hconverts
    (fun rest args => loop_paddedFormat zero hwidth' hcount rest args) fun more => ?_
  cases c <;> rfl

/-- INTERNAL: `%08x` in a buffer of ten bytes. -/
theorem prints_padded_eight :
    Appends ⟨false, true⟩ 10 0 0 ⟨fun _ => 0, []⟩ (paddedFormat true 8 (ch 'x')) [.int 0xbeef]
      (str "0000beef") :=
  prints_padded ⟨false, true⟩ rfl .x true 8 10 0 0 (by decide) ⟨fun _ => 0, []⟩ 0xbeef (by decide)
    (by decide)

end Simbench.Analysis.PrintfConversions
