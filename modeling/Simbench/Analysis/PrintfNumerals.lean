import Mathlib.Data.Nat.Digits.Lemmas
import Simbench.Analysis.PrintfText

/-!
# The numerals of 64-bit values

`append_num` passes every quotient through an `int`. A quotient below `2^31` survives, and
so do all later ones; any other is replaced by a smaller number, or by a negative one whose
quotients stay negative, so that the digits never end before the room does.
-/

set_option autoImplicit false

namespace Simbench.Analysis.PrintfNumerals

open Simbench.Library.LoggedBuffer Simbench.Program.Printf Simbench.Analysis.PrintfText

/-! ## Numerals -/

/-- INTERNAL: the value of a digit character. -/
def digitValue (c : Byte) : ℕ :=
  if c ≤ ch '9' then c.toNat - '0'.toNat else c.toNat - 'a'.toNat + 10

/-- INTERNAL: the number a text reads back as, most significant digit first. -/
def readNumeral (base : ℕ) (text : List Byte) : ℕ :=
  text.foldl (fun value c => value * base + digitValue c) 0

/-- INTERNAL: the text is the canonical numeral of `v`: digits of the base that read back as
`v`, the first one zero only in `0` itself. -/
structure IsNumeral (base v : ℕ) (text : List Byte) : Prop where
  digits : ∀ c ∈ text, ∃ d, d < base ∧ c = digitChar d
  canonical : text = [ch '0'] ∨ ∃ c rest, text = c :: rest ∧ c ≠ ch '0'
  value : readNumeral base text = v

/-- INTERNAL: a digit character has its digit's value. -/
theorem digitValue_digitChar {d : ℕ} (hd : d < 36) : digitValue (digitChar d) = d := by
  have hall : ∀ d, d < 36 → digitValue (digitChar d) = d := by decide
  exact hall d hd

/-- INTERNAL: one digit more multiplies by the base and adds it. -/
theorem readNumeral_concat (base : ℕ) (text : List Byte) (c : Byte) :
    readNumeral base (text ++ [c]) = readNumeral base text * base + digitValue c := by
  rw [readNumeral, List.foldl_append]
  rfl

/-- INTERNAL: reading digits from the highest is evaluating them from the lowest. -/
theorem readNumeral_reverse (base : ℕ) (digits : List ℕ) (hlt : ∀ d ∈ digits, d < 36) :
    readNumeral base (digits.reverse.map digitChar) = Nat.ofDigits base digits := by
  induction digits with
  | nil => rfl
  | cons d digits ih =>
    rw [List.reverse_cons, List.map_append, List.map_singleton, readNumeral_concat,
      ih fun x hx => hlt x (List.mem_cons_of_mem d hx),
      digitValue_digitChar (hlt d List.mem_cons_self), Nat.ofDigits_cons, Nat.mul_comm,
        Nat.add_comm]

/-- INTERNAL: a numeral of `n + 1` digits that does not begin with zero is at least
`base ^ n`. -/
theorem le_readNumeral (base : ℕ) (rest : List Byte) (value : ℕ) :
    value * base ^ rest.length ≤
      rest.foldl (fun value c => value * base + digitValue c) value := by
  induction rest generalizing value with
  | nil => exact Nat.le_of_eq (Nat.mul_one value)
  | cons c rest ih =>
    calc value * base ^ (c :: rest).length = value * base * base ^ rest.length := by
          rw [List.length_cons, Nat.pow_succ, Nat.mul_comm (base ^ rest.length), Nat.mul_assoc]
      _ ≤ (value * base + digitValue c) * base ^ rest.length :=
          Nat.mul_le_mul_right _ (Nat.le_add_right _ _)
      _ ≤ _ := ih _

/-- INTERNAL: a canonical numeral of a value below `base ^ n` has at most `n` characters. -/
theorem IsNumeral.length_le {base v n : ℕ} {text : List Byte} (h : IsNumeral base v text)
    (hbase : base ≤ 36) (hv : v < base ^ n) (hn : 1 ≤ n) : text.length ≤ n := by
  rcases h.canonical with rfl | ⟨c, rest, rfl, hc⟩
  · exact hn
  · obtain ⟨d, hd, rfl⟩ := h.digits c List.mem_cons_self
    have hpos : 1 ≤ d := by
      rcases Nat.eq_zero_or_pos d with rfl | hpos
      · exact absurd rfl hc
      · exact hpos
    have hle : 1 * base ^ rest.length ≤ v := by
      have hread := le_readNumeral base rest d
      rw [← h.value, readNumeral, List.foldl_cons, Nat.zero_mul, Nat.zero_add,
        digitValue_digitChar (by omega)]
      exact (Nat.mul_le_mul_right _ hpos).trans hread
    rw [Nat.one_mul] at hle
    exact (Nat.pow_lt_pow_iff_right (show 1 < base by omega)).mp (hle.trans_lt hv)

/-- INTERNAL: the canonical numeral, by its digits. -/
def numeral (base v : ℕ) : List Byte :=
  if v = 0 then [ch '0'] else (Nat.digits base v).reverse.map digitChar

/-- INTERNAL: the digits of a value other than zero are a numeral of it. -/
theorem isNumeral_digits {base v : ℕ} (hbase : 2 ≤ base) (hbase' : base ≤ 36) (hv : v ≠ 0) :
    IsNumeral base v ((Nat.digits base v).reverse.map digitChar) := by
  have hlt : ∀ d ∈ Nat.digits base v, d < base := fun d hd => Nat.digits_lt_base hbase hd
  refine ⟨fun c hc => ?_, Or.inr ?_, ?_⟩
  · obtain ⟨d, hd, rfl⟩ := List.mem_map.mp hc
    exact ⟨d, hlt d (List.mem_reverse.mp hd), rfl⟩
  · have hne : Nat.digits base v ≠ [] := Nat.digits_ne_nil_iff_ne_zero.mpr hv
    have hlast := Nat.getLast_digit_ne_zero base hv
    obtain ⟨digits, last, hdigits⟩ : ∃ digits last, Nat.digits base v = digits ++ [last] :=
      ⟨_, _, (List.dropLast_append_getLast hne).symm⟩
    have hlast' : last ≠ 0 ∧ last < 36 := by
      refine ⟨?_, (hlt last (by rw [hdigits]; simp)).trans_le hbase'⟩
      simpa only [hdigits, List.getLast_concat] using hlast
    refine ⟨digitChar last, digits.reverse.map digitChar, ?_, fun h => hlast'.1 ?_⟩
    · rw [hdigits, List.reverse_append, List.reverse_singleton, List.singleton_append,
        List.map_cons]
    · rw [← digitValue_digitChar hlast'.2, h]
      rfl
  · rw [readNumeral_reverse base _ fun d hd => (hlt d hd).trans_le hbase', Nat.ofDigits_digits]

/-- INTERNAL: the character `0` is a numeral of zero in every base. -/
theorem isNumeral_zero {base : ℕ} (hbase : 2 ≤ base) : IsNumeral base 0 [ch '0'] := by
  refine ⟨fun c hc => ⟨0, by omega, ?_⟩, Or.inl rfl, ?_⟩
  · rw [List.mem_singleton.mp hc]
    rfl
  · rw [readNumeral, List.foldl_cons, Nat.zero_mul]
    rfl

/-- INTERNAL: `numeral` is a numeral of its value in every base. -/
theorem isNumeral_numeral {base : ℕ} (hbase : 2 ≤ base) (hbase' : base ≤ 36) (v : ℕ) :
    IsNumeral base v (numeral base v) := by
  rw [numeral]
  split
  · next hzero =>
    subst hzero
    exact isNumeral_zero hbase
  · next hne => exact isNumeral_digits hbase hbase' hne

/-- INTERNAL: no numeral holds the terminating zero. -/
theorem zero_not_mem_numeral {base : ℕ} (hbase : 2 ≤ base) (hbase' : base ≤ 36) (v : ℕ) :
    0 ∉ numeral base v := by
  intro hmem
  obtain ⟨d, hd, heq⟩ := (isNumeral_numeral hbase hbase' v).digits 0 hmem
  have hall : ∀ d, d < 36 → digitChar d ≠ 0 := by decide
  exact hall d (by omega) heq.symm

/-! ## Peeling -/

/-- INTERNAL: a `long` passed as `int` keeps its low half, with the sign of that half. -/
theorem toNat_narrow (v : BitVec 64) :
    (narrow v).toNat =
      v.toNat % 2 ^ 32 + if v.toNat % 2 ^ 32 < 2 ^ 31 then 0 else 2 ^ 64 - 2 ^ 32 := by
  have hlow : (v.setWidth 32).toNat = v.toNat % 2 ^ 32 := BitVec.toNat_setWidth 32 v
  have hmod : v.toNat % 2 ^ 32 % 2 ^ 64 = v.toNat % 2 ^ 32 := Nat.mod_eq_of_lt (by omega)
  rw [narrow, BitVec.toNat_signExtend, BitVec.toNat_setWidth, hlow, hmod, BitVec.msb_eq_decide, hlow]
  by_cases h : v.toNat % 2 ^ 32 < 2 ^ 31
  · rw [if_pos h, if_neg (by simpa using h)]
  · rw [if_neg h, if_pos (by simpa using h)]

/-- INTERNAL: division by the base is division of the values. -/
theorem toNat_quotient {base : ℕ} (hbase : base < 2 ^ 64) (value : BitVec 64) :
    (value / BitVec.ofNat 64 base).toNat = value.toNat / base := by
  rw [BitVec.toNat_udiv, BitVec.toNat_ofNat, Nat.mod_eq_of_lt hbase]

/-- INTERNAL: the remainder by the base is the remainder of the values. -/
theorem toNat_remainder {base : ℕ} (hbase : base < 2 ^ 64) (value : BitVec 64) :
    (value % BitVec.ofNat 64 base).toNat = value.toNat % base := by
  rw [BitVec.toNat_umod, BitVec.toNat_ofNat, Nat.mod_eq_of_lt hbase]

/-- INTERNAL: one round takes the last digit and goes on with the quotient passed as `int`. -/
theorem peel_succ {base room : ℕ} (hbase : base < 2 ^ 64) {value : BitVec 64} (hvalue : value ≠ 0) :
    peel base (room + 1) value = peel base room (narrow (value / BitVec.ofNat 64 base)) ++
      [digitChar (value.toNat % base)] := by
  rw [peel, if_neg hvalue, toNat_remainder hbase]

/-- INTERNAL: a value whose quotient is a non-negative `int` is peeled to its digits. -/
theorem peel_eq_digits {base : ℕ} (hbase : 2 ≤ base) (hbase' : base < 2 ^ 64) (room : ℕ)
    (value : BitVec 64) (hsmall : value.toNat / base < 2 ^ 31)
    (hroom : (Nat.digits base value.toNat).length ≤ room) :
    peel base room value = (Nat.digits base value.toNat).reverse.map digitChar := by
  induction room generalizing value with
  | zero =>
    rw [List.length_eq_zero_iff.mp (Nat.le_zero.mp hroom)]
    rfl
  | succ room ih =>
    by_cases hvalue : value = 0
    · have hzero : (0 : BitVec 64).toNat = 0 := rfl
      rw [hvalue, peel_zero_value, hzero, Nat.digits_zero]
      rfl
    · have hne : value.toNat ≠ 0 := fun h => hvalue (BitVec.eq_of_toNat_eq h)
      have hdigits := Nat.digits_def' hbase (Nat.pos_of_ne_zero hne)
      have hquotient : (narrow (value / BitVec.ofNat 64 base)).toNat = value.toNat / base := by
        rw [toNat_narrow, toNat_quotient hbase', Nat.mod_eq_of_lt (by omega), if_pos hsmall,
          Nat.add_zero]
      rw [hdigits, List.length_cons] at hroom
      rw [peel_succ hbase' hvalue, hdigits, List.reverse_cons, List.map_append,
        ih _ (by rw [hquotient]; exact (Nat.div_le_self _ _).trans_lt hsmall)
          (by rw [hquotient]; omega), hquotient]
      rfl

/-- INTERNAL: the bases the format switch asks for. -/
def IsBase (base : ℕ) : Prop := base = 2 ∨ base = 10 ∨ base = 16

/-- INTERNAL: a negative `int` widened to a `long`: its upper half and its sign bit are set. -/
def Negative (value : BitVec 64) : Prop := 2 ^ 64 - 2 ^ 31 ≤ value.toNat

/-- INTERNAL: a negative `int` divided as an unsigned `long` stays negative when it is passed on. -/
theorem Negative.quotient {base : ℕ} (hbase : IsBase base) {value : BitVec 64}
    (h : Negative value) : Negative (narrow (value / BitVec.ofNat 64 base)) := by
  have hlt := value.isLt
  rw [Negative] at h ⊢
  rcases hbase with rfl | rfl | rfl <;>
  · rw [toNat_narrow, toNat_quotient (by decide)]
    split <;> omega

/-- INTERNAL: the digits taken of a negative value fill all the room. -/
theorem Negative.length_peel {base : ℕ} (hbase : IsBase base) (room : ℕ) {value : BitVec 64}
    (h : Negative value) : (peel base room value).length = room := by
  induction room generalizing value with
  | zero => rfl
  | succ room ih =>
    have hvalue : value ≠ 0 := by
      rintro rfl
      rw [Negative] at h
      exact absurd h (by decide)
    have hlt : base < 2 ^ 64 := by
      rcases hbase with rfl | rfl | rfl <;> decide
    rw [peel_succ hlt hvalue, List.length_append, ih (h.quotient hbase), List.length_singleton]

/-- INTERNAL: the bases are between 2 and 16. -/
theorem IsBase.bounds {base : ℕ} (h : IsBase base) : 2 ≤ base ∧ base ≤ 16 := by
  rcases h with rfl | rfl | rfl <;> decide

/-- INTERNAL: a value whose quotient fits an `int` is printed as its numeral. -/
theorem numText_eq_numeral {base room : ℕ} (hbase : IsBase base) (hroom : 32 ≤ room)
    {v : BitVec 64} (hsmall : v.toNat / base < 2 ^ 31) :
    numText base room v = numeral base v.toNat := by
  obtain ⟨hlo, hhi⟩ := hbase.bounds
  have hfit : (Nat.digits base v.toNat).length ≤ room := by
    refine (Nat.digits_length_le_iff (by omega) _).mpr ?_
    calc v.toNat < 2 ^ 31 * base := (Nat.div_lt_iff_lt_mul (by omega)).mp hsmall
      _ ≤ base ^ 31 * base := Nat.mul_le_mul_right _ (Nat.pow_le_pow_left hlo 31)
      _ = base ^ 32 := (Nat.pow_succ ..).symm
      _ ≤ base ^ room := Nat.pow_le_pow_right (by omega) hroom
  rw [numText, numeral]
  by_cases hzero : v = 0
  · have hnat : v.toNat = 0 := congrArg BitVec.toNat hzero
    rw [if_pos hzero, if_pos hnat]
  · have hnat : v.toNat ≠ 0 := fun h => hzero (BitVec.eq_of_toNat_eq h)
    rw [if_neg hzero, if_neg hnat,
      peel_eq_digits hlo (by omega) room v hsmall hfit]

/-- INTERNAL: a quotient that loses high bits and stays non-negative prints another number. -/
theorem readNumeral_peel_ne {base room : ℕ} (hbase : IsBase base) (hroom : 32 ≤ room)
    {v : BitVec 64} (hzero : v ≠ 0) (hlarge : 2 ^ 31 ≤ v.toNat / base)
    (hsign : v.toNat / base % 2 ^ 32 < 2 ^ 31) : readNumeral base (peel base room v) ≠ v.toNat := by
  obtain ⟨hlo, hhi⟩ := hbase.bounds
  have hlt : base < 2 ^ 64 := by omega
  obtain ⟨room, rfl⟩ : ∃ r, room = r + 1 := ⟨room - 1, by omega⟩
  have hnarrow : (narrow (v / BitVec.ofNat 64 base)).toNat = v.toNat / base % 2 ^ 32 := by
    rw [toNat_narrow, toNat_quotient hlt, if_pos hsign, Nat.add_zero]
  have hfit : (Nat.digits base (v.toNat / base % 2 ^ 32)).length ≤ room := by
    refine (Nat.digits_length_le_iff (by omega) _).mpr ?_
    calc v.toNat / base % 2 ^ 32 < 2 ^ 31 := hsign
      _ ≤ base ^ 31 := Nat.pow_le_pow_left hlo 31
      _ ≤ base ^ room := Nat.pow_le_pow_right (by omega) (by omega)
  have hpeel : peel base room (narrow (v / BitVec.ofNat 64 base)) =
      (Nat.digits base (v.toNat / base % 2 ^ 32)).reverse.map digitChar := by
    rw [← hnarrow] at hfit ⊢
    exact peel_eq_digits hlo hlt room _
      ((Nat.div_le_self _ _).trans_lt (hnarrow ▸ hsign)) hfit
  have hread : readNumeral base (peel base (room + 1) v) =
      v.toNat / base % 2 ^ 32 * base + v.toNat % base := by
    rw [peel_succ hlt hzero, hpeel, readNumeral_concat, readNumeral_reverse, Nat.ofDigits_digits,
      digitValue_digitChar ((Nat.mod_lt _ (by omega)).trans_le (by omega))]
    exact fun d hd => (Nat.digits_lt_base hlo hd).trans_le (by omega)
  rw [hread]
  intro heq
  have hmul : v.toNat / base % 2 ^ 32 * base = v.toNat / base * base := by
    have hdiv := Nat.div_add_mod' v.toNat base
    omega
  have hquot := Nat.eq_of_mul_eq_mul_right (by omega) hmul
  omega

/-- INTERNAL: one whose quotient turns negative fills the room. -/
theorem length_peel_of_negative {base room : ℕ} (hbase : IsBase base) {v : BitVec 64}
    (hzero : v ≠ 0) (hsign : ¬ v.toNat / base % 2 ^ 32 < 2 ^ 31) :
    (peel base (room + 1) v).length = room + 1 := by
  have hlt : base < 2 ^ 64 := lt_of_le_of_lt hbase.bounds.2 (by decide)
  have hnegative : Negative (narrow (v / BitVec.ofNat 64 base)) := by
    rw [Negative, toNat_narrow, toNat_quotient hlt, if_neg hsign]
    omega
  rw [peel_succ hlt hzero, List.length_append, hnegative.length_peel hbase, List.length_singleton]

/-- INTERNAL: what one conversion prints is the canonical numeral exactly when the first
quotient is a non-negative `int`. SRC: util/printf.c:50-77 -/
theorem isNumeral_numText_iff {base room : ℕ} (hbase : IsBase base) (hroom : 63 ≤ room)
    (hroom' : base ≠ 16 → 65 ≤ room) (v : BitVec 64) :
    IsNumeral base v.toNat (numText base room v) ↔ v.toNat / base < 2 ^ 31 := by
  have hbounds := hbase.bounds
  constructor
  swap
  · intro hsmall
    rw [numText_eq_numeral hbase (by omega) hsmall]
    exact isNumeral_numeral hbounds.1 (by omega) _
  intro hnum
  by_contra hlarge
  have hzero : v ≠ 0 := by
    rintro rfl
    have hnat : (0 : BitVec 64).toNat / base = 0 := Nat.zero_div base
    exact hlarge (hnat ▸ by decide)
  rw [numText, if_neg hzero] at hnum
  by_cases hsign : v.toNat / base % 2 ^ 32 < 2 ^ 31
  · exact readNumeral_peel_ne hbase (by omega) hzero (Nat.le_of_not_lt hlarge) hsign hnum.value
  · obtain ⟨room, rfl⟩ : ∃ r, room = r + 1 := ⟨room - 1, by omega⟩
    have hv : v.toNat < base ^ room := by
      by_cases h16 : base = 16
      · calc v.toNat < 16 ^ 16 := v.isLt
          _ ≤ 16 ^ room := Nat.pow_le_pow_right (by decide) (by omega)
          _ = base ^ room := by rw [h16]
      · have hroom64 := hroom' h16
        calc v.toNat < 2 ^ 64 := v.isLt
          _ ≤ 2 ^ room := Nat.pow_le_pow_right (by decide) (by omega)
          _ ≤ base ^ room := Nat.pow_le_pow_left hbounds.1 room
    have hlength := hnum.length_le (by omega) hv (by omega)
    rw [length_peel_of_negative hbase hzero hsign] at hlength
    omega

/-! ## The conversions -/

/-- INTERNAL: the conversions of an unsigned 64-bit value. -/
inductive Conversion
  | lx
  | lu
  | lb
  | p
  deriving DecidableEq, Repr

/-- INTERNAL: its text in the format. -/
def Conversion.format : Conversion → List Byte
  | .lx => [ch '%', ch 'l', ch 'x']
  | .lu => [ch '%', ch 'l', ch 'u']
  | .lb => [ch '%', ch 'l', ch 'b']
  | .p => [ch '%', ch 'p']

/-- INTERNAL: the base the conversion prints in. -/
def Conversion.base : Conversion → ℕ
  | .lx => 16
  | .lu => 10
  | .lb => 2
  | .p => 16

/-- INTERNAL: what stands before the numeral. -/
def Conversion.lead : Conversion → List Byte
  | .p => [ch '0', ch 'x']
  | _ => []

/-- INTERNAL: each of the conversions appends what it puts first and then the digits. -/
theorem appends_conversion {build : Build} (harm : build.arm = false) (c : Conversion)
    (hlong : c = .p → build.long64 = true) (size buffer count : ℕ) (hint : size < 2 ^ 31)
    (hcount : count + 65 ≤ size - 1) (b : TextBuffer) (v : BitVec 64) :
    Appends build size buffer count b c.format [.long v]
      (c.lead ++ numText c.base (size - 1 - count - c.lead.length) v) := by
  have hbuild : ∀ base, build.arm = true → base = 16 := by
    intro base h
    rw [harm] at h
    cases h
  cases c with
  | lx => exact Appends.unsigned (hbuild _) hint (by omega) true (by decide) fun _ _ _ => rfl
  | lu => exact Appends.unsigned (hbuild _) hint (by omega) true (by decide) fun _ _ _ => rfl
  | lb => exact Appends.unsigned (hbuild _) hint (by omega) true (by decide) fun _ _ _ => rfl
  | p => exact Appends.pointer (hlong rfl) hint (by omega) v

/-- SOURCE: util/printf.c:37-86,148-193 — **64-bit numerals**: wherever one of the four
conversions stands, with room for 65 more characters, the text it appends for `v` is a
canonical numeral of `v` behind the lead exactly when the first quotient is below `2^31`. -/
theorem prints_numeral_iff (build : Build) (harm : build.arm = false) (c : Conversion)
    (hlong : c = .p → build.long64 = true) (size buffer count : ℕ) (hint : size < 2 ^ 31)
    (hcount : count + 65 ≤ size - 1) (b : TextBuffer) (v : BitVec 64) :
    (∃ text, Appends build size buffer count b c.format [.long v] (c.lead ++ text) ∧
      IsNumeral c.base v.toNat text) ↔ v.toNat / c.base < 2 ^ 31 := by
  have hbase : IsBase c.base := by
    cases c <;> simp [IsBase, Conversion.base]
  have hroom : 63 ≤ size - 1 - count - c.lead.length ∧
      (c.base ≠ 16 → 65 ≤ size - 1 - count - c.lead.length) := by
    cases c <;> simp only [Conversion.lead, Conversion.base, List.length_nil, List.length_cons] <;>
      omega
  have happends := appends_conversion harm c hlong size buffer count hint hcount b v
  rw [← isNumeral_numText_iff hbase hroom.1 hroom.2 v]
  constructor
  · rintro ⟨text, htext, hnum⟩
    rw [List.append_cancel_left (happends.text_unique htext)]
    exact hnum
  · exact fun hnum => ⟨_, happends, hnum⟩

/-- INTERNAL: the last pointer below 16 GiB, at the start of a page-sized buffer. -/
theorem prints_numeral_iff_small :
    (∃ text, Appends ⟨false, true⟩ 4096 0 0 ⟨fun _ => 0, []⟩ (Conversion.format .p)
        [.long 0x3ffffffff] (Conversion.lead .p ++ text) ∧
      IsNumeral (Conversion.base .p) (0x3ffffffff : BitVec 64).toNat text) ↔
        (0x3ffffffff : BitVec 64).toNat / Conversion.base .p < 2 ^ 31 :=
  prints_numeral_iff ⟨false, true⟩ rfl .p (fun _ => rfl) 4096 0 0 (by decide) (by decide) _ _

/-- INTERNAL: `%lx` prints `0x1000000000` as `0`. -/
theorem prints_numeral_fails : ¬ ∃ text, Appends ⟨false, true⟩ 4096 0 0 ⟨fun _ => 0, []⟩
    (Conversion.format .lx) [.long 0x1000000000] (Conversion.lead .lx ++ text) ∧
      IsNumeral (Conversion.base .lx) (0x1000000000 : BitVec 64).toNat text := by
  rintro ⟨text, happends, hnum⟩
  have hprinted := appends_conversion (show (⟨false, true⟩ : Build).arm = false from rfl) .lx
    (fun _ => rfl) 4096 0 0 (by decide) (by decide) ⟨fun _ => 0, []⟩ 0x1000000000
  have htext : text = [ch '0'] := by
    rw [List.append_cancel_left (happends.text_unique hprinted)]
    decide
  have hvalue := hnum.value
  rw [htext] at hvalue
  exact absurd hvalue (by decide)

end Simbench.Analysis.PrintfNumerals
