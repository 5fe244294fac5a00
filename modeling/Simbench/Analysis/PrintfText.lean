import Simbench.Analysis.PrintfMemory

/-!
# The text of a format

What the loop leaves in the buffer; an `__ARM` build has numbers of base 16 only. `Appends` says
that at one place of the loop a piece of the format takes some arguments and appends a text there,
whatever follows; pieces compose. A number is peeled digit by digit from the right, each quotient
passing through an `int`.
-/

set_option autoImplicit false

namespace Simbench.Analysis.PrintfText

open Simbench.Library.LoggedBuffer Simbench.Program.Printf Simbench.Analysis.PrintfMemory

/-! ## Prepending -/

/-- INTERNAL: shifting moves each byte of the text one place on. -/
theorem shiftRight_data (buffer n : ℕ) (b : TextBuffer) (k : ℕ) (hk : k < n) :
    (shiftRight buffer n b).data (buffer + 1 + k) = b.data (buffer + k) := by
  induction n generalizing b with
  | zero => exact absurd hk (Nat.not_lt_zero k)
  | succ i ih =>
    rw [shiftRight]
    rcases Nat.lt_succ_iff_lt_or_eq.mp hk with hlt | rfl
    · rw [ih _ hlt, b.store_data_of_ne _ (by omega)]
    · -- the byte moved last is out of reach of the moves that follow
      rw [(shiftRight_writesIn buffer k _).frame _ (Or.inr (by omega)),
        show buffer + 1 + k = buffer + k + 1 by omega, b.store_data_self]

/-- INTERNAL: prepending is `cons` on the text. SRC: util/printf.c:27-35 -/
theorem content_prependToBuffer (c : Byte) (buffer n : ℕ) (b : TextBuffer) :
    (prependToBuffer c buffer n b).content buffer (n + 1) = c :: b.content buffer n := by
  have hrest : (prependToBuffer c buffer n b).content (buffer + 1) n = b.content buffer n := by
    refine Buffer.content_congr fun k hk => ?_
    rw [prependToBuffer, Buffer.store_data_of_ne _ _ (by omega), shiftRight_data buffer n b k hk]
  rw [Buffer.content, hrest, prependToBuffer, Buffer.store_data_self]

/-! ## Numbers -/

/-- INTERNAL: the digits the loop peels off while `room` lasts, most significant first.
SRC: util/printf.c:51-73 -/
def peel (base : ℕ) : (room : ℕ) → (value : BitVec 64) → List Byte
  | 0, _ => []
  | room + 1, value =>
    if value = 0 then []
    else peel base room (narrow (value / BitVec.ofNat 64 base)) ++
      [digitChar (value % BitVec.ofNat 64 base).toNat]

/-- INTERNAL: the text of an unsigned number without a width. -/
def numText (base room : ℕ) (value : BitVec 64) : List Byte :=
  if value = 0 then [ch '0'] else peel base room value

/-- INTERNAL: zero has no digits to take. -/
theorem peel_zero_value (base room : ℕ) : peel base room 0 = [] := by
  cases room <;> rfl

/-- INTERNAL: no more digits than rounds. -/
theorem length_peel_le (base room : ℕ) (value : BitVec 64) :
    (peel base room value).length ≤ room := by
  induction room generalizing value with
  | zero => exact Nat.le_refl 0
  | succ room ih =>
    rw [peel]
    split
    · exact Nat.zero_le _
    · rw [List.length_append, List.length_singleton]
      exact Nat.succ_le_succ (ih _)

/-- INTERNAL: the text of a number fits its room. -/
theorem length_numText_le (base : ℕ) {room : ℕ} (hroom : 1 ≤ room) (value : BitVec 64) :
    (numText base room value).length ≤ room := by
  rw [numText]
  split
  · exact hroom
  · exact length_peel_le base room value

variable {build : Build}

/-- INTERNAL: one digit. The shift and the mask of an `__ARM` build are the division and the
remainder by 16. SRC: util/printf.c:52-73 -/
theorem digitLoop_succ {base : ℕ} (hbuild : build.arm = true → base = 16) (buffer room n : ℕ)
    {value : BitVec 64} (hzero : value ≠ 0) (b : TextBuffer) :
    digitLoop build buffer base (room + 1) n value b =
      digitLoop build buffer base room (n + 1) (narrow (value / BitVec.ofNat 64 base))
        (prependToBuffer (digitChar (value % BitVec.ofNat 64 base).toNat) buffer n b) := by
  rw [digitLoop, if_neg hzero]
  cases harm : build.arm with
  | false => rw [if_neg Bool.false_ne_true]
  | true =>
    have hshift : value >>> 4 = value / BitVec.ofNat 64 16 := by
      apply BitVec.eq_of_toNat_eq
      rw [BitVec.toNat_ushiftRight, BitVec.toNat_udiv, Nat.shiftRight_eq_div_pow]
      rfl
    have hmask : value &&& 0xf = value % BitVec.ofNat 64 16 := by
      apply BitVec.eq_of_toNat_eq
      rw [BitVec.toNat_and, BitVec.toNat_umod]
      exact Nat.and_two_pow_sub_one_eq_mod value.toNat 4
    obtain rfl := hbuild harm
    rw [if_pos rfl, if_neg (fun h => h rfl), hshift, hmask]

/-- INTERNAL: the digit loop puts the peeled digits before the text already there. -/
theorem digitLoop_text {base : ℕ} (hbuild : build.arm = true → base = 16) (buffer room n : ℕ)
    (value : BitVec 64) (b : TextBuffer) :
    ∃ b', digitLoop build buffer base room n value b =
        .ok (n + (peel base room value).length, b') ∧
      b'.content buffer (n + (peel base room value).length) =
        peel base room value ++ b.content buffer n := by
  induction room generalizing n value b with
  | zero => exact ⟨b, rfl, rfl⟩
  | succ room ih =>
    by_cases hzero : value = 0
    · refine ⟨b, ?_, ?_⟩
      · rw [digitLoop, if_pos hzero, hzero, peel_zero_value]
        rfl
      · rw [hzero, peel_zero_value]
        rfl
    · have hpeel : peel base (room + 1) value =
          peel base room (narrow (value / BitVec.ofNat 64 base)) ++
          [digitChar (value % BitVec.ofNat 64 base).toNat] := by
        rw [peel, if_neg hzero]
      obtain ⟨b', hloop, hcontent⟩ := ih (n + 1) (narrow (value / BitVec.ofNat 64 base))
        (prependToBuffer (digitChar (value % BitVec.ofNat 64 base).toNat) buffer n b)
      have hlength : n + (peel base (room + 1) value).length =
          n + 1 + (peel base room (narrow (value / BitVec.ofNat 64 base))).length := by
        rw [hpeel, List.length_append, List.length_singleton]
        omega
      refine ⟨b', ?_, ?_⟩
      · rw [digitLoop_succ hbuild buffer room n hzero b, hloop, hlength]
      · rw [hlength, hcontent, content_prependToBuffer, hpeel, List.append_assoc]
        rfl

/-- INTERNAL: without padding the loop does nothing. -/
theorem padLoop_of_nonpos (buffer : ℕ) (padChar : Byte) (room n : ℕ) {pad : Int} (b : TextBuffer)
    (hpad : pad ≤ 0) : padLoop buffer padChar room n pad b = (n, b) := by
  cases room with
  | zero => rfl
  | succ room => rw [padLoop, if_neg (Int.not_lt.mpr hpad)]

/-- INTERNAL: an unsigned number without a width. SRC: util/printf.c:37-86 -/
theorem appendNum_text {base : ℕ} (hbuild : build.arm = true → base = 16) {size : ℕ}
    (hsize : 1 ≤ size) (hint : size < 2 ^ 31) (buffer : ℕ) (value : BitVec 64) (padChar : Byte)
    (b : TextBuffer) :
    ∃ b', appendNum build buffer size value base false 0 padChar b =
        ((numText base size value).length, b') ∧
      b'.content buffer (numText base size value).length = numText base size value ∧
      WritesIn buffer (buffer + size) b b' := by
  have hwrites := (appendNum_writesIn build buffer size value base false 0 padChar b
    (fun h => absurd h (by decide))).2
  have hpad : ∀ n : ℕ, n ≤ size → wrap (0 - n) ≤ 0 := by
    intro n hn
    rw [wrap, Int.bmod_def]
    omega
  have hclip : ¬ (size : Int) ≤ 0 := by omega
  have hsign : appendSign buffer value false b = (0, value, b) := rfl
  by_cases hzero : value = 0
  · subst hzero
    have hnum : appendNum build buffer size 0 base false 0 padChar b =
        (1, (prependToBuffer (ch '0') buffer 0 b).store buffer (ch '0')) := by
      simp only [appendNum, if_neg hclip, hsign, ne_eq, not_true_eq_false, if_false,
        if_pos (show 0 < size by omega)]
      exact padLoop_of_nonpos _ _ _ _ _ (hpad 1 hsize)
    rw [hnum] at hwrites
    rw [numText, if_pos rfl, hnum]
    refine ⟨_, rfl, ?_, hwrites⟩
    rw [List.length_singleton, Buffer.content, Buffer.store_data_self]
    rfl
  · obtain ⟨b', hloop, hcontent⟩ := digitLoop_text hbuild buffer size 0 value b
    rw [Nat.zero_add] at hloop hcontent
    have hnum : appendNum build buffer size value base false 0 padChar b =
        ((peel base size value).length, b') := by
      simp only [appendNum, if_neg hclip, hsign, ne_eq, hzero, not_false_eq_true, if_true,
        Nat.sub_zero, hloop]
      exact padLoop_of_nonpos _ _ _ _ _ (hpad _ (length_peel_le base size value))
    rw [hnum] at hwrites
    rw [numText, if_neg hzero, hnum]
    refine ⟨b', rfl, ?_, hwrites⟩
    rw [hcontent]
    exact List.append_nil _

/-! ## Strings -/

/-- INTERNAL: a string that fits, without a width. SRC: util/printf.c:88-107 -/
theorem appendStr_text (size : ℕ) (padChar : Byte) (content : List Byte) (hnul : 0 ∉ content)
    (buffer n : ℕ) (b : TextBuffer) (hfit : n + content.length ≤ size) :
    ∃ b', appendStr size 0 padChar (content ++ [0]) buffer n b = some (n + content.length, b') ∧
      b'.content buffer content.length = content ∧
      WritesIn buffer (buffer + (size - n)) b b' := by
  induction content generalizing buffer n b with
  | nil =>
    refine ⟨b, ?_, rfl, WritesIn.refl _ _ b⟩
    have hpad : padStr padChar 0 (size - n) buffer n b = (n, b) := by
      cases size - n with
      | zero => rfl
      | succ room => rw [padStr, if_neg (by omega)]
    rw [List.nil_append, appendStr, if_neg (fun h => h.1 rfl), hpad]
    rfl
  | cons c content ih =>
    rw [List.mem_cons, not_or] at hnul
    obtain ⟨hc, htail⟩ := hnul
    rw [List.length_cons] at hfit
    obtain ⟨b', hstr, hcontent, hwrites⟩ :=
      ih htail (buffer + 1) (n + 1) (b.store buffer c) (by omega)
    have hstore : WritesIn buffer (buffer + (size - n)) b (b.store buffer c) :=
      WritesIn.store b c (Nat.le_refl buffer) (by omega)
    refine ⟨b', ?_, ?_, hstore.trans (hwrites.mono (by omega) (by omega))⟩
    · rw [List.cons_append, appendStr, if_pos ⟨Ne.symm hc, by omega⟩, hstr, List.length_cons]
      congr 2
      omega
    · rw [List.length_cons, Buffer.content, hcontent, hwrites.frame _ (Or.inl (Nat.lt_succ_self _)),
        Buffer.store_data_self]

/-! ## Pieces of a format -/

/-- INTERNAL: at this place of the loop, `fmt` takes `args` and appends `text`, whatever
follows. -/
def Appends (build : Build) (size buffer count : ℕ) (b : TextBuffer) (fmt : List Byte)
    (args : List Arg) (text : List Byte) : Prop :=
  count + text.length ≤ size - 1 ∧ ∃ b', b'.content buffer text.length = text ∧
    WritesIn buffer (buffer + (size - 1 - count)) b b' ∧
    ∀ rest more, vsnprintfLoop build size (fmt ++ rest) .text (args ++ more) buffer count b =
      vsnprintfLoop build size rest .text more (buffer + text.length) (count + text.length) b'

namespace Appends

variable {size buffer count : ℕ} {b : TextBuffer}

/-- INTERNAL: a format behind a format appends its text behind the other's. -/
theorem append {fmt₁ fmt₂ : List Byte} {args₁ args₂ : List Arg} {text₁ text₂ : List Byte}
    (h₁ : Appends build size buffer count b fmt₁ args₁ text₁)
    (h₂ : ∀ b', Appends build size (buffer + text₁.length) (count + text₁.length) b' fmt₂ args₂
      text₂) :
    Appends build size buffer count b (fmt₁ ++ fmt₂) (args₁ ++ args₂) (text₁ ++ text₂) := by
  obtain ⟨hfit₁, b₁, hcontent₁, hwrites₁, hloop₁⟩ := h₁
  obtain ⟨hfit₂, b₂, hcontent₂, hwrites₂, hloop₂⟩ := h₂ b₁
  refine ⟨?_, b₂, ?_, hwrites₁.trans (hwrites₂.mono (by omega) (by omega)), fun rest more => ?_⟩
  · rw [List.length_append]
    omega
  · rw [List.length_append, Buffer.content_append, hcontent₂,
      hwrites₂.content_eq (Or.inl (Nat.le_refl _)), hcontent₁]
  · rw [List.append_assoc, List.append_assoc, hloop₁, hloop₂, List.length_append, Nat.add_assoc,
      Nat.add_assoc]

/-- INTERNAL: the empty format appends nothing. -/
theorem nil (hcount : count ≤ size - 1) : Appends build size buffer count b [] [] [] :=
  ⟨hcount, b, rfl, WritesIn.refl _ _ b, fun _ _ => rfl⟩

/-- INTERNAL: characters other than NUL and `%` are copied. SRC: util/printf.c:221-227 -/
theorem literal {text : List Byte} (hnul : 0 ∉ text) (hpercent : ch '%' ∉ text)
    (hfit : count + text.length ≤ size - 1) : Appends build size buffer count b text [] text := by
  induction text generalizing buffer count b with
  | nil => exact nil hfit
  | cons c text ih =>
    rw [List.mem_cons, not_or] at hnul hpercent
    rw [List.length_cons] at hfit
    have hone : Appends build size buffer count b [c] [] [c] := by
      refine ⟨by rw [List.length_singleton]; omega, b.store buffer c, ?_,
        WritesIn.store b c (Nat.le_refl _) (by omega), fun rest more => ?_⟩
      · rw [List.length_singleton, Buffer.content, Buffer.store_data_self]
        rfl
      · rw [List.singleton_append, vsnprintfLoop, if_pos ⟨Ne.symm hnul.1, by omega⟩,
          if_neg (Ne.symm hpercent.1)]
        rfl
    refine hone.append fun b' => ih hnul.2 hpercent.2 ?_
    rw [List.length_singleton]
    omega

/-- INTERNAL: the characters behind `%` that end a conversion. -/
def Converts (c : Byte) : Bool :=
  match switchCase c with
  | .nul | .zero | .digit _ | .l => false
  | _ => true

/-- INTERNAL: inside a conversion the loop converts its argument and goes on behind it. -/
theorem loop_convert {c : Byte} (hc : Converts c = true) (fmt : List Byte) (pad : Int)
    (padChar : Byte) (long : Bool) (args : List Arg) :
    vsnprintfLoop build size (c :: fmt) (.spec pad padChar long) args buffer count b = (do
      let (rc, args, b) ← convert build c pad padChar long (size - 1 - count) args buffer b
      vsnprintfLoop build size fmt .text args (buffer + rc) (count + rc) b) := by
  rw [vsnprintfLoop]
  cases hcase : switchCase c with
  | nul | zero | digit | l =>
    rw [Converts, hcase] at hc
    cases hc
  | d | u | b | x | p | s | c | other => rfl

/-- INTERNAL: the format of a conversion without a width. -/
def conversionFormat (long : Bool) (c : Byte) : List Byte :=
  if long then [ch '%', ch 'l', c] else [ch '%', c]

/-- INTERNAL: from the `%` of a conversion without flags the loop converts its argument and goes on
behind it. -/
theorem loop_conversionFormat (long : Bool) {c : Byte} (hc : Converts c = true)
    (hcount : count < size - 1) (rest : List Byte) (args : List Arg) :
    vsnprintfLoop build size (conversionFormat long c ++ rest) .text args buffer count b = (do
      let (rc, args, b) ← convert build c 0 (ch ' ') long (size - 1 - count) args buffer b
      vsnprintfLoop build size rest .text args (buffer + rc) (count + rc) b) := by
  have hstart : ∀ fmt, vsnprintfLoop build size (ch '%' :: fmt) .text args buffer count b =
      vsnprintfLoop build size fmt .start args buffer count b := by
    intro fmt
    rw [vsnprintfLoop, if_pos ⟨by decide, hcount⟩, if_pos rfl]
  have hlong : ∀ fmt, vsnprintfLoop build size (ch 'l' :: fmt) .start args buffer count b =
      vsnprintfLoop build size fmt (.spec 0 (ch ' ') true) args buffer count b := by
    intro fmt
    rw [Mode.start, vsnprintfLoop]
    rfl
  cases long with
  | true =>
    rw [conversionFormat, if_pos rfl, List.cons_append, hstart, List.cons_append, hlong]
    exact loop_convert hc _ _ _ _ _
  | false =>
    rw [conversionFormat, if_neg Bool.false_ne_true, List.cons_append, hstart]
    exact loop_convert hc _ _ _ _ _

/-- INTERNAL: what the conversion stores and counts is what its format appends. -/
theorem of_convert {long : Bool} {c : Byte} (hc : Converts c = true) (hcount : count < size - 1)
    {args : List Arg} {text : List Byte} {b' : TextBuffer}
    (hfit : text.length ≤ size - 1 - count) (hcontent : b'.content buffer text.length = text)
    (hwrites : WritesIn buffer (buffer + (size - 1 - count)) b b')
    (hconvert : ∀ more, convert build c 0 (ch ' ') long (size - 1 - count) (args ++ more) buffer b =
      some (text.length, more, b')) :
    Appends build size buffer count b (conversionFormat long c) args text := by
  refine ⟨by omega, b', hcontent, hwrites, fun rest more => ?_⟩
  rw [loop_conversionFormat long hc hcount, hconvert]
  rfl

/-- INTERNAL: `%s`. SRC: util/printf.c:199-203 -/
theorem string {content : List Byte} (hnul : 0 ∉ content) (hcount : count < size - 1)
    (hfit : count + content.length ≤ size - 1) :
    Appends build size buffer count b (conversionFormat false (ch 's')) [.str (content ++ [0])]
      content := by
  obtain ⟨b', hstr, hcontent, hwrites⟩ :=
    appendStr_text (size - 1 - count) (ch ' ') content hnul buffer 0 b (by omega)
  rw [Nat.zero_add] at hstr
  refine of_convert (by decide) hcount (by omega) hcontent hwrites fun more => ?_
  rw [convert, show switchCase (ch 's') = .s by decide]
  simp only [List.singleton_append, vaArgStr, Option.bind_eq_bind, Option.bind_some, hstr]

/-- INTERNAL: `%x`, `%u` and `%b` of a long value and `%x` of a 32-bit one.
SRC: util/printf.c:148-193 -/
theorem unsigned {base : ℕ} (hbuild : build.arm = true → base = 16) (hint : size < 2 ^ 31)
    (hcount : count < size - 1) (long : Bool) {c : Byte} {a : Arg} {value : BitVec 64}
    (hc : Converts c = true)
    (hconvert : ∀ room more b, convert build c 0 (ch ' ') long room (a :: more) buffer b =
      some ((appendNum build buffer room value base false 0 (ch ' ') b).1, more,
        (appendNum build buffer room value base false 0 (ch ' ') b).2)) :
    Appends build size buffer count b (conversionFormat long c) [a]
      (numText base (size - 1 - count) value) := by
  obtain ⟨b', hnum, hcontent, hwrites⟩ := appendNum_text hbuild
    (show 1 ≤ size - 1 - count by omega) (by omega) buffer value (ch ' ') b
  refine of_convert hc hcount (length_numText_le base (by omega) value) hcontent hwrites fun more => ?_
  rw [List.singleton_append, hconvert, hnum]

/-- INTERNAL: `%p`. SRC: util/printf.c:183-192 -/
theorem pointer (hlong : build.long64 = true) (hint : size < 2 ^ 31)
    (hcount : count + 3 ≤ size - 1) (value : BitVec 64) :
    Appends build size buffer count b (conversionFormat false (ch 'p')) [.long value]
      ([ch '0', ch 'x'] ++ numText 16 (size - 1 - count - 2) value) := by
  obtain ⟨b₁, hstr, hlead, hwrites₁⟩ := appendStr_text (size - 1 - count) (ch ' ')
    [ch '0', ch 'x'] (by decide) buffer 0 b (by rw [List.length_cons, List.length_singleton]; omega)
  obtain ⟨b₂, hnum, hcontent, hwrites₂⟩ := appendNum_text
    (show build.arm = true → 16 = 16 from fun _ => rfl) (show 1 ≤ size - 1 - count - 2 by omega)
    (by omega) (buffer + 2) value (ch ' ') b₁
  have hfit := length_numText_le 16 (show 1 ≤ size - 1 - count - 2 by omega) value
  refine of_convert (by decide) (by omega) ?_ ?_
    (hwrites₁.trans (hwrites₂.mono (by omega) (by omega))) fun more => ?_
  · rw [List.length_append, List.length_cons, List.length_singleton]
    omega
  · rw [List.length_append, Buffer.content_append, List.length_cons, List.length_singleton,
      hcontent, hwrites₂.content_eq (Or.inl (Nat.le_refl _))]
    exact congrArg (· ++ _) hlead
  · rw [convert, show switchCase (ch 'p') = .p by decide]
    simp only [fetchPointer, hlong, Bool.false_or, fetchUnsigned, if_true, List.singleton_append,
      vaArgLong, Option.bind_eq_bind, Option.bind_some]
    rw [show [ch '0', ch 'x', 0] = [ch '0', ch 'x'] ++ [0] from rfl, hstr]
    simp only [Option.bind_some, List.length_append, List.length_cons, List.length_nil,
      Nat.zero_add,
      Nat.reduceAdd, hnum]

/-- INTERNAL: a format and its arguments append one text only. -/
theorem text_unique {fmt : List Byte} {args : List Arg} {text text' : List Byte}
    (h : Appends build size buffer count b fmt args text)
    (h' : Appends build size buffer count b fmt args text') : text = text' := by
  obtain ⟨-, b₁, hcontent₁, -, hloop₁⟩ := h
  obtain ⟨-, b₂, hcontent₂, -, hloop₂⟩ := h'
  have hend : ∀ buffer' count' (b' : TextBuffer),
      vsnprintfLoop build size [0] .text [] buffer' count' b' =
        some (count', b'.store buffer' 0) := by
    intro buffer' count' b'
    rw [vsnprintfLoop, if_neg (fun h => h.1 rfl)]
  have hsame := (hloop₁ [0] []).symm.trans (hloop₂ [0] [])
  rw [hend, hend, Option.some.injEq, Prod.mk.injEq] at hsame
  have hlength : text.length = text'.length := by omega
  have hkeep : ∀ (b' : TextBuffer) n, (b'.store (buffer + n) 0).content buffer n =
      b'.content buffer n := by
    intro b' n
    have hstore : WritesIn (buffer + n) (buffer + n + 1) b' (b'.store (buffer + n) 0) :=
      WritesIn.store b' 0 (Nat.le_refl _) (Nat.lt_succ_self _)
    exact hstore.content_eq (Or.inl (Nat.le_refl _))
  rw [← hcontent₁, ← hcontent₂, ← hlength, ← hkeep b₁, ← hkeep b₂, hsame.2, hlength]

/-- INTERNAL: `%c`. SRC: util/printf.c:205-210 -/
theorem char (hcount : count < size - 1) (v : BitVec 32) :
    Appends build size buffer count b (conversionFormat false (ch 'c')) [.int v]
      [v.setWidth 8] := by
  refine of_convert (by decide) hcount (by rw [List.length_singleton]; omega) ?_
    (WritesIn.store b (v.setWidth 8) (Nat.le_refl buffer) (by omega)) fun more => ?_
  · rw [List.length_singleton, Buffer.content, Buffer.store_data_self]
    rfl
  · rw [convert, show switchCase (ch 'c') = .c by decide]
    rfl

end Appends

/-! ## Streams -/

/-- INTERNAL: printing the buffer up to its zero prints the text before it. -/
theorem putUntilNul_content {b : TextBuffer} {i n left : ℕ} (hleft : n < left)
    (htext : 0 ∉ b.content i n) (hnul : b.data (i + n) = 0) :
    putUntilNul b left i = b.content i n := by
  induction n generalizing i left with
  | zero =>
    obtain ⟨left, rfl⟩ : ∃ l, left = l + 1 := ⟨left - 1, by omega⟩
    rw [Nat.add_zero] at hnul
    rw [putUntilNul, if_pos hnul, Buffer.content]
  | succ n ih =>
    obtain ⟨left, rfl⟩ : ∃ l, left = l + 1 := ⟨left - 1, by omega⟩
    rw [Buffer.content, List.mem_cons, not_or] at htext
    rw [putUntilNul, if_neg (Ne.symm htext.1), Buffer.content,
      ih (Nat.lt_of_succ_lt_succ hleft) htext.2 (by rw [Nat.add_right_comm]; exact hnul)]

/-- INTERNAL: a registered stream puts the text of the format, whatever the local buffer
held. SRC: util/printf.c:258-280 -/
theorem fprintf_text {fmt text : List Byte} {args : List Arg} (hnul : 0 ∉ text)
    (h : ∀ b, Appends build 0x1000 0 0 b fmt args text) (frame : ℕ → Byte) :
    fprintf build (some ⟨true⟩) frame (fmt ++ [0]) args = some (text.length, text) := by
  obtain ⟨hfit, b', hcontent, -, hloop⟩ := h ⟨frame, []⟩
  have hend : vsnprintf build ⟨frame, []⟩ 0x1000 (fmt ++ [0]) args =
      some (text.length, b'.store text.length 0) := by
    have hall := hloop [0] []
    rw [List.append_nil, Nat.zero_add] at hall
    rw [vsnprintf, if_neg (by decide), hall, vsnprintfLoop, if_neg (fun h => h.1 rfl)]
  have hstore : WritesIn text.length (text.length + 1) b' (b'.store text.length 0) :=
    WritesIn.store b' 0 (Nat.le_refl _) (Nat.lt_succ_self _)
  have hkeep : (b'.store text.length 0).content 0 text.length = text := by
    rw [hstore.content_eq (Or.inl (Nat.le_of_eq (Nat.zero_add _))), hcontent]
  have hput : putUntilNul (b'.store text.length 0) 0x1000 0 = text := by
    have hlt : text.length < 0x1000 := by omega
    have hzero : (b'.store text.length 0).data (0 + text.length) = 0 := by
      rw [Nat.zero_add, Buffer.store_data_self]
    rw [putUntilNul_content hlt (by rw [hkeep]; exact hnul) hzero, hkeep]
  rw [fprintf, if_pos rfl, hend]
  exact congrArg (fun t => some (text.length, t)) hput

end Simbench.Analysis.PrintfText
