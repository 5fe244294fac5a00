import Simbench.Program.Printf

/-!
# Memory discipline of the formatted printer

Every helper is given the room left before the terminator and stores only inside it, the
shifts of `prepend_to_buffer` included. At the head of the loop the moving pointer is
`count` and `count ≤ size - 1`; inside a conversion `count < size - 1`, so the sign, which
is written before any capacity check, always has its place.
-/

set_option autoImplicit false

namespace Simbench.Analysis.PrintfMemory

open Simbench.Library.LoggedBuffer Simbench.Program.Printf

/-! ## Matching arguments -/

/-- INTERNAL: the types `va_arg` asks for. SRC: util/printf.c:154-206 -/
inductive ArgType
  | int
  | long
  | str
  deriving DecidableEq, Repr

/-- INTERNAL: a C string: bytes other than NUL and one NUL. -/
def NulTerminated (text : List Byte) : Prop := ∃ content, 0 ∉ content ∧ text = content ++ [0]

/-- INTERNAL: the type the conversion `c` takes from the argument list. -/
def conversionType (build : Build) (long : Bool) (c : Byte) : Option ArgType :=
  match switchCase c with
  | .d | .u | .b | .x => some (if long then .long else .int)
  | .p => some (if long || build.long64 then .long else .int)
  | .s => some .str
  | .c => some .int
  | _ => none

/-- INTERNAL: the argument types of a format, in order; `spec` holds the `l` flag of the
conversion the text is inside of. -/
def argTypes (build : Build) : (fmt : List Byte) → (spec : Option Bool) → List ArgType
  | [], _ => []
  | c :: fmt, none =>
    if c = 0 then []
    else if c = ch '%' then argTypes build fmt (some false)
    else argTypes build fmt none
  | c :: fmt, some long =>
    match switchCase c with
    | .nul => []
    | .zero | .digit _ => argTypes build fmt (some long)
    | .l => argTypes build fmt (some true)
    | _ => (conversionType build long c).toList ++ argTypes build fmt none

/-- INTERNAL: an argument has the type asked for; a string is one with its terminating zero. -/
def HasType : Arg → ArgType → Prop
  | .int _, .int => True
  | .long _, .long => True
  | .str text, .str => NulTerminated text
  | _, _ => False

/-- INTERNAL: the arguments begin with one value of each type. -/
def ArgsMatch : List ArgType → List Arg → Prop
  | [], _ => True
  | _ :: _, [] => False
  | t :: types, a :: args => HasType a t ∧ ArgsMatch types args

/-! ## Helpers -/

/-- INTERNAL: shifting writes one byte behind the text at most. -/
theorem shiftRight_writesIn (buffer n : ℕ) (b : TextBuffer) :
    WritesIn buffer (buffer + n + 1) b (shiftRight buffer n b) := by
  induction n generalizing b with
  | zero => exact WritesIn.refl _ _ b
  | succ i ih =>
    have hstore : WritesIn buffer (buffer + (i + 1) + 1) b
        (b.store (buffer + i + 1) (b.data (buffer + i))) :=
      WritesIn.store b _ (by omega) (by omega)
    exact hstore.trans ((ih _).mono Nat.le.refl (by omega))

/-- INTERNAL: prepending a character writes one byte behind the text at most. -/
theorem prependToBuffer_writesIn (c : Byte) (buffer n : ℕ) (b : TextBuffer) :
    WritesIn buffer (buffer + n + 1) b (prependToBuffer c buffer n b) :=
  (shiftRight_writesIn buffer n b).trans (WritesIn.store _ c Nat.le.refl (by omega))

/-- INTERNAL: the digit loop appends at most `room` digits, in their place.
SRC: util/printf.c:51-73 -/
theorem digitLoop_writesIn (build : Build) (buffer base room n : ℕ) (value : BitVec 64)
    (b : TextBuffer) :
    match digitLoop build buffer base room n value b with
    | .ok (n', b') => n' ≤ n + room ∧ WritesIn buffer (buffer + n + room) b b'
    | .error b' => WritesIn buffer (buffer + n + room) b b' := by
  induction room generalizing n value b with
  | zero => exact ⟨Nat.le.refl, WritesIn.refl _ _ b⟩
  | succ room ih =>
    have hstep : ∀ (c : Byte) (value : BitVec 64),
        match digitLoop build buffer base room (n + 1) value (prependToBuffer c buffer n b) with
        | .ok (n', b') => n' ≤ n + (room + 1) ∧ WritesIn buffer (buffer + n + (room + 1)) b b'
        | .error b' => WritesIn buffer (buffer + n + (room + 1)) b b' := by
      intro c value
      have hprepend : WritesIn buffer (buffer + n + (room + 1)) b (prependToBuffer c buffer n b) :=
        (prependToBuffer_writesIn c buffer n b).mono Nat.le.refl (by omega)
      have hrest := ih (n + 1) value (prependToBuffer c buffer n b)
      have hhi : buffer + (n + 1) + room ≤ buffer + n + (room + 1) := by omega
      cases hloop : digitLoop build buffer base room (n + 1) value
          (prependToBuffer c buffer n b) with
      | ok r =>
        rw [hloop] at hrest
        exact ⟨by omega, hprepend.trans (hrest.2.mono Nat.le.refl hhi)⟩
      | error b' =>
        rw [hloop] at hrest
        exact hprepend.trans (hrest.mono Nat.le.refl hhi)
    rw [digitLoop]
    by_cases hzero : value = 0
    · rw [if_pos hzero]
      exact ⟨by omega, WritesIn.refl _ _ b⟩
    · rw [if_neg hzero]
      cases harm : build.arm with
      | true =>
        by_cases hbase : base = 16
        · simp only [if_true, hbase, ne_eq, not_true_eq_false, if_false]
          exact hbase ▸ hstep _ _
        · simp only [if_true, ne_eq, hbase, not_false_eq_true]
          exact WritesIn.refl _ _ b
      | false => exact hstep _ _

/-- INTERNAL: the padding loop writes and counts no more than the room it has. -/
theorem padLoop_writesIn (buffer : ℕ) (padChar : Byte) (room n : ℕ) (pad : Int) (b : TextBuffer) :
    (padLoop buffer padChar room n pad b).1 ≤ n + room ∧
      WritesIn buffer (buffer + n + room) b (padLoop buffer padChar room n pad b).2 := by
  induction room generalizing n pad b with
  | zero => exact ⟨Nat.le.refl, WritesIn.refl _ _ b⟩
  | succ room ih =>
    rw [padLoop]
    split
    · have hrest := ih (n + 1) (pad - 1) (prependToBuffer padChar buffer n b)
      have hprepend : WritesIn buffer (buffer + n + (room + 1)) b
          (prependToBuffer padChar buffer n b) :=
        (prependToBuffer_writesIn padChar buffer n b).mono Nat.le.refl (by omega)
      exact ⟨by omega, hprepend.trans (hrest.2.mono Nat.le.refl (by omega))⟩
    · exact ⟨by omega, WritesIn.refl _ _ b⟩

/-- INTERNAL: the sign needs one free place. SRC: util/printf.c:45-48 -/
theorem appendSign_writesIn {buffer size : ℕ} {value : BitVec 64} {sgn : Bool} {b : TextBuffer}
    (hroom : sgn = true → 1 ≤ size) {n : ℕ} {value' : BitVec 64} {b' : TextBuffer}
    (h : appendSign buffer value sgn b = (n, value', b')) :
    n ≤ size ∧ WritesIn buffer (buffer + size) b b' := by
  rw [appendSign] at h
  split at h
  · obtain ⟨rfl, -, rfl⟩ := h
    have hsize : 1 ≤ size := hroom (by simp_all)
    exact ⟨hsize, (prependToBuffer_writesIn (ch '-') buffer 0 b).mono Nat.le.refl (by omega)⟩
  · obtain ⟨rfl, -, rfl⟩ := h
    exact ⟨Nat.zero_le _, WritesIn.refl _ _ b⟩

/-- INTERNAL: `append_num` stays inside its `size` bytes. SRC: util/printf.c:37-86 -/
theorem appendNum_writesIn (build : Build) (buffer size : ℕ) (value : BitVec 64) (base : ℕ)
    (sgn : Bool) (pad : Int) (padChar : Byte) (b : TextBuffer) (hroom : sgn = true → 1 ≤ size) :
    (appendNum build buffer size value base sgn pad padChar b).1 ≤ size ∧
      WritesIn buffer (buffer + size) b
        (appendNum build buffer size value base sgn pad padChar b).2 := by
  obtain ⟨n, value', b₁, hsign⟩ : ∃ n value' b₁, appendSign buffer value sgn b = (n, value', b₁) :=
    ⟨_, _, _, rfl⟩
  obtain ⟨hn, hwrites⟩ := appendSign_writesIn hroom hsign
  have hpad : ∀ n' pad' b₂, n' ≤ size → WritesIn buffer (buffer + size) b b₂ →
      (padLoop buffer padChar (size - n') n' pad' b₂).1 ≤ size ∧
        WritesIn buffer (buffer + size) b (padLoop buffer padChar (size - n') n' pad' b₂).2 := by
    intro n' pad' b₂ hn' hb₂
    obtain ⟨hle, hloop⟩ := padLoop_writesIn buffer padChar (size - n') n' pad' b₂
    exact ⟨by omega, hb₂.trans (hloop.mono Nat.le.refl (by omega))⟩
  simp only [appendNum, hsign]
  by_cases hzero : value' = 0
  · by_cases hlt : n < size
    · simp only [hzero, ne_eq, not_true_eq_false, if_false, hlt, if_true]
      refine hpad _ _ _ hlt (hwrites.trans ?_)
      exact ((prependToBuffer_writesIn (ch '0') buffer n b₁).mono Nat.le.refl (by omega)).trans
        (WritesIn.store _ _ Nat.le.refl (by omega))
    · simp only [hzero, ne_eq, not_true_eq_false, if_false, hlt]
      exact hpad _ _ _ hn hwrites
  · have hdigits := digitLoop_writesIn build buffer base (size - n) n value' b₁
    have hhi : buffer + n + (size - n) ≤ buffer + size := by omega
    cases hloop : digitLoop build buffer base (size - n) n value' b₁ with
    | ok r =>
      rw [hloop] at hdigits
      simp only [ne_eq, hzero, not_false_eq_true, if_true]
      exact hpad _ _ _ (by omega) (hwrites.trans (hdigits.2.mono Nat.le.refl hhi))
    | error b₂ =>
      rw [hloop] at hdigits
      simp only [ne_eq, hzero, not_false_eq_true, if_true]
      exact ⟨Nat.zero_le _, hwrites.trans (hdigits.mono Nat.le.refl hhi)⟩

/-- INTERNAL: `pad_str` writes and counts no more than its room. -/
theorem padStr_writesIn (padChar : Byte) (pad : Int) (room buffer n : ℕ) (b : TextBuffer) :
    (padStr padChar pad room buffer n b).1 ≤ n + room ∧
      WritesIn buffer (buffer + room) b (padStr padChar pad room buffer n b).2 := by
  induction room generalizing buffer n b with
  | zero => exact ⟨Nat.le.refl, WritesIn.refl _ _ b⟩
  | succ room ih =>
    rw [padStr]
    split
    · obtain ⟨hle, hrest⟩ := ih (buffer + 1) (n + 1) (b.store buffer padChar)
      have hstore : WritesIn buffer (buffer + (room + 1)) b (b.store buffer padChar) :=
        WritesIn.store b padChar (Nat.le_refl buffer) (by omega)
      exact ⟨by omega, hstore.trans (hrest.mono (by omega) (by omega))⟩
    · exact ⟨by omega, WritesIn.refl _ _ b⟩

/-- INTERNAL: `append_str` reads a C string to its NUL at most and stays inside its `size`
bytes. SRC: util/printf.c:88-107 -/
theorem appendStr_writesIn (size : ℕ) (pad : Int) (padChar : Byte)
    (content : List Byte) (buffer n : ℕ) (b : TextBuffer) (hn : n ≤ size) :
    ∃ rc b', appendStr size pad padChar (content ++ [0]) buffer n b = some (rc, b') ∧
      rc ≤ size ∧ WritesIn buffer (buffer + (size - n)) b b' := by
  have hpad : ∀ buffer n b, n ≤ size →
      (padStr padChar pad (size - n) buffer n b).1 ≤ size ∧
        WritesIn buffer (buffer + (size - n)) b (padStr padChar pad (size - n) buffer n b).2 := by
    intro buffer n b hn
    obtain ⟨hle, hwrites⟩ := padStr_writesIn padChar pad (size - n) buffer n b
    exact ⟨by omega, hwrites⟩
  induction content generalizing buffer n b with
  | nil => exact ⟨_, _, rfl, hpad buffer n b hn⟩
  | cons c content ih =>
    rw [List.cons_append, appendStr]
    by_cases hc : c ≠ 0 ∧ n < size
    · rw [if_pos hc]
      obtain ⟨rc, b', hstr, hle, hwrites⟩ := ih (buffer + 1) (n + 1) (b.store buffer c) hc.2
      have hstore : WritesIn buffer (buffer + (size - n)) b (b.store buffer c) :=
        WritesIn.store b c (Nat.le_refl buffer) (by omega)
      exact ⟨rc, b', hstr, hle, hstore.trans (hwrites.mono (by omega) (by omega))⟩
    · rw [if_neg hc]
      exact ⟨_, _, rfl, hpad buffer n b hn⟩

/-! ## Conversions -/

/-- INTERNAL: a type asked for finds an argument of it. -/
theorem ArgsMatch.uncons {t : ArgType} {types : List ArgType} {args : List Arg}
    (h : ArgsMatch (t :: types) args) :
    ∃ a rest, args = a :: rest ∧ HasType a t ∧ ArgsMatch types rest := by
  cases args with
  | nil => exact h.elim
  | cons a rest => exact ⟨a, rest, rfl, h.1, h.2⟩

section Types

variable {a : Arg}

/-- INTERNAL: an argument of type `int` is one. -/
theorem int_of_type (h : HasType a .int) : ∃ v, a = .int v := by
  cases a with
  | int v => exact ⟨v, rfl⟩
  | long | str => exact h.elim

/-- INTERNAL: an argument of type `long` is one. -/
theorem long_of_type (h : HasType a .long) : ∃ v, a = .long v := by
  cases a with
  | long v => exact ⟨v, rfl⟩
  | int | str => exact h.elim

/-- INTERNAL: an argument of string type is a terminated string. -/
theorem str_of_type (h : HasType a .str) : ∃ text, a = .str text ∧ NulTerminated text := by
  cases a with
  | str text => exact ⟨text, rfl, h⟩
  | int | long => exact h.elim

/-- INTERNAL: an argument of the width asked for can be fetched, for either reading of its sign. -/
theorem fetch_of_type {long : Bool} (h : HasType a (if long then .long else .int)) :
    ∃ v w, ∀ rest, fetchUnsigned long (a :: rest) = some (v, rest) ∧
      fetchDecimal long (a :: rest) = some (w, rest) := by
  cases long with
  | true =>
    obtain ⟨v, rfl⟩ := long_of_type h
    exact ⟨v, v, fun _ => ⟨rfl, rfl⟩⟩
  | false =>
    obtain ⟨v, rfl⟩ := int_of_type h
    exact ⟨v.setWidth 64, v.signExtend 64, fun _ => ⟨rfl, rfl⟩⟩

end Types

/-- INTERNAL: a conversion finds its argument, appends at most `room` characters and stays
inside them. SRC: util/printf.c:148-218 -/
theorem convert_writesIn (build : Build) (c : Byte) (pad : Int) (padChar : Byte) (long : Bool)
    {room : ℕ} (hroom : 1 ≤ room) {types : List ArgType} {args : List Arg}
    (hargs : ArgsMatch ((conversionType build long c).toList ++ types) args) (buffer : ℕ)
    (b : TextBuffer) :
    ∃ rc rest b', convert build c pad padChar long room args buffer b = some (rc, rest, b') ∧
      rc ≤ room ∧ ArgsMatch types rest ∧ WritesIn buffer (buffer + room) b b' := by
  have hbyte : ∀ v, WritesIn buffer (buffer + room) b (b.store buffer v) := fun v =>
    WritesIn.store b v Nat.le.refl (by omega)
  have hnum : ∀ v base sgn,
      (appendNum build buffer room v base sgn pad padChar b).1 ≤ room ∧
        WritesIn buffer (buffer + room) b
          (appendNum build buffer room v base sgn pad padChar b).2 := fun v base sgn =>
    appendNum_writesIn build buffer room v base sgn pad padChar b fun _ => hroom
  cases hc : switchCase c with
  | d | u =>
    simp only [conversionType, hc, Option.toList_some, List.singleton_append] at hargs
    obtain ⟨a, rest, rfl, htype, hrest⟩ := hargs.uncons
    obtain ⟨_, v, hfetch⟩ := fetch_of_type htype
    obtain ⟨hle, hwrites⟩ := hnum v 10 _
    refine ⟨_, rest, _, ?_, hle, hrest, hwrites⟩
    simp only [convert, hc, hfetch, Option.bind_eq_bind, Option.bind_some]
    rfl
  | b | x =>
    simp only [conversionType, hc, Option.toList_some, List.singleton_append] at hargs
    obtain ⟨a, rest, rfl, htype, hrest⟩ := hargs.uncons
    obtain ⟨v, _, hfetch⟩ := fetch_of_type htype
    obtain ⟨hle, hwrites⟩ := hnum v _ false
    refine ⟨_, rest, _, ?_, hle, hrest, hwrites⟩
    simp only [convert, hc, hfetch, Option.bind_eq_bind, Option.bind_some]
    rfl
  | p =>
    simp only [conversionType, hc, Option.toList_some, List.singleton_append] at hargs
    obtain ⟨a, rest, rfl, htype, hrest⟩ := hargs.uncons
    obtain ⟨v, _, hfetch⟩ := fetch_of_type htype
    obtain ⟨rc, b₁, hstr, hrc, hwrites⟩ :=
      appendStr_writesIn room 0 (ch ' ') [ch '0', ch 'x'] buffer 0 b (Nat.zero_le _)
    -- nothing may be left behind the `0x`: the digits then take no room at all
    obtain ⟨hle, hdigits⟩ := appendNum_writesIn build (buffer + rc) (room - rc) v 16 false pad
      padChar b₁ (fun h => absurd h (by decide))
    have hinside : WritesIn buffer (buffer + room) b₁
        (appendNum build (buffer + rc) (room - rc) v 16 false pad padChar b₁).2 :=
      hdigits.mono (by omega) (by omega)
    refine ⟨rc + (appendNum build (buffer + rc) (room - rc) v 16 false pad padChar b₁).1, rest,
      (appendNum build (buffer + rc) (room - rc) v 16 false pad padChar b₁).2, ?_, by omega, hrest,
      hwrites.trans hinside⟩
    simp only [convert, hc, fetchPointer, hfetch, Option.bind_eq_bind, Option.bind_some]
    rw [show [ch '0', ch 'x', 0] = [ch '0', ch 'x'] ++ [0] from rfl, hstr]
    rfl
  | s =>
    simp only [conversionType, hc, Option.toList_some, List.singleton_append] at hargs
    obtain ⟨a, rest, rfl, htype, hrest⟩ := hargs.uncons
    obtain ⟨_, rfl, content, -, rfl⟩ := str_of_type htype
    obtain ⟨rc, b', hstr, hle, hwrites⟩ :=
      appendStr_writesIn room pad padChar content buffer 0 b (Nat.zero_le _)
    refine ⟨rc, rest, b', ?_, hle, hrest, hwrites⟩
    simp only [convert, hc, vaArgStr, hstr, Option.bind_eq_bind, Option.bind_some]
  | c =>
    simp only [conversionType, hc, Option.toList_some, List.singleton_append] at hargs
    obtain ⟨a, rest, rfl, htype, hrest⟩ := hargs.uncons
    obtain ⟨v, rfl⟩ := int_of_type htype
    refine ⟨1, rest, b.store buffer (v.setWidth 8), ?_, hroom, hrest, hbyte _⟩
    simp only [convert, hc, vaArgInt, Option.bind_eq_bind, Option.bind_some]
  | nul | zero | digit | l | other =>
    simp only [conversionType, hc, Option.toList_none, List.nil_append] at hargs
    exact ⟨1, args, b.store buffer c, by simp only [convert, hc], hroom, hargs, hbyte c⟩

/-! ## The loop -/

/-- INTERNAL: what a call leaves: a count below `size` with the terminator behind the text,
and stores inside the buffer only. -/
def Terminated (size : ℕ) (b : TextBuffer) (r : Option (ℕ × TextBuffer)) : Prop :=
  ∃ count b', r = some (count, b') ∧ count ≤ size - 1 ∧ b'.data count = 0 ∧
    WritesIn 0 size b b'

/-- INTERNAL: storing the terminating zero ends the text inside the buffer. -/
theorem terminated_here {size count : ℕ} {b₀ b : TextBuffer} (hsize : 1 ≤ size)
    (hcount : count ≤ size - 1) (hb : WritesIn 0 size b₀ b) :
    Terminated size b₀ (some (count, b.store count 0)) :=
  ⟨count, _, rfl, hcount, b.store_data_self count 0,
    hb.trans (WritesIn.store b 0 (Nat.zero_le _) (by omega))⟩

/-- INTERNAL: the place the loop stands at: at the head of the `while` the terminator has a
place, inside a conversion one character more has. -/
def ModeInv (size count : ℕ) : Mode → Prop
  | .text => count ≤ size - 1
  | .spec _ _ _ => count < size - 1

/-- INTERNAL: the argument types still to come. -/
def Mode.longFlag : Mode → Option Bool
  | .text => none
  | .spec _ _ long => some long

/-- INTERNAL: the loop from any place, by induction on the rest of the format. -/
theorem vsnprintfLoop_terminated (build : Build) {size : ℕ} (hsize : 1 ≤ size)
    (b₀ : TextBuffer) (fmt : List Byte) (mode : Mode) (args : List Arg) (count : ℕ)
    (b : TextBuffer) (hmode : ModeInv size count mode)
    (hargs : ArgsMatch (argTypes build (fmt ++ [0]) (Mode.longFlag mode)) args)
    (hb : WritesIn 0 size b₀ b) :
    Terminated size b₀ (vsnprintfLoop build size (fmt ++ [0]) mode args count count b) := by
  induction fmt generalizing mode args count b with
  | nil =>
    cases mode with
    | text =>
      have hend : vsnprintfLoop build size ([] ++ [0]) .text args count count b =
          some (count, b.store count 0) := by
        rw [List.nil_append, vsnprintfLoop, if_neg (fun h => h.1 rfl)]
      exact hend ▸ terminated_here hsize hmode hb
    | spec pad padChar long => exact terminated_here hsize (Nat.le_of_lt hmode) hb
  | cons c fmt ih =>
    rw [List.cons_append] at hargs ⊢
    cases mode with
    | text =>
      rw [vsnprintfLoop]
      by_cases hc : c ≠ 0 ∧ count < size - 1
      · rw [if_pos hc]
        rw [Mode.longFlag, argTypes, if_neg hc.1] at hargs
        by_cases hpercent : c = ch '%'
        · rw [if_pos hpercent] at hargs ⊢
          exact ih .start args count b hc.2 hargs hb
        · rw [if_neg hpercent] at hargs ⊢
          exact ih .text args (count + 1) _ hc.2 hargs
            (hb.trans (WritesIn.store b c (Nat.zero_le _) (by omega)))
      · rw [if_neg hc]
        exact terminated_here hsize hmode hb
    | spec pad padChar long =>
      have hlt : count < size - 1 := hmode
      rw [vsnprintfLoop]
      rw [Mode.longFlag, argTypes] at hargs
      cases hcase : switchCase c with
      | nul => exact terminated_here hsize (Nat.le_of_lt hlt) hb
      | zero =>
        rw [hcase] at hargs
        by_cases hpad : 0 < pad
        · simp only [if_pos hpad]
          exact ih _ args count b hlt hargs hb
        · simp only [if_neg hpad]
          exact ih _ args count b hlt hargs hb
      | digit d =>
        rw [hcase] at hargs
        exact ih _ args count b hlt hargs hb
      | l =>
        rw [hcase] at hargs
        exact ih _ args count b hlt hargs hb
      | d | u | b | x | p | s | c | other =>
        rw [hcase] at hargs
        obtain ⟨rc, rest, b', hconvert, hle, hrest, hwrites⟩ :=
          convert_writesIn build c pad padChar long (show 1 ≤ size - 1 - count by omega) hargs
            count b
        simp only [hconvert, Option.bind_eq_bind, Option.bind_some]
        exact ih .text rest (count + rc) b' (show count + rc ≤ size - 1 by omega) hrest
          (hb.trans (hwrites.mono (Nat.zero_le _) (by omega)))

/-- SOURCE: util/printf.c:109-233 — **memory discipline**: for every NUL-terminated format,
every matching argument list, every buffer and every size from 1, on either build,
`vsnprintf` returns without reading the format or a string behind its NUL, stores inside the
buffer only, and the count it returns is at most `size - 1` and leads to the terminator. -/
theorem vsnprintf_memory (build : Build) (b : TextBuffer) (hfresh : b.writes = []) (size : ℕ)
    (hsize : 1 ≤ size) (fmt : List Byte) (hfmt : NulTerminated fmt) (args : List Arg)
    (hargs : ArgsMatch (argTypes build fmt none) args) :
    ∃ count b', vsnprintf build b size fmt args = some (count, b') ∧ count ≤ size - 1 ∧
      b'.data count = 0 ∧ ∀ i ∈ b'.writes, i < size := by
  obtain ⟨content, -, rfl⟩ := hfmt
  obtain ⟨count, b', hloop, hle, hnul, hwrites⟩ :=
    vsnprintfLoop_terminated build hsize b content .text args 0 b (Nat.zero_le _) hargs
      (WritesIn.refl _ _ b)
  refine ⟨count, b', ?_, hle, hnul, fun i hi => (hwrites.writes_range hfresh i hi).2⟩
  rw [vsnprintf, if_neg (by omega), hloop]

/-- INTERNAL: a width wider than the buffer and a `%` before the NUL. -/
theorem vsnprintf_memory_four :
    ∃ count b', vsnprintf ⟨false, true⟩ ⟨fun _ => 0xaa, []⟩ 4
        [ch '%', ch '5', ch 'd', ch '%', 0] [.int 42] = some (count, b') ∧ count ≤ 4 - 1 ∧
      b'.data count = 0 ∧ ∀ i ∈ b'.writes, i < 4 :=
  vsnprintf_memory ⟨false, true⟩ ⟨fun _ => 0xaa, []⟩ rfl 4 (by decide)
    [ch '%', ch '5', ch 'd', ch '%', 0] ⟨[ch '%', ch '5', ch 'd', ch '%'], by decide, rfl⟩
    [.int 42] ⟨trivial, trivial⟩

end Simbench.Analysis.PrintfMemory
