import Simbench.Analysis.PrintfTruncation

/-!
# One call for two

A format behind another one: nothing of a conversion is carried over into the second format,
and the characters of the first take their room from it. With room to spare a text and a
number do not notice. A number that an `__ARM` build gives up does: its sign, left uncounted,
becomes part of the text where one character of room is left.
-/

set_option autoImplicit false

namespace Simbench.Analysis.PrintfComposition

open Simbench.Library.LoggedBuffer Simbench.Library.BoundedText Simbench.Program.Printf
open Simbench.Analysis.PrintfMemory Simbench.Analysis.PrintfText Simbench.Analysis.PrintfRender
open Simbench.Analysis.PrintfTruncation

variable {build : Build}

/-! ## Less room -/

/-- INTERNAL: a number that leaves room prints the same in any room it fits in.
SRC: util/printf.c:37-86 -/
theorem text_sub_of_spare {n : Number} {room k : ℕ} (hint : room < 2 ^ 31)
    (hspare : (n.text room).length + k < room) : n.text (room - k) = n.text room := by
  rw [n.length_text] at hspare
  have hcount : n.charCount (room - k) = n.charCount room := by
    rw [n.charCount_of_le (Nat.sub_le room k), Nat.min_eq_right (by omega)]
  have hpadding : n.padding (room - k) = n.padding room := by
    rcases padding_of_fit (Nat.sub_le room k) hint (show n.charCount room < room - k by omega) with
      hsame | ⟨hless, hfilled⟩
    · exact hsame
    · -- a clipped width fills the room up to one character at least
      omega
  rw [Number.text, Number.text, hcount, hpadding]

/-- INTERNAL: a number that the build gives up with its sign in the buffer. -/
def Loose (build : Build) : Piece → Prop
  | .text _ => False
  | .number n => n.mute build = true ∧ n.negative = true

/-- INTERNAL: a piece without a counted character, where the room is not one. -/
def Silent (build : Build) : Piece → Prop
  | .text full => full = []
  | .number n => n.mute build = true

/-- INTERNAL: a number given up with its sign has no counted character. -/
theorem Loose.silent {piece : Piece} (h : Loose build piece) : Silent build piece := by
  cases piece with
  | text full => exact h.elim
  | number n => exact h.1

/-- INTERNAL: a silent piece prints nothing, unless the room is one. -/
theorem printOn_of_silent {piece : Piece} (h : Silent build piece) {room : ℕ} (hroom : room ≠ 1) :
    piece.printOn build room = [] := by
  cases piece with
  | text full =>
    rw [Silent] at h
    rw [h]
    exact List.take_nil
  | number n =>
    rw [Silent] at h
    rw [Piece.printOn, Number.textOn, if_pos h, if_neg fun hone => hroom hone.2]

/-- INTERNAL: there a loose sign is counted. -/
theorem printOn_one_of_loose {piece : Piece} (h : Loose build piece) :
    piece.printOn build 1 = [ch '-'] := by
  cases piece with
  | text full => exact h.elim
  | number n => rw [Piece.printOn, Number.textOn, if_pos h.1, if_pos ⟨h.2, rfl⟩]

/-- INTERNAL: a piece that prints nothing in some room is silent. -/
theorem silent_of_printOn {piece : Piece} {room : ℕ} (hroom : 1 ≤ room)
    (h : piece.printOn build room = []) : Silent build piece := by
  cases piece with
  | text full =>
    rw [Piece.printOn, List.take_eq_nil_iff] at h
    exact h.resolve_left (Nat.ne_of_gt hroom)
  | number n =>
    by_contra hmute
    rw [Silent] at hmute
    rw [Piece.printOn, Number.textOn, if_neg hmute] at h
    have hlength := congrArg List.length h
    have hpos := n.charCount_pos hroom
    rw [n.length_text, List.length_nil] at hlength
    omega

/-- INTERNAL: only a loose sign that gets the last character of room notices. -/
theorem printOn_sub_of_spare {piece : Piece} {room k : ℕ} (hint : room < 2 ^ 31) (hk : 0 < k)
    (hspare : (piece.printOn build room).length + k < room)
    (hloose : ¬ (Loose build piece ∧ room - k = 1)) :
    piece.printOn build (room - k) = piece.printOn build room := by
  cases piece with
  | text full => exact take_sub_of_spare full hspare
  | number n =>
    by_cases hmute : n.mute build = true
    · rw [Piece.printOn, Number.textOn, Number.textOn, if_pos hmute, if_pos hmute,
        if_neg fun hone => hloose ⟨⟨hmute, hone.1⟩, hone.2⟩, if_neg fun hone => by omega]
    · rw [Piece.printOn, Number.textOn, if_neg hmute] at hspare
      rw [Piece.printOn, Number.textOn, Number.textOn, if_neg hmute, if_neg hmute]
      exact text_sub_of_spare hint hspare

/-! ## Pieces in less room -/

/-- INTERNAL: a loose sign behind the last character that is counted. -/
def Stray (build : Build) (ps : List Piece) : Prop :=
  ∃ front piece back, ps = front ++ piece :: back ∧ Loose build piece ∧
    ∀ piece ∈ back, Silent build piece

/-- INTERNAL: a stray sign stands in the rest, or is the first piece before silent ones. -/
theorem stray_cons_iff {piece : Piece} {ps : List Piece} :
    Stray build (piece :: ps) ↔
      Stray build ps ∨ Loose build piece ∧ ∀ piece ∈ ps, Silent build piece := by
  constructor
  · rintro ⟨front, loose, back, hsplit, hloose, hback⟩
    cases front with
    | nil =>
      obtain ⟨rfl, rfl⟩ := List.cons.inj hsplit
      exact Or.inr ⟨hloose, hback⟩
    | cons first front => exact Or.inl ⟨front, loose, back, (List.cons.inj hsplit).2, hloose, hback⟩
  · rintro (⟨front, loose, back, rfl, hloose, hback⟩ | ⟨hloose, hback⟩)
    · exact ⟨piece :: front, loose, back, rfl, hloose, hback⟩
    · exact ⟨[], piece, ps, rfl, hloose, hback⟩

/-- INTERNAL: the generic build has no stray signs. -/
theorem not_stray_generic (harm : build.arm = false) (ps : List Piece) : ¬ Stray build ps := by
  rintro ⟨front, piece, back, -, hloose, -⟩
  cases piece with
  | text full => exact hloose
  | number n =>
    rw [Loose, n.mute_generic harm] at hloose
    exact Bool.false_ne_true hloose.1

/-- INTERNAL: pieces print nothing together exactly when each is silent. -/
theorem renderOn_eq_nil_iff (ps : List Piece) {room : ℕ} (hroom : 2 ≤ room) :
    renderOn build ps room = [] ↔ ∀ piece ∈ ps, Silent build piece := by
  induction ps with
  | nil => exact iff_of_true rfl fun piece hmem => absurd hmem List.not_mem_nil
  | cons piece ps ih =>
    rw [renderOn, andThen, List.append_eq_nil_iff, List.forall_mem_cons, ← ih]
    constructor
    · rintro ⟨hprint, hrest⟩
      rw [hprint] at hrest
      exact ⟨silent_of_printOn (by omega) hprint, hrest⟩
    · rintro ⟨hsilent, hrest⟩
      have hprint := printOn_of_silent hsilent (show room ≠ 1 by omega)
      rw [hprint]
      exact ⟨rfl, hrest⟩

/-- INTERNAL: the pieces in less room, with some to spare, by induction on the pieces. -/
theorem renderOn_sub_iff (ps : List Piece) {room k : ℕ} (hint : room < 2 ^ 31) (hk : 0 < k)
    (hspare : (renderOn build ps room).length + k < room) :
    renderOn build ps (room - k) = renderOn build ps room ↔
      ¬ (Stray build ps ∧ (renderOn build ps room).length + k + 1 = room) := by
  induction ps generalizing room with
  | nil =>
    refine iff_of_true rfl ?_
    rintro ⟨⟨front, piece, back, hsplit, -⟩, -⟩
    exact absurd hsplit.symm (List.append_ne_nil_of_right_ne_nil _ (List.cons_ne_nil _ _))
  | cons piece ps ih =>
    have hlength : (renderOn build (piece :: ps) room).length = (piece.printOn build room).length +
        (renderOn build ps (room - (piece.printOn build room).length)).length :=
      List.length_append
    by_cases hloose : Loose build piece ∧ room - k = 1
    · -- the sign takes the one character left, in the wide room nothing is printed
      have hempty : renderOn build (piece :: ps) room = [] :=
        List.eq_nil_of_length_eq_zero (by omega)
      have hsilent := (renderOn_eq_nil_iff (piece :: ps) (show 2 ≤ room by omega)).mp hempty
      rw [List.forall_mem_cons] at hsilent
      have hstray := stray_cons_iff.mpr (Or.inr ⟨hloose.1, hsilent.2⟩)
      refine iff_of_false ?_ (not_not_intro ⟨hstray, ?_⟩)
      · rw [hempty, hloose.2, renderOn, andThen, printOn_one_of_loose hloose.1]
        exact List.cons_ne_nil _ _
      · rw [hempty, List.length_nil]
        omega
    · have hsteady := printOn_sub_of_spare hint hk (by omega) hloose
      have hrest := @ih (room - (piece.printOn build room).length) (by omega) (by omega)
      rw [renderOn, andThen_sub_iff hsteady, hrest, not_iff_not, stray_cons_iff]
      rw [← renderOn]
      constructor
      · rintro ⟨hstray, hroom⟩
        exact ⟨Or.inl hstray, by omega⟩
      · rintro ⟨hstray | ⟨hfirst, hsilent⟩, hroom⟩
        · exact ⟨hstray, by omega⟩
        · -- nothing is printed at all, and the sign gets the last character
          have hempty := (renderOn_eq_nil_iff (piece :: ps) (show 2 ≤ room by omega)).mpr
            (List.forall_mem_cons.mpr ⟨hfirst.silent, hsilent⟩)
          rw [hempty, List.length_nil] at hroom
          exact absurd ⟨hfirst, by omega⟩ hloose

/-- INTERNAL: pieces behind pieces, with some room to spare. -/
theorem renderOn_append_iff (ps₁ ps₂ : List Piece) {room : ℕ} (hint : room < 2 ^ 31)
    (hspare : (renderOn build ps₁ room).length + (renderOn build ps₂ room).length < room) :
    renderOn build (ps₁ ++ ps₂) room = renderOn build ps₁ room ++ renderOn build ps₂ room ↔
      ¬ (renderOn build ps₁ room ≠ [] ∧
        (renderOn build ps₁ room).length + (renderOn build ps₂ room).length + 1 = room ∧
        Stray build ps₂) := by
  rw [renderOn_append, andThen, List.append_cancel_left_eq]
  by_cases hempty : renderOn build ps₁ room = []
  · -- the second pieces have all the room
    rw [hempty, List.length_nil, Nat.sub_zero]
    exact iff_of_true rfl fun h => h.1 rfl
  · rw [renderOn_sub_iff ps₂ hint (List.length_pos_of_ne_nil hempty) (by omega), not_iff_not]
    constructor
    · rintro ⟨hstray, hroom⟩
      exact ⟨hempty, by omega, hstray⟩
    · rintro ⟨-, hroom, hstray⟩
      exact ⟨hstray, by omega⟩

/-! ## Formats one behind the other -/

/-- INTERNAL: whether the end of the format is inside a conversion; `inside` holds for its
beginning. SRC: util/printf.c:120-146,195-197 -/
def endsInside : (fmt : List Byte) → (inside : Bool) → Bool
  | [], inside => inside
  | c :: fmt, false => endsInside fmt (c == ch '%')
  | c :: fmt, true => endsInside fmt (!Appends.Converts c)

example : endsInside (str "%5d%") false = true ∧ endsInside (str "%%%5lx") false = false := by decide

/-- INTERNAL: the arguments are one value of each type, and no more. -/
def ArgsFit (types : List ArgType) (args : List Arg) : Prop :=
  ArgsMatch types args ∧ args.length = types.length

/-- INTERNAL: the first argument has the first type, and the others fit the others. -/
theorem ArgsFit.uncons {t : ArgType} {types : List ArgType} {args : List Arg}
    (h : ArgsFit (t :: types) args) :
    ∃ a rest, args = a :: rest ∧ HasType a t ∧ ArgsFit types rest := by
  obtain ⟨a, rest, rfl, htype, hrest⟩ := h.1.uncons
  exact ⟨a, rest, rfl, htype, hrest, Nat.succ.inj h.2⟩

/-- INTERNAL: arguments of two formats fit the two formats' types. -/
theorem ArgsFit.append {types₁ types₂ : List ArgType} {args₁ args₂ : List Arg}
    (h₁ : ArgsFit types₁ args₁) (h₂ : ArgsFit types₂ args₂) :
    ArgsFit (types₁ ++ types₂) (args₁ ++ args₂) := by
  induction types₁ generalizing args₁ with
  | nil =>
    obtain rfl : args₁ = [] := List.eq_nil_of_length_eq_zero h₁.2
    exact h₂
  | cons t types₁ ih =>
    obtain ⟨a, args₁, rfl, htype, hrest⟩ := h₁.uncons
    have happend := ih hrest
    exact ⟨⟨htype, happend.1⟩, congrArg Nat.succ happend.2⟩

/-- INTERNAL: a conversion takes its argument and leaves what stands behind it.
SRC: util/printf.c:148-218 -/
theorem conversionPieces_append {c : Byte} (pad : Int) (padChar : Byte) {long : Bool}
    {types : List ArgType} {args : List Arg}
    (hargs : ArgsFit ((conversionType build long c).toList ++ types) args) (more : List Arg) :
    ∃ ps rest, conversionPieces build c pad padChar long args = some (ps, rest) ∧
      conversionPieces build c pad padChar long (args ++ more) = some (ps, rest ++ more) ∧
      ArgsFit types rest := by
  cases hc : switchCase c with
  | d | u =>
    simp only [conversionType, hc, Option.toList_some, List.singleton_append] at hargs
    obtain ⟨a, rest, rfl, htype, hrest⟩ := hargs.uncons
    obtain ⟨_, v, hfetch⟩ := fetch_of_type htype
    simp only [conversionPieces, hc, List.cons_append, hfetch, Option.map_some]
    exact ⟨_, rest, rfl, rfl, hrest⟩
  | b | x =>
    simp only [conversionType, hc, Option.toList_some, List.singleton_append] at hargs
    obtain ⟨a, rest, rfl, htype, hrest⟩ := hargs.uncons
    obtain ⟨v, _, hfetch⟩ := fetch_of_type htype
    simp only [conversionPieces, hc, List.cons_append, hfetch, Option.map_some]
    exact ⟨_, rest, rfl, rfl, hrest⟩
  | p =>
    simp only [conversionType, hc, Option.toList_some, List.singleton_append] at hargs
    obtain ⟨a, rest, rfl, htype, hrest⟩ := hargs.uncons
    obtain ⟨v, _, hfetch⟩ := fetch_of_type htype
    simp only [conversionPieces, hc, List.cons_append, fetchPointer, hfetch, Option.map_some]
    exact ⟨_, rest, rfl, rfl, hrest⟩
  | s =>
    simp only [conversionType, hc, Option.toList_some, List.singleton_append] at hargs
    obtain ⟨a, rest, rfl, htype, hrest⟩ := hargs.uncons
    obtain ⟨text, rfl, -⟩ := str_of_type htype
    simp only [conversionPieces, hc, List.cons_append, vaArgStr, Option.map_some]
    exact ⟨_, rest, rfl, rfl, hrest⟩
  | c =>
    simp only [conversionType, hc, Option.toList_some, List.singleton_append] at hargs
    obtain ⟨a, rest, rfl, htype, hrest⟩ := hargs.uncons
    obtain ⟨v, rfl⟩ := int_of_type htype
    simp only [conversionPieces, hc, List.cons_append, vaArgInt, Option.map_some]
    exact ⟨_, rest, rfl, rfl, hrest⟩
  | nul | zero | digit | l | other =>
    simp only [conversionType, hc, Option.toList_none, List.nil_append] at hargs
    simp only [conversionPieces, hc]
    exact ⟨_, args, rfl, rfl, hargs⟩

/-- INTERNAL: only the terminating zero ends the format. -/
theorem switchCase_ne_nul {c : Byte} (hc : c ≠ 0) : switchCase c ≠ .nul := by
  rw [switchCase, if_neg hc]
  repeat' split
  all_goals exact fun h => SwitchCase.noConfusion h

/-- INTERNAL: the argument types of a format behind another one. -/
theorem argTypes_append {fmt : List Byte} (hnul : 0 ∉ fmt) (spec : Option Bool)
    (hend : endsInside fmt spec.isSome = false) (rest : List Byte) :
    argTypes build (fmt ++ rest) spec =
      argTypes build (fmt ++ [0]) spec ++ argTypes build rest none := by
  induction fmt generalizing spec with
  | nil =>
    cases spec with
    | none => rfl
    | some long => exact Bool.noConfusion hend
  | cons c fmt ih =>
    rw [List.mem_cons, not_or] at hnul
    have hc : c ≠ 0 := Ne.symm hnul.1
    rw [List.cons_append, List.cons_append]
    cases spec with
    | none =>
      rw [argTypes, argTypes, if_neg hc, if_neg hc]
      rw [Option.isSome_none, endsInside] at hend
      by_cases hpercent : c = ch '%'
      · rw [if_pos hpercent, if_pos hpercent]
        refine ih hnul.2 (some false) ?_
        rw [← hend, hpercent]
        rfl
      · rw [beq_false_of_ne hpercent] at hend
        rw [if_neg hpercent, if_neg hpercent]
        exact ih hnul.2 none hend
    | some long =>
      rw [Option.isSome_some, endsInside, Appends.Converts] at hend
      rw [argTypes, argTypes]
      cases hcase : switchCase c with
      | nul => exact absurd hcase (switchCase_ne_nul hc)
      | zero | digit | l =>
        rw [hcase] at hend
        exact ih hnul.2 (some _) hend
      | d | u | b | x | p | s | c | other =>
        rw [hcase] at hend
        have hrest := ih hnul.2 none hend
        simp only [hrest, List.append_assoc]

/-- INTERNAL: nothing of a conversion is left where the second format begins, by induction on
the first. SRC: util/printf.c:120-229 -/
theorem pieces_append {fmt : List Byte} (hnul : 0 ∉ fmt) (mode : Mode)
    (hend : endsInside fmt (Mode.longFlag mode).isSome = false) {args : List Arg}
    (hargs : ArgsFit (argTypes build (fmt ++ [0]) (Mode.longFlag mode)) args) (rest : List Byte)
    (more : List Arg) :
    pieces build (fmt ++ rest) mode (args ++ more) =
      pieces build (fmt ++ [0]) mode args ++ pieces build rest .text more := by
  induction fmt generalizing mode args with
  | nil =>
    cases mode with
    | text =>
      obtain rfl : args = [] := List.eq_nil_of_length_eq_zero hargs.2
      rfl
    | spec pad padChar long => exact Bool.noConfusion hend
  | cons c fmt ih =>
    rw [List.mem_cons, not_or] at hnul
    have hc : c ≠ 0 := Ne.symm hnul.1
    rw [List.cons_append] at hargs
    rw [List.cons_append, List.cons_append]
    cases mode with
    | text =>
      rw [Mode.longFlag, argTypes, if_neg hc] at hargs
      rw [pieces, pieces, if_neg hc, if_neg hc]
      by_cases hpercent : c = ch '%'
      · rw [if_pos hpercent] at hargs ⊢
        rw [if_pos hpercent]
        refine ih hnul.2 .start ?_ hargs
        rw [← hend, hpercent]
        rfl
      · rw [if_neg hpercent] at hargs ⊢
        rw [if_neg hpercent, List.cons_append, ih hnul.2 .text ?_ hargs]
        rw [← hend, Mode.longFlag, Option.isSome_none, endsInside, beq_false_of_ne hpercent]
    | spec pad padChar long =>
      rw [Mode.longFlag, argTypes] at hargs
      rw [Mode.longFlag, Option.isSome_some, endsInside, Appends.Converts] at hend
      rw [pieces, pieces]
      cases hcase : switchCase c with
      | nul => exact absurd hcase (switchCase_ne_nul hc)
      | zero =>
        rw [hcase] at hargs hend
        by_cases hpad : 0 < pad
        · simp only [if_pos hpad]
          exact ih hnul.2 (.spec _ _ _) hend hargs
        · simp only [if_neg hpad]
          exact ih hnul.2 (.spec _ _ _) hend hargs
      | digit d =>
        rw [hcase] at hargs hend
        exact ih hnul.2 (.spec _ _ _) hend hargs
      | l =>
        rw [hcase] at hargs hend
        exact ih hnul.2 (.spec _ _ _) hend hargs
      | d | u | b | x | p | s | c | other =>
        rw [hcase] at hargs hend
        obtain ⟨ps, left, hpieces, hmore, hleft⟩ :=
          conversionPieces_append pad padChar hargs more
        simp only [hpieces, hmore]
        rw [List.append_assoc, ih hnul.2 .text hend hleft]

/-! ## Calls -/

section Calls

variable {fmt₁ fmt₂ : List Byte} {args₁ args₂ : List Arg}

/-- INTERNAL: two formats without a zero, one behind the other, end at the zero behind them. -/
theorem nulTerminated_append (hnul₁ : 0 ∉ fmt₁) (hnul₂ : 0 ∉ fmt₂) :
    NulTerminated (fmt₁ ++ fmt₂ ++ [0]) := by
  refine ⟨fmt₁ ++ fmt₂, ?_, rfl⟩
  rw [List.mem_append, not_or]
  exact ⟨hnul₁, hnul₂⟩

/-- INTERNAL: the arguments of two formats match their composition, where the first ends outside a
conversion. -/
theorem argsMatch_append (hnul₁ : 0 ∉ fmt₁) (hend : endsInside fmt₁ false = false)
    (hargs₁ : ArgsFit (argTypes build (fmt₁ ++ [0]) none) args₁)
    (hargs₂ : ArgsFit (argTypes build (fmt₂ ++ [0]) none) args₂) :
    ArgsMatch (argTypes build (fmt₁ ++ fmt₂ ++ [0]) none) (args₁ ++ args₂) := by
  rw [List.append_assoc, argTypes_append hnul₁ none hend]
  exact (hargs₁.append hargs₂).1

/-- INTERNAL: the text of two formats in one call. -/
theorem writtenText_append (b : TextBuffer) {size : ℕ} (hsize : 1 ≤ size) (hnul₁ : 0 ∉ fmt₁)
    (hnul₂ : 0 ∉ fmt₂) (hend : endsInside fmt₁ false = false)
    (hargs₁ : ArgsFit (argTypes build (fmt₁ ++ [0]) none) args₁)
    (hargs₂ : ArgsFit (argTypes build (fmt₂ ++ [0]) none) args₂) :
    writtenText build b size (fmt₁ ++ fmt₂ ++ [0]) (args₁ ++ args₂) =
      some (renderOn build (pieces build (fmt₁ ++ [0]) .text args₁ ++
        pieces build (fmt₂ ++ [0]) .text args₂) (size - 1)) := by
  have hargs := argsMatch_append hnul₁ hend hargs₁ hargs₂
  have hboth := nulTerminated_append hnul₁ hnul₂
  rw [writtenText_eq_renderOn build b size hsize _ hboth _ hargs, List.append_assoc,
    pieces_append hnul₁ .text hend hargs₁]

/-- INTERNAL: a stream puts the text of a call that has no NUL. SRC: util/printf.c:258-280 -/
theorem fprintf_of_writtenText {fmt text : List Byte} {args : List Arg} (hfmt : NulTerminated fmt)
    (hargs : ArgsMatch (argTypes build fmt none) args) (hnul : 0 ∉ text) (frame : ℕ → Byte)
    (htext : writtenText build ⟨frame, []⟩ 0x1000 fmt args = some text) :
    fprintf build (some ⟨true⟩) frame fmt args = some (text.length, text) := by
  obtain ⟨content, -, rfl⟩ := hfmt
  obtain ⟨count, b', hloop, hcount, hzero, -⟩ := vsnprintfLoop_terminated build
    (show 1 ≤ 0x1000 by decide) ⟨frame, []⟩ content .text args 0 ⟨frame, []⟩ (Nat.zero_le _) hargs
    (WritesIn.refl _ _ _)
  have hcall : vsnprintf build ⟨frame, []⟩ 0x1000 (content ++ [0]) args = some (count, b') := by
    rw [vsnprintf, if_neg (by decide), hloop]
  rw [writtenText, hcall, Option.map_some, Option.some.injEq] at htext
  have hlength : text.length = count := by
    rw [← htext, Buffer.length_content]
  have hput : putUntilNul b' 0x1000 0 = text := by
    rw [putUntilNul_content (show count < 0x1000 by omega) (by rw [htext]; exact hnul)
      (by rw [Nat.zero_add]; exact hzero), htext]
  rw [fprintf, if_pos rfl, hcall, hlength]
  exact congrArg (fun t => some (count, t)) hput

/-- INTERNAL: one call puts what two calls put, where the texts have no NUL and no sign is
stray. -/
theorem fprintf_append (frame frame₁ frame₂ : ℕ → Byte) (hnul₁ : 0 ∉ fmt₁) (hnul₂ : 0 ∉ fmt₂)
    (hend : endsInside fmt₁ false = false)
    (hargs₁ : ArgsFit (argTypes build (fmt₁ ++ [0]) none) args₁)
    (hargs₂ : ArgsFit (argTypes build (fmt₂ ++ [0]) none) args₂) {text₁ text₂ : List Byte}
    (htext₁ : writtenText build ⟨frame₁, []⟩ 0x1000 (fmt₁ ++ [0]) args₁ = some text₁)
    (htext₂ : writtenText build ⟨frame₂, []⟩ 0x1000 (fmt₂ ++ [0]) args₂ = some text₂)
    (hplain : 0 ∉ text₁ ++ text₂) (hspare : text₁.length + text₂.length < 0x1000 - 1)
    (hstray : ¬ Stray build (pieces build (fmt₂ ++ [0]) .text args₂)) :
    fprintf build (some ⟨true⟩) frame₁ (fmt₁ ++ [0]) args₁ = some (text₁.length, text₁) ∧
      fprintf build (some ⟨true⟩) frame₂ (fmt₂ ++ [0]) args₂ = some (text₂.length, text₂) ∧
      fprintf build (some ⟨true⟩) frame (fmt₁ ++ fmt₂ ++ [0]) (args₁ ++ args₂) =
        some (text₁.length + text₂.length, text₁ ++ text₂) := by
  have hargs := argsMatch_append hnul₁ hend hargs₁ hargs₂
  have hboth := nulTerminated_append hnul₁ hnul₂
  have hjoined := writtenText_append ⟨frame, []⟩ (show 1 ≤ 0x1000 by decide) hnul₁ hnul₂ hend
    hargs₁ hargs₂
  have hplain₁ : 0 ∉ text₁ := fun h => hplain (List.mem_append_left _ h)
  have hplain₂ : 0 ∉ text₂ := fun h => hplain (List.mem_append_right _ h)
  refine ⟨fprintf_of_writtenText ⟨fmt₁, hnul₁, rfl⟩ hargs₁.1 hplain₁ frame₁ htext₁,
    fprintf_of_writtenText ⟨fmt₂, hnul₂, rfl⟩ hargs₂.1 hplain₂ frame₂ htext₂, ?_⟩
  rw [writtenText_eq_renderOn build _ _ (by decide) _ ⟨fmt₁, hnul₁, rfl⟩ args₁ hargs₁.1,
    Option.some.injEq] at htext₁
  rw [writtenText_eq_renderOn build _ _ (by decide) _ ⟨fmt₂, hnul₂, rfl⟩ args₂ hargs₂.1,
    Option.some.injEq] at htext₂
  rw [(renderOn_append_iff _ _ (by decide) (by rw [htext₁, htext₂]; exact hspare)).mpr
    fun h => hstray h.2.2, htext₁, htext₂] at hjoined
  rw [← List.length_append]
  exact fprintf_of_writtenText hboth hargs hplain frame hjoined

end Calls

/-- SOURCE: util/printf.c:37-233 — **composition**: on both builds, where two formats written
separately leave a character of the size free, the second behind the first writes the two texts
one behind the other, except for a stray sign of the second that would get the one character
left behind a text of the first. -/
theorem composes_iff (build : Build) (b b₁ b₂ : TextBuffer) (size : ℕ) (hint : size < 2 ^ 31)
    (fmt₁ fmt₂ : List Byte) (hnul₁ : 0 ∉ fmt₁) (hnul₂ : 0 ∉ fmt₂)
    (hend : endsInside fmt₁ false = false) (args₁ args₂ : List Arg)
    (hargs₁ : ArgsFit (argTypes build (fmt₁ ++ [0]) none) args₁)
    (hargs₂ : ArgsFit (argTypes build (fmt₂ ++ [0]) none) args₂) (text₁ text₂ : List Byte)
    (htext₁ : writtenText build b₁ size (fmt₁ ++ [0]) args₁ = some text₁)
    (htext₂ : writtenText build b₂ size (fmt₂ ++ [0]) args₂ = some text₂)
    (hspare : text₁.length + text₂.length < size - 1) :
    writtenText build b size (fmt₁ ++ fmt₂ ++ [0]) (args₁ ++ args₂) = some (text₁ ++ text₂) ↔
      ¬ (text₁ ≠ [] ∧ text₁.length + text₂.length + 2 = size ∧
        Stray build (pieces build (fmt₂ ++ [0]) .text args₂)) := by
  have hsize : 1 ≤ size := by omega
  rw [writtenText_eq_renderOn build b₁ size hsize _ ⟨fmt₁, hnul₁, rfl⟩ args₁ hargs₁.1,
    Option.some.injEq] at htext₁
  rw [writtenText_eq_renderOn build b₂ size hsize _ ⟨fmt₂, hnul₂, rfl⟩ args₂ hargs₂.1,
    Option.some.injEq] at htext₂
  have hpieces := renderOn_append_iff (pieces build (fmt₁ ++ [0]) .text args₁)
    (pieces build (fmt₂ ++ [0]) .text args₂) (show size - 1 < 2 ^ 31 by omega)
    (by rw [htext₁, htext₂]; exact hspare)
  have hroom : text₁.length + text₂.length + 1 = size - 1 ↔
      text₁.length + text₂.length + 2 = size := by omega
  rw [htext₁, htext₂, hroom] at hpieces
  rw [writtenText_append b hsize hnul₁ hnul₂ hend hargs₁ hargs₂, Option.some.injEq, hpieces]

/-- INTERNAL: a name with its number, on the generic build. -/
theorem composes_iff_name :
    writtenText ⟨false, true⟩ ⟨fun _ => 0xaa, []⟩ 5 (str "n=" ++ str "%d" ++ [0]) ([] ++ [.int 7]) =
        some (str "n=" ++ str "7") ↔
      ¬ (str "n=" ≠ [] ∧ (str "n=").length + (str "7").length + 2 = 5 ∧
        Stray ⟨false, true⟩ (pieces ⟨false, true⟩ (str "%d" ++ [0]) .text [.int 7])) :=
  composes_iff ⟨false, true⟩ ⟨fun _ => 0xaa, []⟩ ⟨fun _ => 0, []⟩ ⟨fun _ => 0, []⟩ 5 (by decide)
    (str "n=") (str "%d") (by decide) (by decide) (by decide) [] [.int 7] ⟨trivial, rfl⟩
    ⟨⟨trivial, trivial⟩, rfl⟩ (str "n=") (str "7") (by decide) (by decide) (by decide)

/-- INTERNAL: on an `__ARM` build, `a` alone and minus five alone print `a` and nothing; in one
call they print `a-`. -/
theorem composes_fails :
    ¬ ∀ (build : Build) (b b₁ b₂ : TextBuffer) (size : ℕ) (fmt₁ fmt₂ : List Byte)
      (args₁ args₂ : List Arg) (text₁ text₂ : List Byte), size < 2 ^ 31 → 0 ∉ fmt₁ → 0 ∉ fmt₂ →
      endsInside fmt₁ false = false → ArgsFit (argTypes build (fmt₁ ++ [0]) none) args₁ →
      ArgsFit (argTypes build (fmt₂ ++ [0]) none) args₂ →
      writtenText build b₁ size (fmt₁ ++ [0]) args₁ = some text₁ →
      writtenText build b₂ size (fmt₂ ++ [0]) args₂ = some text₂ →
      text₁.length + text₂.length < size - 1 →
      writtenText build b size (fmt₁ ++ fmt₂ ++ [0]) (args₁ ++ args₂) = some (text₁ ++ text₂) := by
  intro h
  have hjoined := h ⟨true, false⟩ ⟨fun _ => 0, []⟩ ⟨fun _ => 0, []⟩ ⟨fun _ => 0, []⟩ 3 (str "a")
    (str "%d") [] [.int (-5)] (str "a") [] (by decide) (by decide) (by decide) (by decide)
    ⟨trivial, rfl⟩ ⟨⟨trivial, trivial⟩, rfl⟩ (by decide) (by decide) (by decide)
  have hprinted : writtenText ⟨true, false⟩ ⟨fun _ => 0, []⟩ 3 (str "a" ++ str "%d" ++ [0])
      ([] ++ [.int (-5)]) = some (str "a-") := by decide
  rw [hprinted] at hjoined
  exact absurd hjoined (by decide)

end Simbench.Analysis.PrintfComposition
