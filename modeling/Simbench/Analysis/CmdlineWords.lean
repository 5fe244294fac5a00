import Simbench.Analysis.CmdlineScan

/-!
# Which lines switch the framebuffer on

A space ends a piece, so the word `fb` is always found. The scan has no notion of the start of a
word, so it finds `fb` at the end of other words as well, and behind an unfinished piece it goes on
to whatever stands behind the terminator.
-/

set_option autoImplicit false

namespace Simbench.Analysis.CmdlineWords

open Simbench.Library.Loops Simbench.Program.X86Console Simbench.Analysis.CmdlineScan
open Simbench.Program.Printf (Byte ch)

/-! ## Words -/

/-- INTERNAL: where a word stands: the first one at the start, the others behind a separator. -/
theorem exists_of_splitOn {α : Type} [BEq α] [LawfulBEq α] {a : α} {l head : List α}
    {tail : List (List α)} (h : l.splitOn a = head :: tail) :
    (∃ after, l = head ++ after ∧ (after = [] ∨ after.head? = some a)) ∧
      ∀ w ∈ tail, ∃ before after, l = before ++ (w ++ after) ∧ before.getLast? = some a ∧
        (after = [] ∨ after.head? = some a) := by
  induction l generalizing head tail with
  | nil =>
    rw [List.splitOn_nil, List.cons.injEq] at h
    obtain ⟨rfl, rfl⟩ := h
    exact ⟨⟨[], rfl, Or.inl rfl⟩, fun w hw => by cases hw⟩
  | cons x l ih =>
    obtain ⟨head', tail', hl⟩ := List.exists_cons_of_ne_nil
      (List.splitOnP_ne_nil (fun y => y == a) l)
    obtain ⟨⟨after, hhead, hafter⟩, htail⟩ := ih hl
    rw [List.splitOn_eq_splitOnP, List.splitOnP_cons_eq_if_modifyHead, hl] at h
    split at h
    · next hx =>
      obtain rfl := eq_of_beq hx
      obtain ⟨rfl, rfl⟩ := List.cons.inj h
      refine ⟨⟨x :: l, rfl, Or.inr rfl⟩, fun w hw => ?_⟩
      rcases List.mem_cons.mp hw with rfl | hw
      · exact ⟨[x], after, congrArg _ hhead, rfl, hafter⟩
      · obtain ⟨before, after', hline, hlast, hafter'⟩ := htail w hw
        refine ⟨x :: before, after', congrArg _ hline, ?_, hafter'⟩
        rw [List.getLast?_cons, hlast, Option.getD_some]
    · obtain ⟨rfl, rfl⟩ := List.cons.inj h
      refine ⟨⟨after, congrArg _ hhead, hafter⟩, fun w hw => ?_⟩
      obtain ⟨before, after', hline, hlast, hafter'⟩ := htail w hw
      refine ⟨x :: before, after', congrArg _ hline, ?_, hafter'⟩
      rw [List.getLast?_cons, hlast, Option.getD_some]

/-- INTERNAL: a piece of a split list stands in it between separators or at its ends. -/
theorem exists_of_mem_splitOn {α : Type} [BEq α] [LawfulBEq α] {a : α} {l w : List α}
    (h : w ∈ l.splitOn a) : ∃ before after, l = before ++ (w ++ after) ∧
      (before = [] ∨ before.getLast? = some a) ∧ (after = [] ∨ after.head? = some a) := by
  obtain ⟨head, tail, hl⟩ := List.exists_cons_of_ne_nil (List.splitOnP_ne_nil (fun y => y == a) l)
  obtain ⟨⟨after, hhead, hafter⟩, htail⟩ := exists_of_splitOn hl
  have hmem : w ∈ head :: tail := hl ▸ h
  rcases List.mem_cons.mp hmem with rfl | hw
  · exact ⟨[], after, hhead, Or.inl rfl, hafter⟩
  · obtain ⟨before, after', hline, hlast, hafter'⟩ := htail w hw
    exact ⟨before, after', hline, Or.inr hlast, hafter'⟩

/-- INTERNAL: the option `fb`, as the characters of its word. SRC: arch/x86_64/arch.c:37-56 -/
def fb : List Byte := [ch 'f', ch 'b']

/-- INTERNAL: whole pieces without `fb` and a space. -/
abbrev Quiet : List Byte → Prop := Pieces fun c => c ≠ ch ' '

/-- INTERNAL: a space ends a piece. -/
theorem whole_of_space {before : List Byte}
    (h : before = [] ∨ before.getLast? = some (ch ' ')) : Whole before := by
  rcases h with rfl | hlast
  · exact .nil
  · rcases whole_or_unfinished before with hwhole | ⟨start, tail, rfl, -, rfl | rfl⟩
    · exact hwhole
    · rw [List.getLast?_append] at hlast
      have hf : some (ch 'f') = some (ch ' ') := hlast
      exact absurd hf (by decide)
    · rw [List.getLast?_append] at hlast
      have hb : some (ch 'b') = some (ch ' ') := hlast
      exact absurd hb (by decide)

/-- INTERNAL: whole pieces that are not quiet have `fb` and a space between others. -/
theorem quiet_or_fb {l : List Byte} (h : Whole l) : Quiet l ∨
    ∃ before after, l = before ++ ([ch 'f', ch 'b', ch ' '] ++ after) ∧ Whole before := by
  induction h with
  | nil => exact Or.inl .nil
  | @other c l hf hl ih =>
    rcases ih with hquiet | ⟨before, after, rfl, hbefore⟩
    · exact Or.inl (.other hf hquiet)
    · exact Or.inr ⟨c :: before, after, rfl, .other hf hbefore⟩
  | @f c l hb hl ih =>
    rcases ih with hquiet | ⟨before, after, rfl, hbefore⟩
    · exact Or.inl (.f hb hquiet)
    · exact Or.inr ⟨ch 'f' :: c :: before, after, rfl, .f hb hbefore⟩
  | @fb c l _ hl ih =>
    by_cases hspace : c = ch ' '
    · subst hspace
      exact Or.inr ⟨[], l, rfl, .nil⟩
    · rcases ih with hquiet | ⟨before, after, rfl, hbefore⟩
      · exact Or.inl (.fb hspace hquiet)
      · exact Or.inr ⟨ch 'f' :: ch 'b' :: c :: before, after, rfl, .fb trivial hbefore⟩

/-! ## The flag -/

/-- INTERNAL: a scan that has set the flag returns with it set: nothing clears it. -/
theorem parses_set {mem : ℕ → Byte} {s r : Scan} (hs : s.useFramebuffer = 1)
    (h : Parses mem s r) : r.useFramebuffer = 1 := by
  refine Returns.invariant (fun s => s.useFramebuffer = 1) (fun _ hs => hs) (fun s hs => ?_) hs h
  unfold scanOption Scan.next
  dsimp only
  split_ifs <;> first | exact hs | rfl

/-- INTERNAL: **`fb` and a space or the terminator**, behind whole pieces, set the flag. -/
theorem sets_of_fb {line : CommandLine} (rest : ℕ → Byte) (before after : List Byte) {c : Byte}
    (hbefore : Whole before) (hc : c = ch ' ' ∨ c = 0)
    (hline : line.bytes ++ [0] = before ++ ([ch 'f', ch 'b', c] ++ after))
    {behind : List Byte} (hbehind : line.bytes = before ++ behind) {r : Scan}
    (h : Parses (line.memory rest) .start r) : r.useFramebuffer = 1 := by
  obtain ⟨flag, s, hstart, -⟩ := advances_start rest hbefore hbehind
  have hat := at_line rest before after hline (hstart.cmdline.trans (Nat.zero_add _))
  obtain ⟨s', hround⟩ := advances_fb (hat 0 _ rfl) (hat 1 _ rfl)
  have hthird : line.memory rest (s.cmdline + 2) = c := hat 2 c rfl
  rw [hthird, if_pos hc] at hround
  exact parses_set hround.useFramebuffer ((hround.returns r).mp ((hstart.returns r).mp h))

/-- INTERNAL: **the word `fb`** is found, wherever it stands. -/
theorem sets_of_word {line : CommandLine} (rest : ℕ → Byte) (hword : fb ∈ line.words) {r : Scan}
    (h : Parses (line.memory rest) .start r) : r.useFramebuffer = 1 := by
  obtain ⟨before, after, hline, hbefore, hafter⟩ := exists_of_mem_splitOn hword
  have hwhole := whole_of_space hbefore
  rcases hafter with rfl | hafter
  · refine sets_of_fb rest before [] hwhole (Or.inr rfl) ?_ hline h
    rw [hline, fb]
    simp
  · obtain ⟨after', rfl⟩ : ∃ after', after = ch ' ' :: after' := by
      cases after with
      | nil => cases hafter
      | cons c after' => exact ⟨after', by rw [Option.some.inj hafter]⟩
    refine sets_of_fb rest before (after' ++ [0]) hwhole (Or.inl rfl) ?_ hline h
    rw [hline, fb]
    simp

/-- INTERNAL: what the memory behind a terminator may hold: an option, and a terminator. -/
def optionBehind (k : ℕ) : Byte := (fb ++ [0]).getD k 0

/-- INTERNAL: behind an unfinished piece the scan finds that option. -/
theorem parses_optionBehind {line : CommandLine} {before tail : List Byte} (hbefore : Whole before)
    (htail : tail = [ch 'f'] ∨ tail = [ch 'f', ch 'b']) (hline : line.bytes = before ++ tail) :
    ∃ r, Parses (line.memory optionBehind) .start r ∧ r.useFramebuffer = 1 := by
  obtain ⟨flag, s, h, -⟩ := advances_unfinished optionBehind hbefore htail hline
  have hbehind : ∀ k, line.memory optionBehind (s.cmdline + k) = optionBehind k := by
    intro k
    rw [h.cmdline]
    exact (congrArg _ (by simp [Scan.start])).trans (memory_behind line optionBehind k)
  obtain ⟨s', h'⟩ := advances_fb ((hbehind 0).trans rfl) ((hbehind 1).trans rfl)
  have hnul : line.memory optionBehind s'.cmdline = 0 := by
    rw [h'.cmdline, hbehind 3]
    rfl
  have hstop : (more (line.memory optionBehind) s').1 = false := by
    rw [more_fst, hnul]
    decide
  refine ⟨_, (h.returns _).mpr ((h'.returns _).mpr ((returns_of_stop hstop).mpr rfl)), ?_⟩
  exact h'.useFramebuffer.trans (if_pos (Or.inr (hbehind 2)))

/-- INTERNAL: behind an unfinished piece the scan never ends where no byte is zero. -/
theorem endless_unfinished {line : CommandLine} {before tail : List Byte} (hbefore : Whole before)
    (htail : tail = [ch 'f'] ∨ tail = [ch 'f', ch 'b']) (hline : line.bytes = before ++ tail)
    (r : Scan) : ¬ Parses (line.memory fun _ => 1) .start r := by
  obtain ⟨flag, s, h, -⟩ := advances_unfinished (fun _ => 1) hbefore htail hline
  have hcmdline : s.cmdline = 0 + (line.bytes.length + 1) := h.cmdline
  rw [h.returns r]
  refine not_returns (fun s => line.bytes.length < s.cmdline) (fun s hs => ?_) (fun s hs => ?_)
    (by omega)
  · have hone : line.memory (fun _ => 1) s.cmdline = 1 := by
      obtain ⟨k, hk⟩ := Nat.exists_eq_add_of_lt hs
      have hbehind := memory_behind line (fun _ => 1) k
      rwa [Nat.add_right_comm, ← hk] at hbehind
    rw [more_fst, hone]
    decide
  · unfold scanOption Scan.next more Scan.peek
    dsimp only
    split_ifs <;> dsimp only <;> omega

/-! ## Recognition -/

/-- INTERNAL: whenever the scan returns, the flag tells whether `fb` is one of the words. -/
def RecognisesFb (line : CommandLine) : Prop :=
  ∀ rest fuel r, parseCmdline (line.memory rest) fuel = some r →
    (r.useFramebuffer = 1 ↔ fb ∈ line.words)

/-- INTERNAL: the scan returns, whatever stands behind the line, and its flag tells whether `fb` is
a word. -/
def AlwaysRecognisesFb (line : CommandLine) : Prop :=
  ∀ rest, ∃ fuel r, parseCmdline (line.memory rest) fuel = some r ∧
    (r.useFramebuffer = 1 ↔ fb ∈ line.words)

/-- INTERNAL: a line with the word `fb` in it always sets the flag. -/
theorem recognises_of_word {line : CommandLine} (h : fb ∈ line.words) : RecognisesFb line := by
  intro rest fuel r hrun
  exact iff_of_true (sets_of_word rest h ⟨fuel, hrun⟩) h

/-- INTERNAL: a line of whole pieces without `fb` and a space is scanned to its end with the flag
clear. -/
theorem recognises_of_quiet {line : CommandLine} (h : Quiet line.bytes) : RecognisesFb line := by
  intro rest fuel r hrun
  obtain ⟨r', hparses, -, hflag⟩ := parses_whole rest h
  have hzero : r.useFramebuffer = 0 := by
    rw [Returns.unique ⟨fuel, hrun⟩ hparses]
    exact hflag fun _ hc => hc
  have hone : r.useFramebuffer ≠ 1 := by
    rw [hzero]
    decide
  exact iff_of_false hone fun hword => hone (sets_of_word rest hword ⟨fuel, hrun⟩)

/-- INTERNAL: any other line switches the framebuffer on in some memory. -/
theorem exists_sets {line : CommandLine} (h : ¬ Quiet line.bytes) :
    ∃ rest r, Parses (line.memory rest) .start r ∧ r.useFramebuffer = 1 := by
  rcases whole_or_unfinished line.bytes with hwhole | ⟨before, tail, hline, hbefore, htail⟩
  · rcases quiet_or_fb hwhole with hquiet | ⟨before, after, hline, hbefore⟩
    · exact absurd hquiet h
    · obtain ⟨r, hparses, -, -⟩ := parses_whole (fun _ => 0) hwhole
      refine ⟨_, r, hparses, sets_of_fb _ before (after ++ [0]) hbefore (Or.inl rfl) ?_ hline hparses⟩
      rw [hline]
      simp
  · exact ⟨optionBehind, parses_optionBehind hbefore htail hline⟩

/-- INTERNAL: a line on which the scan tells the words right has the word or is quiet. -/
theorem word_or_quiet {line : CommandLine} (h : RecognisesFb line) :
    fb ∈ line.words ∨ Quiet line.bytes := by
  by_contra hnot
  rw [not_or] at hnot
  obtain ⟨rest, r, ⟨fuel, hrun⟩, hset⟩ := exists_sets hnot.2
  exact hnot.1 ((h rest fuel r hrun).mp hset)

/-- INTERNAL: a scan that always returns the right flag is right whenever it returns. -/
theorem AlwaysRecognisesFb.recognises {line : CommandLine} (h : AlwaysRecognisesFb line) :
    RecognisesFb line := by
  intro rest fuel r hrun
  obtain ⟨fuel', r', hrun', hflag⟩ := h rest
  rwa [Returns.unique ⟨fuel, hrun⟩ ⟨fuel', hrun'⟩]

/-- SOURCE: arch/x86_64/arch.c:37-55; platform/x86_64/native/platform.c:14-22 — **the option**:
the flag of every scan that returns is right exactly when `fb` is one of the words or the line is
made of whole pieces without `fb` and a space; and every scan returns with the right flag exactly
when the pieces are whole besides. -/
theorem recognisesFb_iff (line : CommandLine) :
    (RecognisesFb line ↔ fb ∈ line.words ∨ Quiet line.bytes) ∧
      (AlwaysRecognisesFb line ↔ Whole line.bytes ∧ (fb ∈ line.words ∨ Quiet line.bytes)) := by
  have hrecognises : fb ∈ line.words ∨ Quiet line.bytes → RecognisesFb line := by
    rintro (hword | hquiet)
    · exact recognises_of_word hword
    · exact recognises_of_quiet hquiet
  refine ⟨⟨word_or_quiet, hrecognises⟩, ⟨fun halways => ⟨?_, word_or_quiet halways.recognises⟩, ?_⟩⟩
  · rcases whole_or_unfinished line.bytes with hwhole | ⟨before, tail, hline, hbefore, htail⟩
    · exact hwhole
    · obtain ⟨fuel, r, hrun, -⟩ := halways fun _ => 1
      exact absurd ⟨fuel, hrun⟩ (endless_unfinished hbefore htail hline r)
  · rintro ⟨hwhole, hline⟩ rest
    obtain ⟨r, ⟨fuel, hrun⟩, -, -⟩ := parses_whole rest hwhole
    exact ⟨fuel, r, hrun, hrecognises hline rest fuel r hrun⟩

/-- INTERNAL: a line of `xfb` and a space. -/
def suffixLine : CommandLine := ⟨[ch 'x', ch 'f', ch 'b', ch ' '], by decide⟩

/-- INTERNAL: its words are `xfb` and the empty one, and the flag is set. -/
theorem recognisesFb_fails : suffixLine.words = [[ch 'x', ch 'f', ch 'b'], []] ∧
    (∀ rest, ∃ fuel r, parseCmdline (suffixLine.memory rest) fuel = some r ∧
      r.useFramebuffer = 1) ∧ ¬ RecognisesFb suffixLine := by
  have hwords : suffixLine.words = [[ch 'x', ch 'f', ch 'b'], []] := by decide
  have hx : Whole [ch 'x'] := .other (by decide) .nil
  have hsets : ∀ rest, ∃ fuel r, parseCmdline (suffixLine.memory rest) fuel = some r ∧
      r.useFramebuffer = 1 := by
    intro rest
    have hwhole : Whole suffixLine.bytes := .other (by decide) (.fb trivial .nil)
    obtain ⟨r, ⟨fuel, hrun⟩, -, -⟩ := parses_whole rest hwhole
    exact ⟨fuel, r, hrun, sets_of_fb rest [ch 'x'] [0] hx (Or.inl rfl) rfl rfl ⟨fuel, hrun⟩⟩
  refine ⟨hwords, hsets, fun h => ?_⟩
  obtain ⟨fuel, r, hrun, hset⟩ := hsets fun _ => 0
  have hword := (h _ fuel r hrun).mp hset
  rw [hwords] at hword
  exact absurd hword (by decide)

end Simbench.Analysis.CmdlineWords
