import Simbench.Program.X86Console

/-!
# Where the command-line scan stops

A round of the scan takes a piece of the line: a byte other than `f`, `f` and a byte other than
`b`, or `fb` and any byte. The scan stops at the terminator exactly when the line is made of whole
pieces; behind an unfinished one it has consumed the terminator as a part of it.
-/

set_option autoImplicit false

namespace Simbench.Analysis.CmdlineScan

open Simbench.Library.Loops Simbench.Program.X86Console
open Simbench.Program.Printf (Byte ch)

/-! ## Pieces -/

/-- INTERNAL: a line made of whole pieces, with a condition on the byte behind `fb`. -/
inductive Pieces (third : Byte → Prop) : List Byte → Prop
  | nil : Pieces third []
  | other {c : Byte} {rest : List Byte} : c ≠ ch 'f' → Pieces third rest → Pieces third (c :: rest)
  | f {c : Byte} {rest : List Byte} : c ≠ ch 'b' → Pieces third rest →
      Pieces third (ch 'f' :: c :: rest)
  | fb {c : Byte} {rest : List Byte} : third c → Pieces third rest →
      Pieces third (ch 'f' :: ch 'b' :: c :: rest)

/-- INTERNAL: pieces with any byte behind their `fb`. -/
abbrev Whole : List Byte → Prop := Pieces fun _ => True

/-- INTERNAL: a line is made of whole pieces, up to an `f` or an `fb` at its end. Induction on the
length. -/
theorem whole_or_unfinished (bytes : List Byte) : Whole bytes ∨
    ∃ before tail, bytes = before ++ tail ∧ Whole before ∧
      (tail = [ch 'f'] ∨ tail = [ch 'f', ch 'b']) := by
  have hcons : ∀ (piece : List Byte) {rest : List Byte}, (∀ {l}, Whole l → Whole (piece ++ l)) →
      (Whole rest ∨ ∃ before tail, rest = before ++ tail ∧ Whole before ∧
        (tail = [ch 'f'] ∨ tail = [ch 'f', ch 'b'])) →
      Whole (piece ++ rest) ∨ ∃ before tail, piece ++ rest = before ++ tail ∧ Whole before ∧
        (tail = [ch 'f'] ∨ tail = [ch 'f', ch 'b']) := by
    rintro piece rest hpiece (hwhole | ⟨before, tail, rfl, hbefore, htail⟩)
    · exact Or.inl (hpiece hwhole)
    · exact Or.inr ⟨piece ++ before, tail, (List.append_assoc _ _ _).symm, hpiece hbefore, htail⟩
  match bytes with
  | [] => exact Or.inl .nil
  | c :: rest =>
    by_cases hf : c = ch 'f'
    · subst hf
      match rest with
      | [] => exact Or.inr ⟨[], _, rfl, .nil, Or.inl rfl⟩
      | c :: rest =>
        by_cases hb : c = ch 'b'
        · subst hb
          match rest with
          | [] => exact Or.inr ⟨[], _, rfl, .nil, Or.inr rfl⟩
          | c :: rest =>
            exact hcons [ch 'f', ch 'b', c] (fun h => .fb trivial h)
              (whole_or_unfinished rest)
        · exact hcons [ch 'f', c] (fun h => .f hb h) (whole_or_unfinished rest)
    · exact hcons [c] (fun h => .other hf h) (whole_or_unfinished rest)
  termination_by bytes.length

/-! ## Rounds -/

variable {mem : ℕ → Byte} {s s' r : Scan}

/-- INTERNAL: the scan returns, in the state `r`. -/
abbrev Parses (mem : ℕ → Byte) (s r : Scan) : Prop := Returns (more mem) (scanOption mem) s r

/-- INTERNAL: the scan goes on while the byte under the pointer is not zero. -/
theorem more_fst (mem : ℕ → Byte) (s : Scan) : (more mem s).1 = (mem s.cmdline != 0) := rfl

/-- INTERNAL: rounds that take `n` bytes and leave `use_framebuffer` at `flag`. -/
structure Advances (mem : ℕ → Byte) (s : Scan) (n : ℕ) (flag : BitVec 32) (s' : Scan) : Prop where
  returns : ∀ r, Parses mem s r ↔ Parses mem s' r
  cmdline : s'.cmdline = s.cmdline + n
  useFramebuffer : s'.useFramebuffer = flag
  reads : ∀ i ∈ s'.reads, i ∈ s.reads ∨ i < s'.cmdline

/-- INTERNAL: a scan that makes no round has advanced by nothing. -/
theorem Advances.refl (s : Scan) : Advances mem s 0 s.useFramebuffer s :=
  ⟨fun _ => Iff.rfl, rfl, rfl, fun _ hi => Or.inl hi⟩

/-- INTERNAL: rounds one after the other add up. -/
theorem Advances.trans {n m : ℕ} {flag flag' : BitVec 32} {s₁ : Scan}
    (h : Advances mem s n flag s₁) (h' : Advances mem s₁ m flag' s') :
    Advances mem s (n + m) flag' s' := by
  have hcmdline := h'.cmdline
  refine ⟨fun r => (h.returns r).trans (h'.returns r), ?_, h'.useFramebuffer, fun i hi => ?_⟩
  · rw [hcmdline, h.cmdline, Nat.add_assoc]
  · rcases h'.reads i hi with hi | hi
    · rcases h.reads i hi with hi | hi
      · exact Or.inl hi
      · exact Or.inr (by omega)
    · exact Or.inr hi

/-- INTERNAL: a round in front of a byte that is not the terminator. -/
theorem advances_round {n : ℕ} {flag : BitVec 32} {reads : List ℕ} (hc : mem s.cmdline ≠ 0)
    (hbody : scanOption mem (more mem s).2 = ⟨s.cmdline + n, flag, reads⟩)
    (hreads : ∀ i ∈ reads, i ∈ s.reads ∨ i < s.cmdline + n) :
    ∃ s', Advances mem s n flag s' := by
  have hmore : (more mem s).1 = true := by
    rw [more_fst]
    simpa using hc
  refine ⟨_, fun r => (returns_of_step hmore).trans (by rw [hbody]), rfl, rfl, hreads⟩

/-- INTERNAL: reads below a bound, before and after. -/
theorem reads_lt {new old : List ℕ} {n : ℕ} (h : ∀ i ∈ new, i < n) :
    ∀ i ∈ new ++ old, i ∈ old ∨ i < n := by
  intro i hi
  rcases List.mem_append.mp hi with hi | hi
  · exact Or.inr (h i hi)
  · exact Or.inl hi

/-- INTERNAL: a byte other than `f`. SRC: arch/x86_64/arch.c:40-41 -/
theorem advances_other (hc : mem s.cmdline ≠ 0) (hf : mem s.cmdline ≠ ch 'f') :
    ∃ s', Advances mem s 1 s.useFramebuffer s' := by
  have hbody : scanOption mem (more mem s).2 =
      ⟨s.cmdline + 1, s.useFramebuffer, [s.cmdline, s.cmdline] ++ s.reads⟩ := by
    simp [scanOption, more, Scan.peek, Scan.next, hf]
  refine advances_round hc hbody (reads_lt fun i hi => ?_)
  simp at hi
  omega

/-- INTERNAL: `f` and a byte other than `b`, the terminator perhaps.
SRC: arch/x86_64/arch.c:42-43 -/
theorem advances_f (hf : mem s.cmdline = ch 'f') (hb : mem (s.cmdline + 1) ≠ ch 'b') :
    ∃ s', Advances mem s 2 s.useFramebuffer s' := by
  have hbody : scanOption mem (more mem s).2 = ⟨s.cmdline + 2, s.useFramebuffer,
      [s.cmdline + 1, s.cmdline, s.cmdline] ++ s.reads⟩ := by
    simp [scanOption, more, Scan.peek, Scan.next, hf, hb]
  refine advances_round (by rw [hf]; decide) hbody (reads_lt fun i hi => ?_)
  simp at hi
  omega

/-- INTERNAL: `fb` and any byte, the terminator perhaps. SRC: arch/x86_64/arch.c:44-50 -/
theorem advances_fb (hf : mem s.cmdline = ch 'f') (hb : mem (s.cmdline + 1) = ch 'b') :
    ∃ s', Advances mem s 3 (if mem (s.cmdline + 2) = ch ' ' ∨ mem (s.cmdline + 2) = 0 then 1
      else s.useFramebuffer) s' := by
  have hbody : scanOption mem (more mem s).2 = ⟨s.cmdline + 3,
      if mem (s.cmdline + 2) = ch ' ' ∨ mem (s.cmdline + 2) = 0 then 1 else s.useFramebuffer,
      [s.cmdline + 2, s.cmdline + 1, s.cmdline, s.cmdline] ++ s.reads⟩ := by
    simp only [scanOption, more, Scan.peek, Scan.next, hf, hb, if_true]
    split <;> rfl
  refine advances_round (by rw [hf]; decide) hbody (reads_lt fun i hi => ?_)
  simp at hi
  omega

/-- INTERNAL: what has been read stays read, and every test reads. -/
theorem Parses.cmdline_mem_reads (h : Parses mem s r) : s.cmdline ∈ r.reads := by
  have hbody : ∀ i (s : Scan), i ∈ s.reads → i ∈ (scanOption mem s).reads := by
    intro i s hi
    unfold scanOption Scan.next
    dsimp only
    split_ifs <;> simp [hi]
  have hkept : ∀ {s₁ r₁ : Scan}, s.cmdline ∈ s₁.reads → Parses mem s₁ r₁ → s.cmdline ∈ r₁.reads :=
    fun hs₁ h₁ => Returns.invariant (fun s₁ => s.cmdline ∈ s₁.reads)
      (fun _ hi => List.mem_cons_of_mem _ hi) (hbody s.cmdline) hs₁ h₁
  cases htest : (more mem s).1 with
  | false =>
    rw [(returns_of_stop htest).mp h]
    exact List.mem_cons_self
  | true => exact hkept (hbody _ _ List.mem_cons_self) ((returns_of_step htest).mp h)

/-- INTERNAL: the bytes `l` stand at the cursor. -/
def At (mem : ℕ → Byte) (s : Scan) (l : List Byte) : Prop :=
  ∀ k c, l[k]? = some c → mem (s.cmdline + k) = c

/-- INTERNAL: behind the first of them stand the others. -/
theorem At.rest (first : List Byte) {l : List Byte} {flag : BitVec 32} (h : At mem s (first ++ l))
    (hs : Advances mem s first.length flag s') : At mem s' l := by
  intro k c hk
  rw [hs.cmdline, Nat.add_assoc]
  apply h
  rwa [List.getElem?_append_right (Nat.le_add_right _ _), Nat.add_sub_cancel_left]

/-- INTERNAL: **whole pieces** are taken round by round; where none is `fb` and a space,
`use_framebuffer` stays. Induction on the pieces. -/
theorem advances_pieces {third : Byte → Prop} {l : List Byte} (h : Pieces third l)
    (hat : At mem s l) (hnul : ∀ c ∈ l, c ≠ 0) :
    ∃ flag s', Advances mem s l.length flag s' ∧
      ((∀ c, third c → c ≠ ch ' ') → flag = s.useFramebuffer) := by
  induction h generalizing s with
  | nil => exact ⟨_, s, .refl s, fun _ => rfl⟩
  | @other c l hf hl ih =>
    have hc : mem s.cmdline = c := hat 0 c rfl
    rw [← hc] at hf
    obtain ⟨s₁, h₁⟩ := advances_other (by rw [hc]; exact hnul c List.mem_cons_self) hf
    obtain ⟨flag, s', h', hkept⟩ := ih (At.rest [c] hat h₁)
      fun c' hc' => hnul c' (by simp [hc'])
    have hlength : (c :: l).length = 1 + l.length := Nat.add_comm _ _
    rw [hlength]
    exact ⟨flag, s', h₁.trans h', fun hthird => (hkept hthird).trans h₁.useFramebuffer⟩
  | @f c l hb hl ih =>
    have hc : mem (s.cmdline + 1) = c := hat 1 c rfl
    rw [← hc] at hb
    obtain ⟨s₁, h₁⟩ := advances_f (hat 0 _ rfl) hb
    obtain ⟨flag, s', h', hkept⟩ := ih (At.rest [ch 'f', c] hat h₁)
      fun c' hc' => hnul c' (by simp [hc'])
    have hlength : (ch 'f' :: c :: l).length = 2 + l.length := by
      simp only [List.length_cons]
      omega
    rw [hlength]
    exact ⟨flag, s', h₁.trans h', fun hthird => (hkept hthird).trans h₁.useFramebuffer⟩
  | @fb c l hthird hl ih =>
    have hc : mem (s.cmdline + 2) = c := hat 2 c rfl
    obtain ⟨s₁, h₁⟩ := advances_fb (hat 0 _ rfl) (hat 1 _ rfl)
    obtain ⟨flag, s', h', hkept⟩ := ih (At.rest [ch 'f', ch 'b', c] hat h₁)
      fun c' hc' => hnul c' (by simp [hc'])
    have hlength : (ch 'f' :: ch 'b' :: c :: l).length = 3 + l.length := by
      simp only [List.length_cons]
      omega
    rw [hlength]
    refine ⟨flag, s', h₁.trans h', fun hquiet => (hkept hquiet).trans ?_⟩
    rw [h₁.useFramebuffer, hc, if_neg]
    rintro (hspace | hzero)
    · exact hquiet c hthird hspace
    · exact hnul c (by simp) hzero

/-! ## The line -/

section Line

variable {line : CommandLine} {rest : ℕ → Byte}

/-- INTERNAL: the byte number `k` behind a part of the line. -/
theorem memory_add {before after : List Byte} (h : line.bytes ++ [0] = before ++ after) {k : ℕ}
    {c : Byte} (hk : after[k]? = some c) : line.memory rest (before.length + k) = c := by
  rw [CommandLine.memory, h, List.getD_eq_getElem?_getD,
    List.getElem?_append_right (Nat.le_add_right _ _), Nat.add_sub_cancel_left, hk,
      Option.getD_some]

/-- INTERNAL: behind the bytes of the line stands its terminating zero. -/
theorem memory_nul (line : CommandLine) (rest : ℕ → Byte) :
    line.memory rest line.bytes.length = 0 :=
  memory_add (k := 0) rfl rfl

/-- INTERNAL: behind the terminating zero the memory holds whatever it holds. -/
theorem memory_behind (line : CommandLine) (rest : ℕ → Byte) (k : ℕ) :
    line.memory rest (line.bytes.length + 1 + k) = rest k := by
  have hlength : (line.bytes ++ [0]).length ≤ line.bytes.length + 1 + k := by simp
  rw [CommandLine.memory, List.getD_eq_getElem?_getD, List.getElem?_eq_none hlength,
    Option.getD_none, Nat.add_sub_cancel_left]

/-- INTERNAL: a scan that has passed the first bytes of the line stands before the others. -/
theorem at_line (rest : ℕ → Byte) (before after : List Byte) {l : List Byte}
    (h : line.bytes ++ [0] = before ++ (l ++ after))
    (hs : s.cmdline = before.length) : At (line.memory rest) s l := by
  intro k c hk
  rw [hs]
  apply memory_add h
  rw [List.getElem?_append_left (List.getElem?_eq_some_iff.mp hk).1, hk]

/-- INTERNAL: whole pieces at the start of a line. -/
theorem advances_start (rest : ℕ → Byte) {third : Byte → Prop} {before after : List Byte}
    (h : Pieces third before)
    (hline : line.bytes = before ++ after) :
    ∃ flag s', Advances (line.memory rest) .start before.length flag s' ∧
      ((∀ c, third c → c ≠ ch ' ') → flag = 0) := by
  have hat : At (line.memory rest) .start before :=
    at_line rest [] (after ++ [0]) (by rw [hline]; simp) rfl
  refine advances_pieces h hat fun c hc => line.noNul c ?_
  rw [hline]
  exact List.mem_append_left _ hc

/-- INTERNAL: **an unfinished piece** takes the terminator along. -/
theorem advances_unfinished (rest : ℕ → Byte) {before tail : List Byte} (hbefore : Whole before)
    (htail : tail = [ch 'f'] ∨ tail = [ch 'f', ch 'b']) (hline : line.bytes = before ++ tail) :
    ∃ flag s', Advances (line.memory rest) .start (line.bytes.length + 1) flag s' ∧
      (tail = [ch 'f', ch 'b'] → flag = 1) := by
  obtain ⟨flag, s, h, -⟩ := advances_start rest hbefore hline
  have hs : s.cmdline = before.length := h.cmdline.trans (Nat.zero_add _)
  have hat : At (line.memory rest) s (tail ++ [0]) :=
    at_line rest before [] (by rw [hline]; simp) hs
  rcases htail with rfl | rfl
  · have hnul : line.memory rest (s.cmdline + 1) = 0 := hat 1 0 rfl
    obtain ⟨s', h'⟩ := advances_f (hat 0 _ rfl) (by rw [hnul]; decide)
    have hlength : before.length + 2 = line.bytes.length + 1 := by simp [hline]
    refine ⟨_, s', hlength ▸ h.trans h', fun hfb => ?_⟩
    cases hfb
  · have hnul : line.memory rest (s.cmdline + 2) = 0 := hat 2 0 rfl
    obtain ⟨s', h'⟩ := advances_fb (hat 0 _ rfl) (hat 1 _ rfl)
    have hlength : before.length + 3 = line.bytes.length + 1 := by simp [hline]
    exact ⟨_, s', hlength ▸ h.trans h', fun _ => if_pos (Or.inr hnul)⟩

end Line

/-! ## Inside the line -/

/-- INTERNAL: the scan returns, and has read no byte behind the terminator. -/
def StaysInside (line : CommandLine) (rest : ℕ → Byte) : Prop :=
  ∃ fuel s, parseCmdline (line.memory rest) fuel = some s ∧ ∀ i ∈ s.reads, i ≤ line.bytes.length

/-- INTERNAL: behind an unfinished piece the loop tests the byte behind the terminator. -/
theorem unfinished_leaves {line : CommandLine} (rest : ℕ → Byte) {before tail : List Byte}
    (hbefore : Whole before) (htail : tail = [ch 'f'] ∨ tail = [ch 'f', ch 'b'])
    (hline : line.bytes = before ++ tail) : ¬ StaysInside line rest := by
  rintro ⟨fuel, r, hrun, hinside⟩
  obtain ⟨flag, s', h, -⟩ := advances_unfinished rest hbefore htail hline
  have hread := Parses.cmdline_mem_reads ((h.returns r).mp ⟨fuel, hrun⟩)
  have hle := hinside _ hread
  have hcmdline : s'.cmdline = 0 + (line.bytes.length + 1) := h.cmdline
  omega

/-- INTERNAL: whole pieces end in front of the terminator, where the loop stops. -/
theorem parses_whole {third : Byte → Prop} {line : CommandLine} (rest : ℕ → Byte)
    (h : Pieces third line.bytes) : ∃ r, Parses (line.memory rest) .start r ∧
      (∀ i ∈ r.reads, i ≤ line.bytes.length) ∧
      ((∀ c, third c → c ≠ ch ' ') → r.useFramebuffer = 0) := by
  obtain ⟨flag, s', hrounds, hflag⟩ := advances_start rest h
    (List.append_nil _).symm
  have hcmdline : s'.cmdline = line.bytes.length := hrounds.cmdline.trans (Nat.zero_add _)
  have hnul : (more (line.memory rest) s').1 = false := by
    rw [more_fst, hcmdline, memory_nul]
    decide
  refine ⟨_, (hrounds.returns _).mpr ((returns_of_stop hnul).mpr rfl), fun i hi => ?_, fun hquiet => ?_⟩
  · rcases List.mem_cons.mp hi with rfl | hi
    · exact Nat.le_of_eq hcmdline
    · rcases hrounds.reads i hi with hi | hi
      · cases hi
      · omega
  · exact hrounds.useFramebuffer.trans (hflag hquiet)

/-- SOURCE: arch/x86_64/arch.c:37-55 — **the scan stays inside its string** exactly when the line
is made of whole pieces, whatever stands behind the terminator. -/
theorem staysInside_iff (line : CommandLine) (rest : ℕ → Byte) :
    StaysInside line rest ↔ Whole line.bytes := by
  constructor
  · intro hinside
    rcases whole_or_unfinished line.bytes with hwhole | ⟨before, tail, hline, hbefore, htail⟩
    · exact hwhole
    · exact absurd hinside (unfinished_leaves rest hbefore htail hline)
  · intro hwhole
    obtain ⟨r, ⟨fuel, hrun⟩, hreads, -⟩ := parses_whole rest hwhole
    exact ⟨fuel, r, hrun, hreads⟩

/-- INTERNAL: the option alone: the scan takes the terminator for the byte behind `fb`. -/
theorem staysInside_fails : ¬ StaysInside ⟨[ch 'f', ch 'b'], by decide⟩ fun _ => 0 :=
  unfinished_leaves _ .nil (Or.inr rfl) rfl

end Simbench.Analysis.CmdlineScan
