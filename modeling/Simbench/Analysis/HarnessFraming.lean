import Mathlib.Data.List.DropRight
import Simbench.Analysis.HarnessOutput
import Simbench.Analysis.HostTiming

/-!
# Harness and host agree on the framing

The host reads the stream of the harness record by record. Names are single tokens, so the
header scans back; what a kernel prints are spinner characters, so both character loops run
up to the bracket the harness wrote; and the end line fails the scan at the place where a
record has its dash.
-/

set_option autoImplicit false

namespace Simbench.Analysis.HarnessFraming

open Simbench.Library.ByteParser Simbench.Program.Printf Simbench.Program.Host
open Simbench.Program.Harness Simbench.Analysis.PrintfText Simbench.Analysis.PrintfNumerals
open Simbench.Analysis.HostTiming Simbench.Analysis.HarnessOutput

/-! ## Scanning a header -/

/-- INTERNAL: only white space, as `scanf` skips it. -/
def Spaces (text : List Byte) : Prop := ∀ c ∈ text, isSpace c = true

/-- INTERNAL: leading white space is skipped whatever follows. -/
theorem skipSpace_append {spaces : List Byte} (h : Spaces spaces) (rest : List Byte) :
    skipSpace (spaces ++ rest) = skipSpace rest :=
  List.dropWhile_append_of_pos h

/-- INTERNAL: nothing is skipped before a character that is no space. -/
theorem skipSpace_token {c : Byte} (hc : isSpace c = false) (rest : List Byte) :
    skipSpace (c :: rest) = c :: rest :=
  List.dropWhile_cons_of_neg (by simp [hc])

/-- INTERNAL: a white-space directive before a conversion that skips white space itself. -/
theorem skipSpace_skipSpace (stdin : List Byte) : skipSpace (skipSpace stdin) = skipSpace stdin :=
  List.dropWhile_idempotent ..

/-- INTERNAL: `%s` skips white space by itself. -/
theorem scanString_skipSpace (stdin : List Byte) :
    scanString (skipSpace stdin) = scanString stdin := by
  rw [scanString, scanString, skipSpace_skipSpace]

/-- INTERNAL: `%lx` skips leading white space by itself. -/
theorem scanHex_skipSpace (stdin : List Byte) : scanHex (skipSpace stdin) = scanHex stdin := by
  rw [scanHex, scanHex, skipSpace_skipSpace]

/-- INTERNAL: a single token of the host's scanner. -/
structure IsToken (text : List Byte) : Prop extends IsName text where
  space : ∀ c ∈ text, isSpace c = false

/-- INTERNAL: `%s` reads a token up to the space behind it. -/
theorem scanString_token {spaces token : List Byte} (hspaces : Spaces spaces) (h : IsToken token)
    {c : Byte} (hc : isSpace c = true) (rest : List Byte) :
    scanString (spaces ++ (token ++ c :: rest)) = .ok (token, c :: rest) := by
  obtain ⟨x, text, rfl⟩ := List.exists_cons_of_ne_nil h.ne_nil
  have hskip : skipSpace (spaces ++ (x :: text ++ c :: rest)) = x :: text ++ c :: rest := by
    rw [skipSpace_append hspaces, List.cons_append,
      skipSpace_token (h.space x List.mem_cons_self)]
  have hpos : ∀ y ∈ x :: text, (!isSpace y) = true := fun y hy => by
    rw [h.space y hy]
    rfl
  have htake : (x :: text ++ c :: rest).takeWhile (!isSpace ·) = x :: text := by
    rw [List.takeWhile_append_of_pos hpos, List.takeWhile_cons_of_neg (by simp [hc]),
      List.append_nil]
  have hdrop : (x :: text ++ c :: rest).dropWhile (!isSpace ·) = c :: rest := by
    rw [List.dropWhile_append_of_pos hpos, List.dropWhile_cons_of_neg (by simp [hc])]
  have hlength := h.length_le
  rw [scanString, hskip]
  simp only [htake, hdrop]
  rw [if_neg (List.cons_ne_nil x text), if_neg (by omega)]

/-- INTERNAL: a digit the harness prints is read as that digit, and is no sign, space or `x`. -/
theorem hexDigit_digitChar {d : ℕ} (hd : d < 16) :
    hexDigit (digitChar d) = some d ∧ isSpace (digitChar d) = false ∧ digitChar d ≠ ch '-' ∧
      digitChar d ≠ ch '+' ∧ digitChar d ≠ ch 'x' ∧ digitChar d ≠ ch 'X' := by
  have hall : ∀ d, d < 16 → hexDigit (digitChar d) = some d ∧ isSpace (digitChar d) = false ∧
      digitChar d ≠ ch '-' ∧ digitChar d ≠ ch '+' ∧ digitChar d ≠ ch 'x' ∧
      digitChar d ≠ ch 'X' := by
    decide
  exact hall d hd

/-- INTERNAL: reading such digits is evaluating the numeral. -/
theorem foldl_hexDigit {text : List Byte} (h : ∀ c ∈ text, ∃ d, d < 16 ∧ c = digitChar d) (v : ℕ) :
    (text.filterMap hexDigit).foldl (fun value d => value * 16 + d) v =
      text.foldl (fun value c => value * 16 + digitValue c) v := by
  induction text generalizing v with
  | nil => rfl
  | cons c text ih =>
    obtain ⟨hc, htext⟩ := List.forall_mem_cons.mp h
    obtain ⟨d, hd, rfl⟩ := hc
    rw [List.filterMap_cons_some (hexDigit_digitChar hd).1, List.foldl_cons, List.foldl_cons,
      ih htext, digitValue_digitChar (by omega)]

/-- INTERNAL: `%lx` reads a numeral of base 16 back, up to the space behind it. -/
theorem scanHex_numeral {spaces : List Byte} (hspaces : Spaces spaces) (v : BitVec 64)
    (rest : List Byte) :
    scanHex (spaces ++ (numeral 16 v.toNat ++ ch ' ' :: rest)) = .ok (v, ch ' ' :: rest) := by
  have hnum := isNumeral_numeral (by decide : 2 ≤ 16) (by decide) v.toNat
  have hdigits := hnum.digits
  have hhex : ∀ c ∈ numeral 16 v.toNat, (hexDigit c).isSome = true := by
    intro c hc
    obtain ⟨d, hd, rfl⟩ := hdigits c hc
    rw [(hexDigit_digitChar hd).1]
    rfl
  have htake : (numeral 16 v.toNat ++ ch ' ' :: rest).takeWhile (fun c => (hexDigit c).isSome) =
      numeral 16 v.toNat := by
    rw [List.takeWhile_append_of_pos hhex, List.takeWhile_cons_of_neg (by decide), List.append_nil]
  have hdrop : (numeral 16 v.toNat ++ ch ' ' :: rest).dropWhile (fun c => (hexDigit c).isSome) =
      ch ' ' :: rest := by
    rw [List.dropWhile_append_of_pos hhex, List.dropWhile_cons_of_neg (by decide)]
  have hvalue : strtoul false ((numeral 16 v.toNat).filterMap hexDigit) = v := by
    have hread : ((numeral 16 v.toNat).filterMap hexDigit).foldl (fun value d => value * 16 + d) 0 =
        v.toNat := (foldl_hexDigit hdigits 0).trans hnum.value
    have hlt := v.isLt
    rw [strtoul]
    simp only [hread]
    rw [if_neg (by omega), if_neg Bool.false_ne_true, BitVec.ofNat_toNat, BitVec.setWidth_eq]
  obtain ⟨c, text, htext⟩ : ∃ c text, numeral 16 v.toNat = c :: text := by
    rcases hnum.canonical with h | ⟨c, text, h, -⟩
    · exact ⟨_, _, h⟩
    · exact ⟨c, text, h⟩
  rw [htext] at hdigits htake hdrop hvalue ⊢
  obtain ⟨hc, hrest⟩ := List.forall_mem_cons.mp hdigits
  obtain ⟨d, hd, rfl⟩ := hc
  obtain ⟨-, hspace, hminus, hplus, -, -⟩ := hexDigit_digitChar hd
  have hskip : skipSpace (spaces ++ (digitChar d :: text ++ ch ' ' :: rest)) =
      digitChar d :: (text ++ ch ' ' :: rest) := by
    rw [skipSpace_append hspaces, List.cons_append, skipSpace_token hspace]
  have hsign : scanSign (digitChar d :: (text ++ ch ' ' :: rest)) =
      (false, digitChar d :: (text ++ ch ' ' :: rest)) := by
    rw [scanSign, if_neg hminus, if_neg hplus]
  -- the character behind the first digit is a digit or the blank, never an `x`
  have hlead : scanPrefix (digitChar d :: (text ++ ch ' ' :: rest)) =
      digitChar d :: (text ++ ch ' ' :: rest) := by
    cases text with
    | nil =>
      rw [List.nil_append, scanPrefix, if_neg]
      rintro ⟨-, h | h⟩ <;> exact absurd h (by decide)
    | cons c' text =>
      obtain ⟨d', hd', rfl⟩ := hrest c' List.mem_cons_self
      obtain ⟨-, -, -, -, hx, hX⟩ := hexDigit_digitChar hd'
      rw [List.cons_append, scanPrefix, if_neg]
      rintro ⟨-, h | h⟩
      · exact hx h
      · exact hX h
  have hscan : scanDigits (digitChar d :: (text ++ ch ' ' :: rest)) =
      .ok ((digitChar d :: text).filterMap hexDigit, ch ' ' :: rest) := by
    rw [List.cons_append] at htake hdrop
    rw [scanDigits]
    simp only [htake, hdrop]
    rw [if_neg (List.cons_ne_nil _ _)]
  rw [scanHex, hskip, hsign]
  simp only [hlead, hscan, ok_bind, hvalue]

/-- INTERNAL: a record of the harness as the host reads it: header, a blank and a bracket. -/
theorem scanHeader_text {spaces : List Byte} (hspaces : Spaces spaces) {category name : List Byte}
    (hcategory : IsToken category) (hname : IsToken name) (v : BitVec 64) {c : Byte}
    (hc : isSpace c = false) (rest : List Byte) :
    scanHeader (spaces ++ (category ++ str " - " ++ name ++ (str " " ++ numeral 16 v.toNat) ++
      ch ' ' :: c :: rest)) = .ok (⟨category, name, v⟩, c :: rest) := by
  have hblank : Spaces [ch ' '] := by
    intro x hx
    rw [List.mem_singleton.mp hx]
    decide
  have hdash : str " - " = ch ' ' :: ch '-' :: [ch ' '] := by decide
  have hsplit : spaces ++ (category ++ str " - " ++ name ++ (str " " ++ numeral 16 v.toNat) ++
      ch ' ' :: c :: rest) = spaces ++ (category ++ ch ' ' :: (ch '-' :: ([ch ' '] ++
        (name ++ ch ' ' :: (numeral 16 v.toNat ++ ch ' ' :: c :: rest))))) := by
    have hone : str " " = [ch ' '] := by decide
    rw [hdash, hone]
    simp only [List.append_assoc, List.cons_append, List.nil_append]
  have hblank' : ∀ tail, ch ' ' :: tail = [ch ' '] ++ tail := fun _ => rfl
  rw [hsplit, scanHeader, scanString_token hspaces hcategory (by decide), ok_bind]
  dsimp only
  rw [hblank', skipSpace_append hblank, skipSpace_token (by decide), scanChar, if_pos rfl, ok_bind,
    scanString_skipSpace, scanString_token hblank hname (by decide), ok_bind]
  dsimp only
  rw [scanHex_skipSpace, hblank' (numeral 16 v.toNat ++ _), scanHex_numeral hblank, ok_bind]
  dsimp only
  rw [hblank', skipSpace_append hblank, skipSpace_token hc]

/-! ## The begin line -/

/-- INTERNAL: the lines of a text, each with its newline. -/
def lines : List Byte → List (List Byte)
  | [] => []
  | c :: text =>
    if c = ch '\n' then [c] :: lines text
    else match lines text with
      | [] => [[c]]
      | line :: rest => (c :: line) :: rest

/-- INTERNAL: a text that ends with its last line. -/
def EndsLine (text : List Byte) : Prop := ∃ front, text = front ++ [ch '\n']

/-- INTERNAL: `getline` takes the first line of a text that ends one, whatever follows. -/
theorem getline_endsLine {text : List Byte} (h : EndsLine text) (rest : List Byte) :
    ∃ front text', text = front ++ ch '\n' :: text' ∧ ch '\n' ∉ front ∧
      getline (text ++ rest) = some (front ++ [ch '\n'], text' ++ rest) ∧
      lines text = (front ++ [ch '\n']) :: lines text' ∧ (text' = [] ∨ EndsLine text') := by
  obtain ⟨body, rfl⟩ := h
  induction body with
  | nil =>
    refine ⟨[], [], rfl, List.not_mem_nil, ?_, ?_, Or.inl rfl⟩
    · rw [List.nil_append, List.singleton_append, getline, if_pos rfl]
      rfl
    · exact (if_pos rfl : lines [ch '\n'] = _)
  | cons c body ih =>
    by_cases hc : c = ch '\n'
    · subst hc
      refine ⟨[], body ++ [ch '\n'], rfl, List.not_mem_nil, ?_, ?_, Or.inr ⟨body, rfl⟩⟩
      · rw [List.cons_append, List.cons_append, getline, if_pos rfl]
        rfl
      · rw [List.cons_append, lines, if_pos rfl]
        rfl
    · obtain ⟨front, text', hsplit, hfront, hget, hlines, htail⟩ := ih
      refine ⟨c :: front, text', ?_, ?_, ?_, ?_, htail⟩
      · rw [List.cons_append, hsplit, List.cons_append]
      · rw [List.mem_cons, not_or]
        exact ⟨Ne.symm hc, hfront⟩
      · rw [List.cons_append, List.cons_append, getline, if_neg hc, hget]
        rfl
      · rw [List.cons_append, lines, if_neg hc, hlines]
        rfl

/-- INTERNAL: a line that `strcmp` finds equal to the begin line is the begin line. -/
theorem eq_begin_of_cString {front : List Byte} (hfront : ch '\n' ∉ front)
    (h : cString (front ++ [ch '\n']) = benchmarkBegin) : front ++ [ch '\n'] = benchmarkBegin := by
  by_cases hnul : ∀ c ∈ front, decide (c ≠ 0) = true
  · rw [cString, List.takeWhile_append_of_pos hnul] at h
    exact h
  · -- a NUL before the newline hides the newline from `strcmp`
    exfalso
    have hmem : ch '\n' ∈ cString (front ++ [ch '\n']) := by
      rw [h]
      decide
    have hlead : cString (front ++ [ch '\n']) = front.takeWhile (· ≠ 0) := by
      rw [cString, List.takeWhile_append, if_neg]
      intro hlength
      exact hnul (List.takeWhile_eq_self_iff.mp ((List.takeWhile_prefix _).eq_of_length hlength))
    rw [hlead] at hmem
    exact hfront ((List.takeWhile_prefix _).mem hmem)

/-- INTERNAL: `read_start` passes over boot output without a begin line. By induction on its
length. SRC: host/main.c:14-19 -/
theorem readStart_boot {text : List Byte} (h : text = [] ∨ EndsLine text)
    (hbegin : benchmarkBegin ∉ lines text) (rest : List Byte) :
    readStart (text ++ rest) = readStart rest := by
  induction hn : text.length using Nat.strongRecOn generalizing text with
  | ind n ih =>
    rcases h with rfl | h
    · rfl
    · obtain ⟨front, text', hsplit, hfront, hget, hlines, htail⟩ := getline_endsLine h rest
      rw [hlines, List.mem_cons, not_or] at hbegin
      have hlt : text'.length < n := by
        rw [← hn, hsplit, List.length_append, List.length_cons]
        omega
      rw [readStart_line hget, if_neg fun heq => hbegin.1 (eq_begin_of_cString hfront heq).symm]
      exact ih _ hlt htail hbegin.2 rfl

/-- INTERNAL: behind the line that begins the output the records are read. -/
theorem readStart_begin (rest : List Byte) : readStart (benchmarkBegin ++ rest) = some rest := by
  have hends : EndsLine benchmarkBegin := ⟨benchmarkBegin.dropLast, by decide⟩
  have hget : getline (benchmarkBegin ++ rest) = some (benchmarkBegin, rest) := by
    obtain ⟨front, text', hsplit, hfront, hget, hlines, -⟩ := getline_endsLine hends rest
    have hone : lines benchmarkBegin = [benchmarkBegin] := by decide
    rw [hone, List.cons.injEq] at hlines
    obtain ⟨hfirst, hnil⟩ := hlines
    have htext' : text' = [] := by
      rw [hfirst] at hsplit
      exact (List.cons.inj (List.append_cancel_left hsplit)).2.symm
    rw [hget, ← hfirst, htext']
    rfl
  rw [readStart_line hget, if_pos (by decide)]

/-! ## Records -/

/-- INTERNAL: a benchmark whose record can be read back: names that are tokens, setup that
prints nothing, kernels that print spinner characters. -/
structure Valid (bm : Benchmark) : Prop where
  category : IsToken bm.category
  name : IsToken bm.name
  init : ∀ k, bm.kernelInit = some k → k = []
  cleanup : ∀ k, bm.kernelCleanup = some k → k = []
  kernel : Spinners bm.kernel
  control : ∀ k, bm.kernelControl = some k → Spinners k

/-- INTERNAL: a benchmark that can be read back is one the harness can print. -/
theorem Valid.printable {bm : Benchmark} (h : Valid bm) : Printable bm :=
  ⟨h.category.toIsName, h.name.toIsName, h.init, h.cleanup⟩

/-- INTERNAL: header and intervals of a record. -/
structure Frame where
  header : Header
  control : Option Interval
  benchmark : Option Interval
  deriving DecidableEq, Repr

/-- INTERNAL: what a record of the host tells of the framing. -/
def frameOf (r : Record) : Frame := ⟨r.header, r.timing.control, r.timing.benchmark⟩

/-- INTERNAL: the record a benchmark must give when `rest` follows its own: each interval is
timed from behind its opening bracket to behind its closing one. -/
def expectedFrame (bm : Benchmark) (rest : List Byte) : Frame where
  header := ⟨bm.category, bm.name, iterations bm⟩
  control := bm.kernelControl.map fun control =>
    ⟨control ++ str "\x7d" ++ (str " [" ++ (bm.kernel ++ str "]\r\n") ++ rest),
      str " [" ++ (bm.kernel ++ str "]\r\n") ++ rest⟩
  benchmark := some ⟨bm.kernel ++ str "]\r\n" ++ rest, str "\r\n" ++ rest⟩

/-- INTERNAL: the frames of the benchmarks, each with its intervals in the rest of the output. -/
def expectedFrames (last : List Byte) : List Benchmark → List Frame
  | [] => []
  | bm :: benchmarks =>
    expectedFrame bm (benchmarks.flatMap recordText ++ last) :: expectedFrames last benchmarks

/-- INTERNAL: behind the header the intervals of a record are found where the kernels stand, and the
next line begins there. -/
theorem scanTiming_record {bm : Benchmark} (h : Valid bm) (rest : List Byte) :
    ∃ tail, (∃ c tail', tail = c :: tail' ∧ isSpace c = false) ∧
      controlText bm ++ (str " [" ++ (bm.kernel ++ str "]\r\n")) ++ rest = ch ' ' :: tail ∧
      scanTiming tail = ((expectedFrame bm rest).control, (expectedFrame bm rest).benchmark,
        str "\r\n" ++ rest) := by
  have hopen : str " [" = [ch ' ', ch '['] := by decide
  have hclose : str "]\r\n" = ch ']' :: str "\r\n" := by decide
  have hbody : (readTimingEndChar (ch ']') (bm.kernel ++ str "]\r\n" ++ rest)).2 =
      str "\r\n" ++ rest := by
    rw [hclose, List.append_assoc, List.cons_append]
    exact readTimingEndChar_spinners h.kernel (by decide) (by decide) _
  have hnil : Spinners [] := fun c hc => absurd hc List.not_mem_nil
  cases hcontrol : bm.kernelControl with
  | none =>
    refine ⟨ch '[' :: (bm.kernel ++ str "]\r\n" ++ rest), ⟨_, _, rfl, by decide⟩, ?_, ?_⟩
    · rw [controlText, hcontrol, hopen]
      simp only [List.nil_append, List.cons_append]
    · have hscan := scanTiming_benchmark hnil (bm.kernel ++ str "]\r\n" ++ rest)
      rw [List.nil_append, hbody] at hscan
      rw [hscan, expectedFrame, hcontrol]
      rfl
  | some control =>
    have hbrace : str " \x7b" = [ch ' ', ch '{'] := by decide
    have hbrace' : str "\x7d" = [ch '}'] := by decide
    have hblank : Spinners [ch ' '] := by
      intro c hc
      rw [List.mem_singleton.mp hc]
      decide
    refine ⟨ch '{' :: (control ++ ch '}' :: ([ch ' '] ++ ch '[' ::
      (bm.kernel ++ str "]\r\n" ++ rest))), ⟨_, _, rfl, by decide⟩, ?_, ?_⟩
    · rw [controlText, hcontrol, hopen, hbrace, hbrace']
      simp only [List.append_assoc, List.nil_append, List.cons_append]
    · have hscan := scanTiming_control hnil (h.control control hcontrol)
        (show isSpinnerChar (ch '}') = false by decide) hblank (bm.kernel ++ str "]\r\n" ++ rest)
      rw [List.nil_append, hbody] at hscan
      rw [hscan, expectedFrame, hcontrol, hbrace', hopen]
      simp only [Option.map_some, List.append_assoc, List.nil_append, List.cons_append]

/-- INTERNAL: the white space in front of a record: none behind the begin line, the line end
of the record before otherwise. -/
theorem spaces_newline : Spaces (str "\r\n") := by
  rw [Spaces]
  decide

/-- INTERNAL: one benchmark, one record. SRC: host/main.c:115-137 -/
theorem readBenchmark_record (env : Environment) {spaces : List Byte} (hspaces : Spaces spaces)
    {bm : Benchmark} (h : Valid bm) (rest : List Byte) (p : Process)
    (hp : p.stdin = spaces ++ (recordText bm ++ rest)) :
    ∃ r p', readBenchmark env p = .ok (r, p') ∧ frameOf r = expectedFrame bm rest ∧
      p'.stdin = str "\r\n" ++ rest := by
  obtain ⟨tail, ⟨c, tail', rfl, hc⟩, htail, hscan⟩ := scanTiming_record h rest
  have hstdin : p.stdin = spaces ++ (headerText bm ++ ch ' ' :: c :: tail') := by
    rw [hp, recordText, List.append_assoc, htail]
  have hheader := scanHeader_text hspaces h.category h.name (iterations bm) hc tail'
  rw [← headerText, ← hstdin] at hheader
  exact ⟨_, _, readBenchmark_ok env p hheader hscan, rfl, rfl⟩

/-- INTERNAL: the end line fails the scan at the place of the dash.
SRC: harness/harness.c:61; host/main.c:123 -/
theorem scanHeader_end {spaces : List Byte} (h : spaces = [] ∨ spaces = str "\r\n") :
    scanHeader (spaces ++ str "\\\\BENCHMARKS END\r\n") =
      .error (.mismatch (str "END\r\n")) := by
  rcases h with rfl | rfl <;> decide

/-- INTERNAL: all records, by induction on the benchmarks: each leaves its line end, then the
rest of the stream. -/
theorem readBenchmarks_records (env : Environment) {benchmarks : List Benchmark}
    (h : ∀ bm ∈ benchmarks, Valid bm) {spaces : List Byte}
    (hspaces : spaces = [] ∨ spaces = str "\r\n") (p : Process)
    (hp : p.stdin = spaces ++
      (benchmarks.flatMap recordText ++ str "\\\\BENCHMARKS END\r\n")) :
    (readBenchmarks env p).1.map frameOf =
        expectedFrames (str "\\\\BENCHMARKS END\r\n") benchmarks ∧
      (readBenchmarks env p).2.1 = .mismatch (str "END\r\n") := by
  induction benchmarks generalizing spaces p with
  | nil =>
    have hend := scanHeader_end hspaces
    rw [List.flatMap_nil, List.nil_append] at hp
    rw [← hp] at hend
    rw [readBenchmarks_error (readBenchmark_error env p hend)]
    exact ⟨rfl, rfl⟩
  | cons bm benchmarks ih =>
    obtain ⟨hbm, hrest⟩ := List.forall_mem_cons.mp h
    have hblank : Spaces spaces := by
      rcases hspaces with rfl | rfl
      · exact fun c hc => absurd hc List.not_mem_nil
      · exact spaces_newline
    rw [List.flatMap_cons, List.append_assoc] at hp
    obtain ⟨r, p', hread, hframe, hstdin⟩ := readBenchmark_record env hblank hbm _ p hp
    obtain ⟨hframes, hstop⟩ := ih hrest (Or.inr rfl) p' hstdin
    rw [readBenchmarks_ok hread]
    refine ⟨?_, hstop⟩
    rw [List.map_cons, hframe, hframes, expectedFrames]

/-- SOURCE: harness/harness.c:11-62; host/main.c:10-148 — **the framing**: for any valid
benchmarks, on either build, the host that is fed the stream of `harness_main` behind boot
output without a begin line finds the begin line, reads one record for each benchmark, in
order, with its names and its intervals between its own brackets, and stops in the end
line. -/
theorem host_reads_harness (port : Port) (hport : port.output = some ⟨true⟩) (env : Environment)
    (benchmarks : List Benchmark) (hvalid : ∀ bm ∈ benchmarks, Valid bm) (boot : List Byte)
    (hboot : benchmarkBegin ∉ lines (boot ++ str "\r\n")) :
    ∃ m, harnessMain port benchmarks .start = some m ∧
      m.stream = str "\r\n" ++ harnessText benchmarks ∧
      (main env (boot ++ m.stream)).started = true ∧
      (main env (boot ++ m.stream)).records.map frameOf =
        expectedFrames (str "\\\\BENCHMARKS END\r\n") benchmarks ∧
      (main env (boot ++ m.stream)).stop = .mismatch (str "END\r\n") := by
  obtain ⟨m, hrun, hstream⟩ :=
    emits_harnessMain hport (fun bm hbm => (hvalid bm hbm).printable) .start
  have hstart : readStart (boot ++ m.stream) = some
      (benchmarks.flatMap recordText ++ str "\\\\BENCHMARKS END\r\n") := by
    have hsplit : boot ++ m.stream = (boot ++ str "\r\n") ++ (str "\r\n" ++ (benchmarkBegin ++
        (benchmarks.flatMap recordText ++ str "\\\\BENCHMARKS END\r\n"))) := by
      have hempty : Machine.start.stream = [] := rfl
      rw [hstream, hempty, List.nil_append, ← List.append_assoc boot]
      rfl
    have hboot' : EndsLine (boot ++ str "\r\n") :=
      ⟨boot ++ [ch '\r'], by rw [List.append_assoc]; rfl⟩
    rw [hsplit, readStart_boot (Or.inr hboot') hboot,
      readStart_boot (Or.inr ⟨[ch '\r'], by decide⟩) (by decide), readStart_begin]
  obtain ⟨hframes, hstop⟩ := readBenchmarks_records env hvalid (Or.inl rfl)
    ⟨_, benchmarkBegin, 0, 0⟩ rfl
  refine ⟨m, hrun, hstream, ?_, ?_, ?_⟩
  all_goals simp only [main, hstart]
  · exact hframes
  · exact hstop

/-- INTERNAL: a benchmark with a control kernel and one without, behind a boot message. -/
theorem host_reads_harness_two :
    ∃ m, harnessMain ⟨⟨true, false⟩, some ⟨true⟩, fun _ _ => 0xaa⟩
        [⟨str "Hot", str "Memory", none, str " \x08/", some [], some (str " "), 400, 0⟩,
          ⟨str "-", str "IO", some [], [], none, none, 0, 1⟩] .start = some m ∧
      m.stream = str "\r\n" ++ harnessText
        [⟨str "Hot", str "Memory", none, str " \x08/", some [], some (str " "), 400, 0⟩,
          ⟨str "-", str "IO", some [], [], none, none, 0, 1⟩] ∧
      (main ⟨fun _ => ⟨0, 0⟩, fun _ => ⟨0, 0⟩⟩ (str "Booting\n" ++ m.stream)).started = true ∧
      (main ⟨fun _ => ⟨0, 0⟩, fun _ => ⟨0, 0⟩⟩ (str "Booting\n" ++ m.stream)).records.map frameOf =
        expectedFrames (str "\\\\BENCHMARKS END\r\n")
          [⟨str "Hot", str "Memory", none, str " \x08/", some [], some (str " "), 400, 0⟩,
            ⟨str "-", str "IO", some [], [], none, none, 0, 1⟩] ∧
      (main ⟨fun _ => ⟨0, 0⟩, fun _ => ⟨0, 0⟩⟩ (str "Booting\n" ++ m.stream)).stop =
        .mismatch (str "END\r\n") := by
  refine host_reads_harness ⟨⟨true, false⟩, some ⟨true⟩, fun _ _ => 0xaa⟩ rfl
    ⟨fun _ => ⟨0, 0⟩, fun _ => ⟨0, 0⟩⟩ _ ?_ (str "Booting\n") (by decide)
  intro bm hbm
  rw [List.mem_cons, List.mem_singleton] at hbm
  rcases hbm with rfl | rfl
  · exact ⟨⟨⟨by decide, by decide, by decide⟩, by decide⟩,
      ⟨⟨by decide, by decide, by decide⟩, by decide⟩,
      by simp, by simp, by rw [Spinners]; decide, fun k hk => by
        obtain rfl := Option.some.inj hk
        rw [Spinners]
        decide⟩
  · exact ⟨⟨⟨by decide, by decide, by decide⟩, by decide⟩,
      ⟨⟨by decide, by decide, by decide⟩, by decide⟩,
      by simp, by simp, by rw [Spinners]; decide, by simp⟩

/-! ## Kernels with a spinner -/

/-- INTERNAL: the four characters of the spinner survive the `int` they are passed as. -/
theorem spinnerChars_spinner (i : BitVec 32) :
    isSpinnerChar (spinnerChars i) = true ∧
      ((spinnerChars i).signExtend 32).setWidth 8 = spinnerChars i ∧ spinnerChars i ≠ 0 := by
  rw [spinnerChars]
  split
  · decide
  split
  · decide
  split
  · decide
  · decide

variable {build : Build}

/-- INTERNAL: one step of the spinner is a backspace and one of its characters. -/
theorem fprintf_spinnerChars (frame : ℕ → Byte) (i : BitVec 32) :
    fprintf build (some ⟨true⟩) frame (str "\x08%c" ++ [0])
      [.int ((spinnerChars i).signExtend 32)] = some (2, [0x08, spinnerChars i]) := by
  obtain ⟨-, hwidth, hne⟩ := spinnerChars_spinner i
  have hfmt : str "\x08%c" = [0x08] ++ Appends.conversionFormat false (ch 'c') := by decide
  have happends : ∀ b, Appends build 0x1000 0 0 b (str "\x08%c")
      ([] ++ [.int ((spinnerChars i).signExtend 32)]) ([0x08] ++ [spinnerChars i]) := by
    intro b
    rw [hfmt]
    refine (Appends.literal (by decide) (by decide) (by decide)).append fun b' => ?_
    have hchar : ∀ v : BitVec 32, Appends build 0x1000 1 1 b'
        (Appends.conversionFormat false (ch 'c')) [.int v] [v.setWidth 8] :=
      Appends.char (by decide)
    have hthis := hchar ((spinnerChars i).signExtend 32)
    rwa [hwidth] at hthis
  refine fprintf_text ?_ happends frame
  rw [List.singleton_append, List.mem_cons, List.mem_singleton, not_or]
  exact ⟨by decide, Ne.symm hne⟩

/-- INTERNAL: a call of `debug_spinner` prints spinner characters, or nothing.
SRC: util/debug.c:21-30 -/
theorem debugSpinner_spinners (frame : ℕ → Byte) (s : Spinner) :
    ∃ s' text, debugSpinner build (some ⟨true⟩) frame s = some (s', text) ∧ Spinners text := by
  rw [debugSpinner]
  split
  · dsimp only
    rw [fprintf_spinnerChars]
    refine ⟨_, _, rfl, fun c hc => ?_⟩
    rcases List.mem_cons.mp hc with rfl | hc
    · decide
    · rw [List.mem_singleton.mp hc]
      exact (spinnerChars_spinner _).1
  · exact ⟨_, _, rfl, fun c hc => absurd hc List.not_mem_nil⟩

/-- INTERNAL: any number of its steps is spinner characters. -/
theorem spin_spinners (frame : ℕ → ℕ → Byte) (calls : ℕ) (s : Spinner) :
    ∃ text, spin build (some ⟨true⟩) frame calls s = some text ∧ Spinners text := by
  induction calls generalizing s with
  | zero => exact ⟨[], rfl, fun c hc => absurd hc List.not_mem_nil⟩
  | succ calls ih =>
    obtain ⟨s', text, hstep, htext⟩ := debugSpinner_spinners (frame calls) s
    obtain ⟨rest, hspin, hrest⟩ := ih s'
    refine ⟨text ++ rest, ?_, fun c hc => ?_⟩
    · rw [spin, hstep]
      simp only [Option.bind_eq_bind, Option.bind_some, hspin]
    · rcases List.mem_append.mp hc with hc | hc
      · exact htext c hc
      · exact hrest c hc

/-- INTERNAL: a kernel with a spinner meets the condition on kernels, for every rollover and
every number of calls. SRC: util/debug.c:13-30 -/
theorem spinnerKernel_spinners (frame : ℕ → ℕ → Byte) (rollover : BitVec 64) (calls : ℕ) :
    ∃ kernel, spinnerKernel build (some ⟨true⟩) frame rollover calls = some kernel ∧
      Spinners kernel := by
  have hstart : fprintf build (some ⟨true⟩) (frame calls) (str " " ++ [0]) [] = some (1, str " ") :=
    fprintf_text (by decide) (fun b => Appends.literal (by decide) (by decide) (by decide)) _
  obtain ⟨rest, hspin, hrest⟩ : ∃ text, spin build (some ⟨true⟩) frame calls
      ⟨rollover.setWidth 32, 0, 0⟩ = some text ∧ Spinners text := spin_spinners frame calls _
  refine ⟨str " " ++ rest, ?_, fun c hc => ?_⟩
  · rw [spinnerKernel, debugSpinnerStart, hstart]
    simp only [Option.bind_eq_bind, Option.bind_some, hspin]
  · rcases List.mem_append.mp hc with hc | hc
    · obtain rfl : c = ch ' ' := by simpa [str] using hc
      decide
    · exact hrest c hc

end Simbench.Analysis.HarnessFraming
