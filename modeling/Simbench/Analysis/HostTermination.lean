import Simbench.Analysis.HostTiming
import Simbench.Program.HostLoops

/-!
# The host ends on every input

Each round of a loop of the host reads something or ends the loop: the end of the input is a
negative result of `getline`, fewer than three fields for `fscanf`, and the character -1, which is
no spinner character, for `fgetc`. With more fuel than there is input every loop gives the result
of the function that recurs on the input, and `main` prints one line for each header that scans.
-/

set_option autoImplicit false

namespace Simbench.Analysis.HostTermination

open Simbench.Library.ByteParser Simbench.Program.Printf Simbench.Program.Host
open Simbench.Program Simbench.Analysis.HostTiming

/-! ## Characters -/

/-- INTERNAL: at the end of the input `fgetc` gives the byte of EOF. -/
theorem fgetChar_nil : HostLoops.fgetChar [] = (0xff, []) := by decide

/-- INTERNAL: before the end of the input `fgetc` gives the next byte. -/
theorem fgetChar_cons (c : Byte) (stdin : List Byte) :
    HostLoops.fgetChar (c :: stdin) = (c, stdin) := by
  unfold HostLoops.fgetChar HostLoops.fgetc
  dsimp only
  rw [BitVec.setWidth_setWidth_of_le _ (by decide), BitVec.setWidth_eq]

/-- INTERNAL: **the start character**. Induction on the input. -/
theorem readTimingStartChar_ends {stdin : List Byte} {fuel : ℕ} (hfuel : stdin.length < fuel) :
    HostLoops.readTimingStartChar fuel stdin = some (readTimingStartChar stdin) := by
  induction stdin generalizing fuel with
  | nil =>
    obtain ⟨fuel, rfl⟩ := Nat.exists_eq_succ_of_ne_zero (Nat.ne_of_gt hfuel)
    rw [HostLoops.readTimingStartChar, fgetChar_nil]
    dsimp only
    rw [if_neg (by decide), if_neg (by decide), readTimingStartChar]
  | cons c stdin ih =>
    obtain ⟨fuel, rfl⟩ := Nat.exists_eq_succ_of_ne_zero (Nat.ne_of_gt (Nat.zero_lt_of_lt hfuel))
    rw [HostLoops.readTimingStartChar, fgetChar_cons, readTimingStartChar]
    dsimp only
    rw [ih (Nat.lt_of_succ_lt_succ hfuel)]
    split
    · rfl
    · split
      · rfl
      · rfl

/-- INTERNAL: **the end character**; nothing depends on which one it is. -/
theorem readTimingEndChar_ends (target : Byte) {stdin : List Byte} {fuel : ℕ}
    (hfuel : stdin.length < fuel) :
    ∃ c, HostLoops.readTimingEndChar target fuel stdin =
      some (c, (readTimingEndChar target stdin).2) := by
  induction stdin generalizing fuel with
  | nil =>
    obtain ⟨fuel, rfl⟩ := Nat.exists_eq_succ_of_ne_zero (Nat.ne_of_gt hfuel)
    rw [HostLoops.readTimingEndChar, fgetChar_nil, readTimingEndChar]
    dsimp only
    split
    · exact ⟨_, rfl⟩
    · rw [if_neg (by decide)]
      exact ⟨_, rfl⟩
  | cons c stdin ih =>
    obtain ⟨fuel, rfl⟩ := Nat.exists_eq_succ_of_ne_zero (Nat.ne_of_gt (Nat.zero_lt_of_lt hfuel))
    rw [HostLoops.readTimingEndChar, fgetChar_cons, readTimingEndChar]
    dsimp only
    split
    · exact ⟨_, rfl⟩
    · split
      · exact ih (Nat.lt_of_succ_lt_succ hfuel)
      · exact ⟨_, rfl⟩

/-- INTERNAL: **the begin line**. Induction on the fuel: a line read is shorter than the input. -/
theorem readStart_ends {stdin : List Byte} {fuel : ℕ} (hfuel : stdin.length < fuel) :
    HostLoops.readStart fuel stdin = some (readStart stdin) := by
  induction fuel generalizing stdin with
  | zero => omega
  | succ fuel ih =>
    rw [HostLoops.readStart]
    cases hline : getline stdin with
    | none => rw [readStart_none hline]
    | some r =>
      obtain ⟨line, rest⟩ := r
      have hrest := getline_length hline
      rw [readStart_line hline]
      dsimp only
      split
      · rfl
      · exact ih (by omega)

/-- INTERNAL: the begin line is part of the input. -/
theorem readStart_length {stdin rest : List Byte} (h : readStart stdin = some rest) :
    rest.length < stdin.length := by
  induction hleft : stdin.length using Nat.strongRecOn generalizing stdin with
  | ind left ih =>
    cases hline : getline stdin with
    | none =>
      rw [readStart_none hline] at h
      cases h
    | some r =>
      obtain ⟨line, after⟩ := r
      have hafter := getline_length hline
      rw [readStart_line hline] at h
      split at h
      · rw [← Option.some.inj h]
        omega
      · have hrest := ih _ (hleft ▸ hafter) h rfl
        omega

/-! ## Times -/

variable {env : Environment} {p : Process} {fuel : ℕ}

/-- INTERNAL: with rounds for each byte of input the loop over an interval ends. -/
theorem timeInterval_ends (target : Byte) (hfuel : p.stdin.length < fuel) :
    HostLoops.timeInterval fuel env target p = some (timeInterval env target p) := by
  obtain ⟨c, hend⟩ := readTimingEndChar_ends target hfuel
  rw [HostLoops.timeInterval, hend]
  rfl

/-- INTERNAL: with rounds for each byte of input the loop over the control interval ends. -/
theorem timeControl_ends (hfuel : p.stdin.length < fuel) :
    HostLoops.timeControl fuel env p = some (timeControl env p) := by
  have hstart := readTimingStartChar_length p.stdin
  have hend := readTimingEndChar_length (ch '}') (readTimingStartChar p.stdin).2
  rw [HostLoops.timeControl, readTimingStartChar_ends hfuel, timeControl]
  dsimp only [Option.bind_eq_bind, Option.bind_some]
  split
  · rw [timeInterval_ends _ (Nat.lt_of_le_of_lt hstart hfuel)]
    dsimp only [Option.bind_some, timeInterval]
    rw [readTimingStartChar_ends (Nat.lt_of_le_of_lt (Nat.le_trans hend hstart) hfuel)]
    rfl
  · rfl

/-- INTERNAL: `time_benchmarks` ends on every input: each round of its loops takes a byte of it. -/
theorem timeBenchmarks_ends (hfuel : p.stdin.length < fuel) :
    HostLoops.timeBenchmarks fuel env p = some (timeBenchmarks env p) := by
  have hcontrol := timeControl_length env p
  rw [HostLoops.timeBenchmarks, timeControl_ends hfuel, timeBenchmarks]
  dsimp only [Option.bind_eq_bind, Option.bind_some]
  split
  · rw [timeInterval_ends _ (Nat.lt_of_le_of_lt hcontrol hfuel)]
    rfl
  · rfl

/-- INTERNAL: `time_benchmarks` prints nothing. -/
theorem timeBenchmarks_stdout (env : Environment) (p : Process) :
    (timeBenchmarks env p).2.stdout = p.stdout := by
  obtain ⟨control, benchmark, rest, hscan⟩ :
      ∃ control benchmark rest, scanTiming p.stdin = (control, benchmark, rest) := ⟨_, _, _, rfl⟩
  rw [timeBenchmarks_eq env p hscan]

/-! ## Lines -/

/-- INTERNAL: no newline but the last character. -/
def IsLine (text : List Byte) : Prop := ∃ front, text = front ++ str "\r\n" ∧ ch '\n' ∉ front

/-- INTERNAL: no digit is a newline. -/
theorem digitChar_ne_newline : ∀ d < 16, ch '\n' ≠ ch (Nat.digitChar d) := by decide

/-- INTERNAL: digits are no newlines. Induction on the number, digit by digit from the end. -/
theorem newline_notMem_toDigits {b : ℕ} (hb : 1 < b) (hdigit : b ≤ 16) (n : ℕ) :
    ch '\n' ∉ (Nat.toDigits b n).map ch := by
  induction n using Nat.strongRecOn with
  | ind n ih =>
    rw [Nat.toDigits_eq_if hb]
    split
    · rw [List.map_singleton, List.mem_singleton]
      exact digitChar_ne_newline n (by omega)
    · have hlast : ch '\n' ∉ [ch (Nat.digitChar (n % b))] := by
        have hmod : n % b < b := Nat.mod_lt n (by omega)
        rw [List.mem_singleton]
        exact digitChar_ne_newline _ (by omega)
      have hlt : n / b < n := Nat.div_lt_self (by omega) hb
      rw [List.map_append, List.mem_append, not_or]
      exact ⟨ih _ hlt, hlast⟩

/-- INTERNAL: no number printed holds a newline. -/
theorem newline_notMem_print (d : Double) : ch '\n' ∉ d.print := by
  have hpoint : ch '\n' ≠ ch '.' := by decide
  rw [Double.print, List.mem_append, List.mem_cons, not_or, not_or]
  refine ⟨newline_notMem_toDigits (by decide) (by decide) _, hpoint, fun hmem => ?_⟩
  rw [List.map_tail] at hmem
  exact newline_notMem_toDigits (by decide) (by decide) _ (List.mem_of_mem_tail hmem)

/-- INTERNAL: a `%s` token has no white space. -/
theorem newline_notMem_token {stdin token rest : List Byte}
    (h : scanString stdin = .ok (token, rest)) : ch '\n' ∉ cString token := by
  have htoken : token = (skipSpace stdin).takeWhile (!isSpace ·) := by
    rw [scanString] at h
    split at h
    · cases h
    · split at h
      · cases h
      · exact ((Prod.mk.inj (Except.ok.inj h)).1).symm
  intro hmem
  have hchar := List.all_eq_true.mp List.all_takeWhile (ch '\n')
    (htoken ▸ (List.takeWhile_sublist _).subset hmem)
  revert hchar
  decide

/-- INTERNAL: no header read by `scanf` holds one: its strings hold no space. -/
theorem newline_notMem_header {stdin rest : List Byte} {header : Header}
    (h : scanHeader stdin = .ok (header, rest)) : ch '\n' ∉ header.print := by
  simp only [scanHeader, bind_eq_ok, Prod.exists] at h
  obtain ⟨category, s₁, hcategory, s₂, -, benchmark, s₃, hbenchmark, iterations, s₄, -, hend⟩ := h
  obtain ⟨rfl, -⟩ := Prod.mk.inj (Except.ok.inj hend)
  have hspace : ch '\n' ≠ ch ' ' := by decide
  have hdash : ch '\n' ∉ str " - " := by decide
  simp only [Header.print, List.mem_append, List.mem_cons, not_or]
  exact ⟨⟨⟨⟨newline_notMem_token hcategory, hdash⟩, newline_notMem_token hbenchmark⟩, hspace,
    newline_notMem_toDigits (by decide) (by decide) _⟩, hspace, List.not_mem_nil⟩

/-- INTERNAL: the times end the line. -/
theorem isLine_times {text : List Byte} (h : ch '\n' ∉ text) (times : BenchmarkTimes) :
    IsLine (text ++ times.print) := by
  have hspace : ch '\n' ≠ ch ' ' := by decide
  have hseconds (ticks : BitVec 64) : ch '\n' ∉ ch ' ' :: (seconds ticks).print :=
    List.not_mem_cons_of_ne_of_not_mem hspace (newline_notMem_print _)
  refine ⟨text ++ ((if (seconds times.controlTicks).mantissa ≠ 0 then
    ch ' ' :: (seconds times.controlTicks).print else []) ++
      ch ' ' :: (seconds times.benchmarkTicks).print), ?_, ?_⟩
  · simp only [BenchmarkTimes.print, List.append_assoc]
  · rw [List.mem_append, List.mem_append, not_or, not_or]
    refine ⟨h, ?_, hseconds _⟩
    split
    · exact hseconds _
    · exact List.not_mem_nil

/-! ## Tokens -/

/-- INTERNAL: the token `%s` takes from an input. -/
def tokenOf (stdin : List Byte) : List Byte := (skipSpace stdin).takeWhile (!isSpace ·)

/-- INTERNAL: both `%s` of a header get tokens that fit with their NUL in 128 bytes. -/
structure ShortTokens (stdin : List Byte) : Prop where
  category : (tokenOf stdin).length < 128
  benchmark : ∀ category s₁ s₂, scanString stdin = .ok (category, s₁) →
    scanChar (ch '-') (skipSpace s₁) = .ok s₂ → (tokenOf (skipSpace s₂)).length < 128

/-- INTERNAL: a token below 128 bytes fits its array. -/
theorem scanString_ne_overflow {stdin : List Byte} (h : (tokenOf stdin).length < 128) :
    scanString stdin ≠ .error .overflow := by
  intro hscan
  rw [scanString] at hscan
  split at hscan
  · cases hscan
  · rw [tokenOf] at h
    rw [if_neg (Nat.not_le.mpr h)] at hscan
    cases hscan

/-- INTERNAL: matching a character writes to no array. -/
theorem scanChar_ne_overflow (c : Byte) (stdin : List Byte) :
    scanChar c stdin ≠ .error .overflow := by
  intro hscan
  cases stdin with
  | nil => cases hscan
  | cons c' stdin =>
    rw [scanChar] at hscan
    split at hscan
    · cases hscan
    · cases hscan

/-- INTERNAL: `%lx` writes to no array, so it cannot overflow one. -/
theorem scanHex_ne_overflow (stdin : List Byte) : scanHex stdin ≠ .error .overflow := by
  intro hscan
  rw [scanHex, bind_eq_error] at hscan
  obtain hdigits | ⟨_, -, hend⟩ := hscan
  · rw [scanDigits] at hdigits
    split at hdigits
    · cases hdigits
    · cases hdigits
  · cases hend

/-- INTERNAL: a header with short tokens is scanned within its arrays. -/
theorem ShortTokens.ne_overflow {stdin : List Byte} (h : ShortTokens stdin) :
    scanHeader stdin ≠ .error .overflow := by
  intro hscan
  rw [scanHeader, bind_eq_error] at hscan
  obtain hcategory | ⟨⟨category, s₁⟩, hcategory, hscan⟩ := hscan
  · exact scanString_ne_overflow h.category hcategory
  dsimp only at hscan
  rw [bind_eq_error] at hscan
  obtain hdash | ⟨s₂, hdash, hscan⟩ := hscan
  · exact scanChar_ne_overflow _ _ hdash
  rw [bind_eq_error] at hscan
  obtain hbenchmark | ⟨⟨benchmark, s₃⟩, -, hscan⟩ := hscan
  · exact scanString_ne_overflow (h.benchmark category s₁ s₂ hcategory hdash) hbenchmark
  dsimp only at hscan
  rw [bind_eq_error] at hscan
  obtain hhex | ⟨_, -, hend⟩ := hscan
  · exact scanHex_ne_overflow _ hhex
  · cases hend

/-! ## Records -/

/-- INTERNAL: what a call of `read_benchmark` prints: a line when all three fields are scanned,
nothing else. SRC: host/main.c:123-136 -/
def PrintsLine (call : HostLoops.Call) : Prop :=
  match scanHeader call.unread with
  | .ok (header, _) => call.scanned = .ok header ∧ IsLine call.printed
  | .error stop => call.scanned = .error stop ∧ call.printed = []

/-- INTERNAL: the call of `read_benchmark` and its record, in the state `q` behind it. -/
structure Returns (env : Environment) (p : Process) (call : HostLoops.Call) (q : Process) :
    Prop where
  ends : ∀ fuel, p.stdin.length ≤ fuel → HostLoops.readBenchmark fuel env p = some (call, q)
  unread : call.unread = p.stdin
  printsLine : PrintsLine call
  stdout : q.stdout = p.stdout ++ call.printed

/-- INTERNAL: `read_benchmark` returns 1 where `scanf` does not match its header, having printed
nothing. -/
theorem returns_error (env : Environment) {stop : ScanStop} (h : scanHeader p.stdin = .error stop) :
    Returns env p ⟨p.stdin, .error stop, []⟩ p := by
  refine ⟨fun fuel _ => ?_, rfl, ?_, (List.append_nil _).symm⟩
  · rw [HostLoops.readBenchmark, h]
  · rw [PrintsLine, h]
    exact ⟨rfl, rfl⟩

/-- INTERNAL: `read_benchmark` returns 0 where it does, with its line printed and its record
read. -/
theorem returns_ok (env : Environment) {header : Header} {rest : List Byte}
    (h : scanHeader p.stdin = .ok (header, rest)) :
    ∃ call q r, Returns env p call q ∧ call.scanned = .ok header ∧
      readBenchmark env p = .ok (r, q) := by
  have hrest := scanHeader_length h
  obtain ⟨timing, q, htiming⟩ : ∃ timing q,
      timeBenchmarks env (({ p with stdin := rest } : Process).print header.print) = (timing, q) :=
    ⟨_, _, rfl⟩
  refine ⟨⟨p.stdin, .ok header, header.print ++ timing.times.print⟩, q.print timing.times.print,
    ⟨header, timing⟩, ⟨fun fuel hfuel => ?_, rfl, ?_, ?_⟩, rfl, ?_⟩
  · rw [HostLoops.readBenchmark, h]
    dsimp only
    rw [timeBenchmarks_ends, htiming]
    · rfl
    · exact Nat.lt_of_lt_of_le hrest hfuel
  · rw [PrintsLine, h]
    exact ⟨rfl, isLine_times (newline_notMem_header h) _⟩
  · have hstdout := timeBenchmarks_stdout env
      (({ p with stdin := rest } : Process).print header.print)
    rw [htiming] at hstdout
    dsimp only [Process.print] at hstdout ⊢
    rw [hstdout, List.append_assoc]
  · rw [readBenchmark, h, ok_bind]
    dsimp only
    rw [htiming]

/-- INTERNAL: the calls of `read_benchmark` in a run of the loop that starts in the state `p`. -/
structure Runs (env : Environment) (p : Process) (calls : List HostLoops.Call) : Prop where
  ends : ∀ fuel, p.stdin.length < fuel →
    HostLoops.readBenchmarks fuel env p = some (calls, (readBenchmarks env p).2.2)
  printsLine : ∀ call ∈ calls, PrintsLine call
  stdout : (readBenchmarks env p).2.2.stdout = p.stdout ++ calls.flatMap (·.printed)
  overflow : (readBenchmarks env p).2.1 = .overflow ↔
    calls.any (·.scanned = .error .overflow) = true

/-- INTERNAL: **the loop of `main`**. Induction on the input left: a record takes some of it. -/
theorem exists_runs (env : Environment) (p : Process) : ∃ calls, Runs env p calls := by
  induction hleft : p.stdin.length using Nat.strongRecOn generalizing p with
  | ind left ih =>
    cases hheader : scanHeader p.stdin with
    | error stop =>
      have hcall := returns_error env hheader
      have hloop := readBenchmarks_error (readBenchmark_error env p hheader)
      refine ⟨[⟨p.stdin, .error stop, []⟩], fun fuel hfuel => ?_, ?_, ?_, ?_⟩
      · obtain ⟨fuel, rfl⟩ := Nat.exists_eq_succ_of_ne_zero (Nat.ne_of_gt (Nat.zero_lt_of_lt hfuel))
        rw [HostLoops.readBenchmarks, hcall.ends fuel (Nat.le_of_lt_succ hfuel), hloop]
        rfl
      · rw [List.forall_mem_singleton]
        exact hcall.printsLine
      · rw [hloop, List.flatMap_singleton, List.append_nil]
      · rw [hloop]
        simp
    | ok r =>
      obtain ⟨header, rest⟩ := r
      obtain ⟨call, q, r, hcall, hscanned, hread⟩ := returns_ok env hheader
      have hless := readBenchmark_length hread
      have hloop := readBenchmarks_ok hread
      obtain ⟨calls, hruns⟩ := ih _ (hleft ▸ hless) q rfl
      refine ⟨call :: calls, fun fuel hfuel => ?_, ?_, ?_, ?_⟩
      · obtain ⟨fuel, rfl⟩ := Nat.exists_eq_succ_of_ne_zero (Nat.ne_of_gt (Nat.zero_lt_of_lt hfuel))
        rw [HostLoops.readBenchmarks, hcall.ends fuel (Nat.le_of_lt_succ hfuel), hloop]
        dsimp only [Option.bind_eq_bind, Option.bind_some]
        rw [hscanned]
        dsimp only
        rw [hruns.ends fuel (by omega)]
        rfl
      · rw [List.forall_mem_cons]
        exact ⟨hcall.printsLine, hruns.printsLine⟩
      · rw [hloop, List.flatMap_cons, hruns.stdout, hcall.stdout, List.append_assoc]
      · rw [hloop, hruns.overflow, List.any_cons, hscanned]
        simp

/-! ## The whole program -/

/-- INTERNAL: what a run prints that calls `read_benchmark` so. -/
def printedBy (stdin : List Byte) (calls : List HostLoops.Call) : List Byte :=
  (if (readStart stdin).isSome then benchmarkBegin else []) ++ calls.flatMap (·.printed)

/-- INTERNAL: `main` ends, as the program that recurs on its input does. -/
theorem main_ends (env : Environment) (stdin : List Byte) : ∃ calls,
    (∀ fuel, stdin.length < fuel →
      HostLoops.main fuel env stdin = some (calls, (main env stdin).stdout)) ∧
    (∀ call ∈ calls, PrintsLine call) ∧
    (main env stdin).stdout = printedBy stdin calls ++
      if calls.any (·.scanned = .error .overflow) then [] else str "Done.\n" := by
  cases hstart : readStart stdin with
  | none =>
    refine ⟨[], fun fuel hfuel => ?_, List.forall_mem_nil _, ?_⟩
    · rw [HostLoops.main, readStart_ends hfuel, hstart, main, hstart]
      rfl
    · rw [main, printedBy, hstart]
      rfl
  | some rest =>
    obtain ⟨calls, hruns⟩ := exists_runs env ⟨rest, benchmarkBegin, 0, 0⟩
    have hmain : (main env stdin).stdout = printedBy stdin calls ++
        if calls.any (·.scanned = .error .overflow) then [] else str "Done.\n" := by
      rw [main, hstart, printedBy, hstart]
      dsimp only
      rw [hruns.stdout]
      congr 1
      exact if_congr hruns.overflow rfl rfl
    refine ⟨calls, fun fuel hfuel => ?_, hruns.printsLine, hmain⟩
    have hlength : rest.length < fuel := Nat.lt_trans (readStart_length hstart) hfuel
    rw [HostLoops.main, readStart_ends hfuel, hstart]
    dsimp only [Option.bind_eq_bind, Option.bind_some]
    rw [hruns.ends fuel hlength, hmain]
    dsimp only [Option.bind_some]
    rw [hruns.stdout, printedBy, hstart]
    split
    · rw [List.append_nil]
      rfl
    · rfl

/-- SOURCE: host/main.c:10-67,86-148 — **the host ends on every finite input**: its loops end on
whatever they read, with a round for each byte and one more; each call of `read_benchmark` prints
one line when `fscanf` has matched all three fields, and nothing otherwise; and when the tokens of
the headers fit, what is printed is the begin line, these lines and the last one. -/
theorem host_ends (env : Environment) (stdin : List Byte) :
    (∀ input fuel, input.length < fuel → (HostLoops.readStart fuel input).isSome ∧
      (HostLoops.readTimingStartChar fuel input).isSome ∧
      ∀ target, (HostLoops.readTimingEndChar target fuel input).isSome) ∧
    ∃ calls stdout,
      (∀ fuel, stdin.length < fuel → HostLoops.main fuel env stdin = some (calls, stdout)) ∧
      (∀ call ∈ calls, PrintsLine call) ∧
      ((∀ call ∈ calls, ShortTokens call.unread) →
        stdout = printedBy stdin calls ++ str "Done.\n") := by
  constructor
  · intro input fuel hfuel
    refine ⟨?_, ?_, fun target => ?_⟩
    · rw [readStart_ends hfuel]
      rfl
    · rw [readTimingStartChar_ends hfuel]
      rfl
    · obtain ⟨c, hend⟩ := readTimingEndChar_ends target hfuel
      rw [hend]
      rfl
  · obtain ⟨calls, hends, hlines, hstdout⟩ := main_ends env stdin
    refine ⟨calls, _, hends, hlines, fun hshort => ?_⟩
    have hfits : ¬ calls.any (·.scanned = .error .overflow) = true := by
      intro hany
      obtain ⟨call, hcall, hoverflow⟩ := List.any_eq_true.mp hany
      have hline := hlines call hcall
      have hscan := (hshort call hcall).ne_overflow
      unfold PrintsLine at hline
      rw [of_decide_eq_true hoverflow] at hline
      split at hline
      · cases hline.1
      · next stop hstop =>
        obtain rfl := Except.error.inj hline.1
        exact hscan hstop
    rw [hstdout, if_neg hfits]

/-- INTERNAL: a simulator that dies in its first record, behind a spinner character and a byte
that reads as the end of the input. -/
def brokenInput : List Byte := str "\\\\BENCHMARKS BEGIN\r\nMemory - Hot a [|" ++ [0xff]

/-- SOURCE: host/main.c:139-148 — a run on that input. -/
theorem host_ends_brokenInput : ∃ calls stdout,
    HostLoops.main 40 ⟨fun _ => ⟨0, 0⟩, fun _ => ⟨0, 0⟩⟩ brokenInput = some (calls, stdout) ∧
      ∀ call ∈ calls, PrintsLine call := by
  obtain ⟨calls, stdout, hends, hlines, -⟩ :=
    (host_ends ⟨fun _ => ⟨0, 0⟩, fun _ => ⟨0, 0⟩⟩ brokenInput).2
  exact ⟨calls, stdout, hends 40 (by decide), hlines⟩

end Simbench.Analysis.HostTermination
