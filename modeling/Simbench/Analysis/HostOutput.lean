import Simbench.Analysis.HostTiming

/-!
# What the printed times depend on

Two runs of the host on one input and one clock that differ in the contents of the stack
frames only. Records whose benchmark interval is taken read the frame nowhere. A record
without one prints the frame's ticks: frames of 0 and of one second tell the runs apart,
and as both print times of equal length, later output cannot make up for it.
-/

set_option autoImplicit false

namespace Simbench.Analysis.HostOutput

open Simbench.Program.Printf Simbench.Program.Host Simbench.Analysis.HostTiming

/-- INTERNAL: on this input, every record whose header scans goes on with a lead and `[`. -/
inductive Measured : List Byte → Prop
  | stop {stdin : List Byte} {stop : ScanStop} (hheader : scanHeader stdin = .error stop) :
      Measured stdin
  | record {stdin : List Byte} {header : Header} {lead body : List Byte}
      (hheader : scanHeader stdin = .ok (header, lead ++ ch '[' :: body))
      (hlead : BenchmarkLead lead) (hrest : Measured (readTimingEndChar (ch ']') body).2) :
      Measured stdin

/-! ## Measured inputs -/

/-- INTERNAL: where both intervals are measured, what the stack held before does not show in the
records. -/
theorem readBenchmarks_of_measured {stdin : List Byte} (h : Measured stdin) (clock : ℕ → Timespec)
    (stack stack' : ℕ → BenchmarkTimes) (p : Process) (hp : p.stdin = stdin) :
    readBenchmarks ⟨clock, stack⟩ p = readBenchmarks ⟨clock, stack'⟩ p := by
  induction h generalizing p with
  | stop hheader =>
    subst hp
    rw [readBenchmarks_error (readBenchmark_error _ p hheader),
      readBenchmarks_error (readBenchmark_error _ p hheader)]
  | @record stdin header lead body hheader hlead hrest ih =>
    subst hp
    obtain ⟨control, benchmark, rest, hscan⟩ :
        ∃ control benchmark rest,
          scanTiming (lead ++ ch '[' :: body) = (control, benchmark, rest) :=
      ⟨_, _, _, rfl⟩
    obtain ⟨rfl, rfl⟩ : benchmark = some _ ∧ rest = _ := by
      have htail := scanTiming_of_lead hlead body
      rw [hscan] at htail
      exact Prod.mk.inj htail
    have hok := fun stack => readBenchmark_ok ⟨clock, stack⟩ p hheader hscan
    rw [readBenchmarks_ok (hok stack), readBenchmarks_ok (hok stack')]
    exact congrArg (fun r : List Record × ScanStop × Process => (_ :: r.1, r.2)) (ih _ rfl)

/-! ## Two frames that tell runs apart -/

/-- INTERNAL: frames that hold the same ticks throughout. -/
def constantStack (ticks : BitVec 64) : ℕ → BenchmarkTimes := fun _ => ⟨0, ticks⟩

/-- INTERNAL: ticks of zero and of one second print differently, in equal length. -/
theorem seconds_print_one : (seconds 0).print.length = (seconds 1000000000).print.length ∧
    (seconds 0).print ≠ (seconds 1000000000).print := by
  decide

/-- INTERNAL: a record printed in both runs: the same length, and the same text only if its
benchmark interval was taken. -/
theorem print_times (controlTicks benchmarkTicks : BitVec 64) (taken : Bool) :
    let text := (⟨controlTicks, if taken then benchmarkTicks else 0⟩ : BenchmarkTimes).print
    let text' :=
      (⟨controlTicks, if taken then benchmarkTicks else 1000000000⟩ : BenchmarkTimes).print
    text.length = text'.length ∧ (text = text' → taken = true) := by
  cases taken with
  | true => exact ⟨rfl, fun _ => rfl⟩
  | false =>
    obtain ⟨hlength, hne⟩ := seconds_print_one
    refine ⟨?_, fun h => absurd ?_ hne⟩
    · simp only [BenchmarkTimes.print, Bool.false_eq_true, if_false, List.length_append,
        List.length_cons, hlength]
    · simp only [BenchmarkTimes.print, Bool.false_eq_true, if_false] at h
      rw [List.append_assoc, List.append_assoc] at h
      have htail := List.append_cancel_left h
      rw [List.cons_append, List.cons_append] at htail
      exact List.append_cancel_right (List.cons.inj htail).2

/-- INTERNAL: two runs from states that differ in what was printed before: their further
output has one length, and is equal only on a measured input. By induction on the input. -/
theorem measured_of_output_eq (clock : ℕ → Timespec) (p : Process) (stdout : List Byte) :
    ∃ out out', (readBenchmarks ⟨clock, constantStack 0⟩ p).2.2.stdout = p.stdout ++ out ∧
      (readBenchmarks ⟨clock, constantStack 1000000000⟩ { p with stdout := stdout }).2.2.stdout =
        stdout ++ out' ∧
      (readBenchmarks ⟨clock, constantStack 0⟩ p).2.1 =
        (readBenchmarks ⟨clock, constantStack 1000000000⟩ { p with stdout := stdout }).2.1 ∧
      out.length = out'.length ∧ (out = out' → Measured p.stdin) := by
  induction hn : p.stdin.length using Nat.strongRecOn generalizing p stdout with
  | ind n ih =>
    subst hn
    cases hheader : scanHeader p.stdin with
    | error stop =>
      refine ⟨[], [], ?_, ?_, ?_, rfl, fun _ => .stop hheader⟩
      · rw [readBenchmarks_error (readBenchmark_error _ p hheader), List.append_nil]
      · rw [readBenchmarks_error (readBenchmark_error _ { p with stdout := stdout } hheader),
          List.append_nil]
      · rw [readBenchmarks_error (readBenchmark_error _ p hheader),
          readBenchmarks_error (readBenchmark_error _ { p with stdout := stdout } hheader)]
    | ok r =>
      obtain ⟨header, rest⟩ := r
      obtain ⟨control, benchmark, rest', hscan⟩ :
          ∃ control benchmark rest', scanTiming rest = (control, benchmark, rest') :=
        ⟨_, _, _, rfl⟩
      -- both runs take the same intervals and leave the same input
      have hread := readBenchmark_ok ⟨clock, constantStack 0⟩ p hheader hscan
      have hread' := readBenchmark_ok ⟨clock, constantStack 1000000000⟩
        { p with stdout := stdout } hheader hscan
      obtain ⟨hlength, htaken⟩ := print_times
        (if control.isSome then intervalTicks ⟨clock, constantStack 0⟩ p.clockReads else 0)
        (intervalTicks ⟨clock, constantStack 0⟩ (p.clockReads + readings control)) benchmark.isSome
      obtain ⟨out, out', hout, hout', hstop, hlength', hmeasured⟩ :=
        ih _ (readBenchmark_length hread) _ _ rfl
      rw [readBenchmarks_ok hread, readBenchmarks_ok hread']
      refine ⟨_, _, hout.trans (List.append_assoc ..), hout'.trans (List.append_assoc ..), hstop,
        ?_, fun heq => ?_⟩
      · rw [List.length_append, List.length_append, List.length_append, List.length_append, hlength']
        exact congrArg (header.print.length + · + out'.length) hlength
      · obtain ⟨htext, htail⟩ := List.append_inj heq (by
          rw [List.length_append, List.length_append]
          exact congrArg (header.print.length + ·) hlength)
        have hsome := htaken (List.append_cancel_left htext)
        obtain ⟨interval, rfl⟩ := Option.isSome_iff_exists.mp hsome
        obtain ⟨lead, hlead, rfl, rfl⟩ := lead_of_scanTiming hscan
        exact .record hheader hlead (hmeasured htail)

/-! ## The whole program -/

/-- SOURCE: host/main.c:86-137 — **no time that was not measured**: on an input and a clock,
what the host prints is the same whatever the stack frames hold, exactly when behind the
begin line every record whose header scans goes on with a lead and `[`. -/
theorem stdout_independent_iff (clock : ℕ → Timespec) (stdin : List Byte) :
    (∀ stack stack', (main ⟨clock, stack⟩ stdin).stdout = (main ⟨clock, stack'⟩ stdin).stdout) ↔
      ∀ rest, readStart stdin = some rest → Measured rest := by
  constructor
  · intro hsame rest hstart
    obtain ⟨out, out', hout, hout', hstop, -, hmeasured⟩ :=
      measured_of_output_eq clock ⟨rest, benchmarkBegin, 0, 0⟩ benchmarkBegin
    have heq := hsame (constantStack 0) (constantStack 1000000000)
    simp only [main, hstart, hout, hout', ← hstop] at heq
    exact hmeasured (List.append_cancel_left (List.append_cancel_right heq))
  · intro hmeasured stack stack'
    rw [main, main]
    cases hstart : readStart stdin with
    | none => rfl
    | some rest =>
      dsimp only
      rw [readBenchmarks_of_measured (hmeasured rest hstart) clock stack stack' _ rfl]

/-- INTERNAL: a simulator that dies behind the header of its first record. -/
def truncatedInput : List Byte := str "\\\\BENCHMARKS BEGIN\r\nMemory - Hot a "

/-- INTERNAL: whatever the frame holds is printed as the time of `Memory - Hot`. -/
theorem stdout_truncatedInput (clock : ℕ → Timespec) (ticks : BitVec 64) :
    (main ⟨clock, constantStack ticks⟩ truncatedInput).stdout =
      benchmarkBegin ++ (str "Memory - Hot a " ++ (⟨0, ticks⟩ : BenchmarkTimes).print) ++
        str "Done.\n" := by
  have hstart : readStart truncatedInput = some (str "Memory - Hot a ") := by
    rw [readStart_line (show getline truncatedInput =
      some (benchmarkBegin, str "Memory - Hot a ") by decide), if_pos (by decide)]
  have hrecord := readBenchmark_ok ⟨clock, constantStack ticks⟩
    ⟨str "Memory - Hot a ", benchmarkBegin, 0, 0⟩
    (show scanHeader (str "Memory - Hot a ") = .ok (⟨str "Memory", str "Hot", 10⟩, []) by decide)
    (show scanTiming [] = (none, none, []) by decide)
  have hstop := fun p : Process => readBenchmark_error ⟨clock, constantStack ticks⟩
    ⟨[], p.stdout, p.clockReads, p.frames⟩ (show scanHeader [] = .error (.mismatch []) by decide)
  simp only [main, hstart]
  rw [readBenchmarks_ok hrecord, readBenchmarks_error (hstop ⟨[], _, _, _⟩)]
  rfl

/-- INTERNAL: two frame contents, two outputs. -/
theorem stdout_depends_on_frame : ¬ ∀ (clock : ℕ → Timespec) (stdin : List Byte)
    (stack stack' : ℕ → BenchmarkTimes),
      (main ⟨clock, stack⟩ stdin).stdout = (main ⟨clock, stack'⟩ stdin).stdout := by
  intro hsame
  have heq := hsame (fun _ => ⟨0, 0⟩) truncatedInput (constantStack 0) (constantStack 1000000000)
  rw [stdout_truncatedInput, stdout_truncatedInput] at heq
  have hprint := List.append_cancel_left (List.append_cancel_left (List.append_cancel_right heq))
  exact absurd hprint (by decide)

end Simbench.Analysis.HostOutput
