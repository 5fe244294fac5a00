import Simbench.Program.Host
import Mathlib.Tactic.Common

/-!
# What the host times

Which intervals `time_benchmarks` takes depends on the input alone (`scanTiming`); its ticks
come from the clock where an interval was taken, are zero for a control interval that was
not, and are what the stack frame held for a benchmark interval that was not. A benchmark
interval is taken exactly behind the leads of `BenchmarkLead`.
-/

set_option autoImplicit false

namespace Simbench.Analysis.HostTiming

open Simbench.Library.ByteParser Simbench.Program.Printf Simbench.Program.Host

/-! ## The character loops -/

/-- INTERNAL: characters both loops pass over. -/
def Spinners (noise : List Byte) : Prop := ∀ c ∈ noise, isSpinnerChar c = true

/-- INTERNAL: a spinner character opens no interval. -/
theorem not_opening_of_spinner {c : Byte} (h : isSpinnerChar c = true) :
    ¬ (c = ch '{' ∨ c = ch '[') := by
  rintro (rfl | rfl) <;> exact absurd h (by decide)

/-- INTERNAL: spinner characters before an opening bracket are skipped. -/
theorem readTimingStartChar_spinners {noise : List Byte} (h : Spinners noise) (rest : List Byte) :
    readTimingStartChar (noise ++ rest) = readTimingStartChar rest := by
  induction noise with
  | nil => rfl
  | cons c noise ih =>
    obtain ⟨hc, hnoise⟩ := List.forall_mem_cons.mp h
    rw [List.cons_append, readTimingStartChar, if_neg (not_opening_of_spinner hc), if_pos hc,
      ih hnoise]

/-- INTERNAL: an opening bracket is taken as the start of an interval. -/
theorem readTimingStartChar_opening {c : Byte} (hc : c = ch '{' ∨ c = ch '[') (rest : List Byte) :
    readTimingStartChar (c :: rest) = (c, rest) := by
  rw [readTimingStartChar, if_pos hc]

/-- INTERNAL: a bracket is found only behind spinner characters. -/
theorem readTimingStartChar_split {stdin rest : List Byte} {c : Byte}
    (hc : c = ch '{' ∨ c = ch '[') (h : readTimingStartChar stdin = (c, rest)) :
    ∃ noise, Spinners noise ∧ stdin = noise ++ c :: rest := by
  induction stdin with
  | nil =>
    obtain ⟨rfl, -⟩ := h
    exact absurd hc (by decide)
  | cons c' stdin ih =>
    rw [readTimingStartChar] at h
    by_cases hopen : c' = ch '{' ∨ c' = ch '['
    · rw [if_pos hopen] at h
      obtain ⟨rfl, rfl⟩ := h
      exact ⟨[], fun c hc => absurd hc List.not_mem_nil, rfl⟩
    · rw [if_neg hopen] at h
      by_cases hspin : isSpinnerChar c' = true
      · rw [if_pos hspin] at h
        obtain ⟨noise, hnoise, rfl⟩ := ih h
        exact ⟨c' :: noise, List.forall_mem_cons.mpr ⟨hspin, hnoise⟩, rfl⟩
      · rw [if_neg hspin] at h
        obtain ⟨rfl, -⟩ := h
        exact absurd hc (by decide)

/-- INTERNAL: the end loop stops at the first character that is no spinner character,
whatever it is. SRC: host/main.c:49-67 -/
theorem readTimingEndChar_spinners {noise : List Byte} (h : Spinners noise) {target x : Byte}
    (htarget : isSpinnerChar target = false) (hx : isSpinnerChar x = false) (rest : List Byte) :
    (readTimingEndChar target (noise ++ x :: rest)).2 = rest := by
  induction noise with
  | nil =>
    rw [List.nil_append, readTimingEndChar]
    split
    · rfl
    · rw [if_neg (by simp [hx])]
  | cons c noise ih =>
    obtain ⟨hc, hnoise⟩ := List.forall_mem_cons.mp h
    have hne : c ≠ target := by
      rintro rfl
      simp [htarget] at hc
    rw [List.cons_append, readTimingEndChar, if_neg hne, if_pos hc, ih hnoise]

/-- INTERNAL: the end loop read a stop character behind spinner characters, or the whole
input. -/
theorem readTimingEndChar_split {target : Byte} (htarget : isSpinnerChar target = false)
    (stdin : List Byte) :
    (readTimingEndChar target stdin).2 = [] ∨ ∃ noise x, Spinners noise ∧
      isSpinnerChar x = false ∧ stdin = noise ++ x :: (readTimingEndChar target stdin).2 := by
  induction stdin with
  | nil => exact Or.inl rfl
  | cons c stdin ih =>
    have hnil : Spinners [] := fun c hc => absurd hc List.not_mem_nil
    rw [readTimingEndChar]
    by_cases heq : c = target
    · rw [if_pos heq]
      exact Or.inr ⟨[], c, hnil, heq ▸ htarget, rfl⟩
    · rw [if_neg heq]
      cases hspin : isSpinnerChar c with
      | false => exact Or.inr ⟨[], c, hnil, hspin, rfl⟩
      | true =>
        rcases ih with hend | ⟨noise, x, hnoise, hx, hsplit⟩
        · exact Or.inl hend
        · refine Or.inr ⟨c :: noise, x, List.forall_mem_cons.mpr ⟨hspin, hnoise⟩, hx, ?_⟩
          rw [List.cons_append, if_pos rfl, ← hsplit]

/-! ## The intervals of a record -/

/-- INTERNAL: the control and benchmark intervals found on the input, and the rest. -/
def scanTiming (stdin : List Byte) : Option Interval × Option Interval × List Byte :=
  let (c, rest) := readTimingStartChar stdin
  let (control, c, rest) : Option Interval × Byte × List Byte :=
    if c = ch '{' then
      let stop := (readTimingEndChar (ch '}') rest).2
      (some ⟨rest, stop⟩, readTimingStartChar stop)
    else (none, c, rest)
  if c = ch '[' then
    let stop := (readTimingEndChar (ch ']') rest).2
    (control, some ⟨rest, stop⟩, stop)
  else (control, none, rest)

/-- INTERNAL: the ticks of an interval whose first clock reading is the `k`-th. -/
def intervalTicks (env : Environment) (k : ℕ) : BitVec 64 :=
  getTicksDifference (env.clock k) (env.clock (k + 1))

/-- INTERNAL: the clock readings an interval takes. -/
def readings (interval : Option Interval) : ℕ := if interval.isSome then 2 else 0

/-- INTERNAL: the times of a record. SRC: host/main.c:86-113 -/
def recordTimes (env : Environment) (clockReads frame : ℕ) (control benchmark : Option Interval) :
    BenchmarkTimes where
  controlTicks := if control.isSome then intervalTicks env clockReads else 0
  benchmarkTicks :=
    if benchmark.isSome then intervalTicks env (clockReads + readings control)
    else (env.stack frame).benchmarkTicks

/-- INTERNAL: `time_benchmarks` by what it finds on the input. SRC: host/main.c:86-113 -/
theorem timeBenchmarks_eq (env : Environment) (p : Process) {control benchmark : Option Interval}
    {rest : List Byte} (h : scanTiming p.stdin = (control, benchmark, rest)) :
    timeBenchmarks env p =
      (⟨recordTimes env p.clockReads p.frames control benchmark, control, benchmark⟩,
        ⟨rest, p.stdout, p.clockReads + readings control + readings benchmark, p.frames + 1⟩) := by
  rw [scanTiming] at h
  rw [timeBenchmarks, timeControl]
  by_cases hcontrol : (readTimingStartChar p.stdin).1 = ch '{'
  · simp only [if_pos hcontrol, timeInterval] at h ⊢
    by_cases hbench : (readTimingStartChar
        (readTimingEndChar (ch '}') (readTimingStartChar p.stdin).2).2).1 = ch '['
    · simp only [if_pos hbench] at h ⊢
      obtain ⟨rfl, rfl, rfl⟩ := h
      rfl
    · simp only [if_neg hbench] at h ⊢
      obtain ⟨rfl, rfl, rfl⟩ := h
      rfl
  · simp only [if_neg hcontrol, timeInterval] at h ⊢
    by_cases hbench : (readTimingStartChar p.stdin).1 = ch '['
    · simp only [if_pos hbench] at h ⊢
      obtain ⟨rfl, rfl, rfl⟩ := h
      rfl
    · simp only [if_neg hbench] at h ⊢
      obtain ⟨rfl, rfl, rfl⟩ := h
      rfl

/-- INTERNAL: what may stand between the header of a record and the `[` of its benchmark
interval: spinner characters, and perhaps one `{` with a control interval behind it, which
ends at any character that is no spinner character. -/
def BenchmarkLead (lead : List Byte) : Prop :=
  Spinners lead ∨ ∃ before control x after, lead = before ++ ch '{' :: control ++ x :: after ∧
    Spinners before ∧ Spinners control ∧ isSpinnerChar x = false ∧ Spinners after

/-- INTERNAL: behind spinner characters and `[` only the benchmark interval is taken. -/
theorem scanTiming_benchmark {noise : List Byte} (h : Spinners noise) (body : List Byte) :
    scanTiming (noise ++ ch '[' :: body) =
      (none, some ⟨body, (readTimingEndChar (ch ']') body).2⟩,
        (readTimingEndChar (ch ']') body).2) := by
  rw [scanTiming, readTimingStartChar_spinners h, readTimingStartChar_opening (Or.inr rfl)]
  rfl

/-- INTERNAL: a control interval and a benchmark interval behind it are both found. -/
theorem scanTiming_control {before control after : List Byte} {x : Byte} (hbefore : Spinners before)
    (hcontrol : Spinners control) (hx : isSpinnerChar x = false) (hafter : Spinners after)
    (body : List Byte) :
    scanTiming (before ++ ch '{' :: (control ++ x :: (after ++ ch '[' :: body))) =
      (some ⟨control ++ x :: (after ++ ch '[' :: body), after ++ ch '[' :: body⟩,
        some ⟨body, (readTimingEndChar (ch ']') body).2⟩, (readTimingEndChar (ch ']') body).2) := by
  have hend : (readTimingEndChar (ch '}') (control ++ x :: (after ++ ch '[' :: body))).2 =
      after ++ ch '[' :: body :=
    readTimingEndChar_spinners hcontrol (by decide) hx _
  rw [scanTiming, readTimingStartChar_spinners hbefore, readTimingStartChar_opening (Or.inl rfl)]
  simp only [if_true, hend, readTimingStartChar_spinners hafter,
    readTimingStartChar_opening (Or.inr rfl)]

/-- INTERNAL: behind such a lead the benchmark interval is the text up to its `]`. -/
theorem scanTiming_of_lead {lead : List Byte} (h : BenchmarkLead lead) (body : List Byte) :
    (scanTiming (lead ++ ch '[' :: body)).2 =
      (some ⟨body, (readTimingEndChar (ch ']') body).2⟩, (readTimingEndChar (ch ']') body).2) := by
  rcases h with h | ⟨before, control, x, after, rfl, hbefore, hcontrol, hx, hafter⟩
  · rw [scanTiming_benchmark h]
  · have hsplit : before ++ ch '{' :: control ++ x :: after ++ ch '[' :: body =
        before ++ ch '{' :: (control ++ x :: (after ++ ch '[' :: body)) := by
      simp only [List.append_assoc, List.cons_append]
    rw [hsplit, scanTiming_control hbefore hcontrol hx hafter]

/-- INTERNAL: a benchmark interval is found only behind such a lead. -/
theorem lead_of_scanTiming {stdin rest : List Byte} {control : Option Interval}
    {interval : Interval} (h : scanTiming stdin = (control, some interval, rest)) :
    ∃ lead, BenchmarkLead lead ∧ stdin = lead ++ ch '[' :: interval.start ∧
      rest = (readTimingEndChar (ch ']') interval.start).2 := by
  obtain ⟨c, s₁, hfirst⟩ : ∃ c s₁, readTimingStartChar stdin = (c, s₁) := ⟨_, _, rfl⟩
  simp only [scanTiming, hfirst] at h
  by_cases hcontrol : c = ch '{'
  · simp only [if_pos hcontrol] at h
    obtain ⟨c', s₂, hsecond⟩ :
        ∃ c' s₂, readTimingStartChar (readTimingEndChar (ch '}') s₁).2 = (c', s₂) := ⟨_, _, rfl⟩
    simp only [hsecond] at h
    by_cases hbench : c' = ch '['
    · rw [if_pos hbench] at h
      obtain ⟨-, rfl, rfl⟩ := h
      obtain ⟨before, hbefore, rfl⟩ := readTimingStartChar_split (Or.inl hcontrol) hfirst
      obtain ⟨after, hafter, hrest⟩ := readTimingStartChar_split (Or.inr hbench) hsecond
      rcases readTimingEndChar_split (show isSpinnerChar (ch '}') = false by decide) s₁ with
        hnil | ⟨noise, x, hnoise, hx, hsplit⟩
      · rw [hnil] at hrest
        exact absurd hrest.symm (by simp)
      · refine ⟨before ++ ch '{' :: noise ++ x :: after,
          Or.inr ⟨before, noise, x, after, rfl, hbefore, hnoise, hx, hafter⟩, ?_, rfl⟩
        rw [hsplit, hrest, hcontrol, hbench]
        simp only [List.append_assoc, List.cons_append]
    · rw [if_neg hbench] at h
      cases congrArg (fun r => r.2.1) h
  · simp only [if_neg hcontrol] at h
    by_cases hbench : c = ch '['
    · rw [if_pos hbench] at h
      obtain ⟨-, rfl, rfl⟩ := h
      obtain ⟨lead, hlead, rfl⟩ := readTimingStartChar_split (Or.inr hbench) hfirst
      exact ⟨lead, Or.inl hlead, hbench ▸ rfl, rfl⟩
    · rw [if_neg hbench] at h
      cases congrArg (fun r => r.2.1) h

/-! ## The begin line and the records -/

/-- INTERNAL: without a line there is no beginning. -/
theorem readStart_none {stdin : List Byte} (h : getline stdin = none) : readStart stdin = none := by
  rw [readStart]
  split
  · rfl
  · next hline =>
    rw [h] at hline
    cases hline

/-- INTERNAL: a line is the beginning, or the search goes on behind it. -/
theorem readStart_line {stdin line rest : List Byte} (h : getline stdin = some (line, rest)) :
    readStart stdin = if cString line = benchmarkBegin then some rest else readStart rest := by
  rw [readStart]
  split
  · next hline =>
    rw [h] at hline
    cases hline
  · next hline =>
    rw [h] at hline
    cases hline
    rfl

/-- INTERNAL: `read_benchmark` on a header that scans. SRC: host/main.c:115-137 -/
theorem readBenchmark_ok (env : Environment) (p : Process) {header : Header}
    {control benchmark : Option Interval} {rest rest' : List Byte}
    (hheader : scanHeader p.stdin = .ok (header, rest))
    (htiming : scanTiming rest = (control, benchmark, rest')) :
    readBenchmark env p =
      .ok (⟨header, ⟨recordTimes env p.clockReads p.frames control benchmark, control, benchmark⟩⟩,
        ⟨rest', p.stdout ++
            (header.print ++ (recordTimes env p.clockReads p.frames control benchmark).print),
          p.clockReads + readings control + readings benchmark, p.frames + 1⟩) := by
  rw [readBenchmark, hheader, ok_bind]
  dsimp only
  rw [timeBenchmarks_eq env _ htiming]
  simp only [Process.print, List.append_assoc]

/-- INTERNAL: a record whose header cannot be read ends the reading. -/
theorem readBenchmark_error (env : Environment) (p : Process) {stop : ScanStop}
    (h : scanHeader p.stdin = .error stop) : readBenchmark env p = .error stop := by
  rw [readBenchmark, h]
  rfl

/-- INTERNAL: a record that can be read is the first of the list. -/
theorem readBenchmarks_ok {env : Environment} {p p' : Process} {r : Record}
    (h : readBenchmark env p = .ok (r, p')) :
    readBenchmarks env p = (r :: (readBenchmarks env p').1, (readBenchmarks env p').2) := by
  rw [readBenchmarks]
  split
  · next hread =>
    rw [h] at hread
    cases hread
  · next hread =>
    rw [h] at hread
    cases hread
    rfl

/-- INTERNAL: one that cannot is not in it. -/
theorem readBenchmarks_error {env : Environment} {p : Process} {stop : ScanStop}
    (h : readBenchmark env p = .error stop) : readBenchmarks env p = ([], stop, p) := by
  rw [readBenchmarks]
  split
  · next hread =>
    rw [h] at hread
    cases hread
    rfl
  · next hread =>
    rw [h] at hread
    cases hread

end Simbench.Analysis.HostTiming
