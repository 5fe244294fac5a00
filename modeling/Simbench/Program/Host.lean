import Mathlib.Data.Int.Notation
import Simbench.Library.ByteParser
import Simbench.Program.Printf

/-!
# The host

`host/main.c`. Standard input is the list of bytes not read yet; the clock is the sequence
of readings it will give. `time_benchmarks` leaves parts of its local `times` as the stack
frame has them, so the contents of every frame are a parameter. A `%s` token that does not
fit its array has no defined effect: the run ends there as an overflow.

Each timed interval is kept with the input that was unread at its two clock readings.
-/

set_option autoImplicit false

namespace Simbench.Program.Host

open Simbench.Library.ByteParser Simbench.Program.Printf

/-! ## The C library -/

/-- INTERNAL: what a string function sees of a character array. -/
def cString (text : List Byte) : List Byte := text.takeWhile (· ≠ 0)

/-- INTERNAL: `getline`: the line with its newline, and the rest. -/
def getline : List Byte → Option (List Byte × List Byte)
  | [] => none
  | c :: stdin =>
    if c = ch '\n' then some ([c], stdin)
    else match getline stdin with
      | none => some ([c], [])
      | some (line, rest) => some (c :: line, rest)

/-- INTERNAL: white space in the C locale. -/
def isSpace (c : Byte) : Bool := c = ch ' ' || (0x09 ≤ c && c ≤ 0x0d)

/-- INTERNAL: what is left behind white space. -/
def skipSpace (stdin : List Byte) : List Byte := stdin.dropWhile isSpace

/-- INTERNAL: why a scan ends: a directive fails with some input unread, or a token is
stored behind its array. -/
inductive ScanStop
  | mismatch (unread : List Byte)
  | overflow
  deriving DecidableEq, Repr

/-- INTERNAL: `%s` into an array of 128 bytes. -/
def scanString (stdin : List Byte) : Except ScanStop (List Byte × List Byte) :=
  let token := (skipSpace stdin).takeWhile (!isSpace ·)
  if token = [] then .error (.mismatch (skipSpace stdin))
  else if 128 ≤ token.length then .error .overflow
  else .ok (token, (skipSpace stdin).dropWhile (!isSpace ·))

/-- INTERNAL: a directive that is an ordinary character. -/
def scanChar (c : Byte) : List Byte → Except ScanStop (List Byte)
  | [] => .error (.mismatch [])
  | c' :: stdin => if c' = c then .ok stdin else .error (.mismatch (c' :: stdin))

/-- INTERNAL: the value of a digit of base 16. -/
def hexDigit (c : Byte) : Option ℕ :=
  if ch '0' ≤ c ∧ c ≤ ch '9' then some (c.toNat - '0'.toNat)
  else if ch 'a' ≤ c ∧ c ≤ ch 'f' then some (c.toNat - 'a'.toNat + 10)
  else if ch 'A' ≤ c ∧ c ≤ ch 'F' then some (c.toNat - 'A'.toNat + 10)
  else none

/-- INTERNAL: `strtoul` of hexadecimal digits, which stops at the largest value. -/
def strtoul (negative : Bool) (digits : List ℕ) : BitVec 64 :=
  let value := digits.foldl (fun value d => value * 16 + d) 0
  if 2 ^ 64 ≤ value then BitVec.allOnes 64
  else if negative then -BitVec.ofNat 64 value
  else BitVec.ofNat 64 value

/-- INTERNAL: the digits of `%lx` behind the sign, at least one, and the rest. -/
def scanDigits (stdin : List Byte) : Except ScanStop (List ℕ × List Byte) :=
  let digits := stdin.takeWhile fun c => (hexDigit c).isSome
  let rest := stdin.dropWhile fun c => (hexDigit c).isSome
  if digits = [] then .error (.mismatch rest) else .ok (digits.filterMap hexDigit, rest)

/-- INTERNAL: the optional `0x` of `%lx`. -/
def scanPrefix : List Byte → List Byte
  | c :: c' :: stdin =>
    if c = ch '0' ∧ (c' = ch 'x' ∨ c' = ch 'X') then stdin else c :: c' :: stdin
  | stdin => stdin

/-- INTERNAL: the optional sign of `%lx`. -/
def scanSign : List Byte → Bool × List Byte
  | c :: stdin =>
    if c = ch '-' then (true, stdin) else if c = ch '+' then (false, stdin)
    else (false, c :: stdin)
  | [] => (false, [])

/-- INTERNAL: `%lx`: a number of base 16, with an optional sign and `0x`. -/
def scanHex (stdin : List Byte) : Except ScanStop (BitVec 64 × List Byte) := do
  let (negative, stdin) := scanSign (skipSpace stdin)
  let (digits, stdin) ← scanDigits (scanPrefix stdin)
  .ok (strtoul negative digits, stdin)

/-! ## Seconds -/

/-- INTERNAL: a non-negative `double`: `mantissa * 2 ^ exponent`. -/
structure Double where
  mantissa : ℕ
  exponent : ℤ
  deriving DecidableEq, Repr

/-- INTERNAL: the integer nearest to a quotient, the even one of two. -/
def roundEven (num den : ℕ) : ℕ :=
  if 2 * (num % den) < den ∨ (2 * (num % den) = den ∧ num / den % 2 = 0) then num / den
  else num / den + 1

/-- INTERNAL: the `double` nearest to a quotient in the range of normal numbers. -/
def Double.ofRatio (num den : ℕ) : Double :=
  if num = 0 then ⟨0, 0⟩
  else
    let guess : ℤ := (Nat.log2 num : ℤ) - Nat.log2 den
    let log := if den * 2 ^ guess.toNat ≤ num * 2 ^ (-guess).toNat then guess else guess - 1
    let exponent := log - 52
    ⟨roundEven (num * 2 ^ (-exponent).toNat) (den * 2 ^ exponent.toNat), exponent⟩

/-- INTERNAL: `ticks / 1000000000.0`, rounded as the division of doubles rounds. -/
def seconds (ticks : BitVec 64) : Double :=
  let d := Double.ofRatio ticks.toNat 1
  Double.ofRatio (d.mantissa * 2 ^ d.exponent.toNat) (1000000000 * 2 ^ (-d.exponent).toNat)

/-- INTERNAL: `%lf`: six digits behind the point. -/
def Double.print (d : Double) : List Byte :=
  let millionths := roundEven (d.mantissa * 1000000 * 2 ^ d.exponent.toNat)
    (2 ^ (-d.exponent).toNat)
  (Nat.toDigits 10 (millionths / 1000000)).map ch ++ ch '.' ::
    (Nat.toDigits 10 (1000000 + millionths % 1000000)).tail.map ch

/-- INTERNAL: `%lx` of the host's `printf`. -/
def printHex (v : BitVec 64) : List Byte := (Nat.toDigits 16 v.toNat).map ch

/-! ## Reading a run -/

/-- INTERNAL: the line that begins the output of the harness. SRC: host/main.c:8 -/
def benchmarkBegin : List Byte := str "\\\\BENCHMARKS BEGIN\r\n"

/-- INTERNAL: a line takes at least one byte of the input. -/
theorem getline_length {stdin line rest : List Byte} (h : getline stdin = some (line, rest)) :
    rest.length < stdin.length := by
  induction stdin generalizing line rest with
  | nil => cases h
  | cons c stdin ih =>
    rw [getline] at h
    by_cases hc : c = ch '\n'
    · rw [if_pos hc] at h
      obtain ⟨rfl, rfl⟩ := h
      exact Nat.lt_succ_self _
    · rw [if_neg hc] at h
      cases hline : getline stdin with
      | none =>
        rw [hline] at h
        obtain ⟨rfl, rfl⟩ := h
        exact Nat.succ_pos _
      | some r =>
        rw [hline] at h
        obtain ⟨rfl, rfl⟩ := h
        exact Nat.lt_succ_of_lt (ih hline)

/-- INTERNAL: the loop of `read_start`: the input behind the first line that equals the
begin line. SRC: host/main.c:14-19 -/
def readStart (stdin : List Byte) : Option (List Byte) :=
  match _hline : getline stdin with
  | none => none
  | some (line, rest) => if cString line = benchmarkBegin then some rest else readStart rest
termination_by stdin.length
decreasing_by exact getline_length _hline

/-- INTERNAL: the characters both timing loops pass over. SRC: host/main.c:36-42,56-62 -/
def isSpinnerChar (c : Byte) : Bool :=
  c = ch '|' || c = ch '/' || c = ch '-' || c = ch '\\' || c = ch ' ' || c = 0x08

/-- INTERNAL: `read_timing_start_char`. The end of the input reads as the character -1, which
takes the default. SRC: host/main.c:27-47 -/
def readTimingStartChar : List Byte → Byte × List Byte
  | [] => (0, [])
  | c :: stdin =>
    if c = ch '{' ∨ c = ch '[' then (c, stdin)
    else if isSpinnerChar c then readTimingStartChar stdin
    else (0, stdin)

/-- INTERNAL: `read_timing_end_char`, whose result no caller uses. SRC: host/main.c:49-67 -/
def readTimingEndChar (target : Byte) : List Byte → Byte × List Byte
  | [] => (0, [])
  | c :: stdin =>
    if c = target then (target, stdin)
    else if isSpinnerChar c then readTimingEndChar target stdin
    else (0, stdin)

/-- INTERNAL: `benchmark_times_t`. SRC: host/main.c:69-72 -/
structure BenchmarkTimes where
  controlTicks : BitVec 64
  benchmarkTicks : BitVec 64
  deriving DecidableEq, Repr

/-- INTERNAL: a time as `clock_gettime` gives it: seconds and nanoseconds. -/
structure Timespec where
  tvSec : BitVec 64
  tvNsec : BitVec 64
  deriving DecidableEq, Repr

/-- INTERNAL: `get_ticks_difference`: the nanoseconds between two times. SRC: host/main.c:74-84 -/
def getTicksDifference (start stop : Timespec) : BitVec 64 :=
  (stop.tvSec * 1000000000 + stop.tvNsec) - (start.tvSec * 1000000000 + start.tvNsec)

/-- INTERNAL: what a run gets from outside: the clock readings in order, and what the local
`times` holds when the calls of `time_benchmarks` begin, in order. -/
structure Environment where
  clock : ℕ → Timespec
  stack : ℕ → BenchmarkTimes

/-- INTERNAL: the state of a run. -/
structure Process where
  stdin : List Byte
  stdout : List Byte
  clockReads : ℕ
  frames : ℕ
  deriving DecidableEq, Repr

/-- INTERNAL: a line on the standard output. -/
def Process.print (h : Process) (text : List Byte) : Process :=
  { h with stdout := h.stdout ++ text }

/-- INTERNAL: the unread input at the two clock readings around an interval. -/
structure Interval where
  start : List Byte
  stop : List Byte
  deriving DecidableEq, Repr

/-- INTERNAL: a timed interval: both clock readings with the loop between them.
SRC: host/main.c:93-97,105-109 -/
def timeInterval (env : Environment) (target : Byte) (h : Process) :
    BitVec 64 × Interval × Process :=
  let rest := (readTimingEndChar target h.stdin).2
  (getTicksDifference (env.clock h.clockReads) (env.clock (h.clockReads + 1)),
    ⟨h.stdin, rest⟩, { h with stdin := rest, clockReads := h.clockReads + 2 })

/-- INTERNAL: the times of a record and the intervals they were taken over. -/
structure Timing where
  times : BenchmarkTimes
  control : Option Interval
  benchmark : Option Interval
  deriving DecidableEq, Repr

/-- INTERNAL: the control half of `time_benchmarks`: the timing so far and the start
character found last. SRC: host/main.c:91-102 -/
def timeControl (env : Environment) (h : Process) : Timing × Byte × Process :=
  let times := env.stack h.frames
  let (c, rest) := readTimingStartChar h.stdin
  let h := { h with stdin := rest, frames := h.frames + 1 }
  if c = ch '{' then
    let (ticks, interval, h) := timeInterval env (ch '}') h
    let (c, rest) := readTimingStartChar h.stdin
    (⟨{ times with controlTicks := ticks }, some interval, none⟩, c, { h with stdin := rest })
  else (⟨{ times with controlTicks := 0 }, none, none⟩, c, h)

/-- INTERNAL: `time_benchmarks`. SRC: host/main.c:86-113 -/
def timeBenchmarks (env : Environment) (h : Process) : Timing × Process :=
  let (timing, c, h) := timeControl env h
  if c = ch '[' then
    let (ticks, interval, h) := timeInterval env (ch ']') h
    ({ timing with
        times := { timing.times with benchmarkTicks := ticks }, benchmark := some interval }, h)
  else (timing, h)

/-- INTERNAL: what the header of a record scans to. -/
structure Header where
  category : List Byte
  benchmark : List Byte
  iterations : BitVec 64
  deriving DecidableEq, Repr

/-- INTERNAL: `fscanf(stdin, "%s - %s %lx ", ...)`. SRC: host/main.c:123 -/
def scanHeader (stdin : List Byte) : Except ScanStop (Header × List Byte) := do
  let (category, stdin) ← scanString stdin
  let stdin ← scanChar (ch '-') (skipSpace stdin)
  let (benchmark, stdin) ← scanString (skipSpace stdin)
  let (iterations, stdin) ← scanHex (skipSpace stdin)
  .ok (⟨category, benchmark, iterations⟩, skipSpace stdin)

/-- INTERNAL: the first line of a record's output. SRC: host/main.c:125 -/
def Header.print (header : Header) : List Byte :=
  cString header.category ++ str " - " ++ cString header.benchmark ++ ch ' ' ::
    printHex header.iterations ++ [ch ' ']

/-- INTERNAL: its second line: the times, where they were measured. SRC: host/main.c:130-134 -/
def BenchmarkTimes.print (times : BenchmarkTimes) : List Byte :=
  (if (seconds times.controlTicks).mantissa ≠ 0 then
    ch ' ' :: (seconds times.controlTicks).print else []) ++
  ch ' ' :: (seconds times.benchmarkTicks).print ++ str "\r\n"

/-- INTERNAL: what `read_benchmark` has read and measured of one benchmark. -/
structure Record where
  header : Header
  timing : Timing
  deriving DecidableEq, Repr

/-- INTERNAL: `read_benchmark`, which returns 1 for the `mismatch`. SRC: host/main.c:115-137 -/
def readBenchmark (env : Environment) (h : Process) : Except ScanStop (Record × Process) := do
  let (header, rest) ← scanHeader h.stdin
  let (timing, h) := timeBenchmarks env (({ h with stdin := rest } : Process).print header.print)
  .ok (⟨header, timing⟩, h.print timing.times.print)

/-! ## Every record consumes input -/

/-- INTERNAL: skipping white space takes nothing back. -/
theorem skipSpace_length (stdin : List Byte) : (skipSpace stdin).length ≤ stdin.length :=
  (List.dropWhile_suffix _).length_le

/-- INTERNAL: a token takes at least one byte. -/
theorem scanString_length {stdin token rest : List Byte}
    (h : scanString stdin = .ok (token, rest)) : rest.length < stdin.length := by
  rw [scanString] at h
  split at h
  · cases h
  split at h
  · cases h
  · next hne _ =>
    obtain ⟨rfl, rfl⟩ := h
    have hsplit := congrArg List.length
      (List.takeWhile_append_dropWhile (p := (!isSpace ·)) (l := skipSpace stdin))
    have hpos := List.length_pos_iff.mpr hne
    have hskip := skipSpace_length stdin
    rw [List.length_append] at hsplit
    omega

/-- INTERNAL: a character takes nothing back. -/
theorem scanChar_length {c : Byte} {stdin rest : List Byte} (h : scanChar c stdin = .ok rest) :
    rest.length ≤ stdin.length := by
  cases stdin with
  | nil => cases h
  | cons c' stdin =>
    rw [scanChar] at h
    split at h
    · cases h
      exact Nat.le_succ _
    · cases h

/-- INTERNAL: reading a number takes nothing back. -/
theorem scanHex_length {stdin rest : List Byte} {v : BitVec 64}
    (h : scanHex stdin = .ok (v, rest)) : rest.length ≤ stdin.length := by
  have hsign : ∀ s : List Byte, (scanSign s).2.length ≤ s.length := by
    intro s
    rcases s with _ | ⟨c, s⟩
    · exact Nat.le_refl _
    · rw [scanSign]
      repeat' split
      all_goals simp only [List.length_cons]; omega
  have hlead : ∀ s : List Byte, (scanPrefix s).length ≤ s.length := by
    intro s
    rcases s with _ | ⟨c, _ | ⟨c', s⟩⟩
    · exact Nat.le_refl _
    · exact Nat.le_refl _
    · rw [scanPrefix]
      split
      all_goals simp only [List.length_cons]; omega
  rw [scanHex, bind_eq_ok] at h
  obtain ⟨⟨digits, rest'⟩, hdigits, h⟩ := h
  obtain ⟨-, rfl⟩ := h
  rw [scanDigits] at hdigits
  split at hdigits
  · cases hdigits
  · obtain ⟨-, rfl⟩ := hdigits
    have hrest := (List.dropWhile_suffix (l := scanPrefix (scanSign (skipSpace stdin)).2)
      fun c => (hexDigit c).isSome).length_le
    have hafter := hlead (scanSign (skipSpace stdin)).2
    have hbehind := hsign (skipSpace stdin)
    have hskip := skipSpace_length stdin
    omega

/-- INTERNAL: reading a header takes at least one byte. -/
theorem scanHeader_length {stdin rest : List Byte} {header : Header}
    (h : scanHeader stdin = .ok (header, rest)) : rest.length < stdin.length := by
  simp only [scanHeader, bind_eq_ok, Prod.exists] at h
  obtain ⟨category, s₁, hcategory, s₂, hdash, benchmark, s₃, hbenchmark, iterations, s₄, hhex,
    hend⟩ := h
  obtain ⟨-, rfl⟩ := hend
  have h₁ := scanString_length hcategory
  have h₂ := Nat.le_trans (scanChar_length hdash) (skipSpace_length s₁)
  have h₃ := Nat.lt_of_lt_of_le (scanString_length hbenchmark) (skipSpace_length s₂)
  have h₄ := Nat.le_trans (scanHex_length hhex) (skipSpace_length s₃)
  have h₅ := skipSpace_length s₄
  omega

/-- INTERNAL: the search for an interval takes nothing back. -/
theorem readTimingStartChar_length (stdin : List Byte) :
    (readTimingStartChar stdin).2.length ≤ stdin.length := by
  induction stdin with
  | nil => exact Nat.le_refl _
  | cons c stdin ih =>
    rw [readTimingStartChar]
    split
    · exact Nat.le_succ _
    · split
      · exact Nat.le_succ_of_le ih
      · exact Nat.le_succ _

/-- INTERNAL: the search for the end of an interval takes nothing back. -/
theorem readTimingEndChar_length (target : Byte) (stdin : List Byte) :
    (readTimingEndChar target stdin).2.length ≤ stdin.length := by
  induction stdin with
  | nil => exact Nat.le_refl _
  | cons c stdin ih =>
    rw [readTimingEndChar]
    split
    · exact Nat.le_succ _
    · split
      · exact Nat.le_succ_of_le ih
      · exact Nat.le_succ _

/-- INTERNAL: timing the control interval takes nothing back. -/
theorem timeControl_length (env : Environment) (p : Process) :
    (timeControl env p).2.2.stdin.length ≤ p.stdin.length := by
  have h₁ := readTimingStartChar_length p.stdin
  have h₂ := readTimingEndChar_length (ch '}') (readTimingStartChar p.stdin).2
  have h₃ := readTimingStartChar_length
    (readTimingEndChar (ch '}') (readTimingStartChar p.stdin).2).2
  rw [timeControl]
  dsimp only [timeInterval]
  split
  · dsimp only
    omega
  · exact h₁

/-- INTERNAL: timing the two intervals takes nothing back. -/
theorem timeBenchmarks_length (env : Environment) (p : Process) :
    (timeBenchmarks env p).2.stdin.length ≤ p.stdin.length := by
  have hcontrol := timeControl_length env p
  rw [timeBenchmarks]
  generalize timeControl env p = r at hcontrol ⊢
  obtain ⟨timing, c, q⟩ := r
  have hend := readTimingEndChar_length (ch ']') q.stdin
  dsimp only [timeInterval] at hcontrol ⊢
  split <;> dsimp only <;> omega

/-- INTERNAL: reading a record takes at least one byte, so that the reading ends. -/
theorem readBenchmark_length {env : Environment} {p p' : Process} {r : Record}
    (h : readBenchmark env p = .ok (r, p')) : p'.stdin.length < p.stdin.length := by
  simp only [readBenchmark, bind_eq_ok, Prod.exists] at h
  obtain ⟨header, rest, hheader, hend⟩ := h
  obtain ⟨-, rfl⟩ := hend
  exact Nat.lt_of_le_of_lt (timeBenchmarks_length env _) (scanHeader_length hheader)

/-! ## `main` -/

/-- INTERNAL: the loop of `main`: the records read, how the last scan ended, and the state
behind it. SRC: host/main.c:142 -/
def readBenchmarks (env : Environment) (p : Process) : List Record × ScanStop × Process :=
  match _h : readBenchmark env p with
  | .error stop => ([], stop, p)
  | .ok (r, p') =>
    let (records, stop, p'') := readBenchmarks env p'
    (r :: records, stop, p'')
termination_by p.stdin.length
decreasing_by exact readBenchmark_length _h

/-- INTERNAL: a whole run: whether the begin line was found, the records, how the last scan
ended, and what was printed. -/
structure Run where
  started : Bool
  records : List Record
  stop : ScanStop
  stdout : List Byte
  deriving DecidableEq, Repr

/-- INTERNAL: `main`. SRC: host/main.c:10-25,139-148 -/
def main (env : Environment) (stdin : List Byte) : Run :=
  match readStart stdin with
  | none => ⟨false, [], .mismatch [], str "Done.\n"⟩
  | some rest =>
    let (records, stop, p) := readBenchmarks env ⟨rest, benchmarkBegin, 0, 0⟩
    ⟨true, records, stop, p.stdout ++ if stop = .overflow then [] else str "Done.\n"⟩

end Simbench.Program.Host
