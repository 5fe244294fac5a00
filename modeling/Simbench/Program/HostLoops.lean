import Simbench.Program.Host

/-!
# The loops of the host

The four loops of `host/main.c`, which have no bound of their own, with fuel for their rounds:
`none` is a loop that has not ended. `fgetc` gives an `int` with -1 at the end of the input, and
the loops over characters store it in a `char`. The program is the one of `Host` with these loops
in it; each call of `read_benchmark` is kept, with what it prints.
-/

set_option autoImplicit false

namespace Simbench.Program.HostLoops

open Simbench.Program.Printf Simbench.Program.Host

/-! ## Characters -/

/-- INTERNAL: a byte as an `unsigned char`, or `EOF`, which leaves the input as it is. -/
def fgetc : List Byte → BitVec 32 × List Byte
  | [] => (-1, [])
  | c :: stdin => (c.setWidth 32, stdin)

/-- INTERNAL: `char c = fgetc(stdin)`. SRC: host/main.c:30,52 -/
def fgetChar (stdin : List Byte) : Byte × List Byte :=
  let (c, stdin) := fgetc stdin
  (c.setWidth 8, stdin)

/-- INTERNAL: `read_timing_start_char`. SRC: host/main.c:27-47 -/
def readTimingStartChar : ℕ → List Byte → Option (Byte × List Byte)
  | 0, _ => none
  | fuel + 1, stdin =>
    let (c, stdin) := fgetChar stdin
    if c = ch '{' ∨ c = ch '[' then some (c, stdin)
    else if isSpinnerChar c then readTimingStartChar fuel stdin
    else some (0, stdin)

/-- INTERNAL: `read_timing_end_char`. SRC: host/main.c:49-67 -/
def readTimingEndChar (target : Byte) : ℕ → List Byte → Option (Byte × List Byte)
  | 0, _ => none
  | fuel + 1, stdin =>
    let (c, stdin) := fgetChar stdin
    if c = target then some (target, stdin)
    else if isSpinnerChar c then readTimingEndChar target fuel stdin
    else some (0, stdin)

/-! ## Lines and records -/

/-- INTERNAL: the loop of `read_start`: `none` inside is the return value 1, else what is left of
the input. SRC: host/main.c:14-19 -/
def readStart : ℕ → List Byte → Option (Option (List Byte))
  | 0, _ => none
  | fuel + 1, stdin =>
    match getline stdin with
    | none => some none
    | some (line, rest) =>
      if cString line = benchmarkBegin then some (some rest) else readStart fuel rest

/-- INTERNAL: an interval timed: from its opening character to the one that ends it.
SRC: host/main.c:93-97,105-109 -/
def timeInterval (fuel : ℕ) (env : Environment) (target : Byte) (p : Process) :
    Option (BitVec 64 × Interval × Process) := do
  let (_, rest) ← readTimingEndChar target fuel p.stdin
  some (getTicksDifference (env.clock p.clockReads) (env.clock (p.clockReads + 1)),
    ⟨p.stdin, rest⟩, { p with stdin := rest, clockReads := p.clockReads + 2 })

/-- INTERNAL: the loop that looks for the control interval and times it. SRC: host/main.c:91-102 -/
def timeControl (fuel : ℕ) (env : Environment) (p : Process) :
    Option (Timing × Byte × Process) := do
  let times := env.stack p.frames
  let (c, rest) ← readTimingStartChar fuel p.stdin
  let p := { p with stdin := rest, frames := p.frames + 1 }
  if c = ch '{' then
    let (ticks, interval, p) ← timeInterval fuel env (ch '}') p
    let (c, rest) ← readTimingStartChar fuel p.stdin
    some (⟨{ times with controlTicks := ticks }, some interval, none⟩, c, { p with stdin := rest })
  else some (⟨{ times with controlTicks := 0 }, none, none⟩, c, p)

/-- INTERNAL: `time_benchmarks`. SRC: host/main.c:86-113 -/
def timeBenchmarks (fuel : ℕ) (env : Environment) (p : Process) : Option (Timing × Process) := do
  let (timing, c, p) ← timeControl fuel env p
  if c = ch '[' then
    let (ticks, interval, p) ← timeInterval fuel env (ch ']') p
    some ({ timing with
        times := { timing.times with benchmarkTicks := ticks }, benchmark := some interval }, p)
  else some (timing, p)

/-- INTERNAL: a call of `read_benchmark`: the input its `fscanf` is called on, whether the call
returns 0, and what it prints. -/
structure Call where
  unread : List Byte
  scanned : Except ScanStop Header
  printed : List Byte
  deriving DecidableEq

/-- INTERNAL: `read_benchmark`. SRC: host/main.c:115-137 -/
def readBenchmark (fuel : ℕ) (env : Environment) (p : Process) : Option (Call × Process) :=
  match scanHeader p.stdin with
  | .error stop => some (⟨p.stdin, .error stop, []⟩, p)
  | .ok (header, rest) => do
    let (timing, q) ← timeBenchmarks fuel env (({ p with stdin := rest } : Process).print header.print)
    some (⟨p.stdin, .ok header, header.print ++ timing.times.print⟩, q.print timing.times.print)

/-- INTERNAL: the loop of `main`. SRC: host/main.c:142 -/
def readBenchmarks : ℕ → Environment → Process → Option (List Call × Process)
  | 0, _, _ => none
  | fuel + 1, env, p => do
    let (call, p) ← readBenchmark fuel env p
    match call.scanned with
    | .error _ => some ([call], p)
    | .ok _ =>
      let (calls, p) ← readBenchmarks fuel env p
      some (call :: calls, p)

/-- INTERNAL: `main`: the calls of `read_benchmark` and what the program prints; behind an
overflow nothing more is said about it. SRC: host/main.c:10-25,139-148 -/
def main (fuel : ℕ) (env : Environment) (stdin : List Byte) : Option (List Call × List Byte) := do
  match ← readStart fuel stdin with
  | none => some ([], str "Done.\n")
  | some rest =>
    let (calls, p) ← readBenchmarks fuel env ⟨rest, benchmarkBegin, 0, 0⟩
    if calls.any (·.scanned = .error .overflow) then some (calls, p.stdout)
    else some (calls, p.stdout ++ str "Done.\n")

end Simbench.Program.HostLoops
