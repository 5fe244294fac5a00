import Simbench.Program.Printf

/-!
# The benchmark harness

`harness/harness.c`, and the spinner of `util/debug.c` that kernels print with. A kernel is
given by the bytes it prints on the machine's stream while it runs; a null function pointer
is `none`. What the machine does is a list of events. The local buffer of every `fprintf`
call holds arbitrary bytes at first. The calls `harness_main` makes, in order, stand on their own
at the end: an `fprintf` is a call with its format and arguments, and a kernel is called as what
the benchmark has it for.
-/

set_option autoImplicit false

namespace Simbench.Program.Harness

open Simbench.Program.Printf

/-- INTERNAL: the bytes a `benchmark_kernel_t` prints. -/
abbrev Kernel := List Byte

/-- INTERNAL: `benchmark_t`; strings without their NUL. SRC: include/benchmark.h:55-64 -/
structure Benchmark where
  name : List Byte
  category : List Byte
  kernelInit : Option Kernel
  kernel : Kernel
  kernelCleanup : Option Kernel
  kernelControl : Option Kernel
  iterationCount : BitVec 64
  kernelPriv : BitVec 8
  deriving DecidableEq, Repr

/-- INTERNAL: what can be seen of the machine. -/
inductive Event
  | put (c : Byte)
  | privEnter
  | privLeave
  deriving DecidableEq, Repr

/-- INTERNAL: the build, `OUTPUT`, and what the buffers of the `fprintf` calls hold. -/
structure Port where
  build : Build
  output : Option File
  frame : ℕ → ℕ → Byte

/-- INTERNAL: the events so far and the number of `fprintf` calls made. -/
structure Machine where
  events : List Event
  calls : ℕ
  deriving DecidableEq, Repr

/-- INTERNAL: the machine before the first call: no event, no call of `fprintf`. -/
def Machine.start : Machine := ⟨[], 0⟩

/-- INTERNAL: the character an event puts on the stream. -/
def Event.byte : Event → Option Byte
  | .put c => some c
  | _ => none

/-- INTERNAL: the bytes on the machine's stream. -/
def Machine.stream (m : Machine) : List Byte := m.events.filterMap Event.byte

/-- INTERNAL: the machine with more events behind those it has. -/
def Machine.emit (m : Machine) (events : List Event) : Machine :=
  { m with events := m.events ++ events }

/-- INTERNAL: a call of a kernel. -/
def Machine.run (m : Machine) (kernel : Kernel) : Machine := m.emit (kernel.map .put)

/-- INTERNAL: a call guarded by a null check. -/
def Machine.runIfSet (m : Machine) (kernel : Option Kernel) : Machine :=
  match kernel with
  | none => m
  | some kernel => m.run kernel

/-- INTERNAL: `arch_priv_enter` or `arch_priv_leave` if the benchmark asks for it. -/
def Machine.priv (m : Machine) (bm : Benchmark) (event : Event) : Machine :=
  if bm.kernelPriv ≠ 0 then m.emit [event] else m

/-- INTERNAL: `fprintf(OUTPUT, ...)` with a literal format. -/
def print (port : Port) (fmt : String) (args : List Arg) (m : Machine) : Option Machine := do
  let (_, text) ← fprintf port.build port.output (port.frame m.calls) (str fmt ++ [0]) args
  some { events := m.events ++ text.map .put, calls := m.calls + 1 }

/-- INTERNAL: the control kernel between its braces, if there is one.
SRC: harness/harness.c:18-30 -/
def executeControl (port : Port) (bm : Benchmark) (m : Machine) : Option Machine :=
  match bm.kernelControl with
  | none => some m
  | some control => do
    let m ← print port " \x7b" [] m
    print port "\x7d" [] (((m.priv bm .privEnter).run control).priv bm .privLeave)

/-- INTERNAL: `harness_execute`. `%x` takes the low half of the 64-bit count.
SRC: harness/harness.c:11-47 -/
def harnessExecute (port : Port) (bm : Benchmark) (m : Machine) : Option Machine := do
  let m ← print port "%s - %s" [.str (bm.category ++ [0]), .str (bm.name ++ [0])] m
  let m ← print port " %x" [.int (bm.iterationCount.setWidth 32)] (m.runIfSet bm.kernelInit)
  let m ← executeControl port bm m
  let m ← print port " [" [] m
  let m ← print port "]\r\n" [] (((m.priv bm .privEnter).run bm.kernel).priv bm .privLeave)
  some ((m.runIfSet bm.kernelCleanup).priv bm .privLeave)

/-- INTERNAL: the loop over the benchmark section. SRC: harness/harness.c:56-58 -/
def executeAll (port : Port) : List Benchmark → Machine → Option Machine
  | [], m => some m
  | bm :: benchmarks, m => do
    let m ← harnessExecute port bm m
    executeAll port benchmarks m

/-- INTERNAL: `harness_main`. SRC: harness/harness.c:49-62 -/
def harnessMain (port : Port) (benchmarks : List Benchmark) (m : Machine) : Option Machine := do
  let m ← print port "\r\n\r\n" [] m
  let m ← print port "\\\\BENCHMARKS BEGIN\r\n" [] m
  let m ← executeAll port benchmarks m
  print port "\\\\BENCHMARKS END\r\n" [] m

/-! ## The spinner -/

/-- INTERNAL: the counters of the spinner. SRC: util/debug.c:8-11 -/
structure Spinner where
  counterRollover : BitVec 32
  counter : BitVec 32
  counterIndex : BitVec 32
  deriving DecidableEq, Repr

/-- INTERNAL: the four characters of the spinner, in turn. SRC: util/debug.c:8 -/
def spinnerChars (i : BitVec 32) : Byte :=
  if i = 0 then ch '|' else if i = 1 then ch '/' else if i = 2 then ch '-' else ch '\\'

/-- INTERNAL: `debug_spinner_start`: the counters and the bytes printed on `DEBUG`; the
rollover is stored in 32 bits. SRC: util/debug.c:13-19 -/
def debugSpinnerStart (build : Build) (debug : Option File) (frame : ℕ → Byte)
    (rollover : BitVec 64) : Option (Spinner × List Byte) := do
  let (_, text) ← fprintf build debug frame (str " " ++ [0]) []
  some (⟨rollover.setWidth 32, 0, 0⟩, text)

/-- INTERNAL: `debug_spinner`. SRC: util/debug.c:21-30 -/
def debugSpinner (build : Build) (debug : Option File) (frame : ℕ → Byte) (s : Spinner) :
    Option (Spinner × List Byte) :=
  if s.counterRollover ≤ s.counter + 1 then do
    let s : Spinner := { s with counter := 0, counterIndex := s.counterIndex + 1 }
    let (_, text) ← fprintf build debug frame (str "\x08%c" ++ [0])
      [.int ((spinnerChars (s.counterIndex &&& 3)).signExtend 32)]
    some (s, text)
  else some ({ s with counter := s.counter + 1 }, [])

/-- INTERNAL: the calls of `debug_spinner` in the loop of a kernel: the bytes printed. -/
def spin (build : Build) (debug : Option File) (frame : ℕ → ℕ → Byte) :
    (calls : ℕ) → Spinner → Option (List Byte)
  | 0, _ => some []
  | calls + 1, s => do
    let (s, text) ← debugSpinner build debug (frame calls) s
    let rest ← spin build debug frame calls s
    some (text ++ rest)

/-- INTERNAL: what a kernel with a spinner prints, with its iterations as the rollover.
SRC: benchmarks/exception/swi.c:12-24 -/
def spinnerKernel (build : Build) (debug : Option File) (frame : ℕ → ℕ → Byte)
    (rollover : BitVec 64) (calls : ℕ) : Option Kernel := do
  let (s, text) ← debugSpinnerStart build debug (frame calls) rollover
  let rest ← spin build debug frame calls s
  some (text ++ rest)

/-! ## The calls -/

/-- INTERNAL: a call of the harness: of `fprintf`, of a function pointer of the benchmark, or of the
port. SRC: harness/harness.c:11-48 -/
inductive Call
  | fprintf (fmt : String) (args : List Arg)
  | kernelInit (kernel : Kernel)
  | kernel (kernel : Kernel)
  | kernelControl (kernel : Kernel)
  | kernelCleanup (kernel : Kernel)
  | archPrivEnter
  | archPrivLeave

/-- INTERNAL: a call guarded by a null check. -/
def callIfSet (call : Kernel → Call) : Option Kernel → List Call
  | none => []
  | some kernel => [call kernel]

/-- INTERNAL: a call guarded by `kernel_priv`. -/
def callIfPriv (bm : Benchmark) (call : Call) : List Call :=
  if bm.kernelPriv ≠ 0 then [call] else []

/-- INTERNAL: the calls of `harness_execute` for the control kernel. SRC: harness/harness.c:19-31 -/
def controlCalls (bm : Benchmark) : List Call :=
  match bm.kernelControl with
  | none => []
  | some control =>
    [.fprintf " \x7b" []] ++ callIfPriv bm .archPrivEnter ++ [.kernelControl control] ++
      callIfPriv bm .archPrivLeave ++ [.fprintf "\x7d" []]

/-- INTERNAL: the calls of `harness_execute`. SRC: harness/harness.c:11-47 -/
def executeCalls (bm : Benchmark) : List Call :=
  [.fprintf "%s - %s" [.str (bm.category ++ [0]), .str (bm.name ++ [0])]] ++
    callIfSet .kernelInit bm.kernelInit ++
    [.fprintf " %x" [.int (bm.iterationCount.setWidth 32)]] ++
    controlCalls bm ++
    [.fprintf " [" []] ++ callIfPriv bm .archPrivEnter ++ [.kernel bm.kernel] ++
    callIfPriv bm .archPrivLeave ++ [.fprintf "]\r\n" []] ++
    callIfSet .kernelCleanup bm.kernelCleanup ++
    callIfPriv bm .archPrivLeave

/-- INTERNAL: the calls of `harness_main`. SRC: harness/harness.c:49-62 -/
def mainCalls (benchmarks : List Benchmark) : List Call :=
  [.fprintf "\r\n\r\n" [], .fprintf "\\\\BENCHMARKS BEGIN\r\n" []] ++
    benchmarks.flatMap executeCalls ++ [.fprintf "\\\\BENCHMARKS END\r\n" []]

/-! ## Performing them -/

/-- INTERNAL: what such a call does. -/
def perform (port : Port) (m : Machine) : Call → Option Machine
  | .fprintf fmt args => print port fmt args m
  | .kernelInit kernel | .kernel kernel | .kernelControl kernel | .kernelCleanup kernel =>
    some (m.run kernel)
  | .archPrivEnter => some (m.emit [.privEnter])
  | .archPrivLeave => some (m.emit [.privLeave])

/-- INTERNAL: the calls one after the other. -/
def performAll (port : Port) (calls : List Call) (m : Machine) : Option Machine :=
  calls.foldlM (perform port) m

end Simbench.Program.Harness
