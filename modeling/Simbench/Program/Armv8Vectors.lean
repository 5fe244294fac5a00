import Mathlib.Algebra.GroupWithZero.Nat
import Mathlib.Data.Fin.Basic
import Mathlib.Logic.Function.Basic
import Simbench.Library.ByteWords

/-!
# The ARMv8 exception vectors

The three vectors of `arch/armv8/vectors.S` that call a C handler, instruction by instruction,
with the two helpers that save and restore the registers. The stack pointer is `SP_EL1`, which
all of them run on; alignment checks of it are left out. The processor keeps the return address
and the flags of the interrupted code in registers of its own, which no vector touches.
-/

set_option autoImplicit false

namespace Simbench.Program.Armv8Vectors

open Simbench.Library.ByteWords

/-! ## The processor -/

/-- INTERNAL: the eight bytes of a register. -/
abbrev Word : Type := BitVec 64

/-- INTERNAL: the general registers, `X0` to `X30`. -/
abbrev Reg : Type := Fin 31

/-- INTERNAL: they may be written as numbers. -/
instance neZeroReg : NeZero 31 := ⟨by decide⟩

/-- INTERNAL: the registers a vector uses, the stack pointer and the memory. -/
structure Machine where
  x : Reg → Word
  sp : Word
  mem : Bytes 64

/-- INTERNAL: what a C function does from its first instruction to behind its `ret`. -/
abbrev Handler : Type := Machine → Machine

/-- INTERNAL: the instructions that only move data: `stp a, b, [SP, #-16]!`,
`ldp a, b, [SP], #16`, `ldr a, =symbol`, `str a, [base]` and `ldr a, [base]`. -/
inductive Instruction
  | stp (a b : Reg)
  | ldp (a b : Reg)
  | ldrSymbol (a : Reg) (symbol : Word)
  | str (a base : Reg)
  | ldr (a base : Reg)
  deriving DecidableEq, Repr

/-- INTERNAL: one instruction. A pair is stored with its first register at the lower address. -/
def exec (s : Machine) : Instruction → Machine
  | .stp a b =>
    { s with
      sp := s.sp - 16
      mem := store 8 (s.sp - 16) (s.x a) (store 8 (s.sp - 8) (s.x b) s.mem) }
  | .ldp a b =>
    { s with
      x := Function.update (Function.update s.x a (load s.mem 8 s.sp)) b (load s.mem 8 (s.sp + 8))
      sp := s.sp + 16 }
  | .ldrSymbol a symbol => { s with x := Function.update s.x a symbol }
  | .str a base => { s with mem := store 8 (s.x base) (s.x a) s.mem }
  | .ldr a base => { s with x := Function.update s.x a (load s.mem 8 (s.x base)) }

/-- INTERNAL: a routine without calls: its instructions one after the other. -/
def runBody (s : Machine) (body : List Instruction) : Machine := body.foldl exec s

/-- INTERNAL: how a vector ends without `eret`: in `arch_abort`, or with a return to somewhere
else. -/
inductive Halt
  | abort
  | astray
  deriving DecidableEq, Repr

/-- INTERNAL: the steps of a vector. `bl` names the address behind it and the body of the
function, `blr` the C function; `cmpBne` is `cmp x0, #0` with the branch to `arch_abort`. -/
inductive Step
  | plain (i : Instruction)
  | bl (behind : Word) (body : List Instruction)
  | blr (behind : Word) (fn : Handler)
  | cmpBne

/-- INTERNAL: a step of a vector: an instruction, a routine that must come back, a handler, or the
test of its result. -/
def execStep (s : Machine) : Step → Except Halt Machine
  | .plain i => .ok (exec s i)
  | .bl behind body =>
    let s' := runBody { s with x := Function.update s.x 30 behind } body
    if s'.x 30 = behind then .ok s' else .error .astray
  | .blr behind fn => .ok (fn { s with x := Function.update s.x 30 behind })
  | .cmpBne => if s.x 0 = 0 then .ok s else .error .abort

/-- INTERNAL: a vector up to its `eret`. -/
def run (code : List Step) (s : Machine) : Except Halt Machine := code.foldlM execStep s

/-! ## `vectors.S` -/

/-- INTERNAL: `save_state`: the thirty registers pushed in pairs.
SRC: arch/armv8/vectors.S:428-444 -/
def saveState : List Instruction :=
  [.stp 0 1, .stp 2 3, .stp 4 5, .stp 6 7, .stp 8 9, .stp 10 11, .stp 12 13, .stp 14 15, .stp 16 17,
    .stp 18 19, .stp 20 21, .stp 22 23, .stp 24 25, .stp 26 27, .stp 28 29]

/-- INTERNAL: `restore_state`: popped in the other order. SRC: arch/armv8/vectors.S:446-462 -/
def restoreState : List Instruction :=
  [.ldp 28 29, .ldp 26 27, .ldp 24 25, .ldp 22 23, .ldp 20 21, .ldp 18 19, .ldp 16 17, .ldp 14 15,
    .ldp 12 13, .ldp 10 11, .ldp 8 9, .ldp 6 7, .ldp 4 5, .ldp 2 3, .ldp 0 1]

/-- INTERNAL: the vectors that call a handler. SRC: arch/armv8/vectors.S:11-28,288-335 -/
inductive Vector
  | el1CurrentSp0Synchronous
  | el1LowerSynchronous
  | el1LowerIrq
  deriving DecidableEq, Repr

/-- INTERNAL: what the linker decides: the symbols, and the addresses behind the calls of each
vector. -/
structure Text where
  armv8BackupLr : Word
  el1LowerSyncHandler : Word
  el1LowerIrqHandler : Word
  behindSave : Vector → Word
  behindHandler : Vector → Word
  behindRestore : Vector → Word

/-- INTERNAL: the calls all three make. -/
def callHandler (text : Text) (v : Vector) (handler : Word) (fn : Handler) : List Step :=
  [.bl (text.behindSave v) saveState, .plain (.ldrSymbol 0 handler), .blr (text.behindHandler v) fn,
    .cmpBne, .bl (text.behindRestore v) restoreState]

/-- INTERNAL: the text the two synchronous vectors share. SRC: arch/armv8/vectors.S:11-28,288-305 -/
def synchronousVector (text : Text) (v : Vector) (fn : Handler) : List Step :=
  [.plain (.stp 0 1), .plain (.ldrSymbol 0 text.armv8BackupLr), .plain (.str 30 0)] ++
    callHandler text v text.el1LowerSyncHandler fn ++
    [.plain (.ldrSymbol 0 text.armv8BackupLr), .plain (.ldr 30 0), .plain (.ldp 0 1)]

/-- INTERNAL: the vector of synchronous exceptions from EL1 with the stack pointer of EL0.
SRC: arch/armv8/vectors.S:11-28 -/
def el1CurrentSp0SynchronousVector (text : Text) (fn : Handler) : List Step :=
  synchronousVector text .el1CurrentSp0Synchronous fn

/-- INTERNAL: the vector of those from EL0. SRC: arch/armv8/vectors.S:288-305 -/
def el1LowerSynchronousVector (text : Text) (fn : Handler) : List Step :=
  synchronousVector text .el1LowerSynchronous fn

/-- INTERNAL: the vector of interrupts from EL0. SRC: arch/armv8/vectors.S:324-335 -/
def el1LowerIrqVector (text : Text) (fn : Handler) : List Step :=
  [.plain (.stp 0 30)] ++ callHandler text .el1LowerIrq text.el1LowerIrqHandler fn ++
    [.plain (.ldp 0 30)]

/-- INTERNAL: the code of each of the three vectors. -/
def vector (text : Text) (fn : Handler) : Vector → List Step
  | .el1CurrentSp0Synchronous => el1CurrentSp0SynchronousVector text fn
  | .el1LowerSynchronous => el1LowerSynchronousVector text fn
  | .el1LowerIrq => el1LowerIrqVector text fn

end Simbench.Program.Armv8Vectors
