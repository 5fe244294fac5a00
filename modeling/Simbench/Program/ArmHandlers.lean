import Simbench.Program.ArmVectors
import Mathlib.Algebra.GroupWithZero.Nat
import Mathlib.Data.Fin.VecNotation
import Mathlib.Logic.Function.Basic

/-!
# The ARM exception handlers

The handlers of `arch/arm/exception-handlers.S` and `setup_stacks` of `arch/arm/reset.S`,
instruction by instruction, on a processor whose stack pointer, link register and saved status are
banked by mode. What a C function does that the interrupt trampoline calls is a parameter.

The registers that only the FIQ mode banks, and instruction sets other than ARM, are left out.
-/

set_option autoImplicit false

namespace Simbench.Program.ArmHandlers

open Simbench.Program.ArmCaches Simbench.Program.ArmCacheFlush Simbench.Program.ArmVectors

/-! ## The processor -/

/-- INTERNAL: who has a stack pointer and a link register: the user and the system mode together,
and the mode of each exception. -/
inductive Bank
  | usr
  | fiq
  | irq
  | svc
  | abt
  | und
  deriving DecidableEq, Repr

/-- INTERNAL: the bank of the mode in a status register. -/
def bank (psr : Word) : Bank :=
  match (psr &&& 0x1f).toNat with
  | 0x11 => .fiq
  | 0x12 => .irq
  | 0x13 => .svc
  | 0x17 => .abt
  | 0x1b => .und
  | _ => .usr

/-- INTERNAL: the thirteen registers may be written as numbers. -/
instance neZeroReg : NeZero 13 := ⟨by decide⟩

/-- INTERNAL: the registers r0 to r12, those that are banked, CPSR and the program counter. -/
@[ext]
structure Cpu where
  r : Fin 13 → Word
  sp : Bank → Word
  lr : Bank → Word
  spsr : Bank → Word
  cpsr : Word
  pc : Word

/-- INTERNAL: the processor and the rest of the system. -/
structure State where
  cpu : Cpu
  system : System

/-- INTERNAL: the registers an instruction may name. -/
inductive Reg
  | r (i : Fin 13)
  | sp
  | lr
  deriving DecidableEq, Repr

/-- INTERNAL: a register of the current mode. -/
def Cpu.get (c : Cpu) : Reg → Word
  | .r i => c.r i
  | .sp => c.sp (bank c.cpsr)
  | .lr => c.lr (bank c.cpsr)

/-- INTERNAL: the current mode's register set. -/
def Cpu.set (c : Cpu) (d : Reg) (v : Word) : Cpu :=
  match d with
  | .r i => { c with r := Function.update c.r i v }
  | .sp => { c with sp := Function.update c.sp (bank c.cpsr) v }
  | .lr => { c with lr := Function.update c.lr (bank c.cpsr) v }

/-- INTERNAL: a register set, the system as it was. -/
def State.set (s : State) (d : Reg) (v : Word) : State := { s with cpu := s.cpu.set d v }

/-- INTERNAL: `none` when the access faults. -/
def State.store (s : State) (va v : Word) : Option State :=
  match store32 va v s.system with
  | .ok system => some { s with system := system }
  | .error _ => none

/-! ## Instructions -/

/-- INTERNAL: the instructions of the handlers and of `setup_stacks`. -/
inductive Instruction
  | push (registers : List Reg)
  | pop (registers : List Reg)
  | mrs (d : Reg)
  | msr (mask : Word) (n : Reg)
  | bic (d n : Reg) (imm : Word)
  | orr (d n : Reg) (imm : Word)
  | mov (d n : Reg)
  | const (d : Reg) (v : Word)
  | ldr (d : Reg) (va : Word)
  | str (d n : Reg)
  | ldmUserSp (n : Reg)

/-- INTERNAL: a register below the stack. -/
def pushRegister (d : Reg) (s : State) : Option State :=
  let sp := s.cpu.get .sp - 4
  (s.store sp (s.cpu.get d)).map fun s => s.set .sp sp

/-- INTERNAL: the register from the top of the stack. -/
def popRegister (d : Reg) (s : State) : Option State := do
  let v ← load32 s.system (s.cpu.get .sp)
  some ((s.set .sp (s.cpu.get .sp + 4)).set d v)

/-- INTERNAL: the register named first is the one at the lowest address. -/
def exec (s : State) : Instruction → Option State
  | .push registers => registers.reverse.foldlM (fun s d => pushRegister d s) s
  | .pop registers => registers.foldlM (fun s d => popRegister d s) s
  | .mrs d => some (s.set d s.cpu.cpsr)
  | .msr mask n => some { s with cpu := { s.cpu with
      cpsr := s.cpu.get n &&& mask ||| s.cpu.cpsr &&& ~~~mask } }
  | .bic d n imm => some (s.set d (s.cpu.get n &&& ~~~imm))
  | .orr d n imm => some (s.set d (s.cpu.get n ||| imm))
  | .mov d n => some (s.set d (s.cpu.get n))
  | .const d v => some (s.set d v)
  | .ldr d va => (load32 s.system va).map (s.set d)
  | .str d n => s.store (s.cpu.get n) (s.cpu.get d)
  | .ldmUserSp n => (load32 s.system (s.cpu.get n)).map fun v =>
      { s with cpu := { s.cpu with sp := Function.update s.cpu.sp .usr v } }

/-- INTERNAL: the instructions one after the other, up to one that faults. -/
def run (code : List Instruction) (s : State) : Option State := code.foldlM exec s

/-- INTERNAL: the mask of `msr CPSR, n`, which writes the flags and the control field. -/
def maskFc : Word := 0xff0000ff

/-- INTERNAL: the mask of `msr CPSR_c, n`, which writes the control field. -/
def maskC : Word := 0xff

/-- INTERNAL: `movs pc, lr` and `subs pc, lr, #offset`: back, with the saved status. -/
def exceptionReturn (offset : Word) (s : State) : State :=
  { s with cpu := { s.cpu with
    pc := s.cpu.get .lr - offset
    cpsr := s.cpu.spsr (bank s.cpu.cpsr) } }

/-! ## Taking an exception -/

/-- INTERNAL: the mode an exception is taken in. -/
def exceptionMode : Exception → Word
  | .undef => 0x1b
  | .swi => 0x13
  | .pabt | .dabt => 0x17
  | .irq => 0x12
  | .fiq => 0x11

/-- INTERNAL: what the link register has more than the address of the instruction that faulted, that
called, or that is yet to come. -/
def linkOffset : Exception → Word
  | .dabt => 8
  | .undef | .swi | .pabt | .irq | .fiq => 4

/-- INTERNAL: the interrupts an exception masks. -/
def exceptionMask : Exception → Word
  | .fiq => 0xc0
  | .undef | .swi | .pabt | .dabt | .irq => 0x80

/-- INTERNAL: an exception is taken: its mode with interrupts masked, the return address and the old
status in its bank. -/
def enter (e : Exception) (c : Cpu) : Cpu :=
  let cpsr := c.cpsr &&& ~~~0x3f ||| exceptionMode e ||| exceptionMask e
  { c with
    lr := Function.update c.lr (bank cpsr) (c.pc + linkOffset e)
    spsr := Function.update c.spsr (bank cpsr) c.cpsr
    cpsr := cpsr }

/-! ## Handlers -/

/-- INTERNAL: `pabt_return`: back to the link register of the user bank.
SRC: arch/arm/exception-handlers.S:9-21 -/
def pabtReturn (s : State) : Option State := do
  let s ← run [.push [.r 0], .mrs (.r 0), .bic .lr (.r 0) 0xf, .orr .lr .lr 0xf, .msr maskFc .lr,
    .mov (.r 1) .lr, .msr maskFc (.r 0), .mov .lr (.r 1), .pop [.r 0]] s
  some (exceptionReturn 0 s)

/-- INTERNAL: `dabt_skip`: back behind the faulting instruction.
SRC: arch/arm/exception-handlers.S:28-30 -/
def dabtSkip (s : State) : State := exceptionReturn 4 s

/-- INTERNAL: `swi_skip`. SRC: arch/arm/exception-handlers.S:32-34 -/
def swiSkip (s : State) : State := exceptionReturn 0 s

/-- INTERNAL: `undef_skip`. SRC: arch/arm/exception-handlers.S:36-38 -/
def undefSkip (s : State) : State := exceptionReturn 0 s

/-- INTERNAL: what the function at an address does until it returns to the address in `lr`. -/
abbrev Handler : Type := Word → State → State

/-- INTERNAL: the registers `irq_handler_tramp` pushes. SRC: arch/arm/exception-handlers.S:42 -/
def saved : List Reg :=
  [.r 0, .r 1, .r 2, .r 3, .r 4, .r 5, .r 6, .r 7, .r 8, .r 9, .r 10, .r 11, .r 12, .lr]

/-- INTERNAL: `pc` reads as two instructions on, where the `pop` is.
SRC: arch/arm/exception-handlers.S:40-48 -/
def irqHandlerTramp (symbols : Symbols) (fn : Handler) (s : State) : Option State := do
  let s ← run [.push saved, .ldr (.r 0) symbols.archIrqHandler,
    .const .lr (symbols.irqHandlerTramp + 16)] s
  let s ← run [.pop saved] (fn (s.cpu.get (.r 0)) s)
  some (exceptionReturn 4 s)

/-- INTERNAL: the routine at an address, of those that return. -/
def routine (symbols : Symbols) (fn : Handler) (address : Word) (s : State) : Option State :=
  if address = symbols.pabtReturn then pabtReturn s
  else if address = symbols.dabtSkip then some (dabtSkip s)
  else if address = symbols.swiSkip then some (swiSkip s)
  else if address = symbols.undefSkip then some (undefSkip s)
  else if address = symbols.irqHandlerTramp then irqHandlerTramp symbols fn s
  else none

/-- INTERNAL: an exception from where it is taken to where it returns. -/
def deliver (symbols : Symbols) (fn : Handler) (e : Exception) (s : State) : Option State := do
  let address ← dispatch s.system e
  routine symbols fn address { s with cpu := enter e s.cpu }

/-! ## The stacks -/

/-- INTERNAL: the stack tops that `reset.S` reserves for the modes. SRC: arch/arm/reset.S:94-121 -/
structure Stacks where
  stackTop : Word
  irqStackTop : Word
  pabtStackTop : Word
  swiStackTop : Word

/-- INTERNAL: `setup_stacks`: the stack pointer of each mode. SRC: arch/arm/reset.S:36-64 -/
def setupStacks (tops : Stacks) (s : State) : Option State := do
  let s ← run [.mrs (.r 1), .const (.r 0) tops.stackTop, .str (.r 0) (.r 0), .ldmUserSp (.r 0),
    .mov (.r 2) .lr, .const (.r 0) 0x12, .msr maskC (.r 0), .const .sp tops.irqStackTop,
    .const (.r 0) 0x17, .msr maskC (.r 0), .const .sp tops.pabtStackTop,
    .msr maskC (.r 1), .const .sp tops.swiStackTop,
    .orr (.r 1) (.r 1) 0xf, .msr maskC (.r 1)] s
  some { s with cpu := { s.cpu with pc := s.cpu.get (.r 2) } }

end Simbench.Program.ArmHandlers
