import Simbench.Library.ByteWords
import Simbench.Library.LastWrite
import Simbench.Program.ArmCacheFlush
import Simbench.Program.MemoryKernels

/-!
# The ARM exception vectors

The section `.vectors` of `arch/arm/vectors.S`, which `load_vectors` copies to where the exception
vector base will be mapped, and the functions that put a handler into a slot: those of
`arch/arm/exception.c` into the copy, those of `arch/arm/vector-handlers.c` into the original. A
program reads and writes memory through the section table as soon as the MMU is on, and so does the
processor when it takes an exception.

The reset vector, which is not used once the vectors are loaded, is left out.
-/

set_option autoImplicit false

namespace Simbench.Program.ArmVectors

open Simbench.Library.ByteWords Simbench.Library.LastWrite
open Simbench.Program.ArmSections Simbench.Program.ArmCaches Simbench.Program.ArmCacheFlush

/-! ## The section of the vectors -/

/-- INTERNAL: the exceptions with a slot for a handler. SRC: arch/arm/vectors.S:60-83 -/
inductive Exception
  | undef
  | swi
  | pabt
  | dabt
  | irq
  | fiq
  deriving DecidableEq, Repr

/-- INTERNAL: the offset of the vector of an exception, from `vectors_start` on.
SRC: arch/arm/vectors.S:8-30 -/
def Exception.vector : Exception → ℕ
  | .undef => 0x4
  | .swi => 0x8
  | .pabt => 0xc
  | .dabt => 0x10
  | .irq => 0x18
  | .fiq => 0x1c

/-- INTERNAL: the offset of its trampoline. SRC: arch/arm/vectors.S:40-56 -/
def Exception.trampoline : Exception → ℕ
  | .undef => 2088
  | .swi => 2092
  | .pabt => 2096
  | .dabt => 2100
  | .irq => 2104
  | .fiq => 2108

/-- INTERNAL: the offset of its slot. SRC: arch/arm/vectors.S:58-83 -/
def Exception.handler : Exception → ℕ
  | .undef => 4096
  | .swi => 4100
  | .pabt => 4104
  | .dabt => 4108
  | .irq => 4112
  | .fiq => 4116

/-- INTERNAL: the addresses of the labels that the sections of the image have. -/
structure Symbols where
  platform : Platform
  resetHandler : Word
  irqHandlerTramp : Word
  archIrqHandler : Word
  pabtReturn : Word
  dabtSkip : Word
  swiSkip : Word
  undefSkip : Word
  deriving DecidableEq, Repr

/-- INTERNAL: the address of `default_handler`. SRC: arch/arm/vectors.S:81-85,87-90 -/
def Symbols.defaultHandler (symbols : Symbols) : Word := symbols.platform.vectorsStart + 4120

/-- INTERNAL: the address of `default_undef_handler`, the first content of the slot for undefined
instructions. SRC: arch/arm/vectors.S:60-62 -/
def Symbols.defaultUndefHandler (symbols : Symbols) : Word := symbols.platform.vectorsStart + 4132

/-- INTERNAL: the word in a slot before anything is installed. SRC: arch/arm/vectors.S:55-79 -/
def initialHandler (symbols : Symbols) : Exception → Word
  | .undef => symbols.defaultUndefHandler
  | .irq => symbols.irqHandlerTramp
  | .swi | .pabt | .dabt | .fiq => symbols.defaultHandler

/-- INTERNAL: `b` from one offset to a later one. -/
def branch (source target : ℕ) : Word := 0xea000000 ||| BitVec.ofNat 32 ((target - source - 8) / 4)

/-- INTERNAL: `ldr pc, [pc, #imm]` at one offset, of the word at a later one. -/
def loadPc (source target : ℕ) : Word := 0xe59ff000 ||| BitVec.ofNat 32 (target - source - 8)

/-- INTERNAL: the section is in memory at its address. SRC: arch/arm/vectors.S:5-79 -/
structure Loaded (symbols : Symbols) (mem : Bytes 32) : Prop where
  vector : ∀ e : Exception, load mem 4 (symbols.platform.vectorsStart + BitVec.ofNat 32 e.vector) =
    branch e.vector e.trampoline
  trampoline : ∀ e : Exception,
    load mem 4 (symbols.platform.vectorsStart + BitVec.ofNat 32 e.trampoline) =
      loadPc e.trampoline e.handler
  handler : ∀ e : Exception,
    load mem 4 (symbols.platform.vectorsStart + BitVec.ofNat 32 e.handler) =
      initialHandler symbols e

/-! ## Memory through the MMU -/

/-- INTERNAL: the memory but for the section table, and the machine that has it. -/
structure System where
  machine : Machine
  mem : Bytes 32

/-- INTERNAL: bit 0 of the control register. -/
def System.mmuOn (s : System) : Bool := s.machine.control.getLsbD 0

/-- INTERNAL: the physical address of a virtual one. -/
def translate (s : System) (va : Word) : Option Word :=
  if s.mmuOn then sectionTranslate s.machine.sections.table va else some va

/-- INTERNAL: a load of a word through the MMU; `none` is a data abort. -/
def load32 (s : System) (va : Word) : Option Word := do
  let pa ← translate s va
  some (load s.mem 4 pa)

/-- INTERNAL: why a run ends: a call does not return, or its store takes a data abort. -/
inductive Stop
  | halt (h : Halt)
  | dataAbort
  deriving DecidableEq, Repr

/-- INTERNAL: a store of a word through the MMU. -/
def store32 (va v : Word) (s : System) : Except Stop System :=
  match translate s va with
  | some pa => .ok { s with mem := store 4 pa v s.mem }
  | none => .error .dataAbort

/-! ## Taking an exception -/

/-- INTERNAL: the instruction at `pc`, as far as the vectors have it: the next `pc`. -/
def jump (s : System) (pc : Word) : Option Word := do
  let instruction ← load32 s pc
  if instruction >>> 24 = 0xea then
    some (pc + 8 + ((instruction.setWidth 24).signExtend 30 ++ 0#2 : BitVec 32))
  else if instruction >>> 12 = 0xe59ff then
    load32 s (pc + 8 + (instruction &&& 0xfff))
  else none

/-- INTERNAL: where the processor is after the vector of an exception and its trampoline. -/
def dispatch (s : System) (e : Exception) : Option Word := do
  let pc ← jump s (vectorVaddr s.machine.control + BitVec.ofNat 32 e.vector)
  jump s pc

/-! ## Startup -/

/-- INTERNAL: `load_vectors`: the copy, and the bit that makes the vectors high.
SRC: arch/arm/reset.S:70-91 -/
def loadVectors (fuel : ℕ) (symbols : Symbols) (s : System) : Option System := do
  let r0 := symbols.platform.vectorsRelocate
  let r1 := symbols.platform.vectorsStart
  let r2 := symbols.platform.vectorsEnd - r1
  let (_, mem) ← MemoryKernels.memcpy fuel r0 r1 r2 s.mem
  some ⟨{ s.machine with control := s.machine.control ||| 1#32 <<< 13 }, mem⟩

/-- INTERNAL: `enable_caches`: branch prediction and the instruction cache.
SRC: arch/arm/reset.S:23-34 -/
def enableCaches (s : System) : System :=
  { s with machine := { s.machine with
    control := s.machine.control ||| 1#32 <<< 11 ||| 1#32 <<< 12 } }

/-! ## Installing handlers -/

/-- INTERNAL: the slot of an exception in the section as it was linked. -/
def slot (symbols : Symbols) (e : Exception) : Word :=
  symbols.platform.vectorsStart + BitVec.ofNat 32 e.handler

/-- INTERNAL: the body of the four `install` functions. SRC: arch/arm/exception.c:15-34 -/
def install (symbols : Symbols) (e : Exception) (location : Word) : System → Except Stop System :=
  store32 (slot symbols e - symbols.platform.vectorsStart + symbols.platform.vectorsRelocate) location

/-- INTERNAL: `install_pabt`. SRC: arch/arm/exception.c:16-20 -/
def installPabt (symbols : Symbols) (pabtLocation : Word) : System → Except Stop System :=
  install symbols .pabt pabtLocation

/-- INTERNAL: `install_dabt`. SRC: arch/arm/exception.c:21-25 -/
def installDabt (symbols : Symbols) (dabtLocation : Word) : System → Except Stop System :=
  install symbols .dabt dabtLocation

/-- INTERNAL: `install_swi`. SRC: arch/arm/exception.c:26-30 -/
def installSwi (symbols : Symbols) (swiLocation : Word) : System → Except Stop System :=
  install symbols .swi swiLocation

/-- INTERNAL: `install_undef`. SRC: arch/arm/exception.c:31-35 -/
def installUndef (symbols : Symbols) (undefLocation : Word) : System → Except Stop System :=
  install symbols .undef undefLocation

/-- INTERNAL: `arch_ifault_install_return`. SRC: arch/arm/exception.c:37-40 -/
def archIfaultInstallReturn (symbols : Symbols) : System → Except Stop System :=
  installPabt symbols symbols.pabtReturn

/-- INTERNAL: `arch_ifault_install_break`. SRC: arch/arm/exception.c:42-45 -/
def archIfaultInstallBreak (symbols : Symbols) : System → Except Stop System :=
  installPabt symbols symbols.defaultHandler

/-- INTERNAL: `arch_dfault_install_skip`. SRC: arch/arm/exception.c:47-50 -/
def archDfaultInstallSkip (symbols : Symbols) : System → Except Stop System :=
  installDabt symbols symbols.dabtSkip

/-- INTERNAL: `arch_syscall_install_skip`. SRC: arch/arm/exception.c:52-55 -/
def archSyscallInstallSkip (symbols : Symbols) : System → Except Stop System :=
  installSwi symbols symbols.swiSkip

/-- INTERNAL: `arch_undef_install_skip`. SRC: arch/arm/exception.c:57-60 -/
def archUndefInstallSkip (symbols : Symbols) : System → Except Stop System :=
  installUndef symbols symbols.undefSkip

/-- INTERNAL: `arch_irq_install_handler`: the word `arch_irq_handler` is set.
SRC: arch/arm/exception.c:87-91 -/
def archIrqInstallHandler (symbols : Symbols) (handler : Word) : System → Except Stop System :=
  store32 symbols.archIrqHandler handler

/-- INTERNAL: `arm_install_reset_handler`. SRC: arch/arm/vector-handlers.c:11 -/
def armInstallResetHandler (symbols : Symbols) (vector : Word) : System → Except Stop System :=
  store32 symbols.resetHandler vector

/-- INTERNAL: `arm_install_undef_handler`. SRC: arch/arm/vector-handlers.c:12 -/
def armInstallUndefHandler (symbols : Symbols) (vector : Word) : System → Except Stop System :=
  store32 (slot symbols .undef) vector

/-- INTERNAL: `arm_install_swi_handler`. SRC: arch/arm/vector-handlers.c:13 -/
def armInstallSwiHandler (symbols : Symbols) (vector : Word) : System → Except Stop System :=
  store32 (slot symbols .swi) vector

/-- INTERNAL: `arm_install_pabt_handler`. SRC: arch/arm/vector-handlers.c:14 -/
def armInstallPabtHandler (symbols : Symbols) (vector : Word) : System → Except Stop System :=
  store32 (slot symbols .pabt) vector

/-- INTERNAL: `arm_install_dabt_handler`. SRC: arch/arm/vector-handlers.c:15 -/
def armInstallDabtHandler (symbols : Symbols) (vector : Word) : System → Except Stop System :=
  store32 (slot symbols .dabt) vector

/-- INTERNAL: `arm_install_irq_handler`. SRC: arch/arm/vector-handlers.c:16 -/
def armInstallIrqHandler (symbols : Symbols) (vector : Word) : System → Except Stop System :=
  store32 (slot symbols .irq) vector

/-- INTERNAL: `arm_install_fiq_handler`. SRC: arch/arm/vector-handlers.c:17 -/
def armInstallFiqHandler (symbols : Symbols) (vector : Word) : System → Except Stop System :=
  store32 (slot symbols .fiq) vector

/-! ## Runs -/

/-- INTERNAL: a core, its caches, and the image on it. -/
structure Board where
  core : Core
  ids : CacheIds
  symbols : Symbols

/-- INTERNAL: the calls of a program that concern memory or exceptions, and its own stores. -/
inductive Call
  | memInit
  | memReset
  | mapping (kind : Kind) (physAddr virtAddr : Word)
  | mmuEnable
  | mmuDisable (r0 : Word)
  | cacheFlush
  | ifaultInstallReturn
  | ifaultInstallBreak
  | dfaultInstallSkip
  | syscallInstallSkip
  | undefInstallSkip
  | irqInstallHandler (handler : Word)
  | armInstallReset (vector : Word)
  | armInstall (e : Exception) (vector : Word)
  | store (va v : Word)
  deriving DecidableEq, Repr

/-- INTERNAL: a function of the machine, in the system. -/
def onMachine {α : Type} (f : Machine → Except Halt α) (machine : α → Machine) (s : System) :
    Except Stop System :=
  match f s.machine with
  | .ok a => .ok { s with machine := machine a }
  | .error h => .error (.halt h)

/-- INTERNAL: the store all of `arm_install_undef_handler` to `arm_install_fiq_handler` make, into
their own slot. -/
def armInstall (symbols : Symbols) : Exception → Word → System → Except Stop System
  | .undef => armInstallUndefHandler symbols
  | .swi => armInstallSwiHandler symbols
  | .pabt => armInstallPabtHandler symbols
  | .dabt => armInstallDabtHandler symbols
  | .irq => armInstallIrqHandler symbols
  | .fiq => armInstallFiqHandler symbols

/-- INTERNAL: one call on the system. -/
def runCall (fuel : ℕ) (board : Board) (call : Call) (s : System) : Except Stop System :=
  match call with
  | .memInit => onMachine (memInit board.core board.symbols.platform) id s
  | .memReset => onMachine (fun m => memInit board.core board.symbols.platform
      { m with sections := { m.sections with memInited := false } }) id s
  | .mapping kind physAddr virtAddr =>
    onMachine (fun m => memCreatePageMapping kind physAddr virtAddr m.sections)
      (fun r => { s.machine with sections := r.2 }) s
  | .mmuEnable => onMachine (memMmuEnable board.core) Prod.snd s
  | .mmuDisable r0 => onMachine (memMmuDisable fuel board.ids board.core r0) Prod.snd s
  | .cacheFlush => onMachine (fun m => memCacheFlush board.core m.flags) (fun _ => s.machine) s
  | .ifaultInstallReturn => archIfaultInstallReturn board.symbols s
  | .ifaultInstallBreak => archIfaultInstallBreak board.symbols s
  | .dfaultInstallSkip => archDfaultInstallSkip board.symbols s
  | .syscallInstallSkip => archSyscallInstallSkip board.symbols s
  | .undefInstallSkip => archUndefInstallSkip board.symbols s
  | .irqInstallHandler handler => archIrqInstallHandler board.symbols handler s
  | .armInstallReset vector => armInstallResetHandler board.symbols vector s
  | .armInstall e vector => armInstall board.symbols e vector s
  | .store va v => store32 va v s

end Simbench.Program.ArmVectors
