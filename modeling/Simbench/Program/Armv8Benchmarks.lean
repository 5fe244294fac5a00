import Simbench.Library.Outcomes
import Simbench.Program.Armv8Machine
import Simbench.Program.Benchmarks

/-!
# Running the benchmarks on ARMv8

What each operation of a benchmark does to the machine, on the `virt` platform. An access to
an address that the tables at TTBR0_EL1 do not translate, or not for this access, raises a
data or instruction abort; `mrs CurrentEL` at EL0 is an undefined instruction. Loads and
stores have no other effect here: the tables are memory of their own. The program's own fetches
and stack are not followed; wherever address translation is on, `mem_init` has mapped its text and
data.
-/

set_option autoImplicit false

namespace Simbench.Program.Armv8Benchmarks

open Simbench.Library.Outcomes Simbench.Program.Armv8Machine
open Simbench.Program.Benchmarks (Op Site Name executeAll)

/-! ## Fetches -/

/-- INTERNAL: a call through a pointer; what lies behind an address that can be fetched from
is unknown. -/
def jump (image : Image) (ptr : BitVec 64) (s : Machine) : Except Halt Machine :=
  if mmuEnabled s ∧ translate s ptr = none then
    takeAbort image ecInstructionAbort { s with pc := ptr, x30 := s.pc + 4 }
  else .error .undefined

/-! ## `armv8.c` and `exception.c` -/

/-- INTERNAL: `armv8_in_el1`, through `mrs CurrentEL`; `stale` is what the destination register
holds when the instruction is skipped. SRC: arch/armv8/armv8.c:4-12 -/
def armv8InEl1 (image : Image) (stale : BitVec 32) (s : Machine) : Except Halt (Bool × Machine) :=
  if modeOf s.pstate = el0t then do
    let s ← takeSynchronous image armv8EcUnknown 0 s
    .ok (stale = 1, s)
  else .ok (s.pstate &&& 0xc = 1, s)

/-- INTERNAL: the body of `arch_irq_enable` and `arch_irq_disable`.
SRC: arch/armv8/exception.c:72-86 -/
def archIrq (image : Image) (callNo : Int) (stale : BitVec 32) (s : Machine) :
    Except Halt Machine := do
  let (inEl1, s) ← armv8InEl1 image stale s
  if inEl1 then .error .abort else armv8Syscall image callNo s

/-- INTERNAL: `arch_irq_enable`. SRC: arch/armv8/exception.c:72-78 -/
def archIrqEnable (image : Image) : BitVec 32 → Machine → Except Halt Machine :=
  archIrq image syscallIrqEnableNo

/-- INTERNAL: `arch_irq_disable`. SRC: arch/armv8/exception.c:80-86 -/
def archIrqDisable (image : Image) : BitVec 32 → Machine → Except Halt Machine :=
  archIrq image syscallIrqDisableNo

/-- INTERNAL: a system register access that EL0 is only given by a control bit. -/
def trappedUnless (image : Image) (given : Bool) (s : Machine) : Except Halt Machine :=
  if modeOf s.pstate = el0t ∧ given = false then takeSynchronous image 0x18 0 s else .ok s

/-! ## `platform.c` -/

/-- INTERNAL: accesses in order, each a write or a read. -/
def accesses (image : Image) (list : List (Bool × BitVec 64)) (s : Machine) :
    Except Halt Machine :=
  list.foldlM (fun s a => access image a.1 a.2 s) s

/-- INTERNAL: the accesses of `platform_trigger_swi`. SRC: platform/armv8/virt/platform.c:47-88 -/
def triggerAccesses : List (Bool × BitVec 64) :=
  [(false, 0x08000fe0), (false, 0x08000fe4), (false, 0x08000fe8), (false, 0x08000fec),
    (true, 0x08000100), (true, 0x08000400), (true, 0x08010004), (false, 0x08000000),
    (true, 0x08000000), (false, 0x08010000), (true, 0x08010000), (true, 0x08000f00)]

/-- INTERNAL: the accesses of `platform_clear_swi`. SRC: platform/armv8/virt/platform.c:90-95 -/
def clearAccesses : List (Bool × BitVec 64) :=
  [(false, 0x0801000c), (true, 0x08000f10), (true, 0x08010010)]

/-- INTERNAL: an interrupt: `el1_lower_irq_vector` with `el1_lower_irq_handler` and the handler of
the interrupt benchmark, which sets the flag; the vector for EL1 aborts.
SRC: arch/armv8/vectors.S:324-336; arch/armv8/exception.c:94-103;
benchmarks/exception/swi.c:26-30 -/
def takeIrq (image : Image) (flag : BitVec 64) (s : Machine) : Except Halt Machine :=
  let entered := { s with spsr := s.pstate, elr := s.pc, pstate := handlerPstate }
  if modeOf s.pstate = el0t then
    if s.el0IrqHandler then do
      let s ← accesses image ((true, flag) :: clearAccesses) entered
      .ok (eret s)
    else .error .irqVector
  else .error .abort

/-- INTERNAL: `platform_trigger_swi` and the wait for the handler's flag, which is never set
while interrupts are masked. -/
def platformTriggerSwi (image : Image) (flag : BitVec 64) (s : Machine) : Except Halt Machine := do
  let s ← accesses image triggerAccesses s
  if s.pstate.getLsbD 7 then .error .endless
  else
    let s ← takeIrq image flag s
    access image false flag s

/-! ## Operations -/

/-- INTERNAL: one operation of a benchmark on the machine; `e` is what the processor gives where the
source does not say. -/
def exec (image : Image) (site : Site) (stale : BitVec 32) : Op → Machine → Except Halt Machine
  | .memInit, s => memInit image s
  | .memReset, s => memReset image s
  | .memMmuEnable, s => memMmuEnable image s
  | .memMmuDisable, s => memMmuDisable image s
  | .memTlbFlush, s => .ok (memTlbFlush s)
  | .memTlbEvict ptr, s => .ok (memTlbEvict ptr s)
  | .memCreatePageMappingData pa va, s => memCreatePageMapping image .data pa va s
  | .archDfaultInstallSkip, s => .ok (armv8InstallSyncHandler ecDataAbort .exceptionSkip s)
  | .archIfaultInstallReturn, s =>
    .ok (armv8InstallSyncHandler ecInstructionAbort .armv8PabtReturn s)
  | .archUndefInstallSkip, s => .ok (armv8InstallSyncHandler armv8EcUnknown .exceptionSkip s)
  | .archSyscallInstallSkip, s => .ok s
  | .archIrqInstallHandler, s => .ok { s with el0IrqHandler := true }
  | .archIrqEnable, s => archIrqEnable image stale s
  | .archIrqDisable, s => archIrqDisable image stale s
  | .archSyscall, s => takeSynchronous image armv8EcSyscall 0 s
  | .archUndefinedInstruction, s => takeSynchronous image armv8EcUnknown 0 s
  | .archCoprocessorAccess, s => trappedUnless image (s.cntkctl.getLsbD 0) s
  | .archNonpriviligedRead ptr, s => dataAccess image true false ptr s
  | .archCodeFlush _, s => trappedUnless image (s.sctlr.getLsbD 26) s
  | .archPrivEnter, s => armv8Syscall image syscallPrivEnterNo s
  | .archPrivLeave, s => armv8Syscall image syscallPrivLeaveNo s
  | .platformTriggerSwi, s => platformTriggerSwi image (site.symbol .swiFlag) s
  | .load ptr, s => access image false ptr s
  | .store ptr, s => access image true ptr s
  | .jump ptr, s => jump image ptr s

/-- INTERNAL: benchmarks executed one after the other; operation number `n` finds `stale n`. -/
def runBenchmarks (image : Image) (site : Site) (stale : ℕ → BitVec 32) (names : List Name)
    (s : Machine) : Except Halt Machine :=
  run (exec image site) stale 0 (executeAll site names) s

/-- INTERNAL: the platform's part of a build; its variables lie in the data of the image.
SRC: platform/armv8/virt/constants.h:4-7; platform/armv8/virt/platform.c:17-21 -/
structure OnVirt (image : Image) (site : Site) : Prop where
  physMemStart : site.physMemStart = 0x80000000
  physMemEnd : site.physMemEnd = 0xa0000000
  pageSize : site.pageSize = memGetPageSize
  nullDevptr : site.nullDevptr = 0x09000044
  inData : ∀ symbol, symbol ≠ .block → image.dataStart.toNat ≤ (site.symbol symbol).toNat ∧
    (site.symbol symbol).toNat ≤ image.dataEnd.toNat

end Simbench.Program.Armv8Benchmarks
