import Simbench.Program.Armv8Tables

/-!
# Exceptions and system calls on ARMv8

`arch/armv8/arch.c`, `exception.c`, `syscall.c` and `mem.c`, with the branches of
`vectors.S` and `reset.S` around them. The benchmarks run at EL0 and reach the privileged
operations through `svc`; a synchronous exception is dispatched by its class through
`el0_sync_table`, and the vector ends in `arch_abort` when the handler's result is not zero.
The registers the vectors save and restore are left out here. What the code itself loads and
stores under the tables it builds is modelled where it decides how a call ends: at the tables,
which no mapping of `mem_init` covers, and where `mem_mmu_enable` returns.
-/

set_option autoImplicit false

namespace Simbench.Program.Armv8Machine

open Simbench.Library.PagedMemory

/-! ## Layout and state -/

/-- INTERNAL: what the linker script lays out. SRC: platform/armv8/virt/sys.ld:7-78 -/
structure Image where
  textStart : BitVec 64
  textEnd : BitVec 64
  dataStart : BitVec 64
  dataEnd : BitVec 64
  heap : Armv8Tables.HeapLayout
  text : textStart.toNat ≤ textEnd.toNat
  textData : textEnd.toNat ≤ dataStart.toNat
  data : dataStart.toNat ≤ dataEnd.toNat
  dataHeap : dataEnd.toNat ≤ heap.heapStart.toNat
  heapSize : heap.heapEnd.toNat = heap.heapStart.toNat + 0x40000000

/-- INTERNAL: the addresses a small program is linked to. -/
def virtImage : Image where
  textStart := 0x40000000
  textEnd := 0x40008000
  dataStart := 0x40008000
  dataEnd := 0x40050000
  heap :=
    { heapStart := 0x40100000
      heapEnd := 0x80100000
      aligned := by decide
      nonzero := by decide
      ordered := by decide
      bounded := by decide }
  text := by decide
  textData := by decide
  data := by decide
  dataHeap := by decide
  heapSize := by decide

/-- INTERNAL: the regions `mem_get_device_info` lists, first and last address.
SRC: platform/armv8/virt/mem.c:10-20; constants.h:8-13 -/
def memGetDeviceInfo : List (BitVec 64 × BitVec 64) :=
  [(0x09000000, 0x09000fff), (0x08000000, 0x08020000)]

/-- INTERNAL: the linker symbols of a program, and the regions its `mem_get_device_info` lists,
first and last address. SRC: platform/armv8/virt/sys.ld:9-76, include/mem.h:28-34 -/
structure Layout where
  textStart : BitVec 64
  textEnd : BitVec 64
  dataStart : BitVec 64
  dataEnd : BitVec 64
  devices : List (BitVec 64 × BitVec 64)
  heap : Armv8Tables.HeapLayout

/-- INTERNAL: an image is laid out with the devices of the platform.
SRC: platform/armv8/virt/mem.c:10-33 -/
def ofImage (image : Image) : Layout where
  textStart := image.textStart
  textEnd := image.textEnd
  dataStart := image.dataStart
  dataEnd := image.dataEnd
  devices := memGetDeviceInfo
  heap := image.heap

/-- INTERNAL: the layout of an image has the image's heap. -/
@[simp] theorem ofImage_heap (image : Image) : (ofImage image).heap = image.heap := rfl

/-- INTERNAL: the handlers that are installed in `el0_sync_table`. -/
inductive Handler
  | handleSyscall
  | exceptionSkip
  | armv8PabtReturn
  deriving DecidableEq, Repr

/-- INTERNAL: the system registers and statics. `pstate` has the layout of SPSR_EL1, `pc` is
where an exception finds the program, `x30` its link register. -/
structure Machine where
  sctlr : BitVec 32
  cpacr : BitVec 32
  cntkctl : BitVec 32
  pstate : BitVec 32
  spsr : BitVec 32
  esr : BitVec 32
  elr : BitVec 64
  ttbr0 : BitVec 64
  tcr : BitVec 64
  pc : BitVec 64
  x30 : BitVec 64
  armv8BackupLr : BitVec 64
  globalSyscallNo : Int
  el0SyncTable : BitVec 6 → Option Handler
  el0IrqHandler : Bool
  tables : Armv8Tables.Machine

/-- INTERNAL: how a run ends early. The branch of a synchronous vector to `arch_abort` keeps
the machine it is taken in. -/
inductive Halt
  | vector (s : Machine)
  | irqVector
  | abort
  | outOfHeap
  | endless
  | undefined

/-- INTERNAL: a table routine fails only where the heap ends. -/
def onHeap {α : Type} : Option α → Except Halt α
  | some a => .ok a
  | none => .error .outOfHeap

/-! ## `arch.c` -/

/-- INTERNAL: `armv8_install_sync_handler`. SRC: arch/armv8/exception.c:24-26 -/
def armv8InstallSyncHandler (ec : BitVec 6) (handler : Handler) (s : Machine) : Machine :=
  { s with el0SyncTable := Function.update s.el0SyncTable ec (some handler) }

/-- INTERNAL: the class of undefined instructions. SRC: arch/armv8/syscall.h:7 -/
def armv8EcUnknown : BitVec 6 := 0x0

/-- INTERNAL: the class of the system calls. SRC: arch/armv8/syscall.h:8 -/
def armv8EcSyscall : BitVec 6 := 0x15

/-- INTERNAL: `arch_init`. SRC: arch/armv8/arch.c:6-36 -/
def archInit (image : Image) (s : Machine) : Machine :=
  let sctlr := s.sctlr &&& ~~~(1#32 <<< 4 ||| 1#32 <<< 3)
  let sctlr := sctlr ||| 1#32 <<< 26
  let sctlr := sctlr ||| 1#32 <<< 12
  let sctlr := sctlr ||| 1#32 <<< 2
  let s := { s with cpacr := 1#32 <<< 20 ||| 1#32 <<< 21, sctlr := sctlr }
  let s := armv8InstallSyncHandler armv8EcSyscall .handleSyscall s
  { s with
    cntkctl := s.cntkctl ||| 1#32
    tables := { s.tables with heapPtr := image.heap.heapStart } }

/-- INTERNAL: `eret`: back to the saved program counter, with the saved status. -/
def eret (s : Machine) : Machine := { s with pstate := s.spsr, pc := s.elr }

/-- INTERNAL: PSTATE of an exception handler: all interrupts masked, EL1 with its own stack. -/
def handlerPstate : BitVec 32 := 0x3c5

/-- INTERNAL: the machine before `arch_init`: `.bss` and memory that nothing is loaded to are
zero, and after a reset address translation is off. -/
structure PowerOn (image : Image) (s : Machine) : Prop where
  noHandlers : s.el0SyncTable = fun _ => none
  noIrqHandler : s.el0IrqHandler = false
  noTable : s.tables.l0Table = 0
  mmuOff : s.sctlr.getLsbD 0 = false
  zeroHeap : ∀ a : BitVec 64, image.heap.heapStart.toNat ≤ a.toNat →
    a.toNat < image.heap.heapEnd.toNat → s.tables.mem a = 0

/-- INTERNAL: a machine whose registers and memory read as zero. -/
def blank : Machine where
  sctlr := 0
  cpacr := 0
  cntkctl := 0
  pstate := handlerPstate
  spsr := 0
  esr := 0
  elr := 0
  ttbr0 := 0
  tcr := 0
  pc := 0
  x30 := 0
  armv8BackupLr := 0
  globalSyscallNo := 0
  el0SyncTable := fun _ => none
  el0IrqHandler := false
  tables := ⟨fun _ => 0, 0, 0⟩

/-- INTERNAL: `reset_handler` up to `run_simbench`: what the `eret` makes of PSTATE is what
SPSR_EL1 held at reset. SRC: arch/armv8/reset.S:4-14 -/
def resetHandler (image : Image) (runSimbench : BitVec 64) (s : Machine) : Machine :=
  eret { archInit image s with elr := runSimbench }

/-! ## `mem.c`: the handlers -/

/-- INTERNAL: `mem_get_page_size`. SRC: arch/armv8/mem.c:176-179 -/
def memGetPageSize : BitVec 64 := 1#64 <<< 12

/-- INTERNAL: the loop of the three region functions; `rounds` are enough unless the address
wraps around. -/
def regionLoop (map : BitVec 64 → Armv8Tables.Machine → Option (Int × Armv8Tables.Machine))
    (regionEnd : BitVec 64) :
    (rounds : ℕ) → (i : BitVec 64) → Armv8Tables.Machine → Except Halt (Int × Armv8Tables.Machine)
  | 0, i, t => if i ≤ regionEnd then .error .endless else .ok (0, t)
  | rounds + 1, i, t =>
    if i ≤ regionEnd then do
      let (rc, t) ← onHeap (map i t)
      if rc ≠ 0 then .ok (1, t) else regionLoop map regionEnd rounds (i + memGetPageSize) t
    else .ok (0, t)

/-- INTERNAL: the body the three region functions share. SRC: arch/armv8/mem.c:27-63 -/
def createRegion (map : BitVec 64 → Armv8Tables.Machine → Option (Int × Armv8Tables.Machine))
    (regionStart regionEnd : BitVec 64) (t : Armv8Tables.Machine) :
    Except Halt (Int × Armv8Tables.Machine) :=
  let start := regionStart &&& ~~~(memGetPageSize - 1)
  regionLoop map regionEnd ((regionEnd.toNat - start.toNat) / 4096 + 1) start t

section Regions

variable (L : Armv8Tables.HeapLayout) (regionStart regionEnd : BitVec 64) (t : Armv8Tables.Machine)

/-- INTERNAL: a region of data pages, each mapped to itself. SRC: arch/armv8/mem.c:26-37 -/
def memCreateRegionIdMappingData : Except Halt (Int × Armv8Tables.Machine) :=
  createRegion (fun i => Armv8Tables.memCreatePageMappingData L i i) regionStart regionEnd t

/-- INTERNAL: a region of code pages. SRC: arch/armv8/mem.c:39-50 -/
def memCreateRegionIdMappingCode : Except Halt (Int × Armv8Tables.Machine) :=
  createRegion (fun i => Armv8Tables.memCreatePageMappingCode L i i) regionStart regionEnd t

/-- INTERNAL: a region of device pages; the message of a failure is left out.
SRC: arch/armv8/mem.c:52-66 -/
def memCreateRegionDeviceMapping : Except Halt (Int × Armv8Tables.Machine) :=
  createRegion (fun i => Armv8Tables.memCreatePageMappingDevice L i i) regionStart regionEnd t

end Regions

/-- INTERNAL: the loop over the device list. SRC: arch/armv8/mem.c:111-116 -/
def mapDevices (L : Armv8Tables.HeapLayout) : List (BitVec 64 × BitVec 64) → Armv8Tables.Machine →
    Except Halt Armv8Tables.Machine
  | [], t => .ok t
  | (memStart, memEnd) :: devices, t => do
    let (_, t) ← memCreateRegionDeviceMapping L memStart memEnd t
    mapDevices L devices t

/-- INTERNAL: the table calls of `syscall_mem_init`. SRC: arch/armv8/mem.c:97-116 -/
def mapSimbench (layout : Layout) (t : Armv8Tables.Machine) : Except Halt Armv8Tables.Machine := do
  let t ← onHeap (Armv8Tables.clearTxlnTable layout.heap t)
  let (_, t) ← memCreateRegionIdMappingCode layout.heap layout.textStart layout.textEnd t
  let (_, t) ← memCreateRegionIdMappingData layout.heap layout.dataStart layout.dataEnd t
  mapDevices layout.heap layout.devices t

/-- INTERNAL: `syscall_mem_init`, where its accesses to the tables are not translated.
SRC: arch/armv8/mem.c:74-120 -/
def syscallMemInit (layout : Layout) (s : Machine) : Except Halt (Int × Machine) := do
  let t0sz : BitVec 32 := BitVec.ofNat 32 (64 - Armv8Tables.vaBits)
  let t1sz : BitVec 32 := 16
  let s := { s with sctlr := s.sctlr &&& ~~~(1#32 <<< 19) }
  let (table, tables) ← onHeap (Armv8Tables.getTxlnTable layout.heap s.tables)
  let s := { s with ttbr0 := table, tcr := ((t0sz <<< 0) ||| (t1sz <<< 16)).setWidth 64 }
  let tables ← mapSimbench layout tables
  .ok (0, { s with tables := tables })

/-- INTERNAL: `syscall_mem_mmu_enable` sets SCTLR_EL1.M. SRC: arch/armv8/mem.c:122-131 -/
def syscallMemMmuEnable (s : Machine) : Int × Machine :=
  (0, { s with sctlr := s.sctlr ||| 1#32 })

/-- INTERNAL: `syscall_mem_mmu_disable` clears it. SRC: arch/armv8/mem.c:133-142 -/
def syscallMemMmuDisable (s : Machine) : Int × Machine :=
  (0, { s with sctlr := s.sctlr &&& ~~~1#32 })

/-! ## Translations -/

/-- INTERNAL: whether address translation is on, SCTLR_EL1.M. -/
def mmuEnabled (s : Machine) : Bool := s.sctlr.getLsbD 0

/-- INTERNAL: the walk the processor makes for an address. -/
def translate (s : Machine) (va : BitVec 64) : Option Armv8Tables.Translation :=
  Armv8Tables.walk { s.tables with l0Table := s.ttbr0 } va

/-- INTERNAL: the size of the lower range, TCR_EL1.T0SZ. -/
def t0sz (s : Machine) : ℕ := (s.tcr.extractLsb' 0 6).toNat

/-- INTERNAL: TTBR0_EL1 translates the addresses with T0SZ leading zeros, and no others. -/
def translateLower (s : Machine) (va : BitVec 64) : Option Armv8Tables.Translation :=
  if va.toNat < 2 ^ (64 - t0sz s) then translate s va else none

/-- INTERNAL: the physical address of a byte of the page. -/
def outputAddress (t : Armv8Tables.Translation) (va : BitVec 64) : BitVec 64 :=
  t.page ||| (va &&& 0xfff)

/-- INTERNAL: what a mapping permits, AP[2:1] of its attributes. -/
def accessPermissions (t : Armv8Tables.Translation) : BitVec 2 := t.attributes.extractLsb' 6 2

/-- INTERNAL: the memory type of a mapping, AttrIndx[2:0] of its attributes. -/
def attributeIndex (t : Armv8Tables.Translation) : BitVec 3 := t.attributes.extractLsb' 2 3

/-- INTERNAL: the address translates to itself, by a translation of the given kind. -/
def SelfMapped (s : Machine) (va : BitVec 64) (kind : Armv8Tables.Translation → Prop) : Prop :=
  ∃ t, translateLower s va = some t ∧ outputAddress t va = va ∧ kind t

/-- INTERNAL: whether an address is translated to itself is decided by the walk. -/
instance (s : Machine) (va : BitVec 64) (kind : Armv8Tables.Translation → Prop)
    [DecidablePred kind] : Decidable (SelfMapped s va kind) :=
  decidable_of_iff ((translateLower s va).any fun t => outputAddress t va = va ∧ kind t) (by
    simp [SelfMapped, Option.any_eq_true])

/-- INTERNAL: AP[2:1] of a translation: bit 6 admits EL0, bit 7 forbids writes. -/
def permits (unprivileged write : Bool) (t : Armv8Tables.Translation) : Bool :=
  (!unprivileged || t.attributes.getLsbD 6) && (!write || !t.attributes.getLsbD 7)

/-- INTERNAL: an access the tables at TTBR0_EL1 admit, or any while translation is off;
`unprivileged` for EL0 and for `ldtr`. -/
def accessible (unprivileged write : Bool) (ptr : BitVec 64) (s : Machine) : Bool :=
  !mmuEnabled s || (translate s ptr).any (permits unprivileged write)

/-! ## `syscall.c` -/

/-- INTERNAL: `SYSCALL_IRQ_ENABLE`, the first of the system call numbers.
SRC: arch/armv8/syscall.h:10 -/
def syscallIrqEnableNo : Int := 1

/-- INTERNAL: `SYSCALL_IRQ_DISABLE`. SRC: arch/armv8/syscall.h:11 -/
def syscallIrqDisableNo : Int := 2

/-- INTERNAL: `SYSCALL_MEM_INIT`. SRC: arch/armv8/syscall.h:12 -/
def syscallMemInitNo : Int := 3

/-- INTERNAL: `SYSCALL_MMU_ENABLE`. SRC: arch/armv8/syscall.h:13 -/
def syscallMmuEnableNo : Int := 4

/-- INTERNAL: `SYSCALL_MMU_DISABLE`. SRC: arch/armv8/syscall.h:14 -/
def syscallMmuDisableNo : Int := 5

/-- INTERNAL: `SYSCALL_FLUSH_DCACHE`, which no case handles. SRC: arch/armv8/syscall.h:15 -/
def syscallFlushDcacheNo : Int := 6

/-- INTERNAL: `SYSCALL_FLUSH_ICACHE`, nor this. SRC: arch/armv8/syscall.h:16 -/
def syscallFlushIcacheNo : Int := 7

/-- INTERNAL: `SYSCALL_PRIV_ENTER`. SRC: arch/armv8/syscall.h:18 -/
def syscallPrivEnterNo : Int := 8

/-- INTERNAL: `SYSCALL_PRIV_LEAVE`. SRC: arch/armv8/syscall.h:19 -/
def syscallPrivLeaveNo : Int := 9

/-- INTERNAL: `ARMV8_SCTLR_I_FLAG`. SRC: arch/armv8/syscall.c:4 -/
def armv8SctlrIFlag : BitVec 32 := 1#32 <<< 12

/-- INTERNAL: `syscall_irq_disable` sets bit 12 of SCTLR. SRC: arch/armv8/syscall.c:14-21 -/
def syscallIrqDisable (s : Machine) : Int × Machine :=
  (0, { s with sctlr := s.sctlr ||| armv8SctlrIFlag })

/-- INTERNAL: `syscall_irq_enable` clears it. SRC: arch/armv8/syscall.c:23-30 -/
def syscallIrqEnable (s : Machine) : Int × Machine :=
  (0, { s with sctlr := s.sctlr &&& ~~~armv8SctlrIFlag })

/-- INTERNAL: `syscall_priv_enter`: the saved level is EL1. SRC: arch/armv8/syscall.c:32-42 -/
def syscallPrivEnter (s : Machine) : Int × Machine :=
  (0, { s with spsr := (s.spsr &&& ~~~(3#32 <<< 2)) ||| 1#32 <<< 2 })

/-- INTERNAL: `syscall_priv_leave`: it is EL0. SRC: arch/armv8/syscall.c:44-54 -/
def syscallPrivLeave (s : Machine) : Int × Machine :=
  (0, { s with spsr := (s.spsr &&& ~~~(3#32 <<< 2)) ||| 0#32 <<< 2 })

/-- INTERNAL: `syscall_mem_init` while address translation is on: `clear_txln_table` stores to the
root at the root's own address, and where the tables do not admit that, the abort at EL1 goes to a
vector that aborts at once. A store that goes through takes away what the code is running on; what
comes then depends on the TLB. SRC: arch/armv8/mem.c:90-104; arch/armv8/vectors.S:151-153 -/
def syscallMemInitTranslated (layout : Layout) (s : Machine) : Except Halt (Int × Machine) := do
  let (table, _) ← onHeap (Armv8Tables.getTxlnTable layout.heap s.tables)
  .error (if accessible false true table s then .undefined else .abort)

/-- INTERNAL: `armv8_handle_syscall`. SRC: arch/armv8/syscall.c:61-80 -/
def armv8HandleSyscall (image : Image) (s : Machine) : Except Halt (Int × Machine) :=
  if s.globalSyscallNo = syscallIrqDisableNo then .ok (syscallIrqDisable s)
  else if s.globalSyscallNo = syscallIrqEnableNo then .ok (syscallIrqEnable s)
  else if s.globalSyscallNo = syscallMemInitNo then
    if mmuEnabled s then syscallMemInitTranslated (ofImage image) s
    else syscallMemInit (ofImage image) s
  else if s.globalSyscallNo = syscallMmuEnableNo then .ok (syscallMemMmuEnable s)
  else if s.globalSyscallNo = syscallMmuDisableNo then .ok (syscallMemMmuDisable s)
  else if s.globalSyscallNo = syscallPrivEnterNo then .ok (syscallPrivEnter s)
  else if s.globalSyscallNo = syscallPrivLeaveNo then .ok (syscallPrivLeave s)
  else .ok (1, s)

/-! ## `exception.c` and the vectors -/

/-- INTERNAL: `handle_syscall`; no `svc` of the program has another immediate, for which the
function ends without a result. SRC: arch/armv8/exception.c:10-22 -/
def handleSyscall (image : Image) (s : Machine) : Except Halt (Int × Machine) :=
  let syndrome := s.esr &&& 0x1ffffff
  if syndrome = 0 then .ok (0, s)
  else if syndrome = 1 then armv8HandleSyscall image s
  else .error .undefined

/-- INTERNAL: `exception_skip`, through a 32-bit variable. SRC: arch/armv8/exception.c:32-41 -/
def exceptionSkip (s : Machine) : Int × Machine :=
  (0, { s with elr := (s.elr.setWidth 32 + 4).setWidth 64 })

/-- INTERNAL: `armv8_pabt_return`. SRC: arch/armv8/reset.S:40-46 -/
def armv8PabtReturn (s : Machine) : Int × Machine := (0, { s with elr := s.armv8BackupLr })

/-- INTERNAL: a handler in the table is called. -/
def Handler.call (image : Image) (s : Machine) : Handler → Except Halt (Int × Machine)
  | .handleSyscall => Armv8Machine.handleSyscall image s
  | .exceptionSkip => .ok (Armv8Machine.exceptionSkip s)
  | .armv8PabtReturn => .ok (Armv8Machine.armv8PabtReturn s)

/-- INTERNAL: the exception class of ESR_EL1, as `el1_lower_sync_handler` extracts it. -/
def exceptionClass (esr : BitVec 32) : BitVec 6 := (esr >>> 26).setWidth 6

/-- INTERNAL: `el1_lower_sync_handler`. SRC: arch/armv8/exception.c:105-123 -/
def el1LowerSyncHandler (image : Image) (s : Machine) : Except Halt (Int × Machine) :=
  match s.el0SyncTable (exceptionClass s.esr) with
  | none => .ok (1, s)
  | some handler => handler.call image s

/-- INTERNAL: `el1_lower_synchronous_vector` and `el1_current_sp0_synchronous_vector`, which
have one body. SRC: arch/armv8/vectors.S:11-28,288-305 -/
def synchronousVector (image : Image) (s : Machine) : Except Halt Machine := do
  let s := { s with armv8BackupLr := s.x30 }
  let (rc, s) ← el1LowerSyncHandler image s
  if rc ≠ 0 then .error (.vector s) else .ok (eret s)

/-- INTERNAL: the syndrome of an exception from a 32-bit instruction. -/
def syndromeOf (ec : BitVec 6) (iss : BitVec 25) : BitVec 32 :=
  ec.setWidth 32 <<< 26 ||| 1#32 <<< 25 ||| iss.setWidth 32

/-- INTERNAL: the exception level and stack of PSTATE: EL0, EL1 on the stack of EL0. -/
def el0t : BitVec 32 := 0

/-- INTERNAL: EL1 with the stack pointer of EL0. -/
def el1t : BitVec 32 := 4

/-- INTERNAL: the mode in a saved status. -/
def modeOf (pstate : BitVec 32) : BitVec 32 := pstate &&& 0xf

/-- INTERNAL: what the processor does for a synchronous exception; `svc` returns behind its
instruction. An exception of a handler itself goes to a vector that aborts at once.
SRC: arch/armv8/vectors.S:151-153 -/
def takeSynchronous (image : Image) (ec : BitVec 6) (iss : BitVec 25) (s : Machine) :
    Except Halt Machine :=
  let entered := { s with
    spsr := s.pstate
    esr := syndromeOf ec iss
    elr := if ec = armv8EcSyscall then s.pc + 4 else s.pc
    pstate := handlerPstate }
  if modeOf s.pstate = el0t ∨ modeOf s.pstate = el1t then synchronousVector image entered
  else .error .abort

/-- INTERNAL: `armv8_syscall`. SRC: arch/armv8/syscall.c:9-12 -/
def armv8Syscall (image : Image) (callNo : Int) (s : Machine) : Except Halt Machine :=
  takeSynchronous image armv8EcSyscall 1 { s with globalSyscallNo := callNo }

/-! ## Memory accesses -/

/-- INTERNAL: an abort at EL0, or at EL1, where the class is one higher. -/
def takeAbort (image : Image) (ec : BitVec 6) (s : Machine) : Except Halt Machine :=
  takeSynchronous image (if modeOf s.pstate = el0t then ec else ec + 1) 0 s

/-- INTERNAL: the classes of aborts from EL0. SRC: arch/armv8/exception.c:43-56 -/
def ecInstructionAbort : BitVec 6 := 0x20

/-- INTERNAL: the class of data aborts from a lower level. SRC: arch/armv8/exception.c:57 -/
def ecDataAbort : BitVec 6 := 0x24

/-- INTERNAL: a load or store of the program. -/
def dataAccess (image : Image) (unprivileged write : Bool) (ptr : BitVec 64) (s : Machine) :
    Except Halt Machine :=
  if accessible unprivileged write ptr s then .ok s else takeAbort image ecDataAbort s

/-- INTERNAL: an access with the rights of the current level. -/
def access (image : Image) (write : Bool) (ptr : BitVec 64) (s : Machine) : Except Halt Machine :=
  dataAccess image (modeOf s.pstate = el0t) write ptr s

/-- INTERNAL: the bytes from the first address on translate to themselves. -/
def Covers (s : Machine) (first : BitVec 64) (bytes : ℕ)
    (kind : Armv8Tables.Translation → Prop) : Prop :=
  ∀ n < bytes, SelfMapped s (first + BitVec.ofNat 64 n) kind

/-- INTERNAL: whether a section translates to itself is decided byte by byte. -/
instance (s : Machine) (first : BitVec 64) (bytes : ℕ) (kind : Armv8Tables.Translation → Prop)
    [DecidablePred kind] : Decidable (Covers s first bytes kind) :=
  inferInstanceAs (Decidable (∀ n < bytes, _))

/-- INTERNAL: the program goes on under the tables: both levels read and fetch its text and do not
write it, and both read and write its data and its devices. -/
def Runs (layout : Layout) (s : Machine) : Prop :=
  Covers s layout.textStart (layout.textEnd.toNat - layout.textStart.toNat)
    (fun t => accessPermissions t = 3 ∧ t.attributes.extractLsb' 53 2 = 0) ∧
  Covers s layout.dataStart (layout.dataEnd.toNat - layout.dataStart.toNat)
    (fun t => accessPermissions t = 1) ∧
  ∀ device ∈ layout.devices,
    Covers s device.1 (device.2.toNat + 1 - device.1.toNat) fun t => accessPermissions t = 1

/-- INTERNAL: whether the program goes on is decided section by section. -/
instance (layout : Layout) (s : Machine) : Decidable (Runs layout s) :=
  inferInstanceAs (Decidable (_ ∧ _ ∧ _))

/-! ## `mem.h` -/

/-- INTERNAL: `mem_init`. SRC: arch/armv8/mem.c:69-72 -/
def memInit (image : Image) : Machine → Except Halt Machine := armv8Syscall image syscallMemInitNo

/-- INTERNAL: `mem_reset`. SRC: arch/armv8/mem.c:144-147 -/
def memReset (image : Image) : Machine → Except Halt Machine := memInit image

/-- INTERNAL: `mem_mmu_enable`. SRC: arch/armv8/mem.c:149-152 -/
def memMmuEnable (image : Image) : Machine → Except Halt Machine :=
  armv8Syscall image syscallMmuEnableNo

/-- INTERNAL: `mem_mmu_disable`. SRC: arch/armv8/mem.c:154-157 -/
def memMmuDisable (image : Image) : Machine → Except Halt Machine :=
  armv8Syscall image syscallMmuDisableNo

/-- INTERNAL: `mem_tlb_flush`, which is empty. SRC: arch/armv8/mem.c:159-162 -/
def memTlbFlush (s : Machine) : Machine := s

/-- INTERNAL: `mem_tlb_evict`, likewise empty. SRC: arch/armv8/mem.c:164-167 -/
def memTlbEvict (_ptr : BitVec 64) (s : Machine) : Machine := s

/-- INTERNAL: `mem_cache_flush` makes two system calls that no case handles.
SRC: arch/armv8/mem.c:169-173 -/
def memCacheFlush (image : Image) (s : Machine) : Except Halt Machine := do
  let s ← armv8Syscall image syscallFlushIcacheNo s
  armv8Syscall image syscallFlushDcacheNo s

/-- INTERNAL: the mapping routines run where they are called, without a system call. While address
translation is on, their first access to a table is the load of the entry of the root, at its own
address; what they do where that goes through is left open.
SRC: arch/armv8/txln_table.c:100-104,206-246 -/
def memCreatePageMapping (image : Image) (kind : Armv8Tables.Kind) (physAddr virtAddr : BitVec 64)
    (s : Machine) : Except Halt Machine :=
  if mmuEnabled s then do
    let (table, _) ← onHeap (Armv8Tables.getL0Table image.heap s.tables)
    let idx := Armv8Tables.tableIndex 39 Armv8Tables.txltL0Entries virtAddr
    let _ ← access image false (wordAddr table idx) s
    .error .undefined
  else do
    let (_, tables) ←
      onHeap (Armv8Tables.memCreatePageMapping image.heap kind physAddr virtAddr s.tables)
    .ok { s with tables := tables }

/-- INTERNAL: the operations of `mem.h`. SRC: include/mem.h:7-25 -/
inductive MemCall
  | memInit
  | memReset
  | memMmuEnable
  | memMmuDisable
  | memTlbFlush
  | memTlbEvict (ptr : BitVec 64)
  | memCacheFlush
  | memCreatePageMapping (kind : Armv8Tables.Kind) (physAddr virtAddr : BitVec 64)
  deriving DecidableEq, Repr

/-- INTERNAL: one operation. The program that enables address translation goes on behind the call
only where the tables let it. -/
def memCall (image : Image) (s : Machine) : MemCall → Except Halt Machine
  | .memInit => memInit image s
  | .memReset => memReset image s
  | .memMmuEnable => do
    let s ← memMmuEnable image s
    if Runs (ofImage image) s then .ok s else .error .undefined
  | .memMmuDisable => memMmuDisable image s
  | .memTlbFlush => .ok (memTlbFlush s)
  | .memTlbEvict ptr => .ok (memTlbEvict ptr s)
  | .memCacheFlush => memCacheFlush image s
  | .memCreatePageMapping kind physAddr virtAddr =>
    memCreatePageMapping image kind physAddr virtAddr s

/-- INTERNAL: a sequence of memory operations. -/
def memCalls (image : Image) (calls : List MemCall) (s : Machine) : Except Halt Machine :=
  calls.foldlM (memCall image) s

end Simbench.Program.Armv8Machine
