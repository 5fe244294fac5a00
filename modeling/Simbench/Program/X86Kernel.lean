import Simbench.Library.Outcomes
import Simbench.Program.Benchmarks
import Simbench.Program.X86Boot

/-!
# The x86-64 kernel under the benchmarks

`arch/x86_64/arch.c`, `mem.c`, `irq.c` and `exception.c`, and what each operation of a
benchmark does there. Whether an access faults is the processor's decision: it depends on the
tables at CR3 and on what the TLB has kept of others, so it is an input of every operation. The
registers a trap saves and restores are left out here.

The memory is that of the tables, of the boot code and of the heap. What a benchmark itself stores
is left out: the module on the stores of the benchmarks shows that none of them reaches this memory.
The stack lies at the end of the heap and is taken to stay in its last page; a run that hands out
that page ends there.
-/

set_option autoImplicit false

namespace Simbench.Program.X86Kernel

open Simbench.Library.Outcomes Simbench.Library.PagedMemory Simbench.Program.X86PageTables
open Simbench.Program.X86Boot
open Simbench.Program.Benchmarks (Op Site Symbol Name executeAll)

/-! ## State -/

/-- INTERNAL: what `page_fault_handler_fn` is set to. SRC: arch/x86_64/irq.c:40-44;
arch/x86_64/exception.c:7-43 -/
inductive PageFaultHandler
  | defaultPageFaultHandler
  | returnHandler
  | memSkipHandler
  deriving DecidableEq, Repr

/-- INTERNAL: the handlers of system calls. SRC: arch/x86_64/irq.c:34-38;
arch/x86_64/exception.c:50-53 -/
inductive SyscallHandler
  | defaultSyscallHandler
  | syscallSkipHandler
  deriving DecidableEq, Repr

/-- INTERNAL: the handlers of undefined instructions. SRC: arch/x86_64/irq.c:52-56;
arch/x86_64/exception.c:60-63 -/
inductive UndefHandler
  | defaultUndefHandler
  | undefSkipHandler
  deriving DecidableEq, Repr

/-- INTERNAL: the handlers of interrupts. SRC: arch/x86_64/irq.c:46-50; arch/x86_64/arch.c:92-95 -/
inductive IrqHandler
  | defaultIrqHandler
  | archIrqHandler
  deriving DecidableEq, Repr

/-- INTERNAL: the statics of the kernel, CR3 and the interrupt flag. -/
structure Machine where
  pages : X86PageTables.Machine
  initialPagetables : BitVec 64
  cr3 : BitVec 64
  memInited : Bool
  pageFaultHandlerFn : PageFaultHandler
  syscallHandlerFn : SyscallHandler
  undefHandlerFn : UndefHandler
  irqHandlerFn : IrqHandler
  benchmarkIrqHandler : Bool
  interruptFlag : Bool

/-- INTERNAL: how a run ends early: where the heap has no page left besides the one the stack
starts in, in `arch_abort`, in a wait that does not end, or in code that is not modelled. -/
inductive Halt
  | heapExhausted
  | abort
  | endless
  | undefined
  deriving DecidableEq, Repr

/-- INTERNAL: a step that takes pages from the heap. The stack starts at the end of the last one:
when that page is handed out `__fast_zero_page` clears the frames of its callers and returns to
address 0, so the run ends there. The out-of-memory branch of `heap_alloc_page` needs one more
call and is behind that end. SRC: arch/x86_64/boot.S:30-32; arch/x86_64/heap.c:10-32;
arch/x86_64/util.S:1-7 -/
def onHeap {α : Type} (pages : α → X86PageTables.Machine) : Option α → Except Halt α
  | some a => if (pages a).heapCur < (pages a).heapEnd then .ok a else .error .heapExhausted
  | none => .error .heapExhausted

/-- INTERNAL: what an operation finds: which accesses fault, and whether `decode_instruction`
knows the instruction that does. -/
structure Env where
  faults : BitVec 64 → Bool
  decodes : Bool

/-! ## `irq.c` -/

/-- INTERNAL: `LAPIC`. SRC: arch/x86_64/irq.h:30 -/
def lapic : BitVec 64 := 0xfee00000

/-- INTERNAL: the trap entries of `trap.S`. -/
inductive Trap
  | unknown
  | unknownArg
  | pageFault
  | syscall
  | irq
  | undef
  | gpf
  | timer
  deriving DecidableEq, Repr

/-- INTERNAL: `set_idt`, a packed entry as two words. SRC: arch/x86_64/irq.c:8-16,58-69 -/
def setIdt (idt : BitVec 64) (fn : BitVec 64) (allowUser : Bool) (n : ℕ) (mem : Memory) : Memory :=
  let type : BitVec 64 := 0x8e ||| (if allowUser then 0x60 else 0)
  let low := (fn &&& 0xffff) ||| 0x8#64 <<< 16 ||| type <<< 40 ||| ((fn >>> 16) &&& 0xffff) <<< 48
  let high := fn >>> 32
  let mem := Function.update mem (wordAddr idt (BitVec.ofNat 32 (2 * n))) low
  Function.update mem (wordAddr idt (BitVec.ofNat 32 (2 * n + 1))) high

/-- INTERNAL: the vectors with an entry of their own. SRC: arch/x86_64/irq.c:158-170 -/
def idtVectors : List (ℕ × Trap × Bool) :=
  [(0x06, .undef, false), (0x08, .unknownArg, false), (0x08, .unknownArg, false),
    (0x0a, .unknownArg, false), (0x0b, .unknownArg, false), (0x0c, .unknownArg, false),
    (0x0d, .gpf, false), (0x0e, .pageFault, false), (0x11, .unknownArg, false),
    (0x1e, .unknownArg, false), (0x20, .timer, false), (0x30, .irq, false), (0x80, .syscall, true)]

/-- INTERNAL: `irq_reset_syscall_handler`. SRC: arch/x86_64/irq.c:202-205 -/
def irqResetSyscallHandler (s : Machine) : Machine :=
  { s with syscallHandlerFn := .defaultSyscallHandler }

/-- INTERNAL: `irq_reset_page_fault_handler`. SRC: arch/x86_64/irq.c:207-210 -/
def irqResetPageFaultHandler (s : Machine) : Machine :=
  { s with pageFaultHandlerFn := .defaultPageFaultHandler }

/-- INTERNAL: `irq_reset_irq_handler`. SRC: arch/x86_64/irq.c:212-215 -/
def irqResetIrqHandler (s : Machine) : Machine := { s with irqHandlerFn := .defaultIrqHandler }

/-- INTERNAL: `irq_reset_undef_handler`. SRC: arch/x86_64/irq.c:217-220 -/
def irqResetUndefHandler (s : Machine) : Machine :=
  { s with undefHandlerFn := .defaultUndefHandler }

/-- INTERNAL: `irq_init`; `lidt` and `lapic_init` change registers of the processor and of the
interrupt controller. SRC: arch/x86_64/irq.c:139-180 -/
def irqInit (traps : Trap → BitVec 64) (s : Machine) : Except Halt Machine := do
  let (idt, pages) ← onHeap Prod.snd (heapAllocPage s.pages)
  let mem := (List.range 0x100).foldl
    (fun mem i => setIdt idt (traps .unknown) false i mem) pages.mem
  let mem := idtVectors.foldl (fun mem v => setIdt idt (traps v.2.1) v.2.2 v.1 mem) mem
  let s := { s with pages := { pages with mem := mem } }
  .ok (irqResetUndefHandler (irqResetIrqHandler
    (irqResetPageFaultHandler (irqResetSyscallHandler s))))

/-! ## `mem.c` and `arch.c` -/

/-- INTERNAL: `NR_PAGES`, as the `int` it is passed for. SRC: arch/x86_64/mem.c:15,17 -/
def nrPages (a b : BitVec 64) : ℕ := ((((b - a) / 0x1000) + 1).setWidth 32).toInt.toNat

/-- INTERNAL: the calls of `map_page_ranges`. SRC: arch/x86_64/mem.c:17-27 -/
def mapPageRanges : (physAddr virtAddr : BitVec 64) → (nrPages : ℕ) → List Call
  | _, _, 0 => []
  | physAddr, virtAddr, n + 1 =>
    .data physAddr virtAddr :: mapPageRanges (physAddr + 0x1000) (virtAddr + 0x1000) n

/-- INTERNAL: the page count of the heap, as the `int` it is passed for.
SRC: arch/x86_64/mem.c:17,41 -/
def heapPageCount (heapSize : BitVec 64) : ℕ := ((heapSize >>> 12).setWidth 32).toInt.toNat

/-- INTERNAL: the calls of `prepare_runtime_pagetables`. SRC: arch/x86_64/mem.c:29-47 -/
def prepareRuntimePagetables (layout : Layout) : List Call :=
  mapPageRanges 0xb8000 0xb8000 1 ++
    mapPageRanges layout.textStart layout.textStart (nrPages layout.textStart layout.textEnd) ++
    mapPageRanges layout.dataStart layout.dataStart (nrPages layout.dataStart layout.dataEnd) ++
    mapPageRanges layout.heapStart layout.heapStart (heapPageCount layout.heapSize) ++
    [.data lapic lapic]

/-- INTERNAL: `mem_init`. SRC: arch/x86_64/mem.c:49-60 -/
def memInit (layout : Layout) (s : Machine) : Except Halt Machine :=
  if s.memInited then .ok s
  else do
    let s := irqResetPageFaultHandler { s with memInited := true }
    let pages ← onHeap id (allocRuntimePagetables s.pages)
    let pages ← onHeap id (X86PageTables.run pages (prepareRuntimePagetables layout))
    .ok { s with pages := pages }

/-- INTERNAL: `mem_reset`: the page fault handler is the default one again.
SRC: arch/x86_64/mem.c:62-67 -/
def memReset (s : Machine) : Machine := irqResetPageFaultHandler s

/-- INTERNAL: `mem_mmu_enable`: the runtime tables are in force. SRC: arch/x86_64/mem.c:82-85 -/
def memMmuEnable (s : Machine) : Machine := { s with cr3 := s.pages.runtimePagetables }

/-- INTERNAL: `mem_mmu_disable`. SRC: arch/x86_64/mem.c:87-90 -/
def memMmuDisable (s : Machine) : Machine := { s with cr3 := s.initialPagetables }

/-- INTERNAL: `mem_tlb_flush`: CR3 is written with its own value. SRC: arch/x86_64/mem.c:92-95 -/
def memTlbFlush (s : Machine) : Machine := { s with cr3 := s.cr3 }

/-- INTERNAL: `early_mem_init`. SRC: arch/x86_64/mem.c:208-214 -/
def earlyMemInit (s : Machine) : Except Halt Machine := do
  let s := { s with initialPagetables := 0x8000 }
  let pages ← onHeap id (createPageMapping s.initialPagetables lapic lapic s.pages)
  .ok (memTlbFlush { s with pages := pages })

/-- INTERNAL: the machine `arch_start` is entered with: the tables of the boot code, `.bss` zero,
and interrupts on, behind the `sti` in front of the call.
SRC: arch/x86_64/boot.S:18-60,160-232,309-310 -/
def booted (gigabytePages : Bool) (mem : Memory) : Machine where
  pages := ⟨buildPagetables gigabytePages mem, 0, 0, 0⟩
  initialPagetables := 0
  cr3 := initPgt
  memInited := false
  pageFaultHandlerFn := .defaultPageFaultHandler
  syscallHandlerFn := .defaultSyscallHandler
  undefHandlerFn := .defaultUndefHandler
  irqHandlerFn := .defaultIrqHandler
  benchmarkIrqHandler := false
  interruptFlag := true

/-- INTERNAL: `arch_init`. SRC: arch/x86_64/arch.c:12-18 -/
def archInit (layout : Layout) (traps : Trap → BitVec 64) (s : Machine) : Except Halt Machine := do
  let s := { s with pages := heapInit layout.heapStart layout.heapSize s.pages.mem }
  let s ← earlyMemInit s
  irqInit traps s

/-- INTERNAL: `arch_irq_install_handler` with a handler. SRC: arch/x86_64/arch.c:85-93 -/
def archIrqInstallHandler (s : Machine) : Machine :=
  { s with benchmarkIrqHandler := true, irqHandlerFn := .archIrqHandler }

/-! ## Exceptions -/

/-- INTERNAL: a page fault of a load or store. The return handler leaves the function the access
is in. SRC: arch/x86_64/trap.S:81-90; arch/x86_64/exception.c:7-37 -/
def dataFault (env : Env) (s : Machine) : Except Halt Machine :=
  match s.pageFaultHandlerFn with
  | .defaultPageFaultHandler => .error .abort
  | .returnHandler => .error .undefined
  | .memSkipHandler => if env.decodes then .ok s else .error .abort

/-- INTERNAL: a page fault of a call. The skip handler reads the instruction at the address that
could not be fetched from. -/
def fetchFault (s : Machine) : Except Halt Machine :=
  match s.pageFaultHandlerFn with
  | .defaultPageFaultHandler => .error .abort
  | .returnHandler => .ok s
  | .memSkipHandler => .error .undefined

/-- INTERNAL: a load or a store, which may fault. -/
def access (env : Env) (ptr : BitVec 64) (s : Machine) : Except Halt Machine :=
  if env.faults ptr then dataFault env s else .ok s

/-- INTERNAL: several loads or stores, up to one that ends the run. -/
def accesses (env : Env) (ptrs : List (BitVec 64)) (s : Machine) : Except Halt Machine :=
  ptrs.foldlM (fun s ptr => access env ptr s) s

/-- INTERNAL: what lies behind an address that can be fetched from is unknown. -/
def jump (env : Env) (ptr : BitVec 64) (s : Machine) : Except Halt Machine :=
  if env.faults ptr then fetchFault s else .error .undefined

/-- INTERNAL: `int $0x80`. SRC: arch/x86_64/trap.S:71-79; arch/x86_64/exception.c:44-48 -/
def archSyscall (s : Machine) : Except Halt Machine :=
  match s.syscallHandlerFn with
  | .defaultSyscallHandler => .error .abort
  | .syscallSkipHandler => .ok s

/-- INTERNAL: `ud2`. SRC: arch/x86_64/trap.S:102-110; arch/x86_64/exception.c:54-57 -/
def archUndefinedInstruction (s : Machine) : Except Halt Machine :=
  match s.undefHandlerFn with
  | .defaultUndefHandler => .error .abort
  | .undefSkipHandler => .ok s

/-- INTERNAL: the accesses of `lapic_write`. SRC: arch/x86_64/irq.c:71-75 -/
def lapicWrite (reg : BitVec 64) : List (BitVec 64) := [lapic + reg, lapic + 4]

/-- INTERNAL: `platform_trigger_swi`, the interrupt and the wait for the flag its handler sets;
it is never set while interrupts are off or no handler is registered.
SRC: arch/x86_64/irq.c:82-91; arch/x86_64/arch.c:80-83; platform/x86_64/qemu/platform.c:45-53;
benchmarks/exception/swi.c:20-30 -/
def platformTriggerSwi (env : Env) (flag : BitVec 64) (s : Machine) : Except Halt Machine := do
  let s ← accesses env (lapicWrite 0x310 ++ lapicWrite 0x300) s
  if s.interruptFlag = false then .error .endless
  else
    match s.irqHandlerFn with
    | .defaultIrqHandler => .error .abort
    | .archIrqHandler =>
      if s.benchmarkIrqHandler = false then .error .endless
      else do
        let s ← accesses env (flag :: lapicWrite 0xb0) s
        access env flag s

/-! ## Operations -/

/-- INTERNAL: one operation of a benchmark on the machine; the environment says which accesses
fault. -/
def exec (image : Image) (site : Site) (env : Env) : Op → Machine → Except Halt Machine
  | .memInit, s => memInit image s
  | .memReset, s => .ok (memReset s)
  | .memMmuEnable, s => .ok (memMmuEnable s)
  | .memMmuDisable, s => .ok (memMmuDisable s)
  | .memTlbFlush, s => .ok (memTlbFlush s)
  | .memTlbEvict _, s => .ok s
  | .memCreatePageMappingData pa va, s => do
    let pages ← onHeap id (memCreatePageMappingData pa va s.pages)
    .ok { s with pages := pages }
  | .archDfaultInstallSkip, s => .ok { s with pageFaultHandlerFn := .memSkipHandler }
  | .archIfaultInstallReturn, s => .ok { s with pageFaultHandlerFn := .returnHandler }
  | .archUndefInstallSkip, s => .ok { s with undefHandlerFn := .undefSkipHandler }
  | .archSyscallInstallSkip, s => .ok { s with syscallHandlerFn := .syscallSkipHandler }
  | .archIrqInstallHandler, s => .ok (archIrqInstallHandler s)
  | .archIrqEnable, s => .ok { s with interruptFlag := true }
  | .archIrqDisable, s => .ok { s with interruptFlag := false }
  | .archSyscall, s => archSyscall s
  | .archUndefinedInstruction, s => archUndefinedInstruction s
  | .archCoprocessorAccess, s => .ok s
  | .archNonpriviligedRead ptr, s => access env ptr s
  | .archCodeFlush _, s => .ok s
  | .archPrivEnter, s => .ok s
  | .archPrivLeave, s => .ok s
  | .platformTriggerSwi, s => platformTriggerSwi env (site.symbol .swiFlag) s
  | .load ptr, s => access env ptr s
  | .store ptr, s => access env ptr s
  | .jump ptr, s => jump env ptr s

/-- INTERNAL: operations one after the other; operation number `n` finds `env n`. -/
def runOps (image : Image) (site : Site) (env : ℕ → Env) (ops : List Op) (s : Machine) :
    Except Halt Machine :=
  Library.Outcomes.run (exec image site) env 0 ops s

/-- INTERNAL: benchmarks executed one after the other. -/
def runBenchmarks (image : Image) (site : Site) (env : ℕ → Env) (names : List Name) :
    Machine → Except Halt Machine :=
  runOps image site env (executeAll site names)

/-! ## Platforms -/

/-- INTERNAL: the two x86-64 platforms under `platform/x86_64`. -/
inductive Platform
  | native
  | qemu
  deriving DecidableEq, Repr

/-- INTERNAL: `phys_info`. SRC: platform/x86_64/native/mem.c:3-7; platform/x86_64/qemu/mem.c:3-7 -/
def physInfo : Platform → BitVec 64 × BitVec 64
  | .native => (0x04000000, 0x08000000)
  | .qemu => (0x10000000, 0x40000000)

/-- INTERNAL: `mem_get_page_size`. SRC: arch/x86_64/mem.c:102-105 -/
def memGetPageSize : BitVec 64 := 1#64 <<< 12

/-- INTERNAL: the platform's part of a build; its variables lie in the data of the image.
SRC: platform/x86_64/native/platform.c:39-42; platform/x86_64/qemu/platform.c:36-39 -/
structure OnPlatform (platform : Platform) (image : Image) (site : Site) : Prop where
  physMemStart : site.physMemStart = (physInfo platform).1
  physMemEnd : site.physMemEnd = (physInfo platform).2
  pageSize : site.pageSize = memGetPageSize
  nullDevptr : site.nullDevptr = 0xfee00380
  inData : ∀ symbol, symbol ≠ .block → image.dataStart.toNat ≤ (site.symbol symbol).toNat ∧
    (site.symbol symbol).toNat < image.dataEnd.toNat

end Simbench.Program.X86Kernel
