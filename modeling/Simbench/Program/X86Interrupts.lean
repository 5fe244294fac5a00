import Simbench.Program.X86BootCode
import Simbench.Program.X86Decode
import Simbench.Program.X86Traps

/-!
# Interrupts through the table of `irq_init`

The processor finds the gate of a vector, the code of the trap entry and the stack through the
tables at CR3. The bytes of the stack and the words of the tables are two memories here, so a
stack that has grown into pages of the heap is left out. A C handler is what it does to the
structure it gets; its compiled code is a parameter.
-/

set_option autoImplicit false

namespace Simbench.Program.X86Interrupts

open Simbench.Library.PagedMemory Simbench.Library.ByteWords
open Simbench.Program.X86PageTables hiding Machine
open Simbench.Program.X86Boot
open Simbench.Program.X86BootCode (cpuWalk)
open Simbench.Program.X86Kernel hiding Machine
open Simbench.Program.X86Traps hiding Machine

/-! ## `lidt` -/

/-- INTERNAL: limit and base of the interrupt table. -/
structure Idtr where
  limit : BitVec 16
  base : BitVec 64

/-- INTERNAL: what `irq_init` loads: the table is in the page it takes.
SRC: arch/x86_64/irq.c:143-148,174 -/
def irqInitIdtr (s : X86Kernel.Machine) : Except Halt Idtr := do
  let (page, _) ← onHeap Prod.snd (heapAllocPage s.pages)
  .ok ⟨16 * 0x100, page⟩

/-- INTERNAL: what `arch_init` leaves in IDTR. SRC: arch/x86_64/arch.c:12-18 -/
def archInitIdtr (layout : Layout) (s : X86Kernel.Machine) : Except Halt Idtr := do
  let s := { s with pages := heapInit layout.heapStart layout.heapSize s.pages.mem }
  let s ← earlyMemInit s
  irqInitIdtr s

/-! ## The processor -/

/-- INTERNAL: an entry of the table as the processor takes it apart; the kind includes the bit
that makes it a system descriptor. -/
structure Gate where
  offset : BitVec 64
  selector : BitVec 16
  ist : BitVec 3
  kind : BitVec 5
  dpl : BitVec 2
  present : Bool
  deriving DecidableEq, Repr

/-- INTERNAL: a gate from its two words. -/
def Gate.ofWords (low high : BitVec 64) : Gate where
  offset := high.extractLsb' 0 32 ++ (low.extractLsb' 48 16 ++ low.extractLsb' 0 16)
  selector := low.extractLsb' 16 16
  ist := low.extractLsb' 32 3
  kind := low.extractLsb' 40 5
  dpl := low.extractLsb' 45 2
  present := low.getLsbD 47

/-- INTERNAL: a word of memory, through the tables. -/
def readWord (gigabytePages : Bool) (s : X86Kernel.Machine) (va : BitVec 64) :
    Option (BitVec 64) := do
  let access ← cpuWalk gigabytePages s.pages.mem s.cr3 va
  some (s.pages.mem access.addr)

/-- INTERNAL: `none` behind the limit, or where the table is not mapped. -/
def readGate (gigabytePages : Bool) (idtr : Idtr) (s : X86Kernel.Machine) (vector : BitVec 8) :
    Option Gate :=
  if idtr.limit.toNat < 16 * vector.toNat + 15 then none
  else do
    let low ← readWord gigabytePages s (wordAddr idtr.base (BitVec.ofNat 32 (2 * vector.toNat)))
    let high ← readWord gigabytePages s
      (wordAddr idtr.base (BitVec.ofNat 32 (2 * vector.toNat + 1)))
    some (.ofWords low high)

/-- INTERNAL: the code an interrupt at the privilege level of the kernel goes on with: behind an
interrupt gate of the code segment, on the interrupted stack, at the address it is linked at. -/
def dispatch (gigabytePages : Bool) (idtr : Idtr) (s : X86Kernel.Machine) (vector : BitVec 8) :
    Option (BitVec 64) := do
  let gate ← readGate gigabytePages idtr s vector
  if gate.present = true ∧ gate.kind = 0xe ∧ gate.selector = 8 ∧ gate.ist = 0 then
    let fetched ← cpuWalk gigabytePages s.pages.mem s.cr3 gate.offset
    if fetched.addr = gate.offset then some gate.offset else none
  else none

/-- INTERNAL: the exceptions with an error code. -/
def pushesErrorCode (vector : BitVec 8) : Bool :=
  [0x08, 0x0a, 0x0b, 0x0c, 0x0d, 0x0e, 0x11, 0x15, 0x1d, 0x1e].contains vector

/-- INTERNAL: bytes that can be stored to, at their own addresses. -/
def storable (gigabytePages : Bool) (s : X86Kernel.Machine) (a : BitVec 64) (n : ℕ) : Bool :=
  (List.range n).all fun i =>
    match cpuWalk gigabytePages s.pages.mem s.cr3 (a + BitVec.ofNat 64 i) with
    | some access => access.addr = a + BitVec.ofNat 64 i && access.writable
    | none => false

/-! ## The handlers -/

/-- INTERNAL: the functions a trap entry calls. SRC: arch/x86_64/irq.c:34-56,209-259;
arch/x86_64/exception.c:7-57; arch/x86_64/arch.c:80-83 -/
inductive CHandler
  | handleTrapUnknown
  | handleTrapUnknownArg
  | handleTrapGpf
  | handleTrapTimer
  | defaultSyscallHandler
  | syscallSkipHandler
  | defaultPageFaultHandler
  | returnHandler
  | memSkipHandler
  | defaultIrqHandler
  | archIrqHandler
  | defaultUndefHandler
  | undefSkipHandler
  deriving DecidableEq, Repr

/-- INTERNAL: the call of a trap entry, direct or through the handler variable.
SRC: arch/x86_64/trap.S:57-110 -/
def handler (s : X86Kernel.Machine) : Trap → CHandler
  | .unknown => .handleTrapUnknown
  | .unknownArg => .handleTrapUnknownArg
  | .gpf => .handleTrapGpf
  | .timer => .handleTrapTimer
  | .syscall =>
    match s.syscallHandlerFn with
    | .defaultSyscallHandler => .defaultSyscallHandler
    | .syscallSkipHandler => .syscallSkipHandler
  | .pageFault =>
    match s.pageFaultHandlerFn with
    | .defaultPageFaultHandler => .defaultPageFaultHandler
    | .returnHandler => .returnHandler
    | .memSkipHandler => .memSkipHandler
  | .irq =>
    match s.irqHandlerFn with
    | .defaultIrqHandler => .defaultIrqHandler
    | .archIrqHandler => .archIrqHandler
  | .undef =>
    match s.undefHandlerFn with
    | .defaultUndefHandler => .defaultUndefHandler
    | .undefSkipHandler => .undefSkipHandler

/-- INTERNAL: what `mem_skip_handler` brings along: what `decode_int` happens to return, the
bytes of code there are, and what its variable holds. -/
structure Decoding where
  intResult : X86Decode.X86InstructionPrefixes → List X86Decode.Byte → Bool
  available : ℕ
  inst : X86Decode.Instruction

/-- INTERNAL: the bytes from an address on. -/
def codeAt (available : ℕ) (mem : Bytes 64) (rip : Word) : List X86Decode.Byte :=
  (List.range available).map fun i => mem (rip + BitVec.ofNat 64 i)

/-- INTERNAL: where `mem_skip_handler` goes on: behind the instruction, as far as it can decode it.
SRC: arch/x86_64/exception.c:23-43 -/
def skipped (decoding : Decoding) (mem : Bytes 64) (rip : Word) : Option Word :=
  match X86Decode.memSkipHandler decoding.intResult (codeAt decoding.available mem rip) rip
    decoding.inst with
  | .ok rip => some rip
  | .error _ => none

/-- INTERNAL: what a handler does to the structure at `ctx`; `none` where `arch_abort` is
reached. SRC: arch/x86_64/irq.c:34-56,209-259; arch/x86_64/exception.c:7-57 -/
def effect (decoding : Decoding) (ctx : Word) (mem : Bytes 64) : CHandler → Option (Bytes 64)
  | .handleTrapTimer | .syscallSkipHandler | .archIrqHandler => some mem
  | .returnHandler => some (X86Traps.returnHandler ctx mem)
  | .undefSkipHandler => some (store 8 (Field.rip.address ctx) (Field.rip.get ctx mem + 2) mem)
  | .memSkipHandler => do
    let rip ← skipped decoding mem (Field.rip.get ctx mem)
    some (store 8 (Field.rip.address ctx) rip mem)
  | .handleTrapUnknown | .handleTrapUnknownArg | .handleTrapGpf | .defaultSyscallHandler
  | .defaultPageFaultHandler | .defaultIrqHandler | .defaultUndefHandler => none

/-! ## An interrupt -/

/-- INTERNAL: the kernel as it is linked: the trap entries, and the compiled handlers. -/
structure Linked where
  text : Text
  code : CHandler → Handler
  decoding : Decoding

/-- INTERNAL: the entries of `trap.S`, in its order. -/
def traps : List Trap := [.unknown, .unknownArg, .pageFault, .syscall, .irq, .undef, .gpf, .timer]

/-- INTERNAL: the state the handler is entered in. -/
def called (text : Text) (t : Trap) (entry : Word) (errorCode : Option Word)
    (cpu : X86Traps.Machine) : X86Traps.Machine :=
  (run (deliver entry errorCode cpu) (enterIntr (hasArg t) ++ arguments text t)).pushWord
    (text.behindCall t)

/-- INTERNAL: an interrupt and its trap entry, to behind `iretq`; `none` where it never gets
there. The frame is 23 words and the return address of the call. -/
def interrupt (gigabytePages : Bool) (idtr : Idtr) (linked : Linked) (s : X86Kernel.Machine)
    (vector : BitVec 8) (errorCode : Option Word) (cpu : X86Traps.Machine) :
    Option X86Traps.Machine := do
  let entry ← dispatch gigabytePages idtr s vector
  let t ← traps.find? fun t => linked.text.entry t = entry
  let called := called linked.text t entry errorCode cpu
  if storable gigabytePages s (called.gpr .rsp) 192 then
    let _ ← effect linked.decoding (called.gpr .rdi) called.mem (handler s t)
    some (run (deliver entry errorCode cpu) (trap linked.text (linked.code (handler s t)) t))
  else none

/-- INTERNAL: the compiled code of the handlers: called with the structure behind the return
address, a handler returns with the stack pointer behind that address, and with the structure as
it leaves it. -/
def Compiled (linked : Linked) : Prop :=
  ∀ (h : CHandler) (s : X86Traps.Machine) (mem : Bytes 64), s.gpr .rdi = s.gpr .rsp + 8 →
    effect linked.decoding (s.gpr .rdi) s.mem h = some mem →
      (linked.code h s).gpr .rsp = s.gpr .rsp + 8 ∧
        ∀ f : Field, f.get (s.gpr .rdi) (linked.code h s).mem = f.get (s.gpr .rdi) mem

end Simbench.Program.X86Interrupts
