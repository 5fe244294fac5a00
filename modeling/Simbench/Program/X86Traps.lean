import Mathlib.Logic.Function.Basic
import Simbench.Library.ByteWords
import Simbench.Program.X86Kernel

/-!
# The x86-64 trap entries

`arch/x86_64/trap.S`, instruction by instruction, between what the processor does to deliver an
interrupt through a gate of `irq.c` and `iretq`. The interrupted code runs at the privilege
level of the kernel, on the stack the trap is handled on. `rip` only counts where the processor
saves or loads it, and the checks `iretq` makes on the words it loads are left out.
-/

set_option autoImplicit false

namespace Simbench.Program.X86Traps

open Simbench.Library.ByteWords
open Simbench.Program.X86Kernel (Trap)

/-! ## The processor -/

/-- INTERNAL: the eight bytes of a register. -/
abbrev Word : Type := BitVec 64

/-- INTERNAL: the sixteen general registers. -/
inductive Reg
  | rax
  | rbx
  | rcx
  | rdx
  | rdi
  | rsi
  | rbp
  | rsp
  | r8
  | r9
  | r10
  | r11
  | r12
  | r13
  | r14
  | r15
  deriving DecidableEq, Repr

/-- INTERNAL: the part of the processor that exceptions use, and the memory. -/
structure Machine where
  gpr : Reg → Word
  rip : Word
  rflags : Word
  cs : BitVec 16
  ss : BitVec 16
  cr2 : Word
  mem : Bytes 64

/-- INTERNAL: what a C function does from its first instruction to behind its `ret`. -/
abbrev Handler : Type := Machine → Machine

/-- INTERNAL: the machine with one general register set. -/
def Machine.set (s : Machine) (r : Reg) (v : Word) : Machine :=
  { s with gpr := Function.update s.gpr r v }

/-- INTERNAL: the machine with a word pushed on its stack. -/
def Machine.pushWord (s : Machine) (v : Word) : Machine :=
  { s with
    gpr := Function.update s.gpr .rsp (s.gpr .rsp - 8)
    mem := store 8 (s.gpr .rsp - 8) v s.mem }

/-- INTERNAL: the flags an interrupt gate clears: TF, IF, NT, RF and VM. -/
def gateFlags : Word := 0x34300

/-- INTERNAL: interrupt delivery through a gate with selector 8, with or without an error code.
SRC: arch/x86_64/irq.c:58-69 -/
def deliver (entry : Word) (errorCode : Option Word) (s : Machine) : Machine :=
  let aligned := { s with gpr := Function.update s.gpr .rsp (s.gpr .rsp &&& ~~~0xf#64) }
  let pushed := ([s.ss.setWidth 64, s.gpr .rsp, s.rflags, s.cs.setWidth 64, s.rip] ++
    errorCode.toList).foldl Machine.pushWord aligned
  { pushed with rip := entry, rflags := s.rflags &&& ~~~gateFlags, cs := 8 }

/-- INTERNAL: the instructions of `trap.S`, operands in the order of the source. `call` pushes
the address behind itself. -/
inductive Instruction
  | push (r : Reg)
  | pushImm (imm : Word)
  | pushf
  | pop (r : Reg)
  | popf
  | addRsp (imm : Word)
  | mov (src dst : Reg)
  | movCr2 (dst : Reg)
  | lea (address : Word) (dst : Reg)
  | call (behind : Word) (fn : Handler)
  | iretq

/-- INTERNAL: one instruction of the trap entries. -/
def exec (s : Machine) : Instruction → Machine
  | .push r => s.pushWord (s.gpr r)
  | .pushImm imm => s.pushWord imm
  | .pushf => s.pushWord s.rflags
  | .pop r =>
    let v := load s.mem 8 (s.gpr .rsp)
    (s.set .rsp (s.gpr .rsp + 8)).set r v
  | .popf => { s.set .rsp (s.gpr .rsp + 8) with rflags := load s.mem 8 (s.gpr .rsp) }
  | .addRsp imm => s.set .rsp (s.gpr .rsp + imm)
  | .mov src dst => s.set dst (s.gpr src)
  | .movCr2 dst => s.set dst s.cr2
  | .lea address dst => s.set dst address
  | .call behind fn => fn (s.pushWord behind)
  | .iretq =>
    let rsp := s.gpr .rsp
    { s.set .rsp (load s.mem 8 (rsp + 24)) with
      rip := load s.mem 8 rsp
      cs := (load s.mem 8 (rsp + 8)).setWidth 16
      rflags := load s.mem 8 (rsp + 16)
      ss := (load s.mem 8 (rsp + 32)).setWidth 16 }

/-- INTERNAL: the instructions one after the other. -/
def run (s : Machine) (code : List Instruction) : Machine := code.foldl exec s

/-! ## `trap.S` -/

/-- INTERNAL: the macro `push_regs`. SRC: arch/x86_64/trap.S:2-20 -/
def pushRegs : List Instruction :=
  [.push .rsp, .pushf, .push .rax, .push .rbx, .push .rcx, .push .rdx, .push .rdi, .push .rsi,
    .push .rbp, .push .r8, .push .r9, .push .r10, .push .r11, .push .r12, .push .r13, .push .r14,
    .push .r15]

/-- INTERNAL: the macro `pop_regs`. SRC: arch/x86_64/trap.S:22-40 -/
def popRegs : List Instruction :=
  [.pop .r15, .pop .r14, .pop .r13, .pop .r12, .pop .r11, .pop .r10, .pop .r9, .pop .r8, .pop .rbp,
    .pop .rsi, .pop .rdi, .pop .rdx, .pop .rcx, .pop .rbx, .pop .rax, .popf, .addRsp 8]

/-- INTERNAL: the macro `enter_intr`: the registers saved, their structure passed in RDI.
SRC: arch/x86_64/trap.S:42-49 -/
def enterIntr (hasArg : Bool) : List Instruction :=
  (if hasArg then [] else [.pushImm 0]) ++ pushRegs ++ [.mov .rsp .rdi]

/-- INTERNAL: the macro `exit_intr`: the registers restored and the interrupt left.
SRC: arch/x86_64/trap.S:51-55 -/
def exitIntr : List Instruction := popRegs ++ [.addRsp 8, .iretq]

/-- INTERNAL: what the linker decides: the trap entries, the handler variables and the addresses
behind the calls. -/
structure Text where
  entry : Trap → Word
  syscallHandlerFn : Word
  pageFaultHandlerFn : Word
  irqHandlerFn : Word
  undefHandlerFn : Word
  behindCall : Trap → Word

/-- INTERNAL: the argument of `enter_intr`. SRC: arch/x86_64/trap.S:57-110 -/
def hasArg : Trap → Bool
  | .unknown => false
  | .unknownArg => true
  | .gpf => true
  | .timer => false
  | .syscall => false
  | .pageFault => true
  | .irq => false
  | .undef => false

/-- INTERNAL: what stands between `enter_intr` and the call. SRC: arch/x86_64/trap.S:57-110 -/
def arguments (text : Text) : Trap → List Instruction
  | .unknown | .unknownArg | .gpf | .timer => []
  | .syscall => [.lea text.syscallHandlerFn .rcx]
  | .pageFault => [.movCr2 .rsi, .lea text.pageFaultHandlerFn .rcx]
  | .irq => [.lea text.irqHandlerFn .rcx]
  | .undef => [.lea text.undefHandlerFn .rcx]

/-- INTERNAL: a trap entry whose call, direct or through the handler variable, gets to `fn`.
SRC: arch/x86_64/trap.S:57-110 -/
def trap (text : Text) (fn : Handler) (t : Trap) : List Instruction :=
  enterIntr (hasArg t) ++ arguments text t ++ [.call (text.behindCall t) fn] ++ exitIntr

/-! ## `struct mcontext` -/

/-- INTERNAL: the fields of `struct mcontext`. SRC: arch/x86_64/x86.h:6-12 -/
inductive Field
  | r15
  | r14
  | r13
  | r12
  | r11
  | r10
  | r9
  | r8
  | rbp
  | rsi
  | rdi
  | rdx
  | rcx
  | rbx
  | rax
  | flags
  | rsp
  | extra
  | rip
  | tempCS
  | tempFLAGS
  | tempSP
  | tempSS
  deriving DecidableEq, Repr

/-- INTERNAL: in their order, packed. SRC: arch/x86_64/x86.h:6-12 -/
def mcontext : List Field :=
  [.r15, .r14, .r13, .r12, .r11, .r10, .r9, .r8, .rbp, .rsi, .rdi, .rdx, .rcx, .rbx, .rax, .flags,
    .rsp, .extra, .rip, .tempCS, .tempFLAGS, .tempSP, .tempSS]

/-- INTERNAL: the address of a field of the structure at `ctx`. -/
def Field.address (ctx : Word) (f : Field) : Word := ctx + BitVec.ofNat 64 (8 * mcontext.idxOf f)

/-- INTERNAL: a field of the structure a handler is given. -/
def Field.get (ctx : Word) (mem : Bytes 64) (f : Field) : Word := load mem 8 (f.address ctx)

/-- INTERNAL: the field with the name of a register. -/
def Reg.field : Reg → Field
  | .rax => .rax
  | .rbx => .rbx
  | .rcx => .rcx
  | .rdx => .rdx
  | .rdi => .rdi
  | .rsi => .rsi
  | .rbp => .rbp
  | .rsp => .rsp
  | .r8 => .r8
  | .r9 => .r9
  | .r10 => .r10
  | .r11 => .r11
  | .r12 => .r12
  | .r13 => .r13
  | .r14 => .r14
  | .r15 => .r15

/-- INTERNAL: `return_handler`. SRC: arch/x86_64/exception.c:7-11 -/
def returnHandler (ctx : Word) (mem : Bytes 64) : Bytes 64 :=
  let mem := store 8 (Field.rip.address ctx) (load mem 8 (Field.tempSP.get ctx mem)) mem
  store 8 (Field.tempSP.address ctx) (Field.tempSP.get ctx mem + 8) mem

/-- INTERNAL: the instruction `ret`: the program counter is popped. -/
def ret (s : Machine) : Machine :=
  { s.set .rsp (s.gpr .rsp + 8) with rip := load s.mem 8 (s.gpr .rsp) }

end Simbench.Program.X86Traps
