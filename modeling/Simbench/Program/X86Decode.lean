import Simbench.Library.ByteParser

/-!
# The x86-64 instruction decoder

`arch/x86_64/decode.c` and the fault handler of `arch/x86_64/exception.c` that uses it.
The code pointer is the list of the bytes it can still read. A routine stops where the
source returns 0 (`rejected`) or reads past the bytes given (`ranOut`). `decode_int` falls
off its end, so the value its caller tests is a parameter.
-/

set_option autoImplicit false

namespace Simbench.Program.X86Decode

open Simbench.Library.ByteParser

/-- INTERNAL: a byte of code: eight bits. -/
abbrev Byte := BitVec 8

/-- INTERNAL: why a decode did not succeed. -/
inductive Stop
  | rejected
  | ranOut
  deriving DecidableEq, Repr

/-! ## Data types -/

/-- INTERNAL: `X86Register`. SRC: arch/x86_64/decode.h:14-90 -/
inductive X86Register
  | al | bl | cl | dl | ah | bh | ch | dh
  | sil | dil | bpl | spl
  | ax | bx | cx | dx | si | di | bp | sp
  | eax | ebx | ecx | edx | esi | edi | ebp | esp
  | rax | rbx | rcx | rdx | rsi | rdi | rbp | rsp
  | r8 | r9 | r10 | r11 | r12 | r13 | r14 | r15
  | r8b | r9b | r10b | r11b | r12b | r13b | r14b | r15b
  | r8w | r9w | r10w | r11w | r12w | r13w | r14w | r15w
  | r8d | r9d | r10d | r11d | r12d | r13d | r14d | r15d
  | riz
  deriving DecidableEq, Repr

/-- INTERNAL: `enum operand_type`. SRC: arch/x86_64/decode.h:6-12 -/
inductive OperandType
  | register
  | immediate
  | memory
  | memOff
  deriving DecidableEq, Repr

/-- INTERNAL: the `mem` arm of an operand. SRC: arch/x86_64/decode.h:101-107 -/
structure MemOperand where
  displacement : BitVec 32
  base : X86Register
  scale : BitVec 32
  index : X86Register
  deriving DecidableEq, Repr

/-- INTERNAL: the union of an operand, by the arm written last. -/
inductive OperandValue
  | reg (r : X86Register)
  | mem (m : MemOperand)
  | memOff (offset : BitVec 64)
  | immVal (value : BitVec 64)
  deriving DecidableEq, Repr

/-- INTERNAL: `struct operand`. SRC: arch/x86_64/decode.h:92-113 -/
structure Operand where
  type : OperandType
  size : BitVec 32
  value : OperandValue
  deriving DecidableEq, Repr

/-- INTERNAL: `enum opcode`. SRC: arch/x86_64/decode.h:115-119 -/
inductive Opcode
  | mov
  | int
  deriving DecidableEq, Repr

/-- INTERNAL: `struct instruction`; the operands are `operands[0]` and `operands[1]`.
SRC: arch/x86_64/decode.h:121-127 -/
structure Instruction where
  opcode : Opcode
  length : BitVec 32
  operand0 : Operand
  operand1 : Operand
  deriving DecidableEq, Repr

/-- INTERNAL: `X86InstructionPrefixes`, a bit mask. SRC: arch/x86_64/decode.c:80-92 -/
abbrev X86InstructionPrefixes := BitVec 8

/-- INTERNAL: `ADDRESS_SIZE_OVERRIDE`. SRC: arch/x86_64/decode.c:88 -/
def addressSizeOverride : X86InstructionPrefixes := 0x01

/-- INTERNAL: `OPERAND_SIZE_OVERRIDE`. SRC: arch/x86_64/decode.c:89 -/
def operandSizeOverride : X86InstructionPrefixes := 0x02

/-- INTERNAL: `REX`. SRC: arch/x86_64/decode.c:91 -/
def rex : X86InstructionPrefixes := 0x04

/-- INTERNAL: `REX_W`. SRC: arch/x86_64/decode.c:92 -/
def rexW : X86InstructionPrefixes := 0x08

/-- INTERNAL: `REX_R`. SRC: arch/x86_64/decode.c:93 -/
def rexR : X86InstructionPrefixes := 0x10

/-- INTERNAL: `REX_X`. SRC: arch/x86_64/decode.c:94 -/
def rexX : X86InstructionPrefixes := 0x20

/-- INTERNAL: `REX_B`. SRC: arch/x86_64/decode.c:95 -/
def rexB : X86InstructionPrefixes := 0x40

/-- INTERNAL: the test `pfx & flag`. -/
def X86InstructionPrefixes.has (pfx flag : X86InstructionPrefixes) : Bool := pfx &&& flag != 0

/-- INTERNAL: `X86OperandTypes`. SRC: arch/x86_64/decode.c:94-108 -/
inductive X86OperandTypes
  | r8
  | r16_32_64
  | rm16_32_64
  | rm8
  | rm16
  | imm16_32
  | moffs16_32_64
  | rax
  deriving DecidableEq, Repr

/-- INTERNAL: `X86ModRM`. SRC: arch/x86_64/decode.c:110-113 -/
structure X86ModRM where
  mod : ℕ
  reg : ℕ
  rm : ℕ
  deriving DecidableEq, Repr

/-! ## Reading bytes -/

/-- INTERNAL: the byte at the code pointer, which moves on. -/
def readByte : List Byte → Except Stop (Byte × List Byte) := next .ranOut

/-- INTERNAL: what the cases of the prefix loop add; `none` is its `default`.
SRC: arch/x86_64/decode.c:125-146 -/
def prefixFlags (b : Byte) : Option X86InstructionPrefixes :=
  match b.toNat with
  | 0x67 => some addressSizeOverride
  | 0x66 => some operandSizeOverride
  | 0x40 => some rex
  | 0x41 => some (rex ||| rexB)
  | 0x42 => some (rex ||| rexX)
  | 0x43 => some (rex ||| rexX ||| rexB)
  | 0x44 => some (rex ||| rexR)
  | 0x45 => some (rex ||| rexR ||| rexB)
  | 0x46 => some (rex ||| rexR ||| rexX)
  | 0x47 => some (rex ||| rexR ||| rexX ||| rexB)
  | 0x48 => some (rex ||| rexW)
  | 0x49 => some (rex ||| rexW ||| rexB)
  | 0x4a => some (rex ||| rexW ||| rexX)
  | 0x4b => some (rex ||| rexW ||| rexX ||| rexB)
  | 0x4c => some (rex ||| rexW ||| rexR)
  | 0x4d => some (rex ||| rexW ||| rexR ||| rexB)
  | 0x4e => some (rex ||| rexW ||| rexR ||| rexX)
  | 0x4f => some (rex ||| rexW ||| rexR ||| rexX ||| rexB)
  | _ => none

/-- INTERNAL: `read_prefixes`, from the mask `p` collected so far.
SRC: arch/x86_64/decode.c:115-154 -/
def readPrefixes (p : X86InstructionPrefixes) :
    List Byte → Except Stop (X86InstructionPrefixes × List Byte)
  | [] => .error .ranOut
  | b :: code =>
    match prefixFlags b with
    | some flags => readPrefixes (p ||| flags) code
    | none => .ok (p, b :: code)

/-- INTERNAL: `read_modrm`. SRC: arch/x86_64/decode.c:156-168 -/
def readModrm (code : List Byte) : Except Stop (X86ModRM × List Byte) := do
  let (val, code) ← readByte code
  .ok (⟨val.toNat / 64 % 4, val.toNat / 8 % 8, val.toNat % 8⟩, code)

/-! ## Operands -/

/-- INTERNAL: a register chosen by REX.W and the operand-size prefix. -/
def bySize (pfx : X86InstructionPrefixes) (r64 r16 r32 : X86Register) : X86Register :=
  if pfx.has rexW then r64 else if pfx.has operandSizeOverride then r16 else r32

/-- INTERNAL: a register chosen by the REX prefix. -/
def byRex (pfx : X86InstructionPrefixes) (withRex without : X86Register) : X86Register :=
  if pfx.has rex then withRex else without

/-- INTERNAL: the register `decode_reg_operand` selects.
SRC: arch/x86_64/decode.c:174-239 -/
def regOfOperand (pfx : X86InstructionPrefixes) (reg : ℕ) :
    X86OperandTypes → Except Stop X86Register
  | .r8 =>
    if pfx.has rexR then
      match reg with
      | 0 => .ok .r8b
      | 1 => .ok .r9b
      | 2 => .ok .r10b
      | 3 => .ok .r11b
      | 4 => .ok .r12b
      | 5 => .ok .r13b
      | 6 => .ok .r14b
      | 7 => .ok .r15b
      | _ => .error .rejected
    else
      match reg with
      | 0 => .ok .al
      | 1 => .ok .cl
      | 2 => .ok .dl
      | 3 => .ok .bl
      | 4 => .ok (byRex pfx .spl .ah)
      | 5 => .ok (byRex pfx .bpl .ch)
      | 6 => .ok (byRex pfx .sil .dh)
      | 7 => .ok (byRex pfx .dil .bh)
      | _ => .error .rejected
  | .r16_32_64 =>
    if pfx.has rexR then
      match reg with
      | 0 => .ok (bySize pfx .r8 .r8w .r8d)
      | 1 => .ok (bySize pfx .r9 .r9w .r9d)
      | 2 => .ok (bySize pfx .r10 .r10w .r10d)
      | 3 => .ok (bySize pfx .r11 .r11w .r11d)
      | 4 => .ok (bySize pfx .r12 .r12w .r12d)
      | 5 => .ok (bySize pfx .r13 .r13w .r13d)
      | 6 => .ok (bySize pfx .r14 .r14w .r14d)
      | 7 => .ok (bySize pfx .r15 .r15w .r15d)
      | _ => .error .rejected
    else
      match reg with
      | 0 => .ok (bySize pfx .rax .ax .eax)
      | 1 => .ok (bySize pfx .rcx .cx .ecx)
      | 2 => .ok (bySize pfx .rdx .dx .edx)
      | 3 => .ok (bySize pfx .rbx .bx .ebx)
      | 4 => .ok (bySize pfx .rsp .sp .esp)
      | 5 => .ok (bySize pfx .rbp .bp .ebp)
      | 6 => .ok (bySize pfx .rsi .si .esi)
      | 7 => .ok (bySize pfx .rdi .di .edi)
      | _ => .error .rejected
  | _ => .error .rejected

/-- INTERNAL: the size switch of `decode_reg_operand`, which leaves the size alone for `riz`.
SRC: arch/x86_64/decode.c:241-316 -/
def registerSize (old : BitVec 32) : X86Register → BitVec 32
  | .rax | .rbx | .rcx | .rdx | .rsp | .rbp | .rsi | .rdi
  | .r8 | .r9 | .r10 | .r11 | .r12 | .r13 | .r14 | .r15 => 8
  | .eax | .ebx | .ecx | .edx | .esp | .ebp | .esi | .edi
  | .r8d | .r9d | .r10d | .r11d | .r12d | .r13d | .r14d | .r15d => 4
  | .ax | .bx | .cx | .dx | .sp | .bp | .si | .di
  | .r8w | .r9w | .r10w | .r11w | .r12w | .r13w | .r14w | .r15w => 2
  | .al | .bl | .cl | .dl | .ah | .bh | .ch | .dh | .spl | .bpl | .sil | .dil
  | .r8b | .r9b | .r10b | .r11b | .r12b | .r13b | .r14b | .r15b => 1
  | .riz => old

/-- INTERNAL: `decode_reg_operand`. SRC: arch/x86_64/decode.c:170-319 -/
def decodeRegOperand (oper : Operand) (pfx : X86InstructionPrefixes) (reg : ℕ)
    (type : X86OperandTypes) : Except Stop Operand := do
  let r ← regOfOperand pfx reg type
  .ok { type := .register, size := registerSize oper.size r, value := .reg r }

/-- INTERNAL: a base register chosen by the address-size prefix. -/
def byAddressSize (pfx : X86InstructionPrefixes) (r32 r64 : X86Register) : X86Register :=
  if pfx.has addressSizeOverride then r32 else r64

/-- INTERNAL: the base register of a memory operand; the three cases of `decode_rm_operand`
hold the same switch. SRC: arch/x86_64/decode.c:330-352,364-386,399-421 -/
def baseRegister (pfx : X86InstructionPrefixes) (rm : ℕ) : Except Stop X86Register :=
  if pfx.has rexB then
    match rm with
    | 0 => .ok (byAddressSize pfx .r8d .r8)
    | 1 => .ok (byAddressSize pfx .r9d .r9)
    | 2 => .ok (byAddressSize pfx .r10d .r10)
    | 3 => .ok (byAddressSize pfx .r11d .r11)
    | 6 => .ok (byAddressSize pfx .r14d .r14)
    | 7 => .ok (byAddressSize pfx .r15d .r15)
    | _ => .error .rejected
  else
    match rm with
    | 0 => .ok (byAddressSize pfx .eax .rax)
    | 1 => .ok (byAddressSize pfx .ecx .rcx)
    | 2 => .ok (byAddressSize pfx .edx .rdx)
    | 3 => .ok (byAddressSize pfx .ebx .rbx)
    | 6 => .ok (byAddressSize pfx .esi .rsi)
    | 7 => .ok (byAddressSize pfx .edi .rdi)
    | _ => .error .rejected

/-- INTERNAL: the displacement of a `mod`: none, the next byte as an unsigned `uint8_t`, or
the next four bytes as an `int32_t`.
SRC: arch/x86_64/decode.c:326,358-362,393-397,425 -/
def readDisplacement (mod : ℕ) (code : List Byte) : Except Stop (BitVec 32 × List Byte) :=
  match mod with
  | 0 => .ok (0, code)
  | 1 => do
    let (b, code) ← readByte code
    .ok (b.setWidth 32, code)
  | 2 => do
    let (d, code) ← littleEndian .ranOut 4 code
    .ok (BitVec.ofNat 32 d, code)
  | _ => .error .rejected

/-- INTERNAL: `decode_rm_operand`; its `type` parameter is not used.
SRC: arch/x86_64/decode.c:321-429 -/
def decodeRmOperand (code : List Byte) (oper : Operand) (pfx : X86InstructionPrefixes)
    (mod rm : ℕ) : Except Stop (Operand × List Byte) := do
  let (displacement, code) ← readDisplacement mod code
  let base ← baseRegister pfx rm
  .ok ({ oper with
    type := .memory
    value := .mem { displacement := displacement, base := base, scale := 0, index := .riz } },
    code)

/-! ## Instructions -/

/-- INTERNAL: `decode_mov`. SRC: arch/x86_64/decode.c:431-480 -/
def decodeMov (pfx : X86InstructionPrefixes) (code : List Byte) (inst : Instruction)
    (source dest : X86OperandTypes) : Except Stop (Instruction × List Byte) :=
  let inst := { inst with opcode := .mov }
  match source with
  | .r16_32_64 | .r8 => do
    let (modrm, code) ← readModrm code
    let src ← decodeRegOperand inst.operand0 pfx modrm.reg source
    let (dst, code) ← decodeRmOperand code inst.operand1 pfx modrm.mod modrm.rm
    .ok ({ inst with operand0 := src, operand1 := dst }, code)
  | .rm8 | .rm16 | .rm16_32_64 => do
    let (modrm, code) ← readModrm code
    let dst ← decodeRegOperand inst.operand1 pfx modrm.reg dest
    let (src, code) ← decodeRmOperand code inst.operand0 pfx modrm.mod modrm.rm
    .ok ({ inst with operand0 := src, operand1 := dst }, code)
  | .imm16_32 => .error .rejected
  | .moffs16_32_64 => do
    let (offset, code) ← littleEndian .ranOut 8 code
    let src := { inst.operand0 with
      type := .memOff, value := .memOff (BitVec.ofNat 64 offset) }
    if dest = .rax then
      let dst := { inst.operand1 with
        type := .register
        value := .reg (if pfx.has operandSizeOverride then .rax else .eax) }
      .ok ({ inst with operand0 := src, operand1 := dst }, code)
    else .error .rejected
  | .rax => .error .rejected

/-- INTERNAL: `decode_int`. SRC: arch/x86_64/decode.c:482-489 -/
def decodeInt (code : List Byte) (inst : Instruction) : Except Stop (Instruction × List Byte) := do
  let (b, code) ← readByte code
  .ok ({ inst with
    opcode := .int
    operand0 := { type := .immediate, size := 1, value := .immVal (b.setWidth 64) } }, code)

/-- INTERNAL: the opcode, with 0x100 added behind the escape byte 0f.
SRC: arch/x86_64/decode.c:498-505 -/
def readOpcode (code : List Byte) : Except Stop (ℕ × List Byte) := do
  let (first, code) ← readByte code
  if first = 0x0f then
    let (second, code) ← readByte code
    .ok (0x100 + second.toNat, code)
  else .ok (first.toNat, code)

/-- INTERNAL: the opcode switch of `decode_instruction`. `intResult` is the value of the
call of `decode_int`, which has no `return`. SRC: arch/x86_64/decode.c:507-516 -/
def decodeOpcode (intResult : X86InstructionPrefixes → List Byte → Bool)
    (p : X86InstructionPrefixes) (opcode : ℕ) (code : List Byte) (inst : Instruction) :
    Except Stop (Instruction × List Byte) :=
  match opcode with
  | 0xa1 => decodeMov p code inst .moffs16_32_64 .rax
  | 0x88 => decodeMov p code inst .r8 .rm8
  | 0x89 => decodeMov p code inst .r16_32_64 .rm16_32_64
  | 0x8a => decodeMov p code inst .rm8 .r8
  | 0x8b => decodeMov p code inst .rm16_32_64 .r16_32_64
  | 0xc7 => decodeMov p code inst .imm16_32 .rm16_32_64
  | 0xcd => do
    let result ← decodeInt code inst
    if intResult p code then .ok result else .error .rejected
  | _ => .error .rejected

/-- INTERNAL: `decode_instruction`; the length is the pointer difference stored in an `int`.
SRC: arch/x86_64/decode.c:491-521 -/
def decodeInstruction (intResult : X86InstructionPrefixes → List Byte → Bool)
    (base : List Byte) (inst : Instruction) : Except Stop Instruction := do
  let (p, code) ← readPrefixes 0 base
  let (opcode, code) ← readOpcode code
  let (inst, code) ← decodeOpcode intResult p opcode code inst
  .ok { inst with length := BitVec.ofNat 32 (base.length - code.length) }

/-- INTERNAL: `mem_skip_handler` on the bytes at `rip`, with the local `inst` holding `inst`
on entry: the new `rip`. Rejected code reaches `arch_abort`.
SRC: arch/x86_64/exception.c:23-43 -/
def memSkipHandler (intResult : X86InstructionPrefixes → List Byte → Bool) (code : List Byte)
    (rip : BitVec 64) (inst : Instruction) : Except Stop (BitVec 64) := do
  let inst ← decodeInstruction intResult code inst
  .ok (rip + inst.length.signExtend 64)

end Simbench.Program.X86Decode
