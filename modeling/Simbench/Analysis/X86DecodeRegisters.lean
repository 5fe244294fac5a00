import Simbench.Analysis.X86DecodeGrammar

/-!
# The registers of a move

The architecture takes a REX prefix only from the byte right before the opcode; the decoder
collects the flags of all prefix bytes. The registers a move decodes to are those of the
encoding tables at the collected flags, and so the architecture's exactly where the collected
flags that matter are those of the last byte.
-/

set_option autoImplicit false

namespace Simbench.Analysis.X86DecodeRegisters

open Simbench.Library.ByteParser Simbench.Program.X86Decode Simbench.Analysis.X86DecodeLength
  Simbench.Analysis.X86DecodeDisplacement Simbench.Analysis.X86DecodeGrammar

/-! ## The architecture -/

/-- INTERNAL: the bytes 40 to 4f. -/
def isRex (b : Byte) : Bool := 0x40 ≤ b && b ≤ 0x4f

/-- INTERNAL: the bits of a REX byte that extend a register number or the operand width. -/
inductive RexBit
  | b
  | r
  | w
  deriving DecidableEq, Repr

/-- INTERNAL: the bit of the REX prefix that holds the flag. -/
def RexBit.position : RexBit → ℕ
  | .b => 0
  | .r => 2
  | .w => 3

/-- INTERNAL: the REX prefix: the byte right before the opcode, if it is one. -/
def lastRex (prefixes : List Byte) : Option Byte := prefixes.getLast?.filter isRex

/-- INTERNAL: a bit of the REX prefix, clear without one. -/
def lastHas (bit : RexBit) (prefixes : List Byte) : Bool :=
  (lastRex prefixes).any fun b => b.getLsbD bit.position

/-- INTERNAL: the registers of a width in bytes, by their encoding numbers; `rex` is the presence
of a REX prefix. -/
def registers (rex : Bool) (width : ℕ) : List X86Register :=
  match width with
  | 1 => [.al, .cl, .dl, .bl] ++ (if rex then [.spl, .bpl, .sil, .dil] else [.ah, .ch, .dh, .bh]) ++
    [.r8b, .r9b, .r10b, .r11b, .r12b, .r13b, .r14b, .r15b]
  | 2 => [.ax, .cx, .dx, .bx, .sp, .bp, .si, .di,
    .r8w, .r9w, .r10w, .r11w, .r12w, .r13w, .r14w, .r15w]
  | 4 => [.eax, .ecx, .edx, .ebx, .esp, .ebp, .esi, .edi,
    .r8d, .r9d, .r10d, .r11d, .r12d, .r13d, .r14d, .r15d]
  | 8 => [.rax, .rcx, .rdx, .rbx, .rsp, .rbp, .rsi, .rdi,
    .r8, .r9, .r10, .r11, .r12, .r13, .r14, .r15]
  | _ => []

/-- INTERNAL: the number of a register: three bits of ModRM and one of the REX prefix. -/
def extended (bit : Bool) (field : ℕ) : ℕ := 8 * bit.toNat + field

/-- INTERNAL: 88 and 8a move a byte. -/
def movesByte (opcode : Byte) : Bool := opcode == 0x88 || opcode == 0x8a

/-- INTERNAL: the width of the register of a move. -/
def operandWidth (opcode : Byte) (w override : Bool) : ℕ :=
  if movesByte opcode then 1 else if w then 8 else if override then 2 else 4

/-- INTERNAL: the width of an address. -/
def addressWidth (override : Bool) : ℕ := if override then 4 else 8

/-- INTERNAL: the register operand of a move: the source of a store, the destination of a
load. -/
def registerOperand (opcode : Byte) (inst : Instruction) : Operand :=
  if storesToMemory opcode then inst.operand0 else inst.operand1

/-- INTERNAL: the operand of a move that is in memory. -/
def memoryOperand (opcode : Byte) (inst : Instruction) : Operand :=
  if storesToMemory opcode then inst.operand1 else inst.operand0

/-- INTERNAL: register and base of a move are those of the architecture. -/
structure FollowsArchitecture (prefixes : List Byte) (opcode modrm : Byte) (inst : Instruction) :
    Prop where
  register : ∃ r, (registerOperand opcode inst).type = .register ∧
    (registerOperand opcode inst).value = .reg r ∧
    (registerOperand opcode inst).size = BitVec.ofNat 32
      (operandWidth opcode (lastHas .w prefixes) (prefixes.contains 0x66)) ∧
    (registers (lastRex prefixes).isSome
      (operandWidth opcode (lastHas .w prefixes) (prefixes.contains 0x66)))[
        extended (lastHas .r prefixes) (modrm.toNat / 8 % 8)]? = some r
  base : ∃ m, (memoryOperand opcode inst).type = .memory ∧
    (memoryOperand opcode inst).value = .mem m ∧
    (registers (lastRex prefixes).isSome (addressWidth (prefixes.contains 0x67)))[
      extended (lastHas .b prefixes) (modrm.toNat % 8)]? = some m.base

/-! ## The collected flags -/

/-- INTERNAL: a bit of some REX byte. -/
def someHas (bit : RexBit) (prefixes : List Byte) : Bool :=
  prefixes.any fun b => isRex b && b.getLsbD bit.position

/-- INTERNAL: a flag is in one of two sets when it is in their union. -/
theorem has_or (p q flag : X86InstructionPrefixes) :
    X86InstructionPrefixes.has (p ||| q) flag = (p.has flag || q.has flag) := by
  rw [X86InstructionPrefixes.has, BitVec.and_or_distrib_right, X86InstructionPrefixes.has,
    X86InstructionPrefixes.has]
  rw [Bool.eq_iff_iff]
  simp only [bne_iff_ne, ne_eq, Bool.or_eq_true, ← not_and_or]
  refine not_congr ⟨fun h => ?_, fun ⟨hp, hq⟩ => ?_⟩
  · exact BitVec.or_eq_zero_iff.mp h
  · exact BitVec.or_eq_zero_iff.mpr ⟨hp, hq⟩

/-- INTERNAL: a flag is collected from every byte that has it. -/
theorem collectedFlags_has {flag : X86InstructionPrefixes} (test : Byte → Bool)
    (htest : ∀ b, ((prefixFlags b).getD 0).has flag = test b) (prefixes : List Byte) :
    (collectedFlags prefixes).has flag = prefixes.any test := by
  have hfold : ∀ p : X86InstructionPrefixes,
      (prefixes.foldl (fun p c => p ||| (prefixFlags c).getD 0) p).has flag =
        (p.has flag || prefixes.any test) := by
    induction prefixes with
    | nil => exact fun p => (Bool.or_false _).symm
    | cons b prefixes ih =>
      intro p
      rw [List.foldl_cons, ih, has_or, htest, List.any_cons, Bool.or_assoc]
  have hzero : X86InstructionPrefixes.has 0 flag = false := by
    simp [X86InstructionPrefixes.has]
  rw [collectedFlags, hfold, hzero, Bool.false_or]

/-- INTERNAL: REX is collected where a REX prefix is among the bytes. -/
theorem collected_rex (prefixes : List Byte) :
    (collectedFlags prefixes).has rex = prefixes.any isRex :=
  collectedFlags_has _ (by decide) prefixes

/-- INTERNAL: REX.B where one with that bit is. -/
theorem collected_b (prefixes : List Byte) :
    (collectedFlags prefixes).has rexB = someHas .b prefixes :=
  collectedFlags_has _ (by decide) prefixes

/-- INTERNAL: REX.R is collected where a REX prefix with that bit is among the bytes. -/
theorem collected_r (prefixes : List Byte) :
    (collectedFlags prefixes).has rexR = someHas .r prefixes :=
  collectedFlags_has _ (by decide) prefixes

/-- INTERNAL: REX.W is collected where one with that bit is. -/
theorem collected_w (prefixes : List Byte) :
    (collectedFlags prefixes).has rexW = someHas .w prefixes :=
  collectedFlags_has _ (by decide) prefixes

/-- INTERNAL: the operand size override is collected where the byte 66 is. -/
theorem collected_operandSize (prefixes : List Byte) :
    (collectedFlags prefixes).has operandSizeOverride = prefixes.contains 0x66 := by
  rw [collectedFlags_has (fun b => b == 0x66) (by decide), List.contains_eq_any_beq]
  simp only [BEq.comm]

/-- INTERNAL: the address size override is collected where the byte 67 is. -/
theorem collected_addressSize (prefixes : List Byte) :
    (collectedFlags prefixes).has addressSizeOverride = prefixes.contains 0x67 := by
  rw [collectedFlags_has (fun b => b == 0x67) (by decide), List.contains_eq_any_beq]
  simp only [BEq.comm]

/-! ## The encoding tables -/

/-- INTERNAL: the encoding number of a register; `riz` has none. -/
def registerNumber : X86Register → ℕ
  | .al | .ax | .eax | .rax => 0
  | .cl | .cx | .ecx | .rcx => 1
  | .dl | .dx | .edx | .rdx => 2
  | .bl | .bx | .ebx | .rbx => 3
  | .ah | .spl | .sp | .esp | .rsp => 4
  | .ch | .bpl | .bp | .ebp | .rbp => 5
  | .dh | .sil | .si | .esi | .rsi => 6
  | .bh | .dil | .di | .edi | .rdi => 7
  | .r8b | .r8w | .r8d | .r8 => 8
  | .r9b | .r9w | .r9d | .r9 => 9
  | .r10b | .r10w | .r10d | .r10 => 10
  | .r11b | .r11w | .r11d | .r11 => 11
  | .r12b | .r12w | .r12d | .r12 => 12
  | .r13b | .r13w | .r13d | .r13 => 13
  | .r14b | .r14w | .r14d | .r14 => 14
  | .r15b | .r15w | .r15d | .r15 => 15
  | .riz => 16

/-- INTERNAL: the byte registers that need a REX prefix. -/
def needsRex (r : X86Register) : Bool := r == .spl || r == .bpl || r == .sil || r == .dil

/-- INTERNAL: a register of the tables has one number and one width; only the byte registers 4
to 7 depend on the prefix. -/
theorem registers_getElem {rex : Bool} {w n : ℕ} (hw : w ∈ [1, 2, 4, 8]) {r : X86Register}
    (h : (registers rex w)[n]? = some r) :
    registerNumber r = n ∧ (∀ old, registerSize old r = BitVec.ofNat 32 w) ∧
      (w = 1 → 4 ≤ n → n < 8 → rex = needsRex r) := by
  have htables : ∀ rex, ∀ w ∈ [1, 2, 4, 8], (registers rex w).length = 16 ∧ ∀ n < 16,
      (registers rex w)[n]?.all (fun r => registerNumber r == n && r != .riz &&
        registerSize 0 r == BitVec.ofNat 32 w &&
        (w != 1 || n < 4 || 8 ≤ n || rex == needsRex r)) = true := by
    decide
  obtain ⟨hlength, hall⟩ := htables rex w hw
  have hn : n < 16 := by
    rw [← hlength]
    exact (List.getElem?_eq_some_iff.mp h).1
  have hrow := hall n hn
  rw [h] at hrow
  simp only [Option.all_some, Bool.and_eq_true, beq_iff_eq, bne_iff_ne, ne_eq, Bool.or_eq_true,
    decide_eq_true_eq] at hrow
  obtain ⟨⟨⟨hnumber, hriz⟩, hsize⟩, hbyte⟩ := hrow
  refine ⟨hnumber, fun old => ?_, fun h1 h4 h8 => ?_⟩
  · rw [← hsize]
    cases r <;> first | rfl | exact absurd rfl hriz
  · rcases hbyte with ((h | h) | h) | h
    · exact absurd h1 h
    · omega
    · omega
    · exact h

/-- INTERNAL: the presence of a REX prefix matters for the byte registers 4 to 7 only. -/
theorem registers_rex (rex rex' : Bool) {w n : ℕ} (hw : w ∈ [1, 2, 4, 8])
    (h : w = 1 → 4 ≤ n → n < 8 → rex = rex') : (registers rex w)[n]? = (registers rex' w)[n]? := by
  by_cases hsame : rex = rex'
  · rw [hsame]
  · have htables : ∀ rex rex', ∀ w ∈ [1, 2, 4, 8], (registers rex w).length = 16 ∧ ∀ n < 16,
        (w = 1 → ¬ (4 ≤ n ∧ n < 8)) → (registers rex w)[n]? = (registers rex' w)[n]? := by
      decide
    by_cases hn : n < 16
    · exact (htables rex rex' w hw).2 n hn fun hw hn => hsame (h hw hn.1 hn.2)
    · rw [List.getElem?_eq_none (by rw [(htables rex rex w hw).1]; omega),
        List.getElem?_eq_none (by rw [(htables rex' rex w hw).1]; omega)]

/-- INTERNAL: operands have a width with a register bank of its own. -/
theorem operandWidth_mem (opcode : Byte) (w override : Bool) :
    operandWidth opcode w override ∈ [1, 2, 4, 8] := by
  rw [operandWidth]
  split
  · decide
  split
  · decide
  · cases override <;> decide

/-- INTERNAL: addresses have a width with a register bank of its own. -/
theorem addressWidth_mem (override : Bool) : addressWidth override ∈ [1, 2, 4, 8] := by
  cases override <;> decide

/-- INTERNAL: the type of the register operand of a move. SRC: arch/x86_64/decode.c:508-511 -/
def registerType (opcode : Byte) : X86OperandTypes :=
  if movesByte opcode then .r8 else .r16_32_64

/-- INTERNAL: the register switch is the tables at the flags it is given.
SRC: arch/x86_64/decode.c:174-239 -/
theorem regOfOperand_table {p : X86InstructionPrefixes} {reg : ℕ} (hreg : reg < 8) {opcode : Byte}
    {r : X86Register} (h : regOfOperand p reg (registerType opcode) = .ok r) :
    (registers (p.has rex) (operandWidth opcode (p.has rexW) (p.has operandSizeOverride)))[
      extended (p.has rexR) reg]? = some r := by
  have hcases : reg = 0 ∨ reg = 1 ∨ reg = 2 ∨ reg = 3 ∨ reg = 4 ∨ reg = 5 ∨ reg = 6 ∨ reg = 7 := by
    omega
  rw [operandWidth]
  rw [registerType] at h
  cases hbyte : movesByte opcode
  · simp only [hbyte, Bool.false_eq_true, if_false] at h ⊢
    cases hr : p.has rexR <;> cases hw : p.has rexW <;> cases ho : p.has operandSizeOverride <;>
      rcases hcases with rfl | rfl | rfl | rfl | rfl | rfl | rfl | rfl <;>
      simpa [regOfOperand, bySize, hr, hw, ho, registers, extended] using h
  · simp only [hbyte, if_true] at h ⊢
    cases hr : p.has rexR <;> cases hx : p.has rex <;>
      rcases hcases with rfl | rfl | rfl | rfl | rfl | rfl | rfl | rfl <;>
      simpa [regOfOperand, byRex, hr, hx, registers, extended] using h

/-- INTERNAL: the switch for the base register is read off the table of registers.
SRC: arch/x86_64/decode.c:330-352 -/
theorem baseRegister_table {p : X86InstructionPrefixes} {rm : ℕ} (hrm : rm < 8)
    {base : X86Register} (h : baseRegister p rm = .ok base) (rex : Bool) :
    (registers rex (addressWidth (p.has addressSizeOverride)))[extended (p.has rexB) rm]? =
      some base := by
  have hcases : rm = 0 ∨ rm = 1 ∨ rm = 2 ∨ rm = 3 ∨ rm = 4 ∨ rm = 5 ∨ rm = 6 ∨ rm = 7 := by
    omega
  cases hb : p.has rexB <;> cases ha : p.has addressSizeOverride <;>
    rcases hcases with rfl | rfl | rfl | rfl | rfl | rfl | rfl | rfl <;>
    simp_all [baseRegister, byAddressSize, registers, extended, addressWidth]

/-! ## Moves -/

variable {intResult : X86InstructionPrefixes → List Byte → Bool}

/-- INTERNAL: the move of each opcode. SRC: arch/x86_64/decode.c:508-511 -/
theorem decodeOpcode_registerType (intResult : X86InstructionPrefixes → List Byte → Bool)
    {opcode : Byte} (hop : isMovOpcode opcode = true) (p : X86InstructionPrefixes)
    (code : List Byte) (inst : Instruction) :
    ∃ rmType, (rmType = X86OperandTypes.rm8 ∨ rmType = .rm16_32_64) ∧
      decodeOpcode intResult p opcode.toNat code inst =
        if storesToMemory opcode then decodeMov p code inst (registerType opcode) rmType
        else decodeMov p code inst rmType (registerType opcode) := by
  rcases movOpcode_cases hop with rfl | rfl | rfl | rfl
  · exact ⟨.rm8, .inl rfl, rfl⟩
  · exact ⟨.rm16_32_64, .inr rfl, rfl⟩
  · exact ⟨.rm8, .inl rfl, rfl⟩
  · exact ⟨.rm16_32_64, .inr rfl, rfl⟩

/-- INTERNAL: a register is of the byte type or of the type of the other widths. -/
theorem registerType_cases (opcode : Byte) :
    registerType opcode = .r8 ∨ registerType opcode = .r16_32_64 := by
  rw [registerType]
  split
  · exact .inl rfl
  · exact .inr rfl

/-- INTERNAL: the operands of an accepted move. SRC: arch/x86_64/decode.c:431-456 -/
theorem operands_of_mov {p : X86InstructionPrefixes} {opcode modrm : Byte}
    (hop : isMovOpcode opcode = true) {code : List Byte} {inst : Instruction}
    {result : Instruction × List Byte}
    (h : decodeOpcode intResult p opcode.toNat (modrm :: code) inst = .ok result) :
    ∃ r base d old, regOfOperand p (modrm.toNat / 8 % 8) (registerType opcode) = .ok r ∧
      baseRegister p (modrm.toNat % 8) = .ok base ∧
      registerOperand opcode result.1 = ⟨.register, registerSize old r, .reg r⟩ ∧
      (memoryOperand opcode result.1).type = .memory ∧
      (memoryOperand opcode result.1).value = .mem ⟨d, base, 0, .riz⟩ := by
  obtain ⟨rmType, hrmType, hdecode⟩ :=
    decodeOpcode_registerType intResult hop p (modrm :: code) inst
  have htype := registerType_cases opcode
  rw [hdecode] at h
  generalize registerType opcode = type at h htype ⊢
  cases hstore : storesToMemory opcode with
  | true =>
    rw [hstore, if_pos rfl] at h
    rcases htype with rfl | rfl
    all_goals
      simp only [decodeMov, readModrm, readByte, next_cons, ok_bind, bind_eq_ok, decodeRegOperand,
        decodeRmOperand] at h
      obtain ⟨reg, ⟨r, hr, hreg⟩, rm, ⟨d, -, base, hbase, hrm⟩, hresult⟩ := h
      obtain rfl := Except.ok.inj hreg
      obtain rfl := Except.ok.inj hrm
      obtain rfl := Except.ok.inj hresult
      rw [registerOperand, memoryOperand, hstore]
      exact ⟨r, base, d.1, _, hr, hbase, rfl, rfl, rfl⟩
  | false =>
    rw [hstore, if_neg Bool.false_ne_true] at h
    rcases hrmType with rfl | rfl
    all_goals
      simp only [decodeMov, readModrm, readByte, next_cons, ok_bind, bind_eq_ok, decodeRegOperand,
        decodeRmOperand] at h
      obtain ⟨reg, ⟨r, hr, hreg⟩, rm, ⟨d, -, base, hbase, hrm⟩, hresult⟩ := h
      obtain rfl := Except.ok.inj hreg
      obtain rfl := Except.ok.inj hrm
      obtain rfl := Except.ok.inj hresult
      rw [registerOperand, memoryOperand, hstore]
      exact ⟨r, base, d.1, _, hr, hbase, rfl, rfl, rfl⟩

/-- INTERNAL: what an accepted move decodes to, by the tables at the collected flags.
SRC: arch/x86_64/decode.c:120-154,170-319,321-456 -/
theorem tables_of_accepted {prefixes : List Byte}
    (hprefixes : ∀ b ∈ prefixes, isPrefixByte b = true)
    {opcode modrm : Byte} (hop : isMovOpcode opcode = true) {code : List Byte}
    {inst inst' : Instruction}
    (h : decodeInstruction intResult (prefixes ++ opcode :: modrm :: code) inst = .ok inst') :
    ∃ r base d old,
      registerOperand opcode inst' = ⟨.register, registerSize old r, .reg r⟩ ∧
      (memoryOperand opcode inst').type = .memory ∧
      (memoryOperand opcode inst').value = .mem ⟨d, base, 0, .riz⟩ ∧
      (registers (prefixes.any isRex)
        (operandWidth opcode (someHas .w prefixes) (prefixes.contains 0x66)))[
          extended (someHas .r prefixes) (modrm.toNat / 8 % 8)]? = some r ∧
      ∀ rex, (registers rex (addressWidth (prefixes.contains 0x67)))[
        extended (someHas .b prefixes) (modrm.toNat % 8)]? = some base := by
  have hnot : isPrefixByte opcode = false ∧ opcode ≠ 0x0f := by
    rcases movOpcode_cases hop with rfl | rfl | rfl | rfl <;> decide
  rw [decodeInstruction_opcode hprefixes hnot.1 hnot.2, bind_eq_ok] at h
  obtain ⟨result, hdecode, hresult⟩ := h
  obtain rfl := Except.ok.inj hresult
  obtain ⟨r, base, d, old, hr, hbase, hreg, htype, hmem⟩ := operands_of_mov hop hdecode
  have hrow := regOfOperand_table (Nat.mod_lt _ (by decide)) hr
  have hbaseRow := baseRegister_table (Nat.mod_lt _ (by decide)) hbase
  simp only [collected_rex, collected_w, collected_r, collected_operandSize] at hrow
  simp only [collected_b, collected_addressSize] at hbaseRow
  exact ⟨r, base, d, old, hreg, htype, hmem, hrow, hbaseRow⟩

/-! ## Where the flags agree -/

/-- INTERNAL: the collected REX flags that this move depends on are those of the byte right
before the opcode: the two that extend its register numbers, the width of a move that is not of
a byte, and the presence of the prefix for the byte registers 4 to 7. -/
structure RexAgrees (prefixes : List Byte) (opcode modrm : Byte) : Prop where
  b : someHas .b prefixes = lastHas .b prefixes
  r : someHas .r prefixes = lastHas .r prefixes
  w : movesByte opcode = false → someHas .w prefixes = lastHas .w prefixes
  byte : movesByte opcode = true → 4 ≤ modrm.toNat / 8 % 8 → lastHas .r prefixes = false →
    prefixes.any isRex = (lastRex prefixes).isSome

/-- INTERNAL: a number of a register tells its REX bit where the field is the same. -/
theorem extended_inj {bit bit' : Bool} {field : ℕ} :
    extended bit field = extended bit' field → bit = bit' := by
  cases bit <;> cases bit' <;> simp [extended]

/-- INTERNAL: the width tells REX.W, where the move is not of a byte. -/
theorem operandWidth_inj {opcode : Byte} (hop : movesByte opcode = false) (override : Bool)
    {w w' : Bool} :
    operandWidth opcode w override = operandWidth opcode w' override → w = w' := by
  cases w <;> cases w' <;> cases override <;> simp [operandWidth, hop]

/-- INTERNAL: moves of a byte have width one. -/
theorem operandWidth_byte {opcode : Byte} (hop : movesByte opcode = true) (w override : Bool) :
    operandWidth opcode w override = 1 := by
  rw [operandWidth, if_pos hop]

/-- INTERNAL: two prefixes with the same REX.W, where it counts, give one width. -/
theorem operandWidth_congr {opcode : Byte} {w w' : Bool} (override : Bool)
    (h : movesByte opcode = false → w = w') :
    operandWidth opcode w override = operandWidth opcode w' override := by
  cases hop : movesByte opcode with
  | true => rw [operandWidth_byte hop, operandWidth_byte hop]
  | false => rw [h hop]

/-- INTERNAL: only moves of a byte have width one. -/
theorem movesByte_of_width {opcode : Byte} {w override : Bool}
    (h : operandWidth opcode w override = 1) : movesByte opcode = true := by
  by_contra hno
  rw [operandWidth, if_neg hno] at h
  split at h
  · cases h
  split at h <;> cases h

/-- INTERNAL: a width is told by the size field of an operand. -/
theorem width_of_size {w w' : ℕ} (hw : w ∈ [1, 2, 4, 8]) (hw' : w' ∈ [1, 2, 4, 8])
    (h : BitVec.ofNat 32 w' = BitVec.ofNat 32 w) : w = w' := by
  have hdistinct : ∀ w ∈ [1, 2, 4, 8], ∀ w' ∈ [1, 2, 4, 8],
      BitVec.ofNat 32 w' = BitVec.ofNat 32 w → w = w' := by
    decide
  exact hdistinct w hw w' hw' h

/-- INTERNAL: a register below eight has its REX bit clear. -/
theorem extended_clear {bit : Bool} {field : ℕ} (h : extended bit field < 8) : bit = false := by
  by_contra hset
  rw [Bool.not_eq_false] at hset
  rw [hset, extended] at h
  exact absurd h (by simp)

/-- SOURCE: arch/x86_64/decode.c:120-154,170-456 — **the registers of a move**: an accepted move
has the register and the base of the architecture exactly when the REX flags collected from all
prefix bytes are, where they matter to it, those of the last one. -/
theorem followsArchitecture_iff (intResult : X86InstructionPrefixes → List Byte → Bool)
    (prefixes : List Byte) (hprefixes : ∀ b ∈ prefixes, isPrefixByte b = true)
    (opcode modrm : Byte) (hop : isMovOpcode opcode = true) (code : List Byte)
    (inst inst' : Instruction)
    (h : decodeInstruction intResult (prefixes ++ opcode :: modrm :: code) inst = .ok inst') :
    FollowsArchitecture prefixes opcode modrm inst' ↔ RexAgrees prefixes opcode modrm := by
  obtain ⟨r, base, d, old, hreg, htype, hmem, hrow, hbaseRow⟩ :=
    tables_of_accepted hprefixes hop h
  have hfield : modrm.toNat / 8 % 8 < 8 := Nat.mod_lt _ (by decide)
  obtain ⟨hnumber, hsize, hneeds⟩ := registers_getElem (operandWidth_mem ..) hrow
  have hbaseNumber := (registers_getElem (addressWidth_mem _) (hbaseRow true)).1
  constructor
  · rintro ⟨⟨r', -, hvalue, hsize', hrow'⟩, ⟨m, -, hmem', hbase'⟩⟩
    rw [hreg] at hvalue hsize'
    obtain rfl := OperandValue.reg.inj hvalue
    obtain rfl := OperandValue.mem.inj (hmem.symm.trans hmem')
    obtain ⟨hnumber', hwidth', hneeds'⟩ := registers_getElem (operandWidth_mem ..) hrow'
    have hr := extended_inj (hnumber.symm.trans hnumber')
    refine ⟨extended_inj (hbaseNumber.symm.trans (registers_getElem (addressWidth_mem _) hbase').1),
      hr, fun hbyte => ?_, fun hbyte hhigh hlow => ?_⟩
    · exact operandWidth_inj hbyte (prefixes.contains 0x66)
        (width_of_size (operandWidth_mem ..) (operandWidth_mem ..) ((hwidth' 0).symm.trans (hsize 0)))
    · rw [operandWidth_byte hbyte] at hneeds hneeds'
      rw [hr, hlow] at hneeds
      rw [hlow] at hneeds'
      have hsame := hneeds rfl (by simpa [extended] using hhigh) (by simpa [extended] using hfield)
      exact hsame.trans
        (hneeds' rfl (by simpa [extended] using hhigh) (by simpa [extended] using hfield)).symm
  · rintro ⟨hb, hr, hw, hbyte⟩
    have hwidth := operandWidth_congr (prefixes.contains 0x66) hw
    refine ⟨⟨r, ?_, ?_, ?_, ?_⟩, ⟨_, htype, hmem, ?_⟩⟩
    · rw [hreg]
    · rw [hreg]
    · rw [hreg, ← hwidth]
      exact hsize old
    · rw [← hrow, hwidth, hr]
      refine registers_rex _ _ (operandWidth_mem ..) fun hone hhigh hlow => ?_
      have hclear := extended_clear hlow
      rw [hclear] at hhigh
      exact (hbyte (movesByte_of_width hone) (by simpa [extended] using hhigh) hclear).symm
    · rw [← hb]
      exact hbaseRow _

/-- INTERNAL: `mov r9, [r9d + 8]` behind an address-size prefix. -/
theorem followsArchitecture_iff_r9 :
    let inst : Instruction := ⟨.mov, 0, ⟨.register, 0, .reg .al⟩, ⟨.register, 0, .reg .al⟩⟩
    ∃ inst', decodeInstruction (fun _ _ => true) [0x67, 0x4d, 0x8b, 0x49, 8] inst = .ok inst' ∧
      inst'.operand1 = ⟨.register, 8, .reg .r9⟩ ∧
      inst'.operand0.value = .mem ⟨8, .r9d, 0, .riz⟩ ∧
      FollowsArchitecture [0x67, 0x4d] 0x8b 0x49 inst' := by
  intro inst
  refine ⟨_, rfl, rfl, rfl, ?_⟩
  refine (followsArchitecture_iff (fun _ _ => true) [0x67, 0x4d] (by decide) 0x8b 0x49 (by decide)
    [8] inst _ rfl).mpr ⟨?_, ?_, ?_, ?_⟩
  · decide
  · decide
  · decide
  · decide

/-- INTERNAL: a REX prefix in front of an operand-size prefix: the architecture ignores it and
loads `ax`, the decoder takes its REX.W and loads `rax`. -/
theorem registers_wrong_early_rex :
    let inst : Instruction := ⟨.mov, 0, ⟨.register, 0, .reg .al⟩, ⟨.register, 0, .reg .al⟩⟩
    ∃ inst', decodeInstruction (fun _ _ => true) [0x48, 0x66, 0x8b, 0x41, 8] inst = .ok inst' ∧
      inst'.operand1 = ⟨.register, 8, .reg .rax⟩ ∧
      lastRex [0x48, 0x66] = none ∧ operandWidth 0x8b (lastHas .w [0x48, 0x66]) true = 2 ∧
      ¬ FollowsArchitecture [0x48, 0x66] 0x8b 0x41 inst' := by
  intro inst
  refine ⟨_, rfl, rfl, by decide, by decide, ?_⟩
  rintro ⟨⟨r, -, -, hsize, -⟩, -⟩
  exact absurd hsize (by decide)

end Simbench.Analysis.X86DecodeRegisters
