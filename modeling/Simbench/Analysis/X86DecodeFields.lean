import Simbench.Analysis.X86DecodeRegisters

/-!
# The fields a move sets

A decoded move is a value computed from its bytes, in a struct that the caller did not
initialise. The register operand has its size set, the memory operand and both operands of the
moffs load keep the size that was there. The moffs load chooses between `rax` and `eax` by the
operand-size prefix alone, the general load by REX.W first.
-/

set_option autoImplicit false

namespace Simbench.Analysis.X86DecodeFields

open Simbench.Library.ByteParser Simbench.Program.X86Decode Simbench.Analysis.X86DecodeLength
  Simbench.Analysis.X86DecodeDisplacement Simbench.Analysis.X86DecodeGrammar
  Simbench.Analysis.X86DecodeRegisters

variable {intResult : X86InstructionPrefixes → List Byte → Bool}

/-! ## What is left as it was -/

/-- INTERNAL: the move `op` in the struct `inst`: the sizes that no routine sets, and the length,
are those of `inst`. SRC: arch/x86_64/decode.c:321-476 -/
def keepSizes (opcode : Byte) (op inst : Instruction) : Instruction where
  opcode := op.opcode
  length := inst.length
  operand0 :=
    if storesToMemory opcode then op.operand0 else { op.operand0 with size := inst.operand0.size }
  operand1 :=
    if storesToMemory opcode || opcode == 0xa1 then
      { op.operand1 with size := inst.operand1.size }
    else op.operand1

/-- INTERNAL: the width of a register operand, whatever was in the struct.
SRC: arch/x86_64/decode.c:241-316 -/
theorem registerSize_of_operand {p : X86InstructionPrefixes} {reg : ℕ} (hreg : reg < 8)
    {opcode : Byte} {r : X86Register} (h : regOfOperand p reg (registerType opcode) = .ok r)
    (old : BitVec 32) :
    registerSize old r =
      BitVec.ofNat 32 (operandWidth opcode (p.has rexW) (p.has operandSizeOverride)) :=
  (registers_getElem (operandWidth_mem ..) (regOfOperand_table hreg h)).2.1 old

/-- INTERNAL: the operand bytes of a move fix everything but these sizes.
SRC: arch/x86_64/decode.c:431-480,507-512 -/
theorem decodeOpcode_keepSizes {opcode : Byte} {bytes : List Byte} (h : MovOperands opcode bytes)
    (p : X86InstructionPrefixes) :
    ∃ op : Instruction, op.opcode = .mov ∧ ∀ (intResult : X86InstructionPrefixes → List Byte → Bool)
      (rest : List Byte) (inst : Instruction),
      decodeOpcode intResult p opcode.toNat (bytes ++ rest) inst =
        .ok (keepSizes opcode op inst, rest) := by
  cases h with
  | offset hbytes =>
    refine ⟨⟨.mov, 0, ⟨.memOff, 0, .memOff (BitVec.ofNat 64 (littleEndianValue bytes))⟩,
      ⟨.register, 0, .reg (if p.has operandSizeOverride then .rax else .eax)⟩⟩, rfl,
      fun intResult rest inst => ?_⟩
    exact decodeOpcode_offset hbytes intResult p rest inst
  | @modrm _ modrm disp hop hmod h4 h5 hdisp =>
    have hreg := Nat.mod_lt (modrm.toNat / 8) (show 0 < 8 by decide)
    obtain ⟨r, hr⟩ := regOfOperand_isOk (p := p) hreg (registerType_cases opcode)
    obtain ⟨base, hbase⟩ := baseRegister_isOk (p := p) (Nat.mod_lt modrm.toNat (by decide)) h4 h5
    obtain ⟨d, hread⟩ := readDisplacement_append hmod hdisp
    have hsize := registerSize_of_operand hreg hr
    have hnot : (opcode == 0xa1) = false := by
      rcases movOpcode_cases hop with rfl | rfl | rfl | rfl <;> rfl
    have htype := registerType_cases opcode
    obtain ⟨register, hregister⟩ : ∃ register : Operand, register = ⟨.register, BitVec.ofNat 32
      (operandWidth opcode (p.has rexW) (p.has operandSizeOverride)), .reg r⟩ := ⟨_, rfl⟩
    obtain ⟨memory, hmemory⟩ : ∃ memory : Operand, memory =
      ⟨.memory, 0, .mem ⟨d, base, 0, .riz⟩⟩ := ⟨_, rfl⟩
    cases hstore : storesToMemory opcode with
    | true =>
      refine ⟨⟨.mov, 0, register, memory⟩, rfl, fun intResult rest inst => ?_⟩
      obtain ⟨rmType, -, hdecode⟩ :=
        decodeOpcode_registerType intResult hop p (modrm :: disp ++ rest) inst
      rw [hdecode, hstore, if_pos rfl]
      simp only [keepSizes, hstore, hnot, if_true, Bool.or_false, hregister, hmemory]
      generalize registerType opcode = type at hr htype
      rcases htype with rfl | rfl <;>
        simp only [decodeMov, List.cons_append, readModrm, readByte, next_cons, ok_bind,
          decodeRegOperand, decodeRmOperand, hr, hbase, hread, hsize]
    | false =>
      refine ⟨⟨.mov, 0, memory, register⟩, rfl, fun intResult rest inst => ?_⟩
      obtain ⟨rmType, hrmType, hdecode⟩ :=
        decodeOpcode_registerType intResult hop p (modrm :: disp ++ rest) inst
      rw [hdecode, hstore, if_neg Bool.false_ne_true]
      simp only [keepSizes, hstore, hnot, Bool.false_eq_true, if_false, Bool.or_false, hregister,
        hmemory]
      rcases hrmType with rfl | rfl <;>
        simp only [decodeMov, List.cons_append, readModrm, readByte, next_cons, ok_bind,
          decodeRegOperand, decodeRmOperand, hr, hbase, hread, hsize]

/-- INTERNAL: the whole instruction. SRC: arch/x86_64/decode.c:491-521 -/
theorem decodeInstruction_keepSizes {prefixes : List Byte} {opcode : Byte} {bytes : List Byte}
    (hprefixes : ∀ b ∈ prefixes, isPrefixByte b = true) (hbytes : MovOperands opcode bytes) :
    ∃ op : Instruction, op.opcode = .mov ∧ ∀ (intResult : X86InstructionPrefixes → List Byte → Bool)
      (rest : List Byte) (inst : Instruction),
      decodeInstruction intResult (prefixes ++ opcode :: (bytes ++ rest)) inst =
        .ok { keepSizes opcode op inst with
          length := BitVec.ofNat 32 (prefixes.length + 1 + bytes.length) } := by
  obtain ⟨hop, hescape, -⟩ := hbytes.not_prefix
  obtain ⟨op, hmov, hdecode⟩ := decodeOpcode_keepSizes hbytes (collectedFlags prefixes)
  refine ⟨op, hmov, fun intResult rest inst => ?_⟩
  have hlength : (prefixes ++ opcode :: (bytes ++ rest)).length - rest.length =
      prefixes.length + 1 + bytes.length := by
    simp only [List.length_append, List.length_cons]
    omega
  rw [decodeInstruction_opcode hprefixes hop hescape, hdecode, ok_bind, hlength]

/-! ## Two runs -/

/-- INTERNAL: two structs agree on the sizes a move leaves alone. -/
def SizesAgree (opcode : Byte) (inst inst' : Instruction) : Prop :=
  (storesToMemory opcode = false → inst.operand0.size = inst'.operand0.size) ∧
    (storesToMemory opcode = true ∨ opcode = 0xa1 → inst.operand1.size = inst'.operand1.size)

/-- INTERNAL: two decoded moves are equal exactly when their structs agreed on the sizes a move
leaves alone. -/
theorem keepSizes_eq_iff {opcode : Byte} {op inst inst' : Instruction} (length : BitVec 32) :
    ({ keepSizes opcode op inst with length := length } : Instruction) =
      { keepSizes opcode op inst' with length := length } ↔ SizesAgree opcode inst inst' := by
  have hpick : (storesToMemory opcode || opcode == 0xa1) = true ↔
      storesToMemory opcode = true ∨ opcode = 0xa1 := by
    rw [Bool.or_eq_true, beq_iff_eq]
  rw [SizesAgree, Instruction.mk.injEq, ← hpick]
  simp only [keepSizes, true_and]
  refine and_congr ?_ ?_
  · cases storesToMemory opcode with
    | true => exact iff_of_true rfl fun h => absurd h (by decide)
    | false => simp only [Bool.false_eq_true, if_false, Operand.mk.injEq, true_and, and_true,
        forall_const]
  · cases storesToMemory opcode || opcode == 0xa1 with
    | true => simp only [if_true, Operand.mk.injEq, true_and, and_true, forall_const]
    | false => exact iff_of_true rfl fun h => absurd h (by decide)

/-- INTERNAL: an accepted move has the form of one. SRC: arch/x86_64/decode.c:491-521 -/
theorem movForm_of_accepted {code : List Byte} {inst i : Instruction}
    (h : decodeInstruction intResult code inst = .ok i) (hmov : i.opcode = .mov) :
    MovForm code := by
  rcases form_of_accepted h with hform | ⟨ib, hint⟩
  · exact hform
  · obtain ⟨ib, rest, hprefixes⟩ := hint
    rw [decodeInstruction_int hprefixes] at h
    split at h
    · obtain rfl := Except.ok.inj h
      cases hmov
    · cases h

/-- SOURCE: arch/x86_64/decode.c:170-521 — **two runs of the decoder**: a sequence accepted as a
move decodes whatever the struct held, and to the same instruction in two structs exactly when
they held the same sizes where no routine sets one. -/
theorem sameInstruction_iff (intResult : X86InstructionPrefixes → List Byte → Bool)
    (code : List Byte) (inst₀ i₀ : Instruction)
    (h : decodeInstruction intResult code inst₀ = .ok i₀) (hmov : i₀.opcode = .mov)
    (inst inst' : Instruction) :
    ∃ opcode i i', (code.dropWhile isPrefixByte).head? = some opcode ∧
      decodeInstruction intResult code inst = .ok i ∧
      decodeInstruction intResult code inst' = .ok i' ∧
      (i = i' ↔ SizesAgree opcode inst inst') := by
  obtain @⟨prefixes, opcode, bytes, rest, hprefixes, hbytes⟩ := movForm_of_accepted h hmov
  obtain ⟨op, -, hdecode⟩ := decodeInstruction_keepSizes hprefixes hbytes
  refine ⟨opcode, _, _, ?_, hdecode intResult rest inst, hdecode intResult rest inst',
    keepSizes_eq_iff _⟩
  rw [(split_prefixes hprefixes hbytes.not_prefix.1 (bytes ++ rest)).2, List.head?_cons]

/-- INTERNAL: `mov rax, [rcx + 8]` in two structs that hold the same size for the source. -/
theorem sameInstruction_iff_load :
    let inst : Instruction := ⟨.mov, 0, ⟨.register, 8, .reg .al⟩, ⟨.register, 1, .reg .al⟩⟩
    let inst' : Instruction := ⟨.int, 7, ⟨.memory, 8, .immVal 3⟩, ⟨.immediate, 5, .immVal 9⟩⟩
    ∃ i i', decodeInstruction (fun _ _ => true) [0x48, 0x8b, 0x41, 8] inst = .ok i ∧
      decodeInstruction (fun _ _ => true) [0x48, 0x8b, 0x41, 8] inst' = .ok i' ∧ i = i' := by
  intro inst inst'
  obtain ⟨opcode, i, i', hopcode, hi, hi', hiff⟩ := sameInstruction_iff (fun _ _ => true)
    [0x48, 0x8b, 0x41, 8] inst _ rfl rfl inst inst'
  obtain rfl : 0x8b = opcode := Option.some.inj hopcode
  exact ⟨i, i', hi, hi', hiff.mpr ⟨fun _ => rfl, fun h => absurd h (by decide)⟩⟩

/-- INTERNAL: the size of the memory operand of `mov eax, [rcx]` is what the struct held. -/
theorem memory_size_not_set :
    let inst : Instruction := ⟨.mov, 0, ⟨.register, 0, .reg .al⟩, ⟨.register, 0, .reg .al⟩⟩
    let inst' : Instruction := ⟨.mov, 0, ⟨.register, 4, .reg .al⟩, ⟨.register, 0, .reg .al⟩⟩
    ∃ i i', decodeInstruction (fun _ _ => true) [0x8b, 0x01] inst = .ok i ∧
      decodeInstruction (fun _ _ => true) [0x8b, 0x01] inst' = .ok i' ∧ i.opcode = .mov ∧
      i.operand0.size = 0 ∧ i'.operand0.size = 4 ∧ i ≠ i' := by
  refine ⟨_, _, rfl, rfl, rfl, rfl, rfl, ?_⟩
  decide

/-! ## The accumulator -/

/-- INTERNAL: the accumulator of a width in bytes. -/
def accumulator (w override : Bool) : X86Register :=
  if w then .rax else if override then .ax else .eax

/-- INTERNAL: the general load of register 0. SRC: arch/x86_64/decode.c:215-238 -/
theorem destination_of_load {prefixes : List Byte}
    (hprefixes : ∀ b ∈ prefixes, isPrefixByte b = true) (hr : someHas .r prefixes = false)
    {modrm : Byte} (hreg : modrm.toNat / 8 % 8 = 0) {code : List Byte} {inst i : Instruction}
    (h : decodeInstruction intResult (prefixes ++ 0x8b :: modrm :: code) inst = .ok i) :
    i.operand1 = ⟨.register,
      BitVec.ofNat 32 (operandWidth 0x8b (someHas .w prefixes) (prefixes.contains 0x66)),
      .reg (accumulator (someHas .w prefixes) (prefixes.contains 0x66))⟩ := by
  obtain ⟨r, base, d, old, hregister, -, -, hrow, -⟩ := tables_of_accepted hprefixes (by decide) h
  have hwidth := (registers_getElem (operandWidth_mem ..) hrow).2.1 old
  have hwide : movesByte 0x8b = false := rfl
  rw [hr, hreg, operandWidth, hwide, if_neg Bool.false_ne_true] at hrow
  have hr' : r = accumulator (someHas .w prefixes) (prefixes.contains 0x66) := by
    apply Option.some.inj
    rw [accumulator, ← hrow]
    cases someHas .w prefixes <;> cases prefixes.contains 0x66 <;> rfl
  have hoperand : registerOperand 0x8b i = i.operand1 := rfl
  rw [← hoperand, hregister, hwidth, hr']

/-- INTERNAL: the moffs load. SRC: arch/x86_64/decode.c:461-476 -/
theorem destination_of_offset {prefixes : List Byte}
    (hprefixes : ∀ b ∈ prefixes, isPrefixByte b = true) {offset : List Byte}
    (hoffset : offset.length = 8) (rest : List Byte) (inst : Instruction) :
    ∃ i, decodeInstruction intResult (prefixes ++ 0xa1 :: (offset ++ rest)) inst = .ok i ∧
      i.operand1 = ⟨.register, inst.operand1.size,
        .reg (if prefixes.contains 0x66 then .rax else .eax)⟩ := by
  have hop : (0xa1 : Byte).toNat = 0xa1 := rfl
  have hread := littleEndian_append Stop.ranOut offset rest
  rw [hoffset] at hread
  rw [decodeInstruction_opcode hprefixes (by decide) (by decide), hop]
  simp only [decodeOpcode, decodeMov, hread, ok_bind, if_true, collected_operandSize]
  exact ⟨_, rfl, rfl⟩

/-- SOURCE: arch/x86_64/decode.c:203-254,461-476 — **the two loads of the accumulator**: behind
the same prefixes, without REX.R, the moffs load and the general load of register 0 have the same
destination exactly when REX.W and the operand-size prefix go together and the struct held the
right size already. -/
theorem accumulator_agrees_iff (intResult : X86InstructionPrefixes → List Byte → Bool)
    (prefixes : List Byte) (hprefixes : ∀ b ∈ prefixes, isPrefixByte b = true)
    (hr : someHas .r prefixes = false) (offset : List Byte) (hoffset : offset.length = 8)
    (modrm : Byte) (disp : List Byte) (hmodrm : MovOperands 0x8b (modrm :: disp))
    (hreg : modrm.toNat / 8 % 8 = 0) (rest rest' : List Byte) (inst inst' : Instruction) :
    ∃ i i', decodeInstruction intResult (prefixes ++ 0xa1 :: (offset ++ rest)) inst = .ok i ∧
      decodeInstruction intResult (prefixes ++ 0x8b :: (modrm :: disp ++ rest')) inst' = .ok i' ∧
      (i.operand1 = i'.operand1 ↔ someHas .w prefixes = prefixes.contains 0x66 ∧
        inst.operand1.size = if someHas .w prefixes then 8 else 4) := by
  obtain ⟨i, hi, hoff⟩ := @destination_of_offset intResult _ hprefixes _ hoffset rest inst
  obtain ⟨op, -, hdecode⟩ := decodeInstruction_keepSizes hprefixes hmodrm
  have hload := hdecode intResult rest' inst'
  refine ⟨i, _, hi, hload, ?_⟩
  have hdest := destination_of_load hprefixes hr hreg hload
  rw [hoff, hdest]
  have hwide : movesByte 0x8b = false := rfl
  rw [operandWidth, hwide, accumulator]
  cases someHas .w prefixes <;> cases prefixes.contains 0x66 <;> simp

/-- INTERNAL: `rax` behind 66 48, in a struct that held the size 8 for the destination. -/
theorem accumulator_agrees_iff_rax :
    let inst : Instruction := ⟨.mov, 0, ⟨.register, 0, .reg .al⟩, ⟨.register, 8, .reg .al⟩⟩
    ∃ i i', decodeInstruction (fun _ _ => true) [0x66, 0x48, 0xa1, 1, 2, 3, 4, 5, 6, 7, 8] inst =
        .ok i ∧
      decodeInstruction (fun _ _ => true) [0x66, 0x48, 0x8b, 0x01] inst = .ok i' ∧
      i.operand1 = i'.operand1 := by
  intro inst
  obtain ⟨i, i', hi, hi', hiff⟩ := accumulator_agrees_iff (fun _ _ => true) [0x66, 0x48] (by decide)
    (by decide) [1, 2, 3, 4, 5, 6, 7, 8] rfl 0x01 []
    (.modrm (by decide) (by decide) (by decide) (by decide) rfl) (by decide) [] [] inst inst
  exact ⟨i, i', hi, hi', hiff.mpr ⟨by decide, by decide⟩⟩

/-- INTERNAL: behind 66 alone the moffs load goes to `rax`, the general one to `ax`. -/
theorem accumulator_differs :
    let inst : Instruction := ⟨.mov, 0, ⟨.register, 0, .reg .al⟩, ⟨.register, 2, .reg .al⟩⟩
    ∃ i i', decodeInstruction (fun _ _ => true) [0x66, 0xa1, 1, 2, 3, 4, 5, 6, 7, 8] inst = .ok i ∧
      decodeInstruction (fun _ _ => true) [0x66, 0x8b, 0x01] inst = .ok i' ∧
      i.operand1 = ⟨.register, 2, .reg .rax⟩ ∧ i'.operand1 = ⟨.register, 2, .reg .ax⟩ ∧
      i.operand1 ≠ i'.operand1 := by
  refine ⟨_, _, rfl, rfl, rfl, rfl, ?_⟩
  decide

end Simbench.Analysis.X86DecodeFields
