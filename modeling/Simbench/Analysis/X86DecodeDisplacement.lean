import Simbench.Analysis.X86DecodeLength

/-!
# The two displacement encodings

The register and the base a move decodes to depend on the prefixes and the ModRM fields
alone, so two encodings with the same fields give the same operation exactly when their
displacements are read as the same `int`. The one-byte displacement is read as an unsigned
byte, the four-byte one as a signed word.
-/

set_option autoImplicit false

namespace Simbench.Analysis.X86DecodeDisplacement

open Simbench.Library.ByteParser Simbench.Program.X86Decode Simbench.Analysis.X86DecodeLength

/-! ## Encodings -/

/-- INTERNAL: the ModRM byte with these three fields. -/
def modrmByte (mod reg rm : ℕ) : Byte := BitVec.ofNat 8 (mod * 64 + reg * 8 + rm)

/-- INTERNAL: prefixes, opcode, ModRM byte and displacement bytes of a move. -/
def encodeMov (prefixes : List Byte) (opcode : Byte) (mod reg rm : ℕ) (disp : List Byte) :
    List Byte :=
  prefixes ++ opcode :: modrmByte mod reg rm :: disp

/-- INTERNAL: the opcodes of a move between a register and memory. -/
def isMovOpcode (opcode : Byte) : Bool := 0x88 ≤ opcode && opcode ≤ 0x8b

/-- INTERNAL: the move stores to memory. -/
def storesToMemory (opcode : Byte) : Bool := opcode == 0x88 || opcode == 0x89

/-! ## Results -/

/-- INTERNAL: type, register, base, index, scale and displacement agree. -/
def SameOperand (a b : Operand) : Prop := a.type = b.type ∧ a.value = b.value

/-- INTERNAL: two decoded instructions agree in opcode and operands. -/
def SameOperation (i j : Instruction) : Prop :=
  i.opcode = j.opcode ∧ SameOperand i.operand0 j.operand0 ∧ SameOperand i.operand1 j.operand1

/-- INTERNAL: agreeing instructions agree the other way round. -/
theorem SameOperation.symm {i j : Instruction} (h : SameOperation i j) : SameOperation j i :=
  ⟨h.1.symm, ⟨h.2.1.1.symm, h.2.1.2.symm⟩, ⟨h.2.2.1.symm, h.2.2.2.symm⟩⟩

/-- INTERNAL: instructions that agree with a third agree. -/
theorem SameOperation.trans {i j k : Instruction} (h : SameOperation i j)
    (h' : SameOperation j k) : SameOperation i k :=
  ⟨h.1.trans h'.1, ⟨h.2.1.1.trans h'.2.1.1, h.2.1.2.trans h'.2.1.2⟩,
    ⟨h.2.2.1.trans h'.2.2.1, h.2.2.2.trans h'.2.2.2⟩⟩

/-- INTERNAL: a move between the register `r` and the memory operand `m`. -/
def IsMov (toMemory : Bool) (r : X86Register) (m : MemOperand) (i : Instruction) : Prop :=
  i.opcode = .mov ∧
    (if toMemory then i.operand0 else i.operand1).type = .register ∧
    (if toMemory then i.operand0 else i.operand1).value = .reg r ∧
    (if toMemory then i.operand1 else i.operand0).type = .memory ∧
    (if toMemory then i.operand1 else i.operand0).value = .mem m

/-- INTERNAL: two moves with one register and direction are the same operation iff they have
the same memory operand. -/
theorem sameOperation_iff {toMemory : Bool} {r : X86Register} {m m' : MemOperand}
    {i j : Instruction} (hi : IsMov toMemory r m i) (hj : IsMov toMemory r m' j) :
    SameOperation i j ↔ m = m' := by
  obtain ⟨hop, hrt, hr, hmt, hm⟩ := hi
  obtain ⟨hop', hrt', hr', hmt', hm'⟩ := hj
  cases toMemory <;> simp_all [SameOperation, SameOperand]

variable {intResult : X86InstructionPrefixes → List Byte → Bool}
variable {p : X86InstructionPrefixes}

/-! ## Decoding an encoding -/

/-- INTERNAL: a ModRM byte is read back as its three fields. -/
theorem readModrm_modrmByte {mod reg rm : ℕ} (hmod : mod < 4) (hreg : reg < 8) (hrm : rm < 8)
    (code : List Byte) :
    readModrm (modrmByte mod reg rm :: code) = .ok (⟨mod, reg, rm⟩, code) := by
  have hval : (modrmByte mod reg rm).toNat = mod * 64 + reg * 8 + rm := by
    rw [modrmByte, BitVec.toNat_ofNat]
    omega
  simp only [readModrm, readByte, next_cons, ok_bind, hval]
  congr 3 <;> omega

/-- INTERNAL: every register field selects a register. SRC: arch/x86_64/decode.c:174-239 -/
theorem regOfOperand_isOk {reg : ℕ} (hreg : reg < 8) {type : X86OperandTypes}
    (htype : type = .r8 ∨ type = .r16_32_64) : ∃ r, regOfOperand p reg type = .ok r := by
  have hcases : reg = 0 ∨ reg = 1 ∨ reg = 2 ∨ reg = 3 ∨ reg = 4 ∨ reg = 5 ∨ reg = 6 ∨ reg = 7 := by
    omega
  cases hrex : p.has rexR <;> rcases htype with rfl | rfl <;>
    rcases hcases with rfl | rfl | rfl | rfl | rfl | rfl | rfl | rfl <;>
    simp [regOfOperand, hrex]

/-- INTERNAL: every rm field but 4 and 5 selects a base.
SRC: arch/x86_64/decode.c:330-352 -/
theorem baseRegister_isOk {rm : ℕ} (hrm : rm < 8) (h4 : rm ≠ 4) (h5 : rm ≠ 5) :
    ∃ base, baseRegister p rm = .ok base := by
  have hcases : rm = 0 ∨ rm = 1 ∨ rm = 2 ∨ rm = 3 ∨ rm = 6 ∨ rm = 7 := by omega
  cases hrex : p.has rexB <;> rcases hcases with rfl | rfl | rfl | rfl | rfl | rfl <;>
    simp [baseRegister, hrex]

/-- INTERNAL: the four moves with a ModRM byte. -/
theorem movOpcode_cases {opcode : Byte} (h : isMovOpcode opcode = true) :
    opcode = 0x88 ∨ opcode = 0x89 ∨ opcode = 0x8a ∨ opcode = 0x8b := by
  revert opcode
  decide

/-- INTERNAL: the four opcodes of a move, by operand width and direction.
SRC: arch/x86_64/decode.c:508-511 -/
theorem decodeOpcode_mov {opcode : Byte} (h : isMovOpcode opcode = true) :
    ∃ regType rmType, (regType = X86OperandTypes.r8 ∨ regType = .r16_32_64) ∧
      (rmType = X86OperandTypes.rm8 ∨ rmType = .rm16_32_64) ∧
      ∀ code inst, decodeOpcode intResult p opcode.toNat code inst =
        if storesToMemory opcode then decodeMov p code inst regType rmType
        else decodeMov p code inst rmType regType := by
  rcases movOpcode_cases h with rfl | rfl | rfl | rfl
  · exact ⟨.r8, .rm8, Or.inl rfl, Or.inl rfl, fun _ _ => rfl⟩
  · exact ⟨.r16_32_64, .rm16_32_64, Or.inr rfl, Or.inr rfl, fun _ _ => rfl⟩
  · exact ⟨.r8, .rm8, Or.inl rfl, Or.inl rfl, fun _ _ => rfl⟩
  · exact ⟨.r16_32_64, .rm16_32_64, Or.inr rfl, Or.inr rfl, fun _ _ => rfl⟩

/-- INTERNAL: a move decodes to the register and the base its fields select, with the
displacement its `mod` reads. SRC: arch/x86_64/decode.c:431-456 -/
theorem decodeOpcode_modrm (intResult : X86InstructionPrefixes → List Byte → Bool) {opcode : Byte}
    (hop : isMovOpcode opcode = true) {reg rm : ℕ} (hreg : reg < 8) (hrm : rm < 8) (h4 : rm ≠ 4)
    (h5 : rm ≠ 5) :
    ∃ r base, ∀ mod code disp rest inst, mod < 4 →
      readDisplacement mod code = .ok (disp, rest) →
      ∃ inst', decodeOpcode intResult p opcode.toNat (modrmByte mod reg rm :: code) inst =
          .ok (inst', rest) ∧
        IsMov (storesToMemory opcode) r ⟨disp, base, 0, .riz⟩ inst' := by
  obtain ⟨regType, rmType, hregType, hrmType, hdecode⟩ := decodeOpcode_mov hop
  obtain ⟨r, hr⟩ := regOfOperand_isOk (p := p) hreg hregType
  obtain ⟨base, hbase⟩ := baseRegister_isOk (p := p) hrm h4 h5
  refine ⟨r, base, fun mod code disp rest inst hmod hdisp => ?_⟩
  rw [hdecode]
  cases storesToMemory opcode with
  | true =>
    rcases hregType with rfl | rfl <;>
      simp only [if_true, decodeMov, readModrm_modrmByte hmod hreg hrm, decodeRegOperand,
        decodeRmOperand, hr, hbase, hdisp, ok_bind] <;>
      exact ⟨_, rfl, rfl, rfl, rfl, rfl, rfl⟩
  | false =>
    rcases hrmType with rfl | rfl <;>
      simp only [Bool.false_eq_true, if_false, decodeMov, readModrm_modrmByte hmod hreg hrm,
        decodeRegOperand, decodeRmOperand, hr, hbase, hdisp, ok_bind] <;>
      exact ⟨_, rfl, rfl, rfl, rfl, rfl, rfl⟩

/-- INTERNAL: the whole instruction. SRC: arch/x86_64/decode.c:491-521 -/
theorem decodeInstruction_modrm (intResult : X86InstructionPrefixes → List Byte → Bool)
    {prefixes : List Byte} (hprefixes : ∀ b ∈ prefixes, isPrefixByte b)
    {opcode : Byte} (hop : isMovOpcode opcode = true) {reg rm : ℕ}
    (hreg : reg < 8) (hrm : rm < 8) (h4 : rm ≠ 4) (h5 : rm ≠ 5) :
    ∃ r base, ∀ mod disp value rest inst, mod < 4 →
      readDisplacement mod (disp ++ rest) = .ok (value, rest) →
      ∃ inst', decodeInstruction intResult (encodeMov prefixes opcode mod reg rm (disp ++ rest))
          inst = .ok inst' ∧
        IsMov (storesToMemory opcode) r ⟨value, base, 0, .riz⟩ inst' ∧
        inst'.length = BitVec.ofNat 32 (prefixes.length + 2 + disp.length) := by
  have hnot : isPrefixByte opcode = false ∧ opcode ≠ 0x0f := by
    revert opcode
    decide
  set p := prefixes.foldl (fun p c => p ||| (prefixFlags c).getD 0) 0 with hp
  obtain ⟨r, base, hdecode⟩ :=
    decodeOpcode_modrm (p := p) intResult hop hreg hrm h4 h5
  refine ⟨r, base, fun mod disp value rest inst hmod hdisp => ?_⟩
  obtain ⟨inst', hinst, hmov⟩ := hdecode mod (disp ++ rest) value rest inst hmod hdisp
  refine ⟨{ inst' with length := BitVec.ofNat 32 (prefixes.length + 2 + disp.length) }, ?_,
    hmov, rfl⟩
  have hlen : (encodeMov prefixes opcode mod reg rm (disp ++ rest)).length - rest.length =
      prefixes.length + 2 + disp.length := by
    simp only [encodeMov, List.length_append, List.length_cons]
    omega
  rw [← hlen]
  simp only [decodeInstruction, encodeMov, readPrefixes_append hprefixes hnot.1, ← hp, ok_bind,
    readOpcode, readByte, next_cons, if_neg hnot.2, hinst]

/-! ## Displacements -/

/-- INTERNAL: four bytes behind a ModRM byte with mod 2 are read back as the displacement. -/
theorem readDisplacement_word (x : BitVec 32) (rest : List Byte) :
    readDisplacement 2 (bytesOf32 x ++ rest) = .ok (x, rest) := by
  have h := littleEndian_append Stop.ranOut (bytesOf32 x) rest
  have hlen : (bytesOf32 x).length = 4 := rfl
  rw [hlen, littleEndianValue_bytesOf32] at h
  simp only [readDisplacement, h, ok_bind, BitVec.ofNat_toNat, BitVec.setWidth_eq]

/-- INTERNAL: a signed byte read as an unsigned one keeps its value iff it is not negative. -/
theorem byte_eq_word_iff {d : Int} (hlow : -128 ≤ d) (hhigh : d ≤ 127) :
    (BitVec.ofInt 8 d).setWidth 32 = BitVec.ofInt 32 d ↔ 0 ≤ d := by
  rw [← BitVec.toNat_inj, BitVec.toNat_setWidth, BitVec.toNat_ofInt, BitVec.toNat_ofInt]
  omega

/-- INTERNAL: the `int` lengths of the two encodings, `n + 3` and `n + 6` bytes, do not lie on
the two sides of the largest `int`. -/
def LengthsFit (n : ℕ) : Prop := (n + 3) % 2 ^ 32 + 3 < 2 ^ 31 ∨ 2 ^ 31 ≤ (n + 3) % 2 ^ 32

/-- INTERNAL: the two lengths differ by three as `int`s exactly when they lie on one side of the
largest. -/
theorem lengths_differ_iff (n : ℕ) :
    (BitVec.ofNat 32 (n + 6)).toInt = (BitVec.ofNat 32 (n + 3)).toInt + 3 ↔ LengthsFit n := by
  rw [BitVec.toInt_eq_toNat_cond, BitVec.toInt_eq_toNat_cond, BitVec.toNat_ofNat,
    BitVec.toNat_ofNat, LengthsFit]
  split <;> split <;> omega

/-- SOURCE: arch/x86_64/decode.c:321-456 — **the displacement encodings.** Both encodings of a
displacement always decode; they give the same operation, with lengths three apart and the
displacement-free encoding agreeing at zero, exactly when the displacement is not negative
and both lengths fit an `int` alike. -/
theorem displacements_agree_iff (intResult : X86InstructionPrefixes → List Byte → Bool)
    (prefixes : List Byte) (hprefixes : ∀ b ∈ prefixes, isPrefixByte b) (opcode : Byte)
    (hop : isMovOpcode opcode = true) (reg rm : ℕ) (hreg : reg < 8) (hrm : rm < 8) (h4 : rm ≠ 4)
    (h5 : rm ≠ 5) (d : Int) (hlow : -128 ≤ d) (hhigh : d ≤ 127) (rest₀ rest₁ rest₂ : List Byte)
    (inst₀ inst₁ inst₂ : Instruction) :
    ∃ i₀ i₁ i₂,
      decodeInstruction intResult (encodeMov prefixes opcode 0 reg rm rest₀) inst₀ = .ok i₀ ∧
      decodeInstruction intResult
        (encodeMov prefixes opcode 1 reg rm ([BitVec.ofInt 8 d] ++ rest₁)) inst₁ = .ok i₁ ∧
      decodeInstruction intResult
        (encodeMov prefixes opcode 2 reg rm (bytesOf32 (BitVec.ofInt 32 d) ++ rest₂)) inst₂ =
          .ok i₂ ∧
      ((SameOperation i₁ i₂ ∧ i₂.length.toInt = i₁.length.toInt + 3 ∧
          (d = 0 → SameOperation i₀ i₁ ∧ SameOperation i₀ i₂)) ↔
        0 ≤ d ∧ LengthsFit prefixes.length) := by
  obtain ⟨r, base, hdecode⟩ := decodeInstruction_modrm intResult hprefixes hop
    hreg hrm h4 h5
  obtain ⟨i₀, hi₀, hmov₀, -⟩ := hdecode 0 [] 0 rest₀ inst₀ (by decide) rfl
  obtain ⟨i₁, hi₁, hmov₁, hlen₁⟩ := hdecode 1 [BitVec.ofInt 8 d] _ rest₁ inst₁ (by decide) rfl
  obtain ⟨i₂, hi₂, hmov₂, hlen₂⟩ := hdecode 2 (bytesOf32 (BitVec.ofInt 32 d)) _ rest₂ inst₂
    (by decide) (readDisplacement_word _ _)
  refine ⟨i₀, i₁, i₂, hi₀, hi₁, hi₂, ?_⟩
  rw [sameOperation_iff hmov₁ hmov₂, sameOperation_iff hmov₀ hmov₁, sameOperation_iff hmov₀ hmov₂,
    hlen₁, hlen₂]
  have hlengths := lengths_differ_iff prefixes.length
  have hbytes := byte_eq_word_iff hlow hhigh
  simp only [MemOperand.mk.injEq, and_true, hbytes]
  constructor
  · rintro ⟨hd, hl, -⟩
    exact ⟨hd, hlengths.mp hl⟩
  · rintro ⟨hd, hl⟩
    refine ⟨hd, hlengths.mpr hl, ?_⟩
    rintro rfl
    exact ⟨rfl, rfl⟩

/-- INTERNAL: `mov rax, [rcx + 8]` in both encodings. -/
theorem displacements_agree_iff_eight :
    let inst : Instruction := ⟨.mov, 0, ⟨.register, 0, .reg .al⟩, ⟨.register, 0, .reg .al⟩⟩
    ∃ i₁ i₂, decodeInstruction (fun _ _ => true) [0x48, 0x8b, 0x41, 8] inst = .ok i₁ ∧
      decodeInstruction (fun _ _ => true) [0x48, 0x8b, 0x81, 8, 0, 0, 0] inst = .ok i₂ ∧
      SameOperation i₁ i₂ ∧ i₂.length.toInt = i₁.length.toInt + 3 := by
  intro inst
  obtain ⟨_, i₁, i₂, -, hi₁, hi₂, hiff⟩ := displacements_agree_iff (fun _ _ => true) [0x48]
    (by decide) 0x8b (by decide) 0 1 (by decide) (by decide) (by decide) (by decide) 8
    (by decide) (by decide) [] [] [] inst inst inst
  obtain ⟨hsame, hlen, -⟩ := hiff.mpr ⟨by decide, by unfold LengthsFit; decide⟩
  exact ⟨i₁, i₂, hi₁, hi₂, hsame, hlen⟩

/-- INTERNAL: `mov eax, [rcx - 1]`: the one-byte displacement decodes to 255. -/
theorem displacements_differ_minus_one :
    let inst : Instruction := ⟨.mov, 0, ⟨.register, 0, .reg .al⟩, ⟨.register, 0, .reg .al⟩⟩
    ∃ i₁ i₂, decodeInstruction (fun _ _ => true) [0x8b, 0x41, 0xff] inst = .ok i₁ ∧
      decodeInstruction (fun _ _ => true) [0x8b, 0x81, 0xff, 0xff, 0xff, 0xff] inst = .ok i₂ ∧
      i₁.operand0.value = .mem ⟨255, .rcx, 0, .riz⟩ ∧
      i₂.operand0.value = .mem ⟨-1, .rcx, 0, .riz⟩ ∧ ¬SameOperation i₁ i₂ := by
  refine ⟨_, _, rfl, rfl, rfl, rfl, ?_⟩
  rintro ⟨-, ⟨-, hvalue⟩, -⟩
  exact absurd hvalue (by decide)

end Simbench.Analysis.X86DecodeDisplacement
