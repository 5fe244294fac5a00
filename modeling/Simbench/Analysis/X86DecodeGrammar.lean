import Mathlib.Data.List.TakeWhile
import Simbench.Analysis.X86DecodeDisplacement

/-!
# The grammar of the decoder

`decode_instruction` accepts a moffs load, a move between a register and memory, and an
interrupt, behind any prefix bytes. The first two are decoded from their own bytes alone. The
result of the third is the value of a function without a `return`, so that whether it is
accepted is not decided by the code.
-/

set_option autoImplicit false

namespace Simbench.Analysis.X86DecodeGrammar

open Simbench.Library.ByteParser Simbench.Program.X86Decode Simbench.Analysis.X86DecodeLength
  Simbench.Analysis.X86DecodeDisplacement

/-! ## Forms -/

/-- INTERNAL: the operand bytes of a move: a 64-bit offset, or a ModRM byte with a memory
operand the decoder knows and its displacement. -/
inductive MovOperands : Byte → List Byte → Prop
  | offset {bytes : List Byte} (hbytes : bytes.length = 8) : MovOperands 0xa1 bytes
  | modrm {opcode modrm : Byte} {disp : List Byte} (hop : isMovOpcode opcode = true)
      (hmod : modrm.toNat / 64 % 4 ≠ 3) (h4 : modrm.toNat % 8 ≠ 4) (h5 : modrm.toNat % 8 ≠ 5)
      (hdisp : disp.length = displacementLength modrm) : MovOperands opcode (modrm :: disp)

/-- INTERNAL: prefixes, an opcode and the operand bytes of a move, with anything behind. -/
inductive MovForm : List Byte → Prop
  | mk {prefixes : List Byte} {opcode : Byte} {bytes : List Byte} (rest : List Byte)
      (hprefixes : ∀ b ∈ prefixes, isPrefixByte b = true) (hbytes : MovOperands opcode bytes) :
      MovForm (prefixes ++ opcode :: (bytes ++ rest))

/-- INTERNAL: prefixes, the opcode cd and a byte, with anything behind. -/
inductive IntForm : List Byte → Byte → Prop
  | mk {prefixes : List Byte} (ib : Byte) (rest : List Byte)
      (hprefixes : ∀ b ∈ prefixes, isPrefixByte b = true) :
      IntForm (prefixes ++ 0xcd :: ib :: rest) ib

/-- INTERNAL: the moves are the four with a ModRM byte and a1. -/
theorem MovOperands.opcode_cases {opcode : Byte} {bytes : List Byte}
    (h : MovOperands opcode bytes) :
    opcode = 0xa1 ∨ isMovOpcode opcode = true := by
  cases h with
  | offset hbytes => exact .inl rfl
  | modrm hop hmod h4 h5 hdisp => exact .inr hop

/-- INTERNAL: none of them is taken for a prefix, for 0f or for `int`. -/
theorem MovOperands.not_prefix {opcode : Byte} {bytes : List Byte} (h : MovOperands opcode bytes) :
    isPrefixByte opcode = false ∧ opcode ≠ 0x0f ∧ opcode ≠ 0xcd := by
  have hcases := h.opcode_cases
  clear h
  revert opcode
  decide

/-- INTERNAL: the prefix bytes of a form are those up to the opcode. -/
theorem split_prefixes {prefixes : List Byte} {opcode : Byte}
    (hprefixes : ∀ b ∈ prefixes, isPrefixByte b = true) (hop : isPrefixByte opcode = false)
    (code : List Byte) :
    (prefixes ++ opcode :: code).takeWhile isPrefixByte = prefixes ∧
      (prefixes ++ opcode :: code).dropWhile isPrefixByte = opcode :: code := by
  constructor
  · rw [List.takeWhile_append_of_pos hprefixes, List.takeWhile_cons_of_neg (by simp [hop]),
      List.append_nil]
  · rw [List.dropWhile_append_of_pos hprefixes, List.dropWhile_cons_of_neg (by simp [hop])]

/-- INTERNAL: a move is no interrupt. -/
theorem MovForm.not_int {code : List Byte} (h : MovForm code) (ib : Byte) : ¬ IntForm code ib := by
  intro hint
  obtain @⟨prefixes, opcode, bytes, rest, hprefixes, hbytes⟩ := h
  obtain ⟨hop, -, hne⟩ := hbytes.not_prefix
  have hmov := (split_prefixes hprefixes hop (bytes ++ rest)).2
  generalize prefixes ++ opcode :: (bytes ++ rest) = code at hmov hint
  obtain @⟨prefixes', ib, rest', hprefixes'⟩ := hint
  rw [(split_prefixes hprefixes' (by decide) (ib :: rest')).2] at hmov
  exact hne (List.cons.inj hmov).1.symm

/-! ## Decoding a form -/

variable {intResult : X86InstructionPrefixes → List Byte → Bool}

/-- INTERNAL: the flags of all prefix bytes. SRC: arch/x86_64/decode.c:115-154 -/
def collectedFlags (prefixes : List Byte) : X86InstructionPrefixes :=
  prefixes.foldl (fun p c => p ||| (prefixFlags c).getD 0) 0

/-- INTERNAL: behind the prefixes the opcode decides. SRC: arch/x86_64/decode.c:491-521 -/
theorem decodeInstruction_opcode {prefixes : List Byte} {opcode : Byte}
    (hprefixes : ∀ b ∈ prefixes, isPrefixByte b = true) (hop : isPrefixByte opcode = false)
    (hescape : opcode ≠ 0x0f) (code : List Byte) (inst : Instruction) :
    decodeInstruction intResult (prefixes ++ opcode :: code) inst =
      decodeOpcode intResult (collectedFlags prefixes) opcode.toNat code inst >>= fun r =>
        .ok { r.1 with
          length := BitVec.ofNat 32 ((prefixes ++ opcode :: code).length - r.2.length) } := by
  simp only [decodeInstruction, readPrefixes_append hprefixes hop, ok_bind, readOpcode, readByte,
    next_cons, if_neg hescape]
  rfl

/-- INTERNAL: an accepted sequence has an opcode behind its prefixes, and no escape byte.
SRC: arch/x86_64/decode.c:494-518 -/
theorem opcode_of_accepted {code : List Byte} {inst inst' : Instruction}
    (h : decodeInstruction intResult code inst = .ok inst') :
    ∃ prefixes opcode operands, (∀ b ∈ prefixes, isPrefixByte b = true) ∧
      isPrefixByte opcode = false ∧ opcode ≠ 0x0f ∧ code = prefixes ++ opcode :: operands := by
  obtain ⟨-, hne⟩ := decodeInstruction_length h
  obtain ⟨opcode, operands, hdrop⟩ := List.exists_cons_of_ne_nil hne
  have hprefixes : ∀ b ∈ code.takeWhile isPrefixByte, isPrefixByte b = true :=
    fun b hb => List.mem_takeWhile_imp hb
  have hop : isPrefixByte opcode = false := by
    have hhead := List.head?_dropWhile_not isPrefixByte code
    rw [hdrop] at hhead
    simpa using hhead
  have hsplit : code = code.takeWhile isPrefixByte ++ opcode :: operands := by
    rw [← hdrop, List.takeWhile_append_dropWhile]
  refine ⟨code.takeWhile isPrefixByte, opcode, operands, hprefixes, hop, ?_, hsplit⟩
  -- behind the escape byte every opcode is rejected
  rintro rfl
  rw [hsplit] at h
  simp only [decodeInstruction, readPrefixes_append hprefixes hop, ok_bind, readOpcode, readByte,
    next_cons, if_true] at h
  cases operands with
  | nil => cases h
  | cons second operands =>
    simp only [next_cons, ok_bind, decodeOpcode_escape] at h
    cases h

/-- INTERNAL: only the interrupt asks for the value without a `return`.
SRC: arch/x86_64/decode.c:507-516 -/
theorem decodeOpcode_intResult (intResult' : X86InstructionPrefixes → List Byte → Bool)
    {opcode : Byte} (hop : opcode ≠ 0xcd) (p : X86InstructionPrefixes) (code : List Byte)
    (inst : Instruction) :
    decodeOpcode intResult p opcode.toNat code inst =
      decodeOpcode intResult' p opcode.toNat code inst := by
  have hne : opcode.toNat ≠ 0xcd := fun h => hop (BitVec.eq_of_toNat_eq h)
  unfold decodeOpcode
  split <;> first | rfl | contradiction

/-- INTERNAL: a ModRM byte by its fields. -/
theorem modrmByte_fields (modrm : Byte) :
    modrmByte (modrm.toNat / 64 % 4) (modrm.toNat / 8 % 8) (modrm.toNat % 8) = modrm := by
  have hlt := modrm.isLt
  apply BitVec.eq_of_toNat_eq
  rw [modrmByte, BitVec.toNat_ofNat]
  omega

/-- INTERNAL: the displacement is read from as many bytes as the ModRM byte says, whatever
follows. -/
theorem readDisplacement_append {modrm : Byte} (hmod : modrm.toNat / 64 % 4 ≠ 3)
    {disp : List Byte} (hdisp : disp.length = displacementLength modrm) :
    ∃ d, ∀ rest, readDisplacement (modrm.toNat / 64 % 4) (disp ++ rest) = .ok (d, rest) := by
  have hcases : modrm.toNat / 64 % 4 = 0 ∨ modrm.toNat / 64 % 4 = 1 ∨ modrm.toNat / 64 % 4 = 2 := by
    omega
  rw [displacementLength] at hdisp
  rcases hcases with h | h | h
  · rw [h] at hdisp ⊢
    obtain rfl := List.length_eq_zero_iff.mp hdisp
    exact ⟨0, fun rest => rfl⟩
  · rw [h] at hdisp ⊢
    obtain ⟨b, rfl⟩ := List.length_eq_one_iff.mp hdisp
    exact ⟨b.setWidth 32, fun rest => rfl⟩
  · rw [h] at hdisp ⊢
    refine ⟨BitVec.ofNat 32 (littleEndianValue disp), fun rest => ?_⟩
    have hread := littleEndian_append Stop.ranOut disp rest
    have hfour : disp.length = 4 := hdisp
    rw [hfour] at hread
    simp only [readDisplacement, hread, ok_bind]

/-- INTERNAL: the move that has its address in the instruction.
SRC: arch/x86_64/decode.c:458-476,511 -/
theorem decodeOpcode_offset {bytes : List Byte} (hbytes : bytes.length = 8)
    (intResult : X86InstructionPrefixes → List Byte → Bool) (p : X86InstructionPrefixes)
    (rest : List Byte) (inst : Instruction) :
    decodeOpcode intResult p (0xa1 : Byte).toNat (bytes ++ rest) inst =
      .ok (⟨.mov, inst.length,
        ⟨.memOff, inst.operand0.size, .memOff (BitVec.ofNat 64 (littleEndianValue bytes))⟩,
        ⟨.register, inst.operand1.size,
          .reg (if p.has operandSizeOverride then .rax else .eax)⟩⟩, rest) := by
  have hread := littleEndian_append Stop.ranOut bytes rest
  rw [hbytes] at hread
  have hop : (0xa1 : Byte).toNat = 0xa1 := rfl
  simp only [hop, decodeOpcode, decodeMov, hread, ok_bind, if_true]

/-- INTERNAL: the operand bytes of a move decode to one operation, whatever stands behind them
and whatever the instruction held. SRC: arch/x86_64/decode.c:431-480,507-512 -/
theorem decodeOpcode_operands {opcode : Byte} {bytes : List Byte} (h : MovOperands opcode bytes)
    (p : X86InstructionPrefixes) :
    ∃ op : Instruction, op.opcode = .mov ∧ ∀ (intResult : X86InstructionPrefixes → List Byte → Bool)
      (rest : List Byte) (inst : Instruction), ∃ inst',
        decodeOpcode intResult p opcode.toNat (bytes ++ rest) inst = .ok (inst', rest) ∧
          SameOperation inst' op := by
  cases h with
  | offset hbytes =>
    refine ⟨⟨.mov, 0, ⟨.memOff, 0, .memOff (BitVec.ofNat 64 (littleEndianValue bytes))⟩,
      ⟨.register, 0, .reg (if p.has operandSizeOverride then .rax else .eax)⟩⟩, rfl,
      fun intResult rest inst => ?_⟩
    exact ⟨_, decodeOpcode_offset hbytes intResult p rest inst, rfl, ⟨rfl, rfl⟩, rfl, rfl⟩
  | @modrm _ modrm disp hop hmod h4 h5 hdisp =>
    have hne : opcode ≠ 0xcd := by
      rintro rfl
      exact absurd hop (by decide)
    obtain ⟨r, base, hdecode⟩ := decodeOpcode_modrm (p := p) (fun _ _ => true) hop
      (Nat.mod_lt (modrm.toNat / 8) (by decide)) (Nat.mod_lt modrm.toNat (by decide)) h4 h5
    obtain ⟨d, hread⟩ := readDisplacement_append hmod hdisp
    have hmodlt := Nat.mod_lt (modrm.toNat / 64) (show 0 < 4 by decide)
    have hall : ∀ rest inst, ∃ inst', decodeOpcode (fun _ _ => true) p opcode.toNat
        (modrm :: (disp ++ rest)) inst = .ok (inst', rest) ∧
          IsMov (storesToMemory opcode) r ⟨d, base, 0, .riz⟩ inst' := by
      intro rest inst
      have hinst := hdecode _ (disp ++ rest) d rest inst hmodlt (hread rest)
      rwa [modrmByte_fields] at hinst
    obtain ⟨op, -, hop'⟩ := hall [] ⟨.mov, 0, ⟨.register, 0, .reg .al⟩, ⟨.register, 0, .reg .al⟩⟩
    refine ⟨op, hop'.1, fun intResult rest inst => ?_⟩
    obtain ⟨inst', hinst', hmov⟩ := hall rest inst
    rw [decodeOpcode_intResult intResult hne] at hinst'
    exact ⟨inst', hinst', (sameOperation_iff hmov hop').mpr rfl⟩

/-- INTERNAL: a move is accepted, as the operation of its own bytes and with their number as
its length. SRC: arch/x86_64/decode.c:491-521 -/
theorem decodeInstruction_mov {prefixes : List Byte} {opcode : Byte} {bytes : List Byte}
    (hprefixes : ∀ b ∈ prefixes, isPrefixByte b = true) (hbytes : MovOperands opcode bytes) :
    ∃ op : Instruction, op.opcode = .mov ∧ ∀ (intResult : X86InstructionPrefixes → List Byte → Bool)
      (rest : List Byte) (inst : Instruction), ∃ inst',
        decodeInstruction intResult (prefixes ++ opcode :: (bytes ++ rest)) inst = .ok inst' ∧
          inst'.length = BitVec.ofNat 32 (prefixes.length + 1 + bytes.length) ∧
          SameOperation inst' op := by
  obtain ⟨hop, hescape, -⟩ := hbytes.not_prefix
  obtain ⟨op, hmov, hdecode⟩ := decodeOpcode_operands hbytes (collectedFlags prefixes)
  refine ⟨op, hmov, fun intResult rest inst => ?_⟩
  obtain ⟨inst', hinst', hsame⟩ := hdecode intResult rest inst
  have hlength : (prefixes ++ opcode :: (bytes ++ rest)).length - rest.length =
      prefixes.length + 1 + bytes.length := by
    simp only [List.length_append, List.length_cons]
    omega
  rw [decodeInstruction_opcode hprefixes hop hescape, hinst', ok_bind, hlength]
  exact ⟨_, rfl, rfl, hsame⟩

/-- INTERNAL: an interrupt is accepted as the value without a `return` says.
SRC: arch/x86_64/decode.c:482-489,514 -/
theorem decodeInstruction_int {prefixes : List Byte}
    (hprefixes : ∀ b ∈ prefixes, isPrefixByte b = true) (ib : Byte) (rest : List Byte)
    (inst : Instruction) :
    decodeInstruction intResult (prefixes ++ 0xcd :: ib :: rest) inst =
      if intResult (collectedFlags prefixes) (ib :: rest) then .ok { inst with
        opcode := .int
        length := BitVec.ofNat 32 ((prefixes ++ 0xcd :: ib :: rest).length - rest.length)
        operand0 := ⟨.immediate, 1, .immVal (ib.setWidth 64)⟩ }
      else .error .rejected := by
  have hop : (0xcd : Byte).toNat = 0xcd := rfl
  rw [decodeInstruction_opcode hprefixes (by decide) (by decide), hop]
  simp only [decodeOpcode, decodeInt, readByte, next_cons, ok_bind]
  split
  · rfl
  · rfl

/-- INTERNAL: a memory operand has no register-direct mode, no SIB byte and no base 5.
SRC: arch/x86_64/decode.c:321-429 -/
theorem decodeRmOperand_fields {p : X86InstructionPrefixes} {code : List Byte} {oper : Operand}
    {mod rm : ℕ} {r : Operand × List Byte} (h : decodeRmOperand code oper p mod rm = .ok r) :
    mod ≠ 3 ∧ rm ≠ 4 ∧ rm ≠ 5 := by
  simp only [decodeRmOperand, bind_eq_ok] at h
  obtain ⟨d, hread, base, hbase, -⟩ := h
  refine ⟨?_, ?_, ?_⟩
  · rintro rfl
    cases hread
  · rintro rfl
    cases hrex : p.has rexB <;> simp [baseRegister, hrex] at hbase
  · rintro rfl
    cases hrex : p.has rexB <;> simp [baseRegister, hrex] at hbase

/-- INTERNAL: a move between a register and memory decodes its memory operand.
SRC: arch/x86_64/decode.c:438-456 -/
theorem decodeMov_memory {p : X86InstructionPrefixes} {modrm : Byte} {code : List Byte}
    {inst : Instruction} {source dest : X86OperandTypes} {r : Instruction × List Byte}
    (hsource : source ≠ .moffs16_32_64)
    (h : decodeMov p (modrm :: code) inst source dest = .ok r) :
    ∃ oper r', decodeRmOperand code oper p (modrm.toNat / 64 % 4) (modrm.toNat % 8) = .ok r' := by
  cases source <;>
    simp only [decodeMov, readModrm, readByte, next_cons, ok_bind, bind_eq_ok, reduceCtorEq,
      ne_eq, not_true_eq_false] at h hsource
  all_goals
    obtain ⟨reg, -, rm, hrm, -⟩ := h
    exact ⟨_, rm, hrm⟩

/-- INTERNAL: what the opcode switch accepts. SRC: arch/x86_64/decode.c:507-516 -/
theorem operands_of_accepted {p : X86InstructionPrefixes} {opcode : Byte}
    {operands rest : List Byte}
    {inst inst' : Instruction}
    (h : decodeOpcode intResult p opcode.toNat operands inst = .ok (inst', rest)) :
    (∃ bytes, MovOperands opcode bytes ∧ operands = bytes ++ rest) ∨
      (opcode = 0xcd ∧ ∃ ib, operands = ib :: rest) := by
  have hmodrm : ∀ {source dest}, source ≠ X86OperandTypes.moffs16_32_64 →
      isMovOpcode opcode = true → decodeMov p operands inst source dest = .ok (inst', rest) →
      ∃ bytes, MovOperands opcode bytes ∧ operands = bytes ++ rest := by
    intro source dest hsource hop hmov
    obtain ⟨modrm, disp, rfl, hlength⟩ := decodeMov_modrm_eq_ok hsource hmov
    obtain ⟨oper, r, hrm⟩ := decodeMov_memory hsource hmov
    obtain ⟨hmod, h4, h5⟩ := decodeRmOperand_fields hrm
    exact ⟨modrm :: disp, .modrm hop hmod h4 h5 hlength, rfl⟩
  have hbyte : ∀ {b : Byte}, opcode.toNat = b.toNat → opcode = b := BitVec.eq_of_toNat_eq
  unfold decodeOpcode at h
  split at h
  · next hop =>
    obtain rfl : opcode = 0xa1 := hbyte hop
    simp only [decodeMov, bind_eq_ok, littleEndian_eq_ok, if_true, Prod.exists, Except.ok.injEq,
      Prod.mk.injEq] at h
    obtain ⟨v, code, ⟨bytes, rfl, hlength, -⟩, -, rfl⟩ := h
    exact .inl ⟨bytes, .offset hlength, rfl⟩
  · next hop =>
    obtain rfl : opcode = 0x88 := hbyte hop
    exact .inl (hmodrm (by decide) (by decide) h)
  · next hop =>
    obtain rfl : opcode = 0x89 := hbyte hop
    exact .inl (hmodrm (by decide) (by decide) h)
  · next hop =>
    obtain rfl : opcode = 0x8a := hbyte hop
    exact .inl (hmodrm (by decide) (by decide) h)
  · next hop =>
    obtain rfl : opcode = 0x8b := hbyte hop
    exact .inl (hmodrm (by decide) (by decide) h)
  · cases h
  · next hop =>
    obtain rfl : opcode = 0xcd := hbyte hop
    simp only [decodeInt, readByte, bind_eq_ok, next_eq_ok, Prod.exists, Except.ok.injEq,
      Prod.mk.injEq] at h
    obtain ⟨_, _, ⟨ib, _, rfl, -, rfl⟩, hif⟩ := h
    split at hif
    · obtain ⟨-, rfl⟩ := Prod.mk.inj (Except.ok.inj hif)
      exact .inr ⟨rfl, ib, rfl⟩
    · cases hif
  · cases h

/-- INTERNAL: an accepted sequence is a move or an interrupt. SRC: arch/x86_64/decode.c:491-521 -/
theorem form_of_accepted {code : List Byte} {inst inst' : Instruction}
    (h : decodeInstruction intResult code inst = .ok inst') :
    MovForm code ∨ ∃ ib, IntForm code ib := by
  obtain ⟨prefixes, opcode, operands, hprefixes, hop, hescape, rfl⟩ := opcode_of_accepted h
  rw [decodeInstruction_opcode hprefixes hop hescape, bind_eq_ok] at h
  obtain ⟨⟨inst₁, rest⟩, hdecode, -⟩ := h
  rcases operands_of_accepted hdecode with ⟨bytes, hbytes, rfl⟩ | ⟨rfl, ib, rfl⟩
  · exact .inl ⟨rest, hprefixes, hbytes⟩
  · exact .inr ⟨ib, ib, rest, hprefixes⟩

/-! ## Acceptance -/

/-- INTERNAL: whatever the value without a `return` is: the sequence is accepted exactly when
it has one of the forms, a move as a move and an interrupt as an interrupt with its byte. -/
structure AcceptedAsForm (code : List Byte) : Prop where
  accepted : ∀ intResult inst, (∃ inst', decodeInstruction intResult code inst = .ok inst') ↔
    MovForm code ∨ ∃ ib, IntForm code ib
  mov : ∀ intResult inst inst', decodeInstruction intResult code inst = .ok inst' →
    MovForm code → inst'.opcode = .mov
  int : ∀ intResult inst inst', decodeInstruction intResult code inst = .ok inst' →
    ∀ ib, IntForm code ib → inst'.opcode = .int ∧
      inst'.operand0 = ⟨.immediate, 1, .immVal (ib.setWidth 64)⟩

/-- SOURCE: arch/x86_64/decode.c:321-521 — **the grammar of the decoder**: a byte sequence is
accepted exactly as its form says, for every value `decode_int` may seem to return, if and only
if it is no interrupt. -/
theorem acceptedAsForm_iff (code : List Byte) :
    AcceptedAsForm code ↔ ∀ ib, ¬ IntForm code ib := by
  have inst : Instruction := ⟨.mov, 0, ⟨.register, 0, .reg .al⟩, ⟨.register, 0, .reg .al⟩⟩
  constructor
  · intro haccepted ib hint
    -- with the value 0 the interrupt is rejected
    obtain ⟨inst', hinst'⟩ := (haccepted.accepted (fun _ _ => false) inst).mpr (.inr ⟨ib, hint⟩)
    obtain ⟨ib, rest, hprefixes⟩ := hint
    rw [decodeInstruction_int hprefixes, if_neg Bool.false_ne_true] at hinst'
    cases hinst'
  · intro hno
    have hmov : ∀ intResult inst, MovForm code → ∃ inst',
        decodeInstruction intResult code inst = .ok inst' ∧ inst'.opcode = .mov := by
      intro intResult inst hform
      obtain ⟨rest, hprefixes, hbytes⟩ := hform
      obtain ⟨op, hop, hdecode⟩ := decodeInstruction_mov hprefixes hbytes
      obtain ⟨inst', hinst', -, hsame⟩ := hdecode intResult rest inst
      exact ⟨inst', hinst', hsame.1.trans hop⟩
    refine ⟨fun intResult inst => ⟨fun ⟨inst', h⟩ => form_of_accepted h, ?_⟩, ?_, ?_⟩
    · rintro (hform | ⟨ib, hint⟩)
      · obtain ⟨inst', hinst', -⟩ := hmov intResult inst hform
        exact ⟨inst', hinst'⟩
      · exact absurd hint (hno ib)
    · intro intResult inst inst' h hform
      obtain ⟨inst₁, hinst₁, hop⟩ := hmov intResult inst hform
      rw [h] at hinst₁
      obtain rfl := Except.ok.inj hinst₁
      exact hop
    · exact fun intResult inst inst' h ib hint => absurd hint (hno ib)

/-- INTERNAL: `int 80` is of the grammar and, with the value 0, rejected. -/
theorem int_not_acceptedAsForm :
    let inst : Instruction := ⟨.mov, 0, ⟨.register, 0, .reg .al⟩, ⟨.register, 0, .reg .al⟩⟩
    IntForm [0xcd, 0x80] 0x80 ∧
      decodeInstruction (fun _ _ => false) [0xcd, 0x80] inst = .error .rejected := by
  intro inst
  have hform : IntForm ([] ++ 0xcd :: 0x80 :: []) 0x80 := .mk 0x80 [] (by simp)
  exact ⟨hform, rfl⟩

/-! ## Locality -/

/-- INTERNAL: the bytes a move takes are those of its form. -/
theorem decodedLength_mov {prefixes : List Byte} {opcode : Byte} {bytes : List Byte}
    (hprefixes : ∀ b ∈ prefixes, isPrefixByte b = true) (hbytes : MovOperands opcode bytes)
    (rest : List Byte) :
    decodedLength (prefixes ++ opcode :: (bytes ++ rest)) = prefixes.length + 1 + bytes.length := by
  obtain ⟨htake, hdrop⟩ := split_prefixes hprefixes hbytes.not_prefix.1 (bytes ++ rest)
  simp only [decodedLength, htake, hdrop]
  congr 1
  cases hbytes with
  | offset hbytes =>
    rw [hbytes]
    rfl
  | @modrm _ modrm disp hop hmod h4 h5 hdisp =>
    have hopcode : ∀ operands, operandLength false opcode operands = modrmLength operands := by
      intro operands
      rcases movOpcode_cases hop with rfl | rfl | rfl | rfl <;> rfl
    rw [hopcode, List.cons_append, modrmLength, List.length_cons, hdisp, Nat.add_comm]

/-- INTERNAL: the operands of a move have eight bytes at most. -/
theorem MovOperands.length_le {opcode : Byte} {bytes : List Byte} (h : MovOperands opcode bytes) :
    bytes.length ≤ 8 := by
  cases h with
  | offset hbytes => exact hbytes.le
  | modrm hop hmod h4 h5 hdisp =>
    rw [List.length_cons, hdisp, displacementLength]
    split <;> decide

/-- INTERNAL: a sequence of prefix bytes alone is read to its end and beyond.
SRC: arch/x86_64/decode.c:120-151 -/
theorem decodeInstruction_prefixes {prefixes : List Byte}
    (hprefixes : ∀ b ∈ prefixes, isPrefixByte b = true) (inst : Instruction) :
    decodeInstruction intResult prefixes inst = .error .ranOut := by
  have hread : ∀ p, readPrefixes p prefixes = .error .ranOut := by
    induction prefixes with
    | nil => exact fun p => rfl
    | cons b prefixes ih =>
      intro p
      obtain ⟨hb, hrest⟩ := List.forall_mem_cons.mp hprefixes
      rw [← prefixFlags_isSome] at hb
      obtain ⟨flags, hflags⟩ := Option.isSome_iff_exists.mp hb
      simp only [readPrefixes, hflags]
      exact ih hrest _
  rw [decodeInstruction, hread]
  rfl

/-- INTERNAL: the length of an instruction as a number of bytes. -/
def byteCount (inst : Instruction) : ℕ := inst.length.toInt.toNat

/-- INTERNAL: the bytes an instruction of this length has decide its decoding: every sequence
that begins with them, and so the sequence that ends with them, is accepted with the same
length, opcode and operands, and the skip handler goes on behind them. -/
structure DecodesLocally (code : List Byte) (inst : Instruction) : Prop where
  agree : ∀ intResult code' inst₀, code'.take (byteCount inst) = code.take (byteCount inst) →
    ∃ inst', decodeInstruction intResult code' inst₀ = .ok inst' ∧
      inst'.length = inst.length ∧ SameOperation inst' inst
  pageEnd : ∀ intResult inst₀ rip,
    memSkipHandler intResult (code.take (byteCount inst)) rip inst₀ =
      .ok (rip + inst.length.signExtend 64)

/-- INTERNAL: a length up to the largest `int` is its number of bytes; a longer one counts at
least as many bytes too few as there are operand bytes. -/
theorem byteCount_eq {inst : Instruction} {n : ℕ} (h : inst.length = BitVec.ofNat 32 n) :
    (n < 2 ^ 31 → byteCount inst = n) ∧ (2 ^ 31 ≤ n → byteCount inst + 2 ^ 31 ≤ n) := by
  rw [byteCount, h, BitVec.toInt_eq_toNat_cond, BitVec.toNat_ofNat]
  constructor
  · intro hlt
    rw [if_pos (by omega)]
    omega
  · intro hle
    split <;> omega

section Locality

variable {code : List Byte} {inst inst' : Instruction}

/-- INTERNAL: an instruction that decodes locally is no `int`: what that is taken for depends on
more than its bytes. -/
theorem DecodesLocally.not_int (h : DecodesLocally code inst) (ib : Byte) : ¬ IntForm code ib := by
  intro hint
  obtain ⟨inst', hinst', -⟩ := h.agree (fun _ _ => false) code inst rfl
  obtain ⟨ib, rest, hprefixes⟩ := hint
  rw [decodeInstruction_int hprefixes, if_neg Bool.false_ne_true] at hinst'
  cases hinst'

/-- INTERNAL: a length beyond the largest `int` counts prefix bytes only, and these alone are not
accepted. -/
theorem DecodesLocally.short (hlocal : DecodesLocally code inst') (hform : MovForm code)
    (hlength : inst'.length = BitVec.ofNat 32 (decodedLength code)) :
    decodedLength code < 2 ^ 31 := by
  by_contra hlong
  obtain @⟨prefixes, opcode, bytes, rest, hprefixes, hbytes⟩ := hform
  have hfew : byteCount inst' ≤ prefixes.length := by
    have hle := hbytes.length_le
    have htotal := decodedLength_mov hprefixes hbytes rest
    have hover := (byteCount_eq hlength).2 (Nat.le_of_not_lt hlong)
    omega
  have htake : (prefixes ++ opcode :: (bytes ++ rest)).take (byteCount inst') =
      prefixes.take (byteCount inst') := List.take_append_of_le_length hfew
  obtain ⟨inst₁, hinst₁, -⟩ := hlocal.agree (fun _ _ => false) _ inst'
    ((List.take_take ..).trans (by rw [Nat.min_self]))
  rw [htake, decodeInstruction_prefixes fun b hb => hprefixes b (List.mem_of_mem_take hb)]
    at hinst₁
  cases hinst₁

/-- INTERNAL: the bytes of a move decide its decoding. -/
theorem agree_of_mov (hform : MovForm code) (hcount : byteCount inst' = decodedLength code)
    (h : decodeInstruction intResult code inst = .ok inst') (intResult' : X86InstructionPrefixes →
      List Byte → Bool) (code' : List Byte) (inst₀ : Instruction)
    (htake : code'.take (byteCount inst') = code.take (byteCount inst')) :
    ∃ inst₂, decodeInstruction intResult' code' inst₀ = .ok inst₂ ∧
      inst₂.length = inst'.length ∧ SameOperation inst₂ inst' := by
  obtain @⟨prefixes, opcode, bytes, rest, hprefixes, hbytes⟩ := hform
  have hfront : (prefixes ++ opcode :: (bytes ++ rest)).take (byteCount inst') =
      prefixes ++ opcode :: bytes := by
    have hlen : (prefixes ++ opcode :: bytes).length = byteCount inst' := by
      rw [hcount, decodedLength_mov hprefixes hbytes rest, List.length_append, List.length_cons]
      omega
    have hassoc : prefixes ++ opcode :: (bytes ++ rest) = prefixes ++ opcode :: bytes ++ rest := by
      simp
    rw [hassoc, ← hlen, List.take_left]
  obtain ⟨op, -, hdecode⟩ := decodeInstruction_mov hprefixes hbytes
  obtain ⟨inst₁, hinst₁, hlength₁, hsame₁⟩ := hdecode intResult rest inst
  rw [h] at hinst₁
  obtain rfl := Except.ok.inj hinst₁
  rw [hfront] at htake
  have hcode : code' = prefixes ++ opcode :: (bytes ++ code'.drop (byteCount inst')) := by
    have hsplit := (List.take_append_drop (byteCount inst') code').symm
    rw [htake] at hsplit
    simpa using hsplit
  obtain ⟨inst₂, hinst₂, hlength₂, hsame₂⟩ :=
    hdecode intResult' (code'.drop (byteCount inst')) inst₀
  rw [← hcode] at hinst₂
  exact ⟨inst₂, hinst₂, hlength₂.trans hlength₁.symm, hsame₂.trans hsame₁.symm⟩

end Locality

/-- SOURCE: arch/x86_64/decode.c:120-168,321-521; arch/x86_64/exception.c:23-43 — **locality**:
an accepted sequence is decoded from the bytes of its own length exactly when it is no interrupt
and its length fits an `int`. -/
theorem decodesLocally_iff (intResult : X86InstructionPrefixes → List Byte → Bool)
    (code : List Byte) (inst inst' : Instruction)
    (h : decodeInstruction intResult code inst = .ok inst') :
    DecodesLocally code inst' ↔ (∀ ib, ¬ IntForm code ib) ∧ decodedLength code < 2 ^ 31 := by
  have hlength := (decodeInstruction_length h).1
  have hform : (∀ ib, ¬ IntForm code ib) → MovForm code := fun hno =>
    (form_of_accepted h).resolve_right fun ⟨ib, hint⟩ => hno ib hint
  constructor
  · intro hlocal
    exact ⟨hlocal.not_int, hlocal.short (hform hlocal.not_int) hlength⟩
  · rintro ⟨hno, hshort⟩
    have hagree := agree_of_mov (hform hno) ((byteCount_eq hlength).1 hshort) h
    refine ⟨hagree, fun intResult' inst₀ rip => ?_⟩
    obtain ⟨inst₂, hinst₂, hlength₂, -⟩ := hagree intResult' _ inst₀
      ((List.take_take ..).trans (by rw [Nat.min_self]))
    rw [memSkipHandler, hinst₂, ok_bind, hlength₂]

/-- INTERNAL: a store with a four-byte displacement at the end of a page. -/
theorem decodesLocally_iff_store :
    let inst : Instruction := ⟨.mov, 0, ⟨.register, 0, .reg .al⟩, ⟨.register, 0, .reg .al⟩⟩
    ∃ inst', decodeInstruction (fun _ _ => true) [0x48, 0x89, 0x83, 1, 0, 0, 0] inst = .ok inst' ∧
      DecodesLocally [0x48, 0x89, 0x83, 1, 0, 0, 0] inst' := by
  intro inst
  refine ⟨_, rfl, (decodesLocally_iff (fun _ _ => true) _ inst _ rfl).mpr ⟨?_, by decide⟩⟩
  have hmov : MovForm ([0x48] ++ 0x89 :: ([0x83, 1, 0, 0, 0] ++ [])) :=
    ⟨[], by decide, .modrm (by decide) (by decide) (by decide) (by decide) (by decide)⟩
  exact hmov.not_int

/-- INTERNAL: `int 80` accepted with the value 1 and rejected with the value 0. -/
theorem int_not_decodesLocally :
    let inst : Instruction := ⟨.mov, 0, ⟨.register, 0, .reg .al⟩, ⟨.register, 0, .reg .al⟩⟩
    ∃ inst', decodeInstruction (fun _ _ => true) [0xcd, 0x80] inst = .ok inst' ∧
      byteCount inst' = 2 ∧
      decodeInstruction (fun _ _ => false) [0xcd, 0x80] inst = .error .rejected ∧
      ¬ DecodesLocally [0xcd, 0x80] inst' := by
  intro inst
  refine ⟨_, rfl, rfl, rfl, fun hlocal => ?_⟩
  obtain ⟨inst₁, hinst₁, -⟩ := hlocal.agree (fun _ _ => false) [0xcd, 0x80] inst rfl
  cases hinst₁

end Simbench.Analysis.X86DecodeGrammar
