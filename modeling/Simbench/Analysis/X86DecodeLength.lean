import Simbench.Program.X86Decode

/-!
# The length of a decoded instruction

What `decode_instruction` consumes, operand by operand, against the length the
architecture gives the instruction. They differ for the one operand whose width an
address-size prefix changes, and `mem_skip_handler` then resumes inside the next
instruction.
-/

set_option autoImplicit false

namespace Simbench.Analysis.X86DecodeLength

open Simbench.Library.ByteParser Simbench.Program.X86Decode

/-! ## The architecture -/

/-- INTERNAL: the prefix bytes 66, 67 and 40 to 4f. -/
def isPrefixByte (b : Byte) : Bool := b == 0x66 || b == 0x67 || (0x40 ≤ b && b ≤ 0x4f)

/-- INTERNAL: displacement bytes of a ModRM byte with `mod` 0, 1 or 2. -/
def displacementLength (modrm : Byte) : ℕ :=
  match modrm.toNat / 64 % 4 with
  | 1 => 1
  | 2 => 4
  | _ => 0

/-- INTERNAL: a ModRM byte and its displacement. -/
def modrmLength : List Byte → ℕ
  | modrm :: _ => 1 + displacementLength modrm
  | [] => 1

/-- INTERNAL: operand bytes of the opcodes the decoder knows; `addressOverride` is the
presence of an address-size prefix, which narrows the moffs operand. -/
def operandLength (addressOverride : Bool) (opcode : Byte) (operands : List Byte) : ℕ :=
  match opcode.toNat with
  | 0x88 | 0x89 | 0x8a | 0x8b => modrmLength operands
  | 0xa1 => if addressOverride then 4 else 8
  | 0xcd => 1
  | _ => 0

/-- INTERNAL: the length of the instruction at the start of `code` in 64-bit mode. -/
def architectureLength (code : List Byte) : ℕ :=
  let prefixes := code.takeWhile isPrefixByte
  match code.dropWhile isPrefixByte with
  | opcode :: operands =>
    prefixes.length + 1 + operandLength (prefixes.contains 0x67) opcode operands
  | [] => prefixes.length

/-- INTERNAL: opcode a1 under an address-size prefix. -/
def ShortOffset (code : List Byte) : Prop :=
  (code.dropWhile isPrefixByte).head? = some 0xa1 ∧ 0x67 ∈ code.takeWhile isPrefixByte

/-! ## What each routine consumes -/

variable {intResult : X86InstructionPrefixes → List Byte → Bool}
variable {p p' : X86InstructionPrefixes} {code rest : List Byte} {inst inst' : Instruction}

/-- INTERNAL: the prefix loop takes the architecture's prefix bytes.
SRC: arch/x86_64/decode.c:115-154 -/
theorem prefixFlags_isSome (b : Byte) : (prefixFlags b).isSome = isPrefixByte b := by
  revert b
  decide

/-- INTERNAL: `read_prefixes` stops at the first byte that is no prefix, with the flags of
all bytes before it. SRC: arch/x86_64/decode.c:115-154 -/
theorem readPrefixes_append {prefixes : List Byte} {b : Byte}
    (h : ∀ c ∈ prefixes, isPrefixByte c) (hb : isPrefixByte b = false) :
    readPrefixes p (prefixes ++ b :: rest) =
      .ok (prefixes.foldl (fun p c => p ||| (prefixFlags c).getD 0) p, b :: rest) := by
  induction prefixes generalizing p with
  | nil =>
    have hnone : prefixFlags b = none := by
      rw [← Option.isNone_iff_eq_none, ← Option.not_isSome, prefixFlags_isSome, hb]
      rfl
    simp only [List.nil_append, readPrefixes, hnone, List.foldl_nil]
  | cons c prefixes ih =>
    have hsome := h c List.mem_cons_self
    rw [← prefixFlags_isSome] at hsome
    obtain ⟨flags, hflags⟩ := Option.isSome_iff_exists.mp hsome
    rw [List.cons_append, List.foldl_cons, ← ih fun c' hc' => h c' (List.mem_cons_of_mem _ hc')]
    simp only [readPrefixes, hflags, Option.getD_some]

/-- INTERNAL: the loop over the prefixes stops at the first byte that is none. -/
theorem readPrefixes_eq_ok (h : readPrefixes p code = .ok (p', rest)) :
    rest = code.dropWhile isPrefixByte := by
  induction code generalizing p with
  | nil => cases h
  | cons b code ih =>
    have hsome := prefixFlags_isSome b
    rw [readPrefixes] at h
    cases hf : prefixFlags b with
    | some flags =>
      rw [hf] at h hsome
      rw [List.dropWhile_cons_of_pos hsome.symm]
      exact ih h
    | none =>
      rw [hf] at h hsome
      simp only [Except.ok.injEq, Prod.mk.injEq] at h
      rw [List.dropWhile_cons_of_neg (by rw [← hsome]; decide)]
      exact h.2.symm

/-- INTERNAL: `decode_rm_operand` takes the displacement of its `mod`.
SRC: arch/x86_64/decode.c:321-429 -/
theorem decodeRmOperand_eq_ok {oper oper' : Operand} {modrm : Byte} {rm : ℕ}
    (h : decodeRmOperand code oper p (modrm.toNat / 64 % 4) rm = .ok (oper', rest)) :
    ∃ bytes, code = bytes ++ rest ∧ bytes.length = displacementLength modrm := by
  simp only [decodeRmOperand, bind_eq_ok, Prod.exists, Except.ok.injEq, Prod.mk.injEq] at h
  obtain ⟨d, code', hd, base, -, -, rfl⟩ := h
  unfold readDisplacement at hd
  unfold displacementLength
  split at hd
  · rename_i hmod
    rw [hmod]
    simp only [Except.ok.injEq, Prod.mk.injEq] at hd
    exact ⟨[], hd.2, rfl⟩
  · rename_i hmod
    simp only [readByte, bind_eq_ok, next_eq_ok, Prod.exists, Except.ok.injEq, Prod.mk.injEq] at hd
    obtain ⟨b, code₁, rfl, -, rfl⟩ := hd
    rw [hmod]
    exact ⟨[b], rfl, rfl⟩
  · rename_i hmod
    simp only [bind_eq_ok, littleEndian_eq_ok, Prod.exists, Except.ok.injEq, Prod.mk.injEq] at hd
    obtain ⟨v, code₁, ⟨bytes, rfl, hlen, -⟩, -, rfl⟩ := hd
    rw [hmod]
    exact ⟨bytes, rfl, hlen⟩
  · cases hd

/-- INTERNAL: a move between a register and memory takes a ModRM byte and its displacement.
SRC: arch/x86_64/decode.c:438-456 -/
theorem decodeMov_modrm_eq_ok {source dest : X86OperandTypes}
    (hsource : source ≠ .moffs16_32_64)
    (h : decodeMov p code inst source dest = .ok (inst', rest)) :
    ∃ modrm bytes, code = modrm :: (bytes ++ rest) ∧
      bytes.length = displacementLength modrm := by
  cases source <;>
    simp only [decodeMov, readModrm, readByte, bind_eq_ok, next_eq_ok, Prod.exists,
      Except.ok.injEq, Prod.mk.injEq, reduceCtorEq, ne_eq, not_true_eq_false] at h hsource
  all_goals
    obtain ⟨m, code₁, ⟨modrm, code₂, rfl, rfl, rfl⟩, reg, -, rm, code₃, hrm, -, rfl⟩ := h
    obtain ⟨bytes, rfl, hlen⟩ := decodeRmOperand_eq_ok hrm
    exact ⟨modrm, bytes, rfl, hlen⟩

/-- INTERNAL: the opcode switch takes the operands the architecture gives the opcode when no
address-size prefix is present, whatever prefixes are. SRC: arch/x86_64/decode.c:507-516 -/
theorem decodeOpcode_eq_ok {opcode : Byte}
    (h : decodeOpcode intResult p opcode.toNat code inst = .ok (inst', rest)) :
    ∃ operands, code = operands ++ rest ∧
      operands.length = operandLength false opcode code := by
  have hmodrm : ∀ {source dest}, source ≠ X86OperandTypes.moffs16_32_64 →
      decodeMov p code inst source dest = .ok (inst', rest) →
      ∃ operands, code = operands ++ rest ∧ operands.length = modrmLength code := by
    intro source dest hsource hmov
    obtain ⟨modrm, bytes, rfl, hlen⟩ := decodeMov_modrm_eq_ok hsource hmov
    exact ⟨modrm :: bytes, rfl, by rw [List.length_cons, hlen, modrmLength, Nat.add_comm]⟩
  unfold decodeOpcode at h
  unfold operandLength
  split at h
  · rename_i hop
    simp only [decodeMov, bind_eq_ok, littleEndian_eq_ok, if_true, Prod.exists, Except.ok.injEq,
      Prod.mk.injEq] at h
    obtain ⟨v, code₁, ⟨bytes, rfl, hlen, -⟩, -, rfl⟩ := h
    rw [hop]
    exact ⟨bytes, rfl, hlen⟩
  · rename_i hop
    rw [hop]
    exact hmodrm (by decide) h
  · rename_i hop
    rw [hop]
    exact hmodrm (by decide) h
  · rename_i hop
    rw [hop]
    exact hmodrm (by decide) h
  · rename_i hop
    rw [hop]
    exact hmodrm (by decide) h
  · cases h
  · rename_i hop
    simp only [decodeInt, readByte, bind_eq_ok, next_eq_ok, Prod.exists, Except.ok.injEq,
      Prod.mk.injEq] at h
    obtain ⟨_, _, ⟨b, _, rfl, -, rfl⟩, hif⟩ := h
    rw [hop]
    split at hif
    · simp only [Except.ok.injEq, Prod.mk.injEq] at hif
      exact ⟨[b], by rw [hif.2]; rfl, rfl⟩
    · cases hif
  · cases h

/-- INTERNAL: no opcode of the two-byte map is accepted. SRC: arch/x86_64/decode.c:500-518 -/
theorem decodeOpcode_escape (second : Byte) :
    decodeOpcode intResult p (0x100 + second.toNat) code inst = .error .rejected := by
  unfold decodeOpcode
  split <;> first | rfl | omega

/-! ## Instructions -/

/-- INTERNAL: the bytes `decode_instruction` takes: the prefixes, the opcode and its operands. -/
def decodedLength (code : List Byte) : ℕ :=
  match code.dropWhile isPrefixByte with
  | opcode :: operands =>
    (code.takeWhile isPrefixByte).length + 1 + operandLength false opcode operands
  | [] => (code.takeWhile isPrefixByte).length

/-- INTERNAL: the length of an accepted instruction is the number of bytes taken, as an `int`.
SRC: arch/x86_64/decode.c:491-521 -/
theorem decodeInstruction_length (h : decodeInstruction intResult code inst = .ok inst') :
    inst'.length = BitVec.ofNat 32 (decodedLength code) ∧ code.dropWhile isPrefixByte ≠ [] := by
  simp only [decodeInstruction, bind_eq_ok, Prod.exists, Except.ok.injEq] at h
  obtain ⟨p, code₀, hprefixes, opcode, code₁, hopcode, inst₁, rest, hdecode, rfl⟩ := h
  have hdrop := readPrefixes_eq_ok hprefixes
  have hsplit := congrArg List.length
    (List.takeWhile_append_dropWhile (p := isPrefixByte) (l := code))
  rw [List.length_append] at hsplit
  rw [decodedLength]
  rw [← hdrop] at hsplit ⊢
  simp only [readOpcode, readByte, bind_eq_ok, next_eq_ok, Prod.exists] at hopcode
  obtain ⟨first, _, rfl, hop⟩ := hopcode
  refine ⟨?_, List.cons_ne_nil _ _⟩
  split at hop
  · -- the escape byte leads to an opcode above ff
    simp only [bind_eq_ok, next_eq_ok, Prod.exists, Except.ok.injEq, Prod.mk.injEq] at hop
    obtain ⟨second, _, -, rfl, -⟩ := hop
    rw [decodeOpcode_escape] at hdecode
    cases hdecode
  · simp only [Except.ok.injEq, Prod.mk.injEq] at hop
    obtain ⟨rfl, rfl⟩ := hop
    obtain ⟨operands, rfl, hlen⟩ := decodeOpcode_eq_ok hdecode
    simp only [List.length_cons, List.length_append] at hsplit
    dsimp only
    congr 1
    omega

/-- INTERNAL: the address-size prefix changes the length of opcode a1 only, by four. -/
theorem architectureLength_eq (code : List Byte) (h : code.dropWhile isPrefixByte ≠ []) :
    (ShortOffset code → decodedLength code = architectureLength code + 4) ∧
      (¬ShortOffset code → decodedLength code = architectureLength code) := by
  obtain ⟨opcode, operands, hdrop⟩ := List.exists_cons_of_ne_nil h
  simp only [ShortOffset, decodedLength, architectureLength, hdrop, List.head?_cons,
    Option.some.injEq]
  constructor
  · rintro ⟨rfl, hmem⟩
    have hcontains : (code.takeWhile isPrefixByte).contains 0x67 = true := by
      rwa [List.contains_iff_mem]
    rw [hcontains]
    rfl
  · intro hshort
    congr 1
    by_cases hmem : 0x67 ∈ code.takeWhile isPrefixByte
    · have ha1 : opcode.toNat ≠ 0xa1 := fun he => hshort ⟨BitVec.eq_of_toNat_eq he, hmem⟩
      unfold operandLength
      split <;> first | rfl | contradiction
    · have hcontains : (code.takeWhile isPrefixByte).contains 0x67 = false := by
        rw [← Bool.not_eq_true, List.contains_iff_mem]
        exact hmem
      rw [hcontains]

/-- SOURCE: arch/x86_64/decode.c:491-521, arch/x86_64/exception.c:23-43 — **decoded lengths.**
The length of an accepted instruction is the architecture's, and the skip handler resumes
right behind it, exactly unless the instruction is a moffs load under an address-size
prefix or too long for an `int`. -/
theorem length_eq_iff (intResult : X86InstructionPrefixes → List Byte → Bool) (code : List Byte)
    (inst inst' : Instruction) (h : decodeInstruction intResult code inst = .ok inst') :
    (inst'.length.toInt = architectureLength code ∧
        ∀ rip : BitVec 64, memSkipHandler intResult code rip inst =
          .ok (rip + BitVec.ofNat 64 (architectureLength code))) ↔
      ¬ShortOffset code ∧ architectureLength code < 2 ^ 31 := by
  obtain ⟨hlen, hne⟩ := decodeInstruction_length h
  obtain ⟨hshort, hlong⟩ := architectureLength_eq code hne
  have hint : inst'.length.toInt = if 2 * (decodedLength code % 2 ^ 32) < 2 ^ 32
      then ((decodedLength code % 2 ^ 32 : ℕ) : Int)
      else ((decodedLength code % 2 ^ 32 : ℕ) : Int) - ((2 ^ 32 : ℕ) : Int) := by
    rw [hlen, BitVec.toInt_eq_toNat_cond, BitVec.toNat_ofNat]
  have hskip : ∀ rip : BitVec 64, memSkipHandler intResult code rip inst =
      .ok (rip + inst'.length.signExtend 64) := fun rip => by
    rw [memSkipHandler, h, ok_bind]
  constructor
  · rintro ⟨harch, -⟩
    rw [hint] at harch
    refine ⟨fun hs => ?_, ?_⟩
    · -- four bytes too many are never four bytes too many modulo 2 ^ 32
      rw [hshort hs] at harch
      split at harch <;> omega
    · split at harch <;> omega
  · rintro ⟨hs, hlt⟩
    rw [hlong hs, if_pos (by omega), Nat.mod_eq_of_lt (by omega)] at hint
    refine ⟨hint, fun rip => ?_⟩
    rw [hskip, BitVec.signExtend, hint, BitVec.ofInt_natCast]

/-- INTERNAL: a load of `rax` from a 64-bit offset behind an operand-size prefix. -/
theorem length_eq_iff_moffs :
    let code : List Byte := [0x66, 0xa1, 1, 2, 3, 4, 5, 6, 7, 8]
    let inst : Instruction := ⟨.mov, 0, ⟨.register, 0, .reg .al⟩, ⟨.register, 0, .reg .al⟩⟩
    ∃ inst', decodeInstruction (fun _ _ => true) code inst = .ok inst' ∧
      inst'.length.toInt = architectureLength code ∧
      memSkipHandler (fun _ _ => true) code 0x1000 inst = .ok 0x100a := by
  intro code inst
  refine ⟨_, rfl, ?_⟩
  obtain ⟨hlen, hrip⟩ := (length_eq_iff (fun _ _ => true) code inst _ rfl).mpr
    ⟨by unfold ShortOffset; decide, by decide⟩
  exact ⟨hlen, hrip 0x1000⟩

/-- INTERNAL: the same load behind an address-size prefix: the architecture takes a four-byte
offset and an instruction of six bytes, the decoder ten. -/
theorem length_wrong_moffs32 :
    let code : List Byte := [0x67, 0xa1, 1, 2, 3, 4, 0x90, 0x90, 0x90, 0x90]
    let inst : Instruction := ⟨.mov, 0, ⟨.register, 0, .reg .al⟩, ⟨.register, 0, .reg .al⟩⟩
    ∃ inst', decodeInstruction (fun _ _ => true) code inst = .ok inst' ∧
      inst'.length.toInt = 10 ∧ architectureLength code = 6 ∧
      memSkipHandler (fun _ _ => true) code 0x1000 inst = .ok 0x100a :=
  ⟨_, rfl, by decide, by decide, rfl⟩

end Simbench.Analysis.X86DecodeLength
