import Simbench.Analysis.ArmSectionRequests
import Simbench.Analysis.MemoryCopies
import Simbench.Program.ArmVectors

/-!
# Exceptions reach the handler installed last

`load_vectors` copies vectors, trampolines and slots; the first two stay as they are, and a slot
has what was installed last. `mem_init` maps the vector base to the copy, and the copy and the image
to themselves, and no later mapping changes that: an exception finds its slot, and a handler is
stored where it should be, with the MMU on or off.
-/

set_option autoImplicit false

namespace Simbench.Analysis.ArmExceptionDispatch

open Simbench.Library.ByteCopies Simbench.Library.ByteParser Simbench.Library.ByteWords
open Simbench.Library.LastWrite
open Simbench.Program.ArmSections hiding Call runCall
open Simbench.Program.ArmCaches Simbench.Program.ArmCacheFlush Simbench.Program.ArmVectors
open Simbench.Analysis.ArmSectionTable Simbench.Analysis.ArmSectionRequests

/-! ## Addresses in a section -/

/-- INTERNAL: the mask of a section leaves the address in its section. -/
theorem offset_and (va : Word) : (va &&& 0xfffff).toNat = va.toNat % 2 ^ 20 := by
  rw [BitVec.toNat_and]
  exact Nat.and_two_pow_sub_one_eq_mod va.toNat 20

/-- INTERNAL: a virtual address through its descriptor, by the section it names. -/
theorem translate_section {t : Table} {va : Word} {kind : Kind} {j : BitVec 12}
    (h : readWord t (sectionIndex va) = kind.descriptor (sectionBase j)) :
    sectionTranslate t va = some (BitVec.ofNat 32 (j.toNat * 2 ^ 20 + va.toNat % 2 ^ 20)) := by
  have hbase : sectionBase j &&& 0xfff00000 = sectionBase j := by
    have hindex : sectionIndex (sectionBase j) = j := by
      apply BitVec.eq_of_toNat_eq
      rw [sectionIndex_toNat, sectionBase_toNat]
      omega
    rw [show (0xfff00000 : Word) = ~~~(memGetPageSize - 1) from rfl, page_eq_sectionBase, hindex]
  rw [translate_descriptor h, hbase, BitVec.ofNat_add, ← offset_and, BitVec.ofNat_toNat,
    BitVec.setWidth_eq, sectionBase]

/-- INTERNAL: an address of a section mapped to itself is translated to itself. -/
theorem translate_self {t : Table} {va : Word} {kind : Kind}
    (h : readWord t (sectionIndex va) = kind.descriptor (sectionBase (sectionIndex va))) :
    sectionTranslate t va = some va := by
  rw [translate_section h, sectionIndex_toNat, Nat.div_add_mod', BitVec.ofNat_toNat,
    BitVec.setWidth_eq]

/-- INTERNAL: a mapping call keeps the words that are not zero. SRC: arch/arm/mem.c:352-413 -/
theorem memCreatePageMapping_keeps {kind : Kind} {pa va : Word} {s s' : State} {rc : ℕ}
    (h : memCreatePageMapping kind pa va s = .ok (rc, s')) :
    s'.memInited = s.memInited ∧
      ∀ i, readWord s.table i ≠ 0 → readWord s'.table i = readWord s.table i := by
  unfold memCreatePageMapping at h
  split at h
  · cases h
    exact ⟨rfl, fun _ _ => rfl⟩
  · dsimp only at h
    split at h
    · cases h
    · rename_i hfree
      cases h
      refine ⟨rfl, fun i hi => ?_⟩
      rw [readWord_writeWord]
      split
      · rename_i heq
        subst heq
        exact (Decidable.not_not.1 fun hne => hfree ⟨hi, hne⟩).symm
      · rfl

/-! ## What an installed handler is -/

/-- INTERNAL: what a call puts into the slot of an exception. -/
def installs (symbols : Symbols) (e : Exception) : Call → Option Word
  | .ifaultInstallReturn => if e = .pabt then some symbols.pabtReturn else none
  | .ifaultInstallBreak => if e = .pabt then some symbols.defaultHandler else none
  | .dfaultInstallSkip => if e = .dabt then some symbols.dabtSkip else none
  | .syscallInstallSkip => if e = .swi then some symbols.swiSkip else none
  | .undefInstallSkip => if e = .undef then some symbols.undefSkip else none
  | _ => none

/-- INTERNAL: the handler of an exception after some calls: the one installed last, or the one the
section was linked with. -/
def handlerAfter (symbols : Symbols) (calls : List Call) (e : Exception) : Word :=
  (lastWrite (fun call => (installs symbols e call).map some) calls).getD (initialHandler symbols e)

/-- INTERNAL: what a call puts into the variable of the interrupt handler. -/
def irqInstalls : Call → Option Word
  | .irqInstallHandler handler => some handler
  | _ => none

/-- INTERNAL: the interrupt handler in C, none at first. SRC: arch/arm/exception-handlers.S:50-52 -/
def irqHandlerAfter (calls : List Call) : Word :=
  (lastWrite (fun call => (irqInstalls call).map some) calls).getD 0

/-- INTERNAL: one more call changes the handler of an exception only if it installs one. -/
theorem handlerAfter_concat (symbols : Symbols) (calls : List Call) (call : Call) (e : Exception) :
    handlerAfter symbols (calls ++ [call]) e =
      (installs symbols e call).getD (handlerAfter symbols calls e) := by
  rw [handlerAfter, lastWrite_concat]
  cases installs symbols e call <;> rfl

/-- INTERNAL: one more call changes the C handler of the interrupts only if it installs one. -/
theorem irqHandlerAfter_concat (calls : List Call) (call : Call) :
    irqHandlerAfter (calls ++ [call]) = (irqInstalls call).getD (irqHandlerAfter calls) := by
  rw [irqHandlerAfter, lastWrite_concat]
  cases irqInstalls call <;> rfl

/-! ## Runs -/

/-- INTERNAL: the size of the section. -/
def size (symbols : Symbols) : ℕ :=
  (symbols.platform.vectorsEnd - symbols.platform.vectorsStart).toNat

/-- INTERNAL: where the linker puts things: no region reaches the last section of the address
space, the variables of the handlers are in the text, and the copy of the vectors is nowhere in
the image. SRC: platform/arm/vexpress-a9/sys.ld:3-60 -/
structure Layout (symbols : Symbols) : Prop where
  below : BelowLast symbols.platform
  ordered : symbols.platform.vectorsStart ≤ symbols.platform.vectorsEnd
  sizeGe : 4120 ≤ size symbols
  sizeLe : size symbols ≤ 0x10000
  apart : ∀ x, InRange symbols.platform.vectorsRelocate (size symbols) x →
    ¬ InRange symbols.platform.vectorsStart (size symbols) x ∧
      ¬ InRange symbols.archIrqHandler 4 x ∧ ¬ InRange symbols.resetHandler 4 x
  irqApart : ∀ x, InRange symbols.archIrqHandler 4 x →
    ¬ InRange symbols.platform.vectorsStart (size symbols) x ∧ ¬ InRange symbols.resetHandler 4 x
  irqText : symbols.platform.textStart ≤ symbols.archIrqHandler ∧
    symbols.archIrqHandler ≤ symbols.platform.textEnd
  resetText : symbols.platform.textStart ≤ symbols.resetHandler ∧
    symbols.resetHandler ≤ symbols.platform.textEnd

/-- INTERNAL: what a program may call: the table is written anew with the MMU off only, the MMU
goes on after that, and its own stores spare the vectors. -/
def Allowed (symbols : Symbols) (s : System) : Call → Prop
  | .memInit | .memReset => s.mmuOn = false
  | .mmuEnable => s.machine.sections.memInited = true
  | .store va _ => ∀ pa, translate s va = some pa → ∀ x, InRange pa 4 x →
      ¬ InRange symbols.platform.vectorsRelocate (size symbols) x ∧
        ¬ InRange symbols.archIrqHandler 4 x
  | _ => True

/-- INTERNAL: the states behind the reset handler's preparations and some calls of a program. -/
inductive Reachable (fuel : ℕ) (board : Board) : List Call → System → Prop
  | loaded {s s' : System} (hmmu : s.mmuOn = false)
      (hinited : s.machine.sections.memInited = false) (hmem : Loaded board.symbols s.mem)
      (hirq : load s.mem 4 board.symbols.archIrqHandler = 0)
      (hload : loadVectors fuel board.symbols s = some s') :
      Reachable fuel board [] (enableCaches s')
  | call {calls : List Call} {s s' : System} (h : Reachable fuel board calls s) (call : Call)
      (hallowed : Allowed board.symbols s call) (hrun : runCall fuel board call s = .ok s') :
      Reachable fuel board (calls ++ [call]) s'

/-! ## The invariant -/

/-- INTERNAL: `mem_init` has mapped all it asks for, the vectors high. -/
def Mapped (platform : Platform) (t : Table) : Prop :=
  ∃ ctrl, vectorVaddr ctrl = 0xffff0000 ∧ OffsetsAgree platform ctrl ∧
    ∀ i d, Requested platform ctrl i d → readWord t i = d

/-- INTERNAL: the copy in memory, with the handlers of some calls in its slots. -/
structure Copy (symbols : Symbols) (calls : List Call) (mem : Bytes 32) : Prop where
  vector : ∀ e : Exception, load mem 4 (symbols.platform.vectorsRelocate +
    BitVec.ofNat 32 e.vector) = branch e.vector e.trampoline
  trampoline : ∀ e : Exception, load mem 4 (symbols.platform.vectorsRelocate +
    BitVec.ofNat 32 e.trampoline) = loadPc e.trampoline e.handler
  handler : ∀ e : Exception, load mem 4 (symbols.platform.vectorsRelocate +
    BitVec.ofNat 32 e.handler) = handlerAfter symbols calls e
  irq : load mem 4 symbols.archIrqHandler = irqHandlerAfter calls

/-- INTERNAL: what is kept of the MMU: high vectors, and once the tables are built, their mapping of
the image; it is enabled behind `mem_init` only. -/
structure Mmu (platform : Platform) (m : Machine) : Prop where
  high : vectorVaddr m.control = 0xffff0000
  mapped : m.sections.memInited = true → Mapped platform m.sections.table
  ready : m.control.getLsbD 0 = true → m.sections.memInited = true

/-- INTERNAL: what is kept: the copy of the vectors with the handlers installed, and tables that map
it where the processor looks for it. -/
structure Invariant (symbols : Symbols) (calls : List Call) (s : System) : Prop where
  copy : Copy symbols calls s.mem
  mmu : Mmu symbols.platform s.machine

variable {symbols : Symbols} {board : Board} {calls : List Call} {s : System}

/-! ## Addresses -/

/-- INTERNAL: the words that hold the handlers lie in the copied vectors. -/
theorem handler_le (e : Exception) : e.handler + 4 ≤ 4120 := by cases e <;> decide

/-- INTERNAL: the trampolines lie in the first page of the vectors. -/
theorem trampoline_le (e : Exception) : e.trampoline + 4 ≤ 4096 := by cases e <;> decide

/-- INTERNAL: the vectors lie in the first page of the copy. -/
theorem vector_le (e : Exception) : e.vector + 4 ≤ 4096 := by cases e <;> decide

/-- INTERNAL: the words that hold the handlers lie behind the first page.
SRC: arch/arm/vectors.S:58-74 -/
theorem le_handler (e : Exception) : 4096 ≤ e.handler := by cases e <;> decide

/-- INTERNAL: an address between the ends of a region lies in a section that region covers. -/
theorem covers_of_le {a b x : Word} (ha : a ≤ x) (hb : x ≤ b) : Covers a b (sectionIndex x) := by
  rw [BitVec.le_def] at ha hb
  rw [Covers, BitVec.le_def, BitVec.le_def, sectionIndex_toNat, sectionIndex_toNat,
    sectionIndex_toNat]
  exact ⟨Nat.div_le_div_right ha, Nat.div_le_div_right hb⟩

/-- INTERNAL: an address of a region that is mapped to itself, with the MMU on or off. -/
theorem Mmu.translate_requested (h : Mmu symbols.platform s.machine) {va : Word} (hreq : ∀ ctrl,
    OffsetsAgree symbols.platform ctrl → vectorVaddr ctrl = 0xffff0000 →
    Requested symbols.platform ctrl (sectionIndex va)
      (Kind.data.descriptor (sectionBase (sectionIndex va)))) :
    translate s va = some va := by
  unfold Program.ArmVectors.translate
  split
  · rename_i hmmu
    obtain ⟨ctrl, hhigh, hagree, hmapped⟩ := h.mapped (h.ready hmmu)
    exact translate_self (hmapped _ _ (hreq ctrl hagree hhigh))
  · rfl

/-- INTERNAL: a word of the section as it was linked. -/
theorem translate_linked (hlayout : Layout symbols) (h : Mmu symbols.platform s.machine)
    (e : Exception) :
    translate s (slot symbols e) = some (slot symbols e) := by
  refine h.translate_requested fun ctrl _ _ => .vectors (covers_of_le ?_ ?_)
  all_goals
    have horder := hlayout.ordered
    have hsize := hlayout.sizeGe
    have hhandler := handler_le e
    have hend := symbols.platform.vectorsEnd.isLt
    rw [BitVec.le_def] at horder
    rw [size, BitVec.toNat_sub, show 2 ^ 32 - symbols.platform.vectorsStart.toNat +
      symbols.platform.vectorsEnd.toNat = symbols.platform.vectorsEnd.toNat -
        symbols.platform.vectorsStart.toNat + 2 ^ 32 by omega, Nat.add_mod_right,
      Nat.mod_eq_of_lt (by omega)] at hsize
    rw [BitVec.le_def, slot, BitVec.toNat_add, BitVec.toNat_ofNat,
      Nat.mod_eq_of_lt (show e.handler < 2 ^ 32 by omega), Nat.mod_eq_of_lt (by omega)]
    omega

/-- INTERNAL: the offset of the copy in its section. -/
theorem relocated_mod {platform : Platform} {ctrl : Word} (hagree : OffsetsAgree platform ctrl)
    (hhigh : vectorVaddr ctrl = 0xffff0000) :
    platform.vectorsRelocate.toNat % 2 ^ 20 = 0xf0000 := by
  rw [OffsetsAgree, hhigh] at hagree
  exact hagree.symm

/-- INTERNAL: offsets into the copy of the vectors do not wrap around. -/
theorem toNat_relocated {platform : Platform} (hbelow : BelowLast platform) {k : ℕ}
    (hk : k < 0x10000) : (platform.vectorsRelocate + BitVec.ofNat 32 k).toNat =
      platform.vectorsRelocate.toNat + k := by
  have hrelocated := hbelow.relocated
  rw [BitVec.lt_def, show (0xffe00000 : Word).toNat = 0xffe00000 from rfl] at hrelocated
  rw [BitVec.toNat_add, BitVec.toNat_ofNat, Nat.mod_eq_of_lt (show k < 2 ^ 32 by omega),
    Nat.mod_eq_of_lt (by omega)]

/-- INTERNAL: the words of the copied vectors are translated to themselves. -/
theorem translate_relocated (hbelow : BelowLast symbols.platform)
    (h : Mmu symbols.platform s.machine) {k : ℕ} (hk : k < 0x10000) :
    translate s (symbols.platform.vectorsRelocate + BitVec.ofNat 32 k) =
      some (symbols.platform.vectorsRelocate + BitVec.ofNat 32 k) := by
  refine h.translate_requested fun ctrl hagree hhigh => .relocated (covers_of_le ?_ ?_)
  · rw [BitVec.le_def, toNat_relocated hbelow hk]
    omega
  · have hrelocated := hbelow.relocated
    rw [BitVec.lt_def, show (0xffe00000 : Word).toNat = 0xffe00000 from rfl] at hrelocated
    rw [BitVec.le_def, toNat_relocated hbelow hk, toNat_next]
    omega

/-- INTERNAL: the vector base leads to the copy. SRC: arch/arm/mem.c:197-218 -/
theorem translate_high (hbelow : BelowLast symbols.platform) (h : Mmu symbols.platform s.machine)
    (hmmu : s.mmuOn = true) {k : ℕ} (hk : k < 0x10000) :
    translate s (0xffff0000 + BitVec.ofNat 32 k) =
      some (symbols.platform.vectorsRelocate + BitVec.ofNat 32 k) := by
  obtain ⟨ctrl, hhigh, hagree, hmapped⟩ := h.mapped (h.ready hmmu)
  have hmod := relocated_mod hagree hhigh
  have hva : (0xffff0000 + BitVec.ofNat 32 k : Word).toNat = 0xffff0000 + k := by
    rw [BitVec.toNat_add, BitVec.toNat_ofNat, Nat.mod_eq_of_lt (show k < 2 ^ 32 by omega),
      Nat.mod_eq_of_lt (by change 0xffff0000 + k < 2 ^ 32; omega)]
    rfl
  have hindex : sectionIndex (0xffff0000 + BitVec.ofNat 32 k) =
      sectionIndex (vectorVaddr ctrl) := by
    apply BitVec.eq_of_toNat_eq
    rw [sectionIndex_toNat, sectionIndex_toNat, hva, hhigh]
    change _ = 0xffff0000 / 2 ^ 20
    omega
  have hword := hmapped _ _ .vectorBase
  rw [← hindex] at hword
  rw [Program.ArmVectors.translate, if_pos hmmu, translate_section hword, hva, sectionIndex_toNat]
  refine congrArg some (BitVec.eq_of_toNat_eq ?_)
  rw [toNat_relocated hbelow hk, BitVec.toNat_ofNat]
  have hlt := symbols.platform.vectorsRelocate.isLt
  omega

/-! ## Taking an exception -/

/-- INTERNAL: an opcode put above its operand is added to it. -/
theorem toNat_or_operand (n opcode : ℕ) {d : ℕ} (hopcode : 2 ^ n * opcode + d < 2 ^ 32)
    (hd : d < 2 ^ n) :
    (BitVec.ofNat 32 (2 ^ n * opcode) ||| BitVec.ofNat 32 d).toNat = 2 ^ n * opcode + d := by
  rw [BitVec.toNat_or, BitVec.toNat_ofNat, BitVec.toNat_ofNat, Nat.mod_eq_of_lt (by omega),
    Nat.mod_eq_of_lt (by omega), Nat.two_pow_add_eq_or_of_lt hd]

/-- INTERNAL: the program counter reads eight bytes ahead of the instruction. -/
theorem add_eight_ofNat (pc : Word) {d : ℕ} (hd : 8 ≤ d) :
    pc + 8 + BitVec.ofNat 32 (d - 8) = pc + BitVec.ofNat 32 d := by
  rw [BitVec.add_assoc, show (8 : Word) = BitVec.ofNat 32 8 from rfl, ← BitVec.ofNat_add,
    Nat.add_sub_cancel' hd]

/-- INTERNAL: a branch in the vectors goes as far as its trampoline is away. -/
theorem jump_branch {source target : ℕ} {pc : Word} {s : System}
    (hfetch : load32 s pc = some (branch source target)) (hle : source + 8 ≤ target)
    (hsmall : target < 0x1000) (halign : (target - source) % 4 = 0) :
    jump s pc = some (pc + BitVec.ofNat 32 (target - source)) := by
  have hvalue : (branch source target).toNat = 2 ^ 24 * 0xea + (target - source - 8) / 4 :=
    toNat_or_operand 24 0xea (by omega) (by omega)
  have hopcode : branch source target >>> 24 = 0xea := by
    apply BitVec.eq_of_toNat_eq
    rw [BitVec.toNat_ushiftRight, Nat.shiftRight_eq_div_pow, hvalue]
    change _ = 0xea
    omega
  have hlow : ((branch source target).setWidth 24).toNat = (target - source - 8) / 4 := by
    rw [BitVec.toNat_setWidth, hvalue]
    omega
  have hsign : ((branch source target).setWidth 24).msb = false := by
    rw [BitVec.msb_eq_false_iff_two_mul_lt, hlow]
    omega
  have hoffset : (((branch source target).setWidth 24).signExtend 30 ++ 0#2 : BitVec 32) =
      BitVec.ofNat 32 (target - source - 8) := by
    apply BitVec.eq_of_toNat_eq
    rw [BitVec.signExtend_eq_setWidth_of_msb_false hsign, BitVec.toNat_append,
      BitVec.toNat_setWidth,
      hlow, Nat.shiftLeft_eq, BitVec.toNat_ofNat, Nat.zero_mod, Nat.or_zero, BitVec.toNat_ofNat]
    omega
  rw [jump, hfetch]
  simp only [Option.bind_eq_bind, Option.bind_some, hopcode, if_true]
  rw [hoffset, add_eight_ofNat pc (by omega)]

/-- INTERNAL: a load into the program counter goes where the word it reads says. -/
theorem jump_loadPc {source target : ℕ} {pc : Word} {s : System}
    (hfetch : load32 s pc = some (loadPc source target)) (hle : source + 8 ≤ target)
    (hsmall : target - source < 0x1000) :
    jump s pc = load32 s (pc + BitVec.ofNat 32 (target - source)) := by
  have hvalue : (loadPc source target).toNat = 2 ^ 12 * 0xe59ff + (target - source - 8) :=
    toNat_or_operand 12 0xe59ff (by omega) (by omega)
  have hnot : ¬ loadPc source target >>> 24 = 0xea := by
    intro h
    have htoNat := congrArg BitVec.toNat h
    rw [BitVec.toNat_ushiftRight, Nat.shiftRight_eq_div_pow, hvalue] at htoNat
    change _ = 0xea at htoNat
    omega
  have hopcode : loadPc source target >>> 12 = 0xe59ff := by
    apply BitVec.eq_of_toNat_eq
    rw [BitVec.toNat_ushiftRight, Nat.shiftRight_eq_div_pow, hvalue]
    change _ = 0xe59ff
    omega
  have himm : loadPc source target &&& 0xfff = BitVec.ofNat 32 (target - source - 8) := by
    apply BitVec.eq_of_toNat_eq
    rw [BitVec.toNat_and, hvalue, BitVec.toNat_ofNat]
    refine (Nat.and_two_pow_sub_one_eq_mod _ 12).trans ?_
    omega
  rw [jump, hfetch]
  simp only [Option.bind_eq_bind, Option.bind_some, if_neg hnot, hopcode, if_true, himm]
  rw [add_eight_ofNat pc (by omega)]

/-- INTERNAL: **an exception goes where its slot says.** -/
theorem Invariant.dispatch_eq (hbelow : BelowLast symbols.platform) (h : Invariant symbols calls s)
    (hmmu : s.mmuOn = true) (e : Exception) :
    dispatch s e = some (handlerAfter symbols calls e) := by
  have hfetch : ∀ k < 0x10000, load32 s (0xffff0000 + BitVec.ofNat 32 k) =
      some (load s.mem 4 (symbols.platform.vectorsRelocate + BitVec.ofNat 32 k)) := by
    intro k hk
    rw [load32, translate_high hbelow h.mmu hmmu hk]
    rfl
  have hstep : ∀ {i j : ℕ}, i ≤ j →
      (0xffff0000 + BitVec.ofNat 32 i + BitVec.ofNat 32 (j - i) : Word) =
        0xffff0000 + BitVec.ofNat 32 j := by
    intro i j hle
    rw [BitVec.add_assoc, ← BitVec.ofNat_add, Nat.add_sub_cancel' hle]
  have hvector := vector_le e
  have htrampoline := trampoline_le e
  have hhandler := handler_le e
  have hslot := le_handler e
  have hfirst := hfetch e.vector (by omega)
  rw [h.copy.vector] at hfirst
  have hsecond := hfetch e.trampoline (by omega)
  rw [h.copy.trampoline] at hsecond
  have hthird := hfetch e.handler (by omega)
  rw [h.copy.handler] at hthird
  have hforward : e.vector + 8 ≤ e.trampoline ∧ e.trampoline + 8 ≤ e.handler ∧
      (e.trampoline - e.vector) % 4 = 0 ∧ e.handler - e.trampoline < 0x1000 := by
    cases e <;> decide
  obtain ⟨hbranch, hload, halign, hnear⟩ := hforward
  rw [dispatch, h.mmu.high, jump_branch hfirst hbranch (by omega) halign, hstep (by omega)]
  change jump s _ = _
  rw [jump_loadPc hsecond hload hnear, hstep (by omega), hthird]

/-! ## Memory -/

/-- INTERNAL: a range inside of a range. -/
theorem inRange_of_offset {a x : Word} {k m n : ℕ} (hk : k + m ≤ n) (hn : n ≤ 2 ^ 32)
    (hx : InRange (a + BitVec.ofNat 32 k) m x) : InRange a n x := by
  rw [inRange_offset (by omega)] at hx
  unfold InRange
  omega

/-- INTERNAL: a word of the copy depends on the bytes of the copy alone. -/
theorem load_copy_congr (hlayout : Layout symbols) {mem mem' : Bytes 32}
    (hspared : ∀ x, InRange symbols.platform.vectorsRelocate (size symbols) x → mem' x = mem x)
    {k : ℕ} (hk : k + 4 ≤ 4120) :
    load mem' 4 (symbols.platform.vectorsRelocate + BitVec.ofNat 32 k) =
      load mem 4 (symbols.platform.vectorsRelocate + BitVec.ofNat 32 k) := by
  have hsize := hlayout.sizeGe
  have hsizeLe := hlayout.sizeLe
  exact load_congr (by decide) fun x hx => hspared x (inRange_of_offset (by omega) (by omega) hx)

/-- INTERNAL: a memory with the same copy and the same variable. -/
theorem Copy.congr (hlayout : Layout symbols) {mem mem' : Bytes 32} (h : Copy symbols calls mem)
    (hspared : ∀ x, InRange symbols.platform.vectorsRelocate (size symbols) x ∨
      InRange symbols.archIrqHandler 4 x → mem' x = mem x) : Copy symbols calls mem' := by
  have hcopy := fun k (hk : k + 4 ≤ 4120) =>
    load_copy_congr hlayout (fun x hx => hspared x (.inl hx)) hk
  refine ⟨fun e => ?_, fun e => ?_, fun e => ?_, ?_⟩
  · rw [hcopy _ (Nat.le_trans (vector_le e) (by decide)), h.vector]
  · rw [hcopy _ (Nat.le_trans (trampoline_le e) (by decide)), h.trampoline]
  · rw [hcopy _ (handler_le e), h.handler]
  · rw [← h.irq]
    exact load_congr (by decide) fun x hx => hspared x (.inr hx)

/-- INTERNAL: calls that install nothing and spare the copy. -/
theorem Copy.spared (hlayout : Layout symbols) {mem mem' : Bytes 32} (h : Copy symbols calls mem)
    {call : Call} (hinstalls : ∀ e, installs symbols e call = none)
    (hspared : ∀ x, InRange symbols.platform.vectorsRelocate (size symbols) x → mem' x = mem x)
    (hirq : load mem' 4 symbols.archIrqHandler = irqHandlerAfter (calls ++ [call])) :
    Copy symbols (calls ++ [call]) mem' := by
  have hcopy := fun k (hk : k + 4 ≤ 4120) => load_copy_congr hlayout hspared hk
  refine ⟨fun e => ?_, fun e => ?_, fun e => ?_, hirq⟩
  · rw [hcopy _ (Nat.le_trans (vector_le e) (by decide)), h.vector]
  · rw [hcopy _ (Nat.le_trans (trampoline_le e) (by decide)), h.trampoline]
  · rw [hcopy _ (handler_le e), h.handler, handlerAfter_concat, hinstalls, Option.getD_none]

/-- INTERNAL: storing a handler in its slot of the copy installs it, and no other. -/
theorem Copy.install (hlayout : Layout symbols) {mem : Bytes 32} (h : Copy symbols calls mem)
    {call : Call} {e : Exception} {v : Word}
    (hinstalls : ∀ e', installs symbols e' call = if e' = e then some v else none)
    (hirq : irqInstalls call = none) : Copy symbols (calls ++ [call])
      (store 4 (symbols.platform.vectorsRelocate + BitVec.ofNat 32 e.handler) v mem) := by
  have hsize := hlayout.sizeGe
  have hsizeLe := hlayout.sizeLe
  have hslot := handler_le e
  have hbelow : ∀ k, k + 4 ≤ e.handler → load (store 4 (symbols.platform.vectorsRelocate +
      BitVec.ofNat 32 e.handler) v mem) 4 (symbols.platform.vectorsRelocate + BitVec.ofNat 32 k) =
        load mem 4 (symbols.platform.vectorsRelocate + BitVec.ofNat 32 k) := by
    intro k hk
    exact load_store_of_apart (by decide) (fun x => apart_of_le hk (by omega)) v mem
  have habove : ∀ k, e.handler + 4 ≤ k → k < 4120 →
      load (store 4 (symbols.platform.vectorsRelocate +
      BitVec.ofNat 32 e.handler) v mem) 4 (symbols.platform.vectorsRelocate + BitVec.ofNat 32 k) =
        load mem 4 (symbols.platform.vectorsRelocate + BitVec.ofNat 32 k) := by
    intro k hk hsmall
    exact load_store_of_apart (by decide) (fun x hx hx' => apart_of_le hk (by omega) hx' hx) v mem
  refine ⟨fun e' => ?_, fun e' => ?_, fun e' => ?_, ?_⟩
  · rw [hbelow _ (Nat.le_trans (vector_le e') (le_handler e)), h.vector]
  · rw [hbelow _ (Nat.le_trans (trampoline_le e') (le_handler e)), h.trampoline]
  · rw [handlerAfter_concat, hinstalls]
    by_cases heq : e' = e
    · rw [if_pos heq, heq, load_store (by decide), Option.getD_some]
    · rw [if_neg heq, Option.getD_none, ← h.handler]
      have hdifferent : e'.handler + 4 ≤ e.handler ∨ e.handler + 4 ≤ e'.handler := by
        revert heq
        cases e <;> cases e' <;> decide
      rcases hdifferent with hlt | hlt
      · exact hbelow _ hlt
      · exact habove _ hlt (Nat.lt_of_lt_of_le (by omega) (handler_le e'))
  · rw [irqHandlerAfter_concat, hirq, Option.getD_none, ← h.irq]
    have happart : ∀ x, InRange symbols.archIrqHandler 4 x →
        ¬ InRange (symbols.platform.vectorsRelocate + BitVec.ofNat 32 e.handler) 4 x := by
      intro x hx hx'
      have hin : InRange symbols.platform.vectorsRelocate (size symbols) x :=
        inRange_of_offset (by omega) (by omega) hx'
      exact (hlayout.apart x hin).2.1 hx
    exact load_store_of_apart (by decide) happart v mem

/-! ## The control register -/

/-- INTERNAL: the vectors are high where bit 13 of the control register is set.
SRC: arch/arm/mem.c:197-206 -/
theorem high_iff (c : Word) : vectorVaddr c = 0xffff0000 ↔ c.getLsbD 13 = true := by
  rw [vectorVaddr, show ((1 <<< 13 : ℕ) : Word) = BitVec.twoPow 32 13 from rfl, BitVec.and_twoPow]
  cases c.getLsbD 13 <;> decide

/-- INTERNAL: bits that are set or cleared apart from the MMU's and the vectors'. -/
theorem Mmu.or {platform : Platform} {m : Machine} (h : Mmu platform m) (c : Word)
    (hready : c.getLsbD 0 = true → m.sections.memInited = true) :
    Mmu platform { m with control := m.control ||| c } where
  high := by
    rw [high_iff, BitVec.getLsbD_or, (high_iff _).1 h.high, Bool.true_or]
  mapped := h.mapped
  ready hbit := by
    rw [BitVec.getLsbD_or, Bool.or_eq_true] at hbit
    exact hbit.elim h.ready hready

/-- INTERNAL: `mem_mmu_disable` keeps what is known of the tables. SRC: arch/arm/mem.c:267 -/
theorem Mmu.off {platform : Platform} {m : Machine} (h : Mmu platform m) :
    Mmu platform { m with control := controlOff m.control } where
  high := by
    rw [high_iff, controlOff, BitVec.getLsbD_and, (high_iff _).1 h.high]
    rfl
  mapped := h.mapped
  ready hbit := by
    rw [controlOff, BitVec.getLsbD_and, Bool.and_eq_true] at hbit
    exact absurd hbit.2 (by decide)

/-- INTERNAL: `mem_init` notes that it has run. SRC: arch/arm/mem.c:231 -/
theorem memInit_inited {platform : Platform} {ctrl : Word} {s s' : State}
    (h : Program.ArmSections.memInit platform ctrl s = .ok s') : s'.memInited = true := by
  simp only [Program.ArmSections.memInit, bind_eq_ok, Prod.exists] at h
  obtain ⟨_, _, _, _, _, _, _, _, _, _, _, _, _, hlast⟩ := h
  obtain rfl := Except.ok.inj hlast
  rfl

/-- INTERNAL: `mem_init` maps for the vector base of the control register.
SRC: arch/arm/mem.c:158-234 -/
theorem Mmu.memInit {core : Core} {platform : Platform} {m m' : Machine}
    (hbelow : BelowLast platform) (hhigh : vectorVaddr m.control = 0xffff0000)
    (hrun : Program.ArmCaches.memInit core platform m = .ok m') : Mmu platform m' := by
  unfold Program.ArmCaches.memInit at hrun
  cases hsections : Program.ArmSections.memInit platform m.control m.sections with
  | error halt =>
    rw [hsections] at hrun
    cases hrun
  | ok sections =>
    rw [hsections] at hrun
    obtain rfl := Except.ok.inj hrun
    obtain ⟨hagree, -⟩ := sections_of_memInit hbelow hsections
    have hinited := memInit_inited hsections
    refine ⟨hhigh, fun _ => ⟨m.control, hhigh, hagree, ?_⟩, fun _ => hinited⟩
    intro i d hreq
    exact (readWord_of_memInit hbelow hsections i (requested_ne_zero hreq)).2 hreq

/-- INTERNAL: a mapping keeps what `mem_init` has mapped, since a section is never mapped twice. -/
theorem Mmu.mapping {platform : Platform} {m : Machine} (h : Mmu platform m) {kind : Kind}
    {pa va : Word} {r : ℕ × State}
    (hrun : memCreatePageMapping kind pa va m.sections = .ok r) :
    Mmu platform { m with sections := r.2 } := by
  obtain ⟨rc, s'⟩ := r
  obtain ⟨hinited, hkeeps⟩ := memCreatePageMapping_keeps hrun
  refine ⟨h.high, fun hnow => ?_, fun hbit => hinited.trans (h.ready hbit)⟩
  obtain ⟨ctrl, hhigh, hagree, hmapped⟩ := h.mapped (hinited.symm.trans hnow)
  refine ⟨ctrl, hhigh, hagree, fun i d hreq => ?_⟩
  have hword := hmapped i d hreq
  rw [← hword]
  exact hkeeps i (hword ▸ requested_ne_zero hreq)

/-- INTERNAL: `mem_mmu_enable` behind `mem_init` keeps what is kept of the MMU.
SRC: arch/arm/mem.c:242-257 -/
theorem Mmu.enable {core : Core} {platform : Platform} {m : Machine} (h : Mmu platform m)
    (hinited : m.sections.memInited = true) {r : List Operation × Machine}
    (hrun : memMmuEnable core m = .ok r) : Mmu platform r.2 := by
  simp only [memMmuEnable, bind_eq_ok] at hrun
  obtain ⟨before, -, after, -, hlast⟩ := hrun
  obtain rfl := Except.ok.inj hlast
  exact (h.or 1 fun _ => hinited).or _ fun _ => hinited

/-- INTERNAL: `mem_mmu_disable` keeps what is kept of the MMU. SRC: arch/arm/mem.c:267-284 -/
theorem Mmu.disable {fuel : ℕ} {ids : CacheIds} {core : Core} {r0 : Word} {platform : Platform}
    {m : Machine} (h : Mmu platform m) {r : List Instruction × Machine}
    (hrun : memMmuDisable fuel ids core r0 m = .ok r) : Mmu platform r.2 := by
  unfold memMmuDisable at hrun
  split at hrun
  · split at hrun
    · cases hoff : memArmv7CacheMmuOff fuel ids m.control with
      | none =>
        rw [hoff] at hrun
        cases hrun
      | some r' =>
        rw [hoff] at hrun
        obtain rfl := Except.ok.inj hrun
        unfold memArmv7CacheMmuOff at hoff
        cases hflush : flushCacheKernel fuel ids with
        | none =>
          rw [hflush] at hoff
          cases hoff
        | some code =>
          rw [hflush] at hoff
          obtain rfl := Option.some.inj hoff
          exact h.off
    · cases hrun
  · split at hrun
    · cases hrun
    · obtain rfl := Except.ok.inj hrun
      exact h.off

/-! ## Steps -/

/-- INTERNAL: a step of the machine below changes only that machine. -/
theorem onMachine_ok {α : Type} {f : Machine → Except Halt α} {machine : α → Machine}
    {s s' : System} (h : onMachine f machine s = .ok s') :
    ∃ a, f s.machine = .ok a ∧ s' = { s with machine := machine a } := by
  unfold onMachine at h
  cases hf : f s.machine with
  | error halt =>
    rw [hf] at h
    cases h
  | ok a =>
    rw [hf] at h
    exact ⟨a, rfl, (Except.ok.inj h).symm⟩

/-- INTERNAL: a store that does not fault changes the word its address translates to. -/
theorem store32_ok {va v : Word} {s s' : System} (h : store32 va v s = .ok s') :
    ∃ pa, translate s va = some pa ∧ s' = { s with mem := store 4 pa v s.mem } := by
  unfold store32 at h
  cases ht : translate s va with
  | none =>
    rw [ht] at h
    cases h
  | some pa =>
    rw [ht] at h
    exact ⟨pa, rfl, (Except.ok.inj h).symm⟩

/-- INTERNAL: a call that changes the machine alone. -/
theorem Invariant.machine (hlayout : Layout symbols) (h : Invariant symbols calls s) {call : Call}
    (hinstalls : ∀ e, installs symbols e call = none)
    (hirq : irqInstalls call = none) {m : Machine}
    (hmmu : Mmu symbols.platform m) : Invariant symbols (calls ++ [call]) { s with machine := m } :=
  ⟨h.copy.spared hlayout hinstalls (fun _ _ => rfl) (by
    rw [irqHandlerAfter_concat, hirq, h.copy.irq]
    rfl), hmmu⟩

/-- INTERNAL: a store that spares the copy and the variable. -/
theorem Invariant.spared (hlayout : Layout symbols) (h : Invariant symbols calls s) {call : Call}
    (hinstalls : ∀ e, installs symbols e call = none)
    (hirq : irqInstalls call = none) {pa v : Word}
    (happart : ∀ x, InRange pa 4 x → ¬ InRange symbols.platform.vectorsRelocate (size symbols) x ∧
      ¬ InRange symbols.archIrqHandler 4 x) :
    Invariant symbols (calls ++ [call]) { s with mem := store 4 pa v s.mem } := by
  have hload : load (store 4 pa v s.mem) 4 symbols.archIrqHandler =
      irqHandlerAfter (calls ++ [call]) := by
    rw [irqHandlerAfter_concat, hirq, Option.getD_none, ← h.copy.irq]
    exact load_store_of_apart (by decide) (fun x hx hpa => (happart x hpa).2 hx) v s.mem
  refine ⟨h.copy.spared hlayout hinstalls (fun x hx => ?_) hload, h.mmu⟩
  exact store_of_notMem (n := 4) (fun hpa => (happart x hpa).1 hx) v s.mem

/-- INTERNAL: the four functions that put a handler into the copy.
SRC: arch/arm/exception.c:15-34 -/
theorem install_eq (hlayout : Layout symbols) (h : Invariant symbols calls s) (e : Exception)
    (location : Word) :
    install symbols e location s = .ok { s with
      mem := store 4 (symbols.platform.vectorsRelocate + BitVec.ofNat 32 e.handler) location
        s.mem } := by
  have hhandler := handler_le e
  have haddress : slot symbols e - symbols.platform.vectorsStart +
      symbols.platform.vectorsRelocate =
        symbols.platform.vectorsRelocate + BitVec.ofNat 32 e.handler := by
    rw [slot, BitVec.add_comm symbols.platform.vectorsStart, BitVec.add_sub_cancel, BitVec.add_comm]
  rw [install, haddress, store32, translate_relocated hlayout.below h.mmu (by omega)]

/-- INTERNAL: a call that installs one handler keeps the invariant. -/
theorem Invariant.install (hlayout : Layout symbols) (h : Invariant symbols calls s) {call : Call}
    {e : Exception} {location : Word}
    (hinstalls : ∀ e', installs symbols e' call = if e' = e then some location else none)
    (hirq : irqInstalls call = none) {s' : System}
    (hrun : install symbols e location s = .ok s') : Invariant symbols (calls ++ [call]) s' := by
  rw [install_eq hlayout h] at hrun
  obtain rfl := Except.ok.inj hrun
  exact ⟨h.copy.install hlayout hinstalls hirq, h.mmu⟩

/-- INTERNAL: the words of the text are translated to themselves. -/
theorem translate_text (h : Mmu symbols.platform s.machine) {va : Word}
    (htext : symbols.platform.textStart ≤ va ∧ va ≤ symbols.platform.textEnd) :
    translate s va = some va :=
  h.translate_requested fun _ _ _ => .text (covers_of_le htext.1 htext.2)

/-- INTERNAL: the variable of the interrupt handler. SRC: arch/arm/exception.c:87-91 -/
theorem Invariant.irqInstall (hlayout : Layout symbols) (h : Invariant symbols calls s)
    {handler : Word} {s' : System} (hrun : archIrqInstallHandler symbols handler s = .ok s') :
    Invariant symbols (calls ++ [.irqInstallHandler handler]) s' := by
  rw [archIrqInstallHandler, store32, translate_text h.mmu hlayout.irqText] at hrun
  obtain rfl := Except.ok.inj hrun
  have hload : load (store 4 symbols.archIrqHandler handler s.mem) 4 symbols.archIrqHandler =
      irqHandlerAfter (calls ++ [.irqInstallHandler handler]) := by
    rw [load_store (by decide), irqHandlerAfter_concat]
    rfl
  refine ⟨h.copy.spared hlayout (fun e => rfl) (fun x hx => ?_) hload, h.mmu⟩
  exact store_of_notMem (n := 4) (hlayout.apart x hx).2.1 handler s.mem

/-- INTERNAL: a slot of the section as it was linked. -/
theorem Invariant.armInstall (hlayout : Layout symbols) (h : Invariant symbols calls s)
    {e : Exception} {vector : Word} {s' : System}
    (hrun : store32 (slot symbols e) vector s = .ok s') :
    Invariant symbols (calls ++ [.armInstall e vector]) s' := by
  have hsize := hlayout.sizeGe
  have hsizeLe := hlayout.sizeLe
  have hhandler := handler_le e
  rw [store32, translate_linked hlayout h.mmu] at hrun
  obtain rfl := Except.ok.inj hrun
  refine h.spared hlayout (fun e => rfl) rfl fun x hx => ?_
  have hin : InRange symbols.platform.vectorsStart (size symbols) x :=
    inRange_of_offset (by omega) (by omega) hx
  exact ⟨fun hcopy => (hlayout.apart x hcopy).1 hin, fun hirq => (hlayout.irqApart x hirq).1 hin⟩

/-- INTERNAL: **one call**, whichever it is, keeps the copy, the handlers and the tables. -/
theorem Invariant.step (hlayout : Layout board.symbols) {fuel : ℕ}
    (h : Invariant board.symbols calls s) {call : Call} (hallowed : Allowed board.symbols s call)
    {s' : System} (hrun : runCall fuel board call s = .ok s') :
    Invariant board.symbols (calls ++ [call]) s' := by
  cases call with
  | memInit =>
    rw [runCall] at hrun
    obtain ⟨m, hm, rfl⟩ := onMachine_ok hrun
    exact h.machine hlayout (fun e => rfl) rfl
      (Mmu.memInit hlayout.below h.mmu.high hm)
  | memReset =>
    rw [runCall] at hrun
    obtain ⟨m, hm, rfl⟩ := onMachine_ok hrun
    exact h.machine hlayout (fun e => rfl) rfl
      (Mmu.memInit hlayout.below (by exact h.mmu.high) hm)
  | mapping kind pa va =>
    rw [runCall] at hrun
    obtain ⟨r, hr, rfl⟩ := onMachine_ok hrun
    exact h.machine hlayout (fun e => rfl) rfl (h.mmu.mapping hr)
  | mmuEnable =>
    rw [runCall] at hrun
    obtain ⟨r, hr, rfl⟩ := onMachine_ok hrun
    exact h.machine hlayout (fun e => rfl) rfl (h.mmu.enable hallowed hr)
  | mmuDisable r0 =>
    rw [runCall] at hrun
    obtain ⟨r, hr, rfl⟩ := onMachine_ok hrun
    exact h.machine hlayout (fun e => rfl) rfl (h.mmu.disable hr)
  | cacheFlush =>
    rw [runCall] at hrun
    obtain ⟨r, hr, rfl⟩ := onMachine_ok hrun
    exact h.machine hlayout (fun e => rfl) rfl h.mmu
  | ifaultInstallReturn => exact h.install hlayout (fun e => rfl) rfl hrun
  | ifaultInstallBreak => exact h.install hlayout (fun e => rfl) rfl hrun
  | dfaultInstallSkip => exact h.install hlayout (fun e => rfl) rfl hrun
  | syscallInstallSkip => exact h.install hlayout (fun e => rfl) rfl hrun
  | undefInstallSkip => exact h.install hlayout (fun e => rfl) rfl hrun
  | irqInstallHandler handler => exact h.irqInstall hlayout hrun
  | armInstallReset vector =>
    change store32 _ _ _ = _ at hrun
    rw [store32, translate_text h.mmu hlayout.resetText] at hrun
    obtain rfl := Except.ok.inj hrun
    refine h.spared hlayout (fun e => rfl) rfl fun x hx => ?_
    exact ⟨fun hcopy => (hlayout.apart x hcopy).2.2 hx, fun hirq => (hlayout.irqApart x hirq).2 hx⟩
  | armInstall e vector =>
    refine h.armInstall hlayout ?_
    cases e <;> exact hrun
  | store va v =>
    obtain ⟨pa, hpa, rfl⟩ := store32_ok hrun
    exact h.spared hlayout (fun e => rfl) rfl (hallowed pa hpa)

/-- INTERNAL: `load_vectors` copies the vectors with their slots and sets the high-vectors bit, and
changes nothing else. SRC: arch/arm/reset.S:70-91 -/
theorem loadVectors_eq (hlayout : Layout symbols) {fuel : ℕ} (hfuel : 0x10000 < fuel) (s : System) :
    loadVectors fuel symbols s =
      some ⟨{ s.machine with control := s.machine.control ||| 1#32 <<< 13 },
      copied s.mem symbols.platform.vectorsRelocate symbols.platform.vectorsStart (size symbols)⟩ := by
  have hcopy : Program.MemoryKernels.memcpy fuel symbols.platform.vectorsRelocate
      symbols.platform.vectorsStart
      (symbols.platform.vectorsEnd - symbols.platform.vectorsStart) s.mem =
      some (symbols.platform.vectorsRelocate, copied s.mem symbols.platform.vectorsRelocate
        symbols.platform.vectorsStart (size symbols)) :=
    MemoryCopies.memcpy_upwards (.of_apart fun x hx => (hlayout.apart x hx).1)
      (Nat.lt_of_le_of_lt hlayout.sizeLe hfuel)
  rw [loadVectors]
  simp only [hcopy, Option.bind_eq_bind, Option.bind_some]

/-- INTERNAL: the copy as it is loaded. SRC: arch/arm/reset.S:23-34,70-91 -/
theorem Invariant.loaded (hlayout : Layout symbols) {fuel : ℕ} (hfuel : 0x10000 < fuel)
    {s s' : System} (hmmu : s.mmuOn = false) (hinited : s.machine.sections.memInited = false)
    (hmem : Loaded symbols s.mem) (hirq : load s.mem 4 symbols.archIrqHandler = 0)
    (hload : loadVectors fuel symbols s = some s') : Invariant symbols [] (enableCaches s') := by
  have hsize := hlayout.sizeGe
  have hsizeLe := hlayout.sizeLe
  rw [loadVectors_eq hlayout hfuel] at hload
  obtain rfl := Option.some.inj hload
  have hword : ∀ k, k + 4 ≤ 4120 → load (copied s.mem symbols.platform.vectorsRelocate
      symbols.platform.vectorsStart (size symbols)) 4
        (symbols.platform.vectorsRelocate + BitVec.ofNat 32 k) =
      load s.mem 4 (symbols.platform.vectorsStart + BitVec.ofNat 32 k) := by
    intro k hk
    exact load_copied (by omega) (by omega) s.mem _ _
  refine ⟨⟨fun e => ?_, fun e => ?_, fun e => ?_, ?_⟩, ?_⟩
  · exact (hword _ (Nat.le_trans (vector_le e) (by decide))).trans (hmem.vector e)
  · exact (hword _ (Nat.le_trans (trampoline_le e) (by decide))).trans (hmem.trampoline e)
  · exact (hword _ (handler_le e)).trans (hmem.handler e)
  · refine Eq.trans (load_congr (by decide) fun x hx => ?_) hirq
    exact copied_of_notMem fun hin => (hlayout.apart x hin).2.1 hx
  · refine ⟨?_, fun h => ?_, fun h => ?_⟩
    · rw [high_iff]
      simp [enableCaches]
    · exact absurd (hinited.symm.trans h) (by decide)
    · have hoff : s.machine.control.getLsbD 0 = false := hmmu
      change (s.machine.control ||| 1#32 <<< 13 ||| 1#32 <<< 11 ||| 1#32 <<< 12).getLsbD 0 = true at h
      rw [BitVec.getLsbD_or, BitVec.getLsbD_or, BitVec.getLsbD_or, hoff] at h
      exact absurd h (by decide)

/-- INTERNAL: **the invariant** of every reachable system. Induction on the calls. -/
theorem Reachable.invariant (hlayout : Layout board.symbols) {fuel : ℕ} (hfuel : 0x10000 < fuel)
    (h : Reachable fuel board calls s) : Invariant board.symbols calls s := by
  induction h with
  | loaded hmmu hinited hmem hirq hload =>
    exact Invariant.loaded hlayout hfuel hmmu hinited hmem hirq hload
  | call _ _ hallowed hrun ih => exact ih.step hlayout hallowed hrun

/-- INTERNAL: a step of the machine below does not fault on data. -/
theorem onMachine_ne {α : Type} {f : Machine → Except Halt α} {machine : α → Machine} {s : System} :
    onMachine f machine s ≠ .error .dataAbort := by
  unfold onMachine
  split <;> simp

/-- INTERNAL: a store to an address that translates to itself does not fault. -/
theorem store32_ne {va v : Word} (h : translate s va = some va) :
    store32 va v s ≠ .error .dataAbort := by
  rw [store32, h]
  simp

/-- INTERNAL: installing a handler does not fault, whether the MMU is on or not. -/
theorem install_ne (hlayout : Layout symbols) (h : Invariant symbols calls s) (e : Exception)
    (location : Word) : install symbols e location s ≠ .error .dataAbort := by
  rw [install_eq hlayout h]
  simp

/-- INTERNAL: no call faults but a store of the program itself. -/
theorem Invariant.runCall_ne (hlayout : Layout board.symbols) {fuel : ℕ}
    (h : Invariant board.symbols calls s) {call : Call} (hstore : ∀ va v, call ≠ .store va v) :
    runCall fuel board call s ≠ .error .dataAbort := by
  cases call with
  | memInit | memReset | mapping | mmuEnable | mmuDisable | cacheFlush =>
    rw [runCall]
    exact onMachine_ne
  | ifaultInstallReturn | ifaultInstallBreak => exact install_ne hlayout h _ _
  | dfaultInstallSkip | syscallInstallSkip | undefInstallSkip => exact install_ne hlayout h _ _
  | irqInstallHandler handler => exact store32_ne (translate_text h.mmu hlayout.irqText)
  | armInstallReset vector => exact store32_ne (translate_text h.mmu hlayout.resetText)
  | armInstall e vector =>
    have hslot := store32_ne (v := vector) (translate_linked hlayout h.mmu e)
    cases e <;> exact hslot
  | store va v => exact absurd rfl (hstore va v)

/-- SOURCE: arch/arm/vectors.S:5-79, arch/arm/reset.S:23-34,70-91, arch/arm/exception.c:15-91,
arch/arm/mem.c:158-284 — **exceptions reach the handler installed last**: after any calls, with the
MMU on, an exception ends at what the last call for it put into its slot, or at what the section was
linked with; so does the interrupt handler in C, and no call of these takes a data abort itself. -/
theorem dispatch_installed (board : Board) (hlayout : Layout board.symbols) {fuel : ℕ}
    (hfuel : 0x10000 < fuel) (calls : List Call) (s : System) (h : Reachable fuel board calls s) :
    (s.mmuOn = true → ∀ e, dispatch s e = some (handlerAfter board.symbols calls e)) ∧
    load s.mem 4 board.symbols.archIrqHandler = irqHandlerAfter calls ∧
    ∀ call, (∀ va v, call ≠ .store va v) → runCall fuel board call s ≠ .error .dataAbort := by
  have hinv := h.invariant hlayout hfuel
  exact ⟨fun hmmu e => hinv.dispatch_eq hlayout.below hmmu e, hinv.copy.irq,
    fun call hstore => hinv.runCall_ne hlayout hstore⟩

/-! ## A board -/

/-- INTERNAL: an image on the SA1100 whose vectors end its text.
SRC: platform/arm/sa1100/sys.ld:3-51 -/
def sa1100Symbols : Symbols where
  platform :=
    { sa1100Platform with vectorsStart := 0x20000, vectorsEnd := 0x21062, textEnd := 0x21070 }
  resetHandler := 0x10000
  irqHandlerTramp := 0x10100
  archIrqHandler := 0x10118
  pabtReturn := 0x10120
  dabtSkip := 0x10150
  swiSkip := 0x10154
  undefSkip := 0x10158

/-- INTERNAL: a board with that image, a StrongARM without a cache type register. -/
def sa1100Board : Board := ⟨⟨0x6901b119, 0, 0, false⟩, ⟨0, fun _ => 0⟩, sa1100Symbols⟩

/-- INTERNAL: the words of the section in an empty memory. -/
def sectionMemory (symbols : Symbols) : Bytes 32 := fun x =>
  let k := (x - symbols.platform.vectorsStart).toNat
  let words := [Exception.undef, .swi, .pabt, .dabt, .irq, .fiq].flatMap fun e =>
    [(e.vector, branch e.vector e.trampoline), (e.trampoline, loadPc e.trampoline e.handler),
      (e.handler, initialHandler symbols e)]
  ((words.lookup (k / 4 * 4)).getD 0).extractLsb' (8 * (k % 4)) 8

/-- INTERNAL: the memory of the example holds the vectors as they are linked. -/
theorem loaded_sectionMemory : Loaded sa1100Symbols (sectionMemory sa1100Symbols) := by
  refine ⟨fun e => ?_, fun e => ?_, fun e => ?_⟩
  all_goals cases e <;> rfl

/-- INTERNAL: ranges one of which ends where the other begins or before. -/
theorem notInRange_of_le {a b x : Word} {n m : ℕ} (hab : a.toNat + n ≤ b.toNat)
    (hb : b.toNat + m ≤ 2 ^ 32) (ha : InRange a n x) : ¬ InRange b m x := by
  intro hb'
  have hx := x.isLt
  have hlt := a.isLt
  rw [InRange, BitVec.toNat_sub] at ha hb'
  omega

/-- INTERNAL: the image of the example is laid out as the linker script has it. -/
theorem layout_sa1100 : Layout sa1100Symbols := by
  refine ⟨⟨by decide, by decide, by decide, by decide, by decide⟩, by decide, by decide, by decide,
    fun x hx => ⟨fun hx' => ?_, fun hx' => ?_, fun hx' => ?_⟩, fun x hx => ⟨fun hx' => ?_, fun hx' => ?_⟩,
    by decide, by decide⟩
  · exact notInRange_of_le (by decide) (by decide) hx' hx
  · exact notInRange_of_le (by decide) (by decide) hx' hx
  · exact notInRange_of_le (by decide) (by decide) hx' hx
  · exact notInRange_of_le (by decide) (by decide) hx hx'
  · exact notInRange_of_le (by decide) (by decide) hx' hx

/-- INTERNAL: the machine as it starts: nothing in the table, the MMU off. -/
def sa1100Start : System := ⟨⟨.start, .start (fun _ => 0) false, 0⟩, sectionMemory sa1100Symbols⟩

/-- INTERNAL: `mem_init` returns on that board. -/
theorem memInit_sa1100 : ∃ sections, Program.ArmCaches.memInit sa1100Board.core
    sa1100Symbols.platform ⟨.start, .start (fun _ => 0) false, 0x3800⟩ =
      .ok ⟨.start, sections, 0x3800⟩ ∧ sections.memInited = true := by
  have hinit : ∃ sections, Program.ArmSections.memInit sa1100Symbols.platform 0x3800
      (.start (fun _ => 0) false) = .ok sections := by
    simp only [Program.ArmSections.memInit, bzero_table]
    exact ⟨_, rfl⟩
  obtain ⟨sections, hsections⟩ := hinit
  refine ⟨sections, ?_, memInit_inited hsections⟩
  rw [Program.ArmCaches.memInit, hsections]
  rfl

/-- INTERNAL: the call of `mem_init` in a system is that of its machine. -/
theorem runCall_memInit {fuel : ℕ} {s : System} {m : Machine}
    (h : Program.ArmCaches.memInit board.core board.symbols.platform s.machine = .ok m) :
    runCall fuel board .memInit s = .ok { s with machine := m } := by
  rw [runCall, onMachine, h]
  rfl

/-- INTERNAL: the call of `mem_mmu_enable` in a system is that of its machine. -/
theorem runCall_mmuEnable {fuel : ℕ} {s : System} {r : List Operation × Machine}
    (h : memMmuEnable board.core s.machine = .ok r) :
    runCall fuel board .mmuEnable s = .ok { s with machine := r.2 } := by
  rw [runCall, onMachine, h]

/-- INTERNAL: from the preparations to the MMU, whatever memory holds. -/
theorem mmuOn_sa1100 (fuel : ℕ) (mem : Bytes 32) : ∃ s s',
    runCall fuel sa1100Board .memInit ⟨⟨.start, .start (fun _ => 0) false, 0x3800⟩, mem⟩ = .ok s ∧
      s.machine.sections.memInited = true ∧ runCall fuel sa1100Board .mmuEnable s = .ok s' ∧
      s'.mmuOn = true := by
  obtain ⟨sections, hsections, hinited⟩ := memInit_sa1100
  obtain ⟨c, henable⟩ : ∃ c : Word, memMmuEnable sa1100Board.core ⟨.start, sections, 0x3800⟩ =
      .ok ([.writeControl (0x3800 ||| 1 ||| c), .prefetchFlush, .btbFlush],
        ⟨.start, sections, 0x3800 ||| 1 ||| c⟩) := ⟨_, rfl⟩
  refine ⟨_, _, runCall_memInit hsections, hinited, runCall_mmuEnable henable, ?_⟩
  rw [System.mmuOn, BitVec.getLsbD_or]
  rfl

/-- INTERNAL: the machine of that board behind the enabling of its caches: bits 11 to 13 of the
control register. -/
theorem enableCaches_sa1100 (mem : Bytes 32) :
    enableCaches ⟨⟨.start, .start (fun _ => 0) false, 0 ||| 1#32 <<< 13⟩, mem⟩ =
      ⟨⟨.start, .start (fun _ => 0) false, 0x3800⟩, mem⟩ := by
  have hcontrol : (0 ||| 1#32 <<< 13 ||| 1#32 <<< 11 ||| 1#32 <<< 12 : Word) = 0x3800 := by decide
  rw [enableCaches]
  simp only [hcontrol]

/-- INTERNAL: the board with its tables on and the handler of the data fault benchmark. -/
theorem reachable_sa1100 {fuel : ℕ} (hfuel : 0x10000 < fuel) : ∃ s,
    Reachable fuel sa1100Board [.memInit, .mmuEnable, .dfaultInstallSkip] s ∧ s.mmuOn = true := by
  have hirq : load sa1100Start.mem 4 sa1100Symbols.archIrqHandler = 0 := by rfl
  have hoff : (0x3800 : Word).getLsbD 0 = false := by decide
  have hloaded : Reachable fuel sa1100Board [] _ := .loaded (s := sa1100Start) rfl rfl
    loaded_sectionMemory hirq (loadVectors_eq layout_sa1100 hfuel sa1100Start)
  generalize copied sa1100Start.mem _ _ _ = mem at hloaded
  replace hloaded := (enableCaches_sa1100 mem) ▸ hloaded
  obtain ⟨s, s', hinit, hinited, henable, hmmu⟩ := mmuOn_sa1100 fuel mem
  have hon := (hloaded.call .memInit hoff hinit).call .mmuEnable hinited henable
  exact ⟨_, hon.call .dfaultInstallSkip trivial
    (install_eq layout_sa1100 (hon.invariant layout_sa1100 hfuel) .dabt _), hmmu⟩

/-- INTERNAL: on that board a data abort reaches the handler installed, and an interrupt its
trampoline. -/
theorem dispatch_installed_sa1100 : ∃ fuel s,
    Reachable fuel sa1100Board [.memInit, .mmuEnable, .dfaultInstallSkip] s ∧
      dispatch s .dabt = some sa1100Symbols.dabtSkip ∧
      dispatch s .irq = some sa1100Symbols.irqHandlerTramp := by
  have hfuel : 0x10000 < 0x10001 := by decide
  obtain ⟨s, hreachable, hmmu⟩ := reachable_sa1100 hfuel
  obtain ⟨hdispatch, -, -⟩ := dispatch_installed sa1100Board layout_sa1100 hfuel _ s hreachable
  exact ⟨_, s, hreachable, hdispatch hmmu .dabt, hdispatch hmmu .irq⟩

end Simbench.Analysis.ArmExceptionDispatch
