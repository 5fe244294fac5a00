import Simbench.Program.X86Traps

/-!
# Trap frames of the x86-64 kernel

What the processor and `enter_intr` push is one list of words, and read from its end it is a
`struct mcontext`. `exit_intr` pops the same structure, whoever has written it in between.
-/

set_option autoImplicit false

namespace Simbench.Analysis.X86TrapFrames

open Simbench.Library.ByteCopies (InRange)
open Simbench.Library.ByteWords Simbench.Program.X86Traps
open Simbench.Program.X86Kernel (Trap)

/-! ## Runs of pushes and pops -/

/-- INTERNAL: code behind code runs from where the first ends. -/
theorem run_append (s : Machine) (code code' : List Instruction) :
    run s (code ++ code') = run (run s code) code' := by
  unfold run
  rw [List.foldl_append]

/-- INTERNAL: a push moves the stack pointer one word down. -/
theorem pushWord_rsp (s : Machine) (v : Word) : (s.pushWord v).gpr .rsp = s.gpr .rsp - 8 := by
  simp only [Machine.pushWord, Function.update_self]

/-- INTERNAL: a push leaves every register but the stack pointer alone. -/
theorem pushWord_of_ne (s : Machine) (v : Word) {r : Reg} (hr : r ≠ .rsp) :
    (s.pushWord v).gpr r = s.gpr r := by
  simp only [Machine.pushWord, Function.update_of_ne hr]

/-- INTERNAL: it stores its word at the old top. -/
theorem pushWord_mem (s : Machine) (v : Word) :
    (s.pushWord v).mem = store 8 (s.gpr .rsp - 8) v s.mem := rfl

/-- INTERNAL: words pushed one after the other lie on the stack in that order, the pointer below the
last. -/
theorem foldl_pushWord (words : List Word) (s : Machine) :
    words.foldl Machine.pushWord s =
      { s with
        gpr := Function.update s.gpr .rsp (below 8 (s.gpr .rsp) words.length)
        mem := pushAll 8 words (s.gpr .rsp) s.mem } := by
  induction words generalizing s with
  | nil => simp [pushAll, below_zero]
  | cons w words ih =>
    rw [List.foldl_cons, ih]
    unfold Machine.pushWord
    simp only [Function.update_self, Function.update_idem, List.length_cons,
      below_succ 8 (s.gpr .rsp) words.length, below_eight, pushAll]

/-- INTERNAL: pushing registers other than the stack pointer pushes their values. -/
theorem run_push {rs : List Reg} (hrs : .rsp ∉ rs) (s : Machine) :
    run s (rs.map .push) = (rs.map s.gpr).foldl Machine.pushWord s := by
  induction rs generalizing s with
  | nil => rfl
  | cons r rs ih =>
    rw [List.mem_cons, not_or] at hrs
    have hsame : rs.map (s.pushWord (s.gpr r)).gpr = rs.map s.gpr := by
      apply List.map_congr_left
      rintro r' hr'
      apply pushWord_of_ne
      rintro rfl
      exact hrs.2 hr'
    show run (s.pushWord (s.gpr r)) (rs.map .push) = _
    rw [ih hrs.2, hsame, List.map_cons, List.foldl_cons]

/-- INTERNAL: popping registers other than the stack pointer. -/
theorem run_pop {rs : List Reg} (hrs : .rsp ∉ rs) (s : Machine) :
    run s (rs.map .pop) =
      { s with
        gpr := Function.update (popAll 8 rs (s.gpr .rsp) s.mem s.gpr) .rsp
          (s.gpr .rsp + BitVec.ofNat 64 (8 * rs.length)) } := by
  induction rs generalizing s with
  | nil => simp [run, popAll]
  | cons r rs ih =>
    rw [List.mem_cons, not_or] at hrs
    show run (exec s (.pop r)) (rs.map .pop) = _
    rw [ih hrs.2]
    unfold exec Machine.set
    simp only [Function.update_of_ne hrs.1, Function.update_self, above_eight, List.length_cons]
    rw [Function.update_comm hrs.1, popAll_update hrs.2, Function.update_idem]
    rfl

/-! ## The frame -/

/-- INTERNAL: the registers `push_regs` saves behind the flags. -/
def savedRegs : List Reg :=
  [.rax, .rbx, .rcx, .rdx, .rdi, .rsi, .rbp, .r8, .r9, .r10, .r11, .r12, .r13, .r14, .r15]

/-- INTERNAL: the top of the frame; the processor aligns the stack to 16 bytes. -/
def top (s : Machine) : Word := s.gpr .rsp &&& ~~~0xf#64

/-- INTERNAL: what a field of the frame holds when the handler is entered. -/
def frameValue (errorCode : Option Word) (s : Machine) : Field → Word
  | .r15 => s.gpr .r15
  | .r14 => s.gpr .r14
  | .r13 => s.gpr .r13
  | .r12 => s.gpr .r12
  | .r11 => s.gpr .r11
  | .r10 => s.gpr .r10
  | .r9 => s.gpr .r9
  | .r8 => s.gpr .r8
  | .rbp => s.gpr .rbp
  | .rsi => s.gpr .rsi
  | .rdi => s.gpr .rdi
  | .rdx => s.gpr .rdx
  | .rcx => s.gpr .rcx
  | .rbx => s.gpr .rbx
  | .rax => s.gpr .rax
  | .flags => s.rflags &&& ~~~gateFlags
  | .rsp => below 8 (top s) 6
  | .extra => errorCode.getD 0
  | .rip => s.rip
  | .tempCS => s.cs.setWidth 64
  | .tempFLAGS => s.rflags
  | .tempSP => s.gpr .rsp
  | .tempSS => s.ss.setWidth 64

/-- INTERNAL: the frame in the order it is pushed in. -/
def frameWords (errorCode : Option Word) (s : Machine) : List Word :=
  mcontext.reverse.map (frameValue errorCode s)

/-- INTERNAL: the frame holds each register in its field. -/
theorem frameValue_field (errorCode : Option Word) (s : Machine) {r : Reg} (hr : r ≠ .rsp) :
    frameValue errorCode s r.field = s.gpr r := by
  cases r with
  | rsp => exact absurd rfl hr
  | _ => rfl

/-- INTERNAL: delivering an exception pushes five words, and the error code where there is one. -/
theorem deliver_eq (entry : Word) (errorCode : Option Word) (s : Machine) :
    deliver entry errorCode s =
      { s with
        gpr := Function.update s.gpr .rsp (below 8 (top s) (errorCode.toList.length + 5))
        rip := entry
        rflags := s.rflags &&& ~~~gateFlags
        cs := 8
        mem := pushAll 8 ([s.ss.setWidth 64, s.gpr .rsp, s.rflags, s.cs.setWidth 64, s.rip] ++
          errorCode.toList) (top s) s.mem } := by
  unfold deliver
  simp only [foldl_pushWord, Function.update_self, Function.update_idem]
  rfl

/-- INTERNAL: the error code, or the word `enter_intr` pushes in its place. -/
theorem run_deliver (entry : Word) (errorCode : Option Word) (s : Machine) :
    run (deliver entry errorCode s) (if errorCode.isSome then [] else [.pushImm 0]) =
      { s with
        gpr := Function.update s.gpr .rsp (below 8 (top s) 6)
        rip := entry
        rflags := s.rflags &&& ~~~gateFlags
        cs := 8
        mem := pushAll 8 [s.ss.setWidth 64, s.gpr .rsp, s.rflags, s.cs.setWidth 64, s.rip,
          errorCode.getD 0] (top s) s.mem } := by
  rw [deliver_eq]
  cases errorCode with
  | some e => rfl
  | none =>
    have hwords : [s.ss.setWidth 64, s.gpr .rsp, s.rflags, s.cs.setWidth 64, s.rip,
        (none : Option Word).getD 0] = ([s.ss.setWidth 64, s.gpr .rsp, s.rflags, s.cs.setWidth 64,
          s.rip] ++ (none : Option Word).toList) ++ [0] := rfl
    have hlast : ∀ (sp : Word) mem, pushAll 8 [0] sp mem = store 8 (below 8 sp 1) 0 mem :=
      fun _ _ => rfl
    rw [hwords, pushAll_append _ [0], hlast, below_below]
    show Machine.pushWord _ 0 = _
    unfold Machine.pushWord
    simp only [Function.update_self, Function.update_idem, ← below_eight, below_below]
    rfl

/-- INTERNAL: `push_regs`. SRC: arch/x86_64/trap.S:2-20 -/
theorem run_pushRegs (s : Machine) :
    run s pushRegs = (s.gpr .rsp :: s.rflags :: savedRegs.map s.gpr).foldl Machine.pushWord s := by
  have hsplit : pushRegs = [.push .rsp, .pushf] ++ savedRegs.map .push := rfl
  have hsaved : .rsp ∉ savedRegs := by decide
  have hsame : savedRegs.map ((s.pushWord (s.gpr .rsp)).pushWord s.rflags).gpr =
      savedRegs.map s.gpr :=
    rfl
  rw [hsplit, run_append, run_push hsaved]
  show (savedRegs.map ((s.pushWord (s.gpr .rsp)).pushWord s.rflags).gpr).foldl Machine.pushWord
    ((s.pushWord (s.gpr .rsp)).pushWord s.rflags) = _
  rw [hsame, List.foldl_cons, List.foldl_cons]

/-- INTERNAL: `enter_intr`, if its argument matches the vector. SRC: arch/x86_64/trap.S:42-49 -/
theorem run_enterIntr (entry : Word) (errorCode : Option Word) (s : Machine) :
    run (deliver entry errorCode s) (enterIntr errorCode.isSome) =
      { s with
        gpr := Function.update (Function.update s.gpr .rsp (below 8 (top s) 23)) .rdi
          (below 8 (top s) 23)
        rip := entry
        rflags := s.rflags &&& ~~~gateFlags
        cs := 8
        mem := pushAll 8 (frameWords errorCode s) (top s) s.mem } := by
  unfold enterIntr
  rw [run_append, run_append, run_deliver, run_pushRegs, foldl_pushWord]
  show (Machine.set _ .rdi _ : Machine) = _
  unfold Machine.set
  simp only [Function.update_self, Function.update_idem, below_below]
  have hwords : frameWords errorCode s = [s.ss.setWidth 64, s.gpr .rsp, s.rflags, s.cs.setWidth 64,
      s.rip, errorCode.getD 0] ++ (below 8 (top s) 6 :: (s.rflags &&& ~~~gateFlags) ::
        savedRegs.map (Function.update s.gpr .rsp (below 8 (top s) 6))) := rfl
  rw [hwords, pushAll_append]
  rfl

/-! ## Around the handler -/

/-- INTERNAL: the state a handler is entered in. -/
def entered (text : Text) (t : Trap) (errorCode : Option Word) (s : Machine) : Machine :=
  (run (deliver (text.entry t) errorCode s) (enterIntr (hasArg t) ++ arguments text t)).pushWord
    (text.behindCall t)

/-- INTERNAL: a vector's routine calls its handler with the frame and pops what that leaves. -/
theorem run_trap (text : Text) (fn : Handler) (t : Trap) (errorCode : Option Word) (s : Machine) :
    run (deliver (text.entry t) errorCode s) (trap text fn t) =
      run (fn (entered text t errorCode s)) exitIntr := by
  unfold trap entered
  rw [run_append, run_append]
  rfl

/-- INTERNAL: the instructions in front of the call leave the frame alone. -/
theorem run_arguments (text : Text) (t : Trap) (s : Machine) :
    (run s (arguments text t)).mem = s.mem ∧ (run s (arguments text t)).gpr .rsp = s.gpr .rsp ∧
      (run s (arguments text t)).gpr .rdi = s.gpr .rdi := by
  cases t with
  | unknown | unknownArg | gpf | timer => exact ⟨rfl, rfl, rfl⟩
  | syscall | irq | undef => exact ⟨rfl, rfl, rfl⟩
  | pageFault => exact ⟨rfl, rfl, rfl⟩

/-- INTERNAL: the frame has 23 words. -/
theorem length_frameWords (errorCode : Option Word) (s : Machine) :
    (frameWords errorCode s).length = 23 := rfl

section Entered

variable {text : Text} {t : Trap} {errorCode : Option Word} {s : Machine}

/-- INTERNAL: **the handler's view**: the frame at `rdi`, and the return address below it. -/
theorem entered_spec (hmatch : errorCode.isSome = hasArg t) :
    (entered text t errorCode s).gpr .rdi = below 8 (top s) 23 ∧
      (entered text t errorCode s).gpr .rsp = below 8 (top s) 24 ∧
      (entered text t errorCode s).mem =
        pushAll 8 (frameWords errorCode s ++ [text.behindCall t]) (top s) s.mem := by
  obtain ⟨hmem, hrsp, hrdi⟩ := run_arguments text t
    (run (deliver (text.entry t) errorCode s) (enterIntr errorCode.isSome))
  rw [run_enterIntr] at hmem hrsp hrdi
  unfold entered
  rw [← hmatch, run_append, run_enterIntr]
  refine ⟨?_, ?_, ?_⟩
  · rw [pushWord_of_ne _ _ Reg.noConfusion, hrdi]
    rfl
  · rw [pushWord_rsp, hrsp, ← below_eight]
    exact below_below 8 _ 23 1
  · rw [pushWord_mem, hmem, hrsp, pushAll_append, length_frameWords]
    rfl

/-- INTERNAL: each field has its place in the frame. -/
theorem getElem?_idxOf (f : Field) : mcontext[mcontext.idxOf f]? = some f := by
  cases f <;> rfl

/-- INTERNAL: at the handler's entry every field of the frame holds its value. -/
theorem get_entered (hmatch : errorCode.isSome = hasArg t) (f : Field) :
    f.get (below 8 (top s) 23) (entered text t errorCode s).mem = frameValue errorCode s f := by
  have hword : (frameWords errorCode s ++ [text.behindCall t]).reverse[mcontext.idxOf f + 1]? =
      some (frameValue errorCode s f) := by
    unfold frameWords
    rw [List.reverse_append, ← List.map_reverse, List.reverse_reverse, List.reverse_singleton,
      List.singleton_append, List.getElem?_cons_succ, List.getElem?_map, getElem?_idxOf]
    rfl
  have haddr : f.address (below 8 (top s) 23) =
      below 8 (top s) 24 + BitVec.ofNat 64 (8 * (mcontext.idxOf f + 1)) := by
    rw [← above_eight, below_eight_add]
    rfl
  unfold Field.get
  rw [(entered_spec hmatch).2.2, haddr]
  exact load_pushAll_last hword (top s) s.mem (by simp [length_frameWords])

/-- INTERNAL: the memory outside the frame and the return address. -/
theorem mem_entered (hmatch : errorCode.isSome = hasArg t) {x : BitVec 64}
    (hx : ¬ InRange (below 8 (top s) 24) 192 x) : (entered text t errorCode s).mem x = s.mem x := by
  rw [(entered_spec hmatch).2.2]
  apply pushAll_of_notMem
  · simp [length_frameWords]
  · exact hx

end Entered

/-- INTERNAL: everything loaded from the structure at `ctx`. -/
def restored (ctx : Word) (s : Machine) : Machine :=
  { s with
    gpr := fun r => if r = .rsp then Field.tempSP.get ctx s.mem else r.field.get ctx s.mem
    rip := Field.rip.get ctx s.mem
    rflags := Field.tempFLAGS.get ctx s.mem
    cs := (Field.tempCS.get ctx s.mem).setWidth 16
    ss := (Field.tempSS.get ctx s.mem).setWidth 16 }

/-- INTERNAL: **`exit_intr`** with the structure at the stack pointer.
SRC: arch/x86_64/trap.S:22-40,51-55 -/
theorem run_exitIntr (s : Machine) : run s exitIntr = restored (s.gpr .rsp) s := by
  have hsplit : exitIntr = savedRegs.reverse.map .pop ++ [.popf, .addRsp 8, .addRsp 8, .iretq] := rfl
  have hsaved : .rsp ∉ savedRegs.reverse := by decide
  have hnodup : savedRegs.reverse.Nodup := by decide
  have hposition : ∀ r : Reg, r ≠ .rsp → savedRegs.reverse[mcontext.idxOf r.field]? = some r := by
    intro r hr
    cases r with
    | rsp => exact absurd rfl hr
    | _ => rfl
  have hpopped : ∀ r : Reg, r ≠ .rsp → popAll 8 savedRegs.reverse (s.gpr .rsp) s.mem s.gpr r =
      r.field.get (s.gpr .rsp) s.mem := fun r hr => popAll_get hnodup (hposition r hr) _ _ _
  rw [hsplit, run_append, run_pop hsaved]
  show exec (exec (exec (exec _ .popf) (.addRsp 8)) (.addRsp 8)) .iretq = _
  unfold exec Machine.set restored
  simp only [Function.update_self, Function.update_idem, BitVec.add_assoc]
  congr 1
  funext r
  by_cases hr : r = .rsp
  · rw [if_pos hr, hr, Function.update_self]
    rfl
  · rw [if_neg hr, Function.update_of_ne hr, hpopped r hr]

/-- INTERNAL: a structure that holds the context of a machine. -/
theorem restored_eq {ctx : Word} {m s : Machine} {value : Field → Word}
    (hvalue : ∀ f : Field, f.get ctx m.mem = value f)
    (hgpr : ∀ r : Reg, r ≠ .rsp → value r.field = s.gpr r) (hsp : value .tempSP = s.gpr .rsp)
    (hrip : value .rip = s.rip) (hflags : value .tempFLAGS = s.rflags)
    (hcs : value .tempCS = s.cs.setWidth 64) (hss : value .tempSS = s.ss.setWidth 64) :
    restored ctx m = { s with mem := m.mem, cr2 := m.cr2 } := by
  have hregs : (fun r : Reg => if r = .rsp then Field.tempSP.get ctx m.mem
      else r.field.get ctx m.mem) = s.gpr := by
    funext r
    by_cases hr : r = .rsp
    · rw [if_pos hr, hvalue, hsp, hr]
    · rw [if_neg hr, hvalue, hgpr r hr]
  have hword : ∀ v : BitVec 16, (v.setWidth 64).setWidth 16 = v := by
    intro v
    simp
  unfold restored
  rw [hregs, hvalue, hvalue, hvalue, hvalue, hrip, hflags, hcs, hss, hword, hword]

/-! ## `return_handler` -/

/-- INTERNAL: each field's place is within the frame's 23 words. -/
theorem idxOf_lt (f : Field) : mcontext.idxOf f < 23 := by
  cases f <;> decide

/-- INTERNAL: a store to one field leaves every other alone: the fields do not overlap. -/
theorem get_store (ctx : Word) {f g : Field} (h : f ≠ g) (v : Word) (mem : Bytes 64) :
    f.get ctx (store 8 (g.address ctx) v mem) = f.get ctx mem := by
  have hindex : mcontext.idxOf f ≠ mcontext.idxOf g := by
    intro heq
    have hf := getElem?_idxOf f
    rw [heq, getElem?_idxOf, Option.some.injEq] at hf
    exact h hf.symm
  have hf := idxOf_lt f
  have hg := idxOf_lt g
  apply load_store_of_apart (by decide)
  intro x hx
  unfold Field.address at hx ⊢
  rw [inRange_offset (by omega)] at hx ⊢
  omega

/-- INTERNAL: a field stored is read back. -/
theorem get_store_self (ctx : Word) (f : Field) (v : Word) (mem : Bytes 64) :
    f.get ctx (store 8 (f.address ctx) v mem) = v := load_store (by decide) _ _ _

/-- INTERNAL: `return_handler` changes two fields. SRC: arch/x86_64/exception.c:7-11 -/
theorem get_returnHandler (ctx : Word) (mem : Bytes 64) (f : Field) :
    f.get ctx (returnHandler ctx mem) =
      if f = .rip then load mem 8 (Field.tempSP.get ctx mem)
      else if f = .tempSP then Field.tempSP.get ctx mem + 8
      else f.get ctx mem := by
  unfold returnHandler
  by_cases hrip : f = .rip
  · rw [if_pos hrip, hrip, get_store _ (by decide), get_store_self]
  · by_cases hsp : f = .tempSP
    · rw [if_neg hrip, if_pos hsp, hsp, get_store_self, get_store _ (by decide)]
    · rw [if_neg hrip, if_neg hsp, get_store _ hsp, get_store _ hrip]

/-- INTERNAL: aligning the stack pointer skips less than 16 bytes. -/
theorem top_distance (s : Machine) : (s.gpr .rsp - top s).toNat < 16 := by
  unfold top
  generalize s.gpr .rsp = rsp
  have haligned : rsp &&& ~~~0xf#64 = (rsp >>> 4) <<< 4 := by
    apply BitVec.eq_of_getLsbD_eq
    intro i hi
    have hmask : ∀ j : Fin 64, (0xf#64).getLsbD j = decide (j.val < 4) := by decide
    rw [BitVec.getLsbD_and, BitVec.getLsbD_not, BitVec.getLsbD_shiftLeft,
      BitVec.getLsbD_ushiftRight,
      hmask ⟨i, hi⟩]
    by_cases hlow : i < 4
    · simp [hlow]
    · simp [hlow, hi, show 4 + (i - 4) = i by omega]
  rw [haligned, BitVec.toNat_sub, BitVec.toNat_shiftLeft, BitVec.toNat_ushiftRight,
    Nat.shiftLeft_eq, Nat.shiftRight_eq_div_pow]
  have hlt := rsp.isLt
  omega

/-- INTERNAL: the word at the interrupted stack pointer lies above the frame. -/
theorem load_entered {text : Text} {t : Trap} {errorCode : Option Word} {s : Machine}
    (hmatch : errorCode.isSome = hasArg t) :
    load (entered text t errorCode s).mem 8 (s.gpr .rsp) = load s.mem 8 (s.gpr .rsp) := by
  apply load_congr (by decide)
  intro x hx
  apply mem_entered hmatch
  have htop := top_distance s
  unfold InRange at hx
  rw [show (192 : ℕ) = 8 * 24 from rfl, inRange_stack (Nat.le_refl _) (by decide)]
  have hdistance : (x - top s).toNat =
      ((x - s.gpr .rsp).toNat + (s.gpr .rsp - top s).toNat) % 2 ^ 64 := by
    rw [BitVec.toNat_sub, BitVec.toNat_sub, BitVec.toNat_sub]
    omega
  omega

/-! ## Traps -/

/-- SOURCE: arch/x86_64/trap.S:2-110, arch/x86_64/x86.h:6-12, arch/x86_64/exception.c:7-11 —
**trap frames**: whatever the handler does to the registers and the memory, if it restores the
stack pointer, the interrupted code is resumed with what the structure at the handler's argument
holds when it returns. If it has changed no field, that is the interrupted context, and if it
has changed them as `return_handler` does, it is the context behind a `ret`. On its way to the
handler a trap writes only to the frame and the word below it. -/
theorem trap_resumes (text : Text) (t : Trap) (fn : Handler) (errorCode : Option Word) (s : Machine)
    (hmatch : errorCode.isSome = hasArg t)
    (hrsp :
      (fn (entered text t errorCode s)).gpr .rsp = (entered text t errorCode s).gpr .rsp + 8) :
    let called := entered text t errorCode s
    let ctx := called.gpr .rdi
    let returned := fn called
    let resumed := run (deliver (text.entry t) errorCode s) (trap text fn t)
    (∀ r : Reg, r ≠ .rsp → resumed.gpr r = r.field.get ctx returned.mem) ∧
      resumed.rip = Field.rip.get ctx returned.mem ∧
      resumed.cs = (Field.tempCS.get ctx returned.mem).setWidth 16 ∧
      resumed.rflags = Field.tempFLAGS.get ctx returned.mem ∧
      resumed.gpr .rsp = Field.tempSP.get ctx returned.mem ∧
      resumed.mem = returned.mem ∧
      (∀ x : BitVec 64, ¬ InRange (ctx - 8) 192 x → called.mem x = s.mem x) ∧
      ((∀ f : Field, f.get ctx returned.mem = f.get ctx called.mem) →
        resumed = { s with mem := returned.mem, cr2 := returned.cr2 }) ∧
      ((∀ f : Field, f.get ctx returned.mem = f.get ctx (returnHandler ctx called.mem)) →
        resumed = { ret s with mem := returned.mem, cr2 := returned.cr2 }) := by
  intro called ctx returned resumed
  obtain ⟨hrdi, hcalled, -⟩ := @entered_spec text t errorCode s hmatch
  have hctx : returned.gpr .rsp = ctx := by
    show (fn (entered text t errorCode s)).gpr .rsp = (entered text t errorCode s).gpr .rdi
    rw [hrsp, hrdi, hcalled]
    exact below_eight_add (top s) 23
  have hresumed : resumed = run returned exitIntr := run_trap text fn t errorCode s
  rw [run_exitIntr, hctx] at hresumed
  have hvalue : ∀ f : Field, f.get ctx called.mem = frameValue errorCode s f := by
    intro f
    show f.get ((entered text t errorCode s).gpr .rdi) _ = _
    rw [hrdi]
    exact get_entered hmatch f
  rw [hresumed]
  refine ⟨fun r hr => ?_, rfl, rfl, rfl, ?_, rfl, ?_, fun hsame => ?_, fun hreturn => ?_⟩
  · simp only [restored, if_neg hr]
  · simp only [restored, if_pos]
  · intro x hx
    apply mem_entered hmatch
    have hlow : ctx - 8 = below 8 (top s) 24 := by
      show (entered text t errorCode s).gpr .rdi - 8 = _
      rw [hrdi, ← below_eight, below_below]
    rwa [hlow] at hx
  · exact restored_eq (fun f => (hsame f).trans (hvalue f))
      (fun r hr => frameValue_field errorCode s hr) rfl rfl rfl rfl rfl
  · have hword : load called.mem 8 (Field.tempSP.get ctx called.mem) =
        load s.mem 8 (s.gpr .rsp) := by
      rw [hvalue]
      exact load_entered hmatch
    have hfields : ∀ f : Field, f.get ctx returned.mem =
        if f = .rip then load s.mem 8 (s.gpr .rsp)
        else if f = .tempSP then s.gpr .rsp + 8 else frameValue errorCode s f := by
      intro f
      rw [hreturn, get_returnHandler, hword, hvalue, hvalue]
      rfl
    refine restored_eq (s := ret s) hfields (fun r hr => ?_) ?_ rfl rfl rfl rfl
    · have hvalue' : frameValue errorCode s r.field = (ret s).gpr r := by
        rw [frameValue_field errorCode s hr]
        simp only [ret, Machine.set, Function.update_of_ne hr]
      cases r with
      | rsp => exact absurd rfl hr
      | _ => exact hvalue'
    · simp only [ret, Machine.set, Function.update_self]
      rfl

/-- INTERNAL: `return_handler`, compiled so that it leaves nothing in the registers. -/
def clobberingReturn : Handler := fun m =>
  { m with
    gpr := fun r => if r = .rsp then m.gpr .rsp + 8 else 0xdead
    rflags := 0
    mem := returnHandler (m.gpr .rdi) m.mem }

/-- INTERNAL: the page fault of a call to the address the benchmark uses. -/
theorem trap_resumes_call :
    let text : Text :=
      ⟨fun _ => 0x100200, 0x101000, 0x101008, 0x101010, 0x101018, fun _ => 0x100280⟩
    let s : Machine := ⟨fun _ => 0x142ff4, 0xc0000000, 0x246, 8, 0x10, 0xc0000000, fun _ => 0x90⟩
    let returned := clobberingReturn (entered text .pageFault (some 0x14) s)
    run (deliver (text.entry .pageFault) (some 0x14) s) (trap text clobberingReturn .pageFault) =
      { ret s with mem := returned.mem, cr2 := returned.cr2 } := by
  intro text s returned
  obtain ⟨-, -, -, -, -, -, -, -, hreturn⟩ :=
    trap_resumes text .pageFault clobberingReturn (some 0x14) s rfl rfl
  exact hreturn fun _ => rfl

end Simbench.Analysis.X86TrapFrames
