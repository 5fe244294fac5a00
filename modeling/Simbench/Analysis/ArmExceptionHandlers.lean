import Simbench.Analysis.ArmExceptionDispatch
import Simbench.Program.ArmHandlers

/-!
# Exceptions return to the program

An exception switches the bank, so that the link register and the status it saves are not the
program's; the handlers leave the other registers as they were, or put them back from a stack of
their own, which is empty between exceptions. The program goes on behind the instruction that
faulted, at the return address of the call that faulted, or where it was interrupted.
-/

set_option autoImplicit false

namespace Simbench.Analysis.ArmExceptionHandlers

open Simbench.Library.ByteCopies Simbench.Library.ByteWords
open Simbench.Program.ArmSections hiding Call runCall run State
open Simbench.Program.ArmCaches Simbench.Program.ArmVectors Simbench.Program.ArmHandlers
open Simbench.Program.ArmCacheFlush (Word)
open Simbench.Analysis.ArmSectionRequests Simbench.Analysis.ArmExceptionDispatch

/-! ## Registers -/

/-- INTERNAL: a register that was just written. -/
theorem get_set_self (c : Cpu) (d : Reg) (v : Word) : (c.set d v).get d = v := by
  cases d <;> simp [Cpu.set, Cpu.get]

/-- INTERNAL: a register other than the one written. -/
theorem get_set_of_ne (c : Cpu) {d d' : Reg} (h : d' ≠ d) (v : Word) :
    (c.set d v).get d' = c.get d' := by
  cases d with
  | r i =>
    cases d' with
    | r j => exact Function.update_of_ne (fun heq => h (congrArg Reg.r heq)) _ _
    | sp | lr => rfl
  | sp | lr =>
    cases d' with
    | r j => rfl
    | sp | lr => first | exact absurd rfl h | rfl

/-- INTERNAL: writing a register leaves the status register alone. -/
theorem set_cpsr (c : Cpu) (d : Reg) (v : Word) : (c.set d v).cpsr = c.cpsr := by cases d <;> rfl

/-- INTERNAL: of two writes of one register the later one counts. -/
theorem set_set (c : Cpu) (d : Reg) (v v' : Word) : (c.set d v).set d v' = c.set d v' := by
  cases d <;> simp [Cpu.set, Function.update_idem]

/-- INTERNAL: writes of two registers commute. -/
theorem set_comm (c : Cpu) {d d' : Reg} (h : d' ≠ d) (v v' : Word) :
    (c.set d v).set d' v' = (c.set d' v').set d v := by
  cases d with
  | r i =>
    cases d' with
    | r j =>
      have hne : j ≠ i := fun heq => h (congrArg Reg.r heq)
      simp only [Cpu.set]
      rw [Function.update_comm hne]
    | sp | lr => rfl
  | sp | lr =>
    cases d' with
    | r j => rfl
    | sp | lr => first | exact absurd rfl h | rfl

/-! ## Stacks -/

/-- INTERNAL: the words below a top are where their addresses say. -/
def Flat (system : System) (top : Word) (n : ℕ) : Prop :=
  ∀ k ≤ n, 0 < k → translate system (below 4 top k) = some (below 4 top k)

/-- INTERNAL: a stack with room for one word less, below the first one. -/
theorem Flat.next {system : System} {top : Word} {n : ℕ} (h : Flat system top (n + 1))
    (mem : Bytes 32) : Flat { system with mem := mem } (below 4 top 1) n := by
  intro k hk hpos
  rw [below_below, Nat.add_comm]
  exact h (k + 1) (Nat.succ_le_succ hk) (Nat.succ_pos k)

/-- INTERNAL: registers other than the stack pointer, pushed one after the other. -/
theorem foldlM_pushRegister (ds : List Reg) (hds : Reg.sp ∉ ds) (s : State)
    (hflat : Flat s.system (s.cpu.get .sp) ds.length) :
    ds.foldlM (fun s d => pushRegister d s) s = some
      ⟨s.cpu.set .sp (below 4 (s.cpu.get .sp) ds.length),
        { s.system with mem := pushAll 4 (ds.map s.cpu.get) (s.cpu.get .sp) s.system.mem }⟩ := by
  induction ds generalizing s with
  | nil =>
    have hsame : s.cpu.set .sp (below 4 (s.cpu.get .sp) 0) = s.cpu := by
      simp [below, Cpu.set, Cpu.get]
    rw [List.foldlM_nil, List.length_nil, hsame]
    rfl
  | cons d ds ih =>
    rw [List.mem_cons, not_or] at hds
    have hfirst : pushRegister d s = some ⟨s.cpu.set .sp (below 4 (s.cpu.get .sp) 1),
        { s.system with mem := store 4 (below 4 (s.cpu.get .sp) 1) (s.cpu.get d) s.system.mem }⟩ := by
      have hone := hflat 1 (Nat.succ_pos _) Nat.one_pos
      change (s.store (below 4 (s.cpu.get .sp) 1) (s.cpu.get d)).map _ = _
      rw [State.store, store32, hone]
      rfl
    have hnext := ih hds.2 ⟨s.cpu.set .sp (below 4 (s.cpu.get .sp) 1),
        { s.system with mem := store 4 (below 4 (s.cpu.get .sp) 1) (s.cpu.get d) s.system.mem }⟩
    simp only [get_set_self, set_set, below_below] at hnext
    have hvalues : ds.map (s.cpu.set .sp (below 4 (s.cpu.get .sp) 1)).get = ds.map s.cpu.get := by
      apply List.map_congr_left
      intro d' hd'
      refine get_set_of_ne _ ?_ _
      rintro rfl
      exact hds.2 hd'
    rw [hvalues, Nat.add_comm 1] at hnext
    rw [List.foldlM_cons, hfirst]
    exact hnext (hflat.next _)

/-- INTERNAL: registers other than the stack pointer, popped one after the other. -/
theorem foldlM_popRegister (ds : List Reg) (hds : Reg.sp ∉ ds) (target : Cpu) (s : State)
    (top : Word) (hsp : s.cpu.get .sp = below 4 top ds.length) (hflat : Flat s.system top ds.length)
    (hload : ∀ (i : ℕ) (hi : i < ds.length),
      load s.system.mem 4 (below 4 top (ds.length - i)) = target.get ds[i]) :
    ds.foldlM (fun s d => popRegister d s) s = some
      ⟨ds.foldl (fun c d => c.set d (target.get d)) (s.cpu.set .sp top), s.system⟩ := by
  induction ds generalizing s with
  | nil =>
    have hsame : s.cpu.set .sp top = s.cpu := by
      have htop : below 4 top 0 = top := by simp [below]
      rw [List.length_nil, htop] at hsp
      rw [← hsp]
      simp [Cpu.set, Cpu.get]
    rw [List.foldlM_nil, List.foldl_nil, hsame]
    rfl
  | cons d ds ih =>
    rw [List.mem_cons, not_or] at hds
    have hsp' : s.cpu.get .sp + 4 = below 4 top ds.length := by
      rw [hsp, below_eq_add 4 top (Nat.le_succ ds.length)]
      simp
    have hfirst : popRegister d s = some
        ⟨(s.cpu.set .sp (below 4 top ds.length)).set d (target.get d), s.system⟩ := by
      have hword := hload 0 (Nat.succ_pos _)
      have haddress := hflat (ds.length + 1) (Nat.le_refl _) (Nat.succ_pos _)
      rw [popRegister, load32, hsp, List.length_cons, haddress]
      simp only [Option.bind_eq_bind, Option.bind_some]
      rw [← List.length_cons (a := d), ← hsp, hsp', hsp]
      exact congrArg (fun v => some (State.set (State.set s .sp (below 4 top ds.length)) d v)) hword
    have hcpu : (((s.cpu.set .sp (below 4 top ds.length)).set d (target.get d)).set .sp top) =
        (s.cpu.set .sp top).set d (target.get d) := by
      rw [set_comm _ hds.1, set_set]
    have hnext := ih hds.2 ⟨(s.cpu.set .sp (below 4 top ds.length)).set d (target.get d), s.system⟩
      (by rw [get_set_of_ne _ hds.1, get_set_self])
      (fun k hk hpos => hflat k (Nat.le_succ_of_le hk) hpos)
      (fun i hi => by
        have hword := hload (i + 1) (Nat.succ_lt_succ hi)
        rwa [List.length_cons, Nat.succ_sub_succ, List.getElem_cons_succ] at hword)
    rw [List.foldlM_cons, hfirst, List.foldl_cons, ← hcpu]
    exact hnext

/-- INTERNAL: registers that were given what they have in another state. -/
theorem get_foldl_set {ds : List Reg} (target c : Cpu) {d : Reg}
    (hd : d ∈ ds ∨ c.get d = target.get d) :
    (ds.foldl (fun c d => c.set d (target.get d)) c).get d = target.get d := by
  induction ds generalizing c with
  | nil => exact hd.resolve_left List.not_mem_nil
  | cons d' ds ih =>
    refine ih _ ?_
    by_cases heq : d = d'
    · rw [heq, get_set_self]
      exact .inr rfl
    · rw [get_set_of_ne _ heq]
      exact hd.imp_left fun h => (List.mem_cons.1 h).resolve_left heq

/-- INTERNAL: setting registers of a bank leaves the others. -/
theorem foldl_set_same (ds : List Reg) (hds : Reg.sp ∉ ds) (target c : Cpu) :
    let c' := ds.foldl (fun c d => c.set d (target.get d)) c
    c'.sp = c.sp ∧ (∀ b, b ≠ bank c.cpsr → c'.lr b = c.lr b) ∧ c'.spsr = c.spsr ∧
      c'.cpsr = c.cpsr ∧ c'.pc = c.pc := by
  induction ds generalizing c with
  | nil => exact ⟨rfl, fun _ _ => rfl, rfl, rfl, rfl⟩
  | cons d ds ih =>
    rw [List.mem_cons, not_or] at hds
    obtain ⟨hsp, hlr, hspsr, hcpsr, hpc⟩ := ih hds.2 (c.set d (target.get d))
    rw [set_cpsr] at hlr hcpsr
    cases d with
    | r i => exact ⟨hsp, hlr, hspsr, hcpsr, hpc⟩
    | sp => exact absurd rfl hds.1
    | lr =>
      refine ⟨hsp, fun b hb => (hlr b hb).trans ?_, hspsr, hcpsr, hpc⟩
      exact Function.update_of_ne hb _ _

/-! ## Modes -/

/-- INTERNAL: the bank of registers an exception is taken in. -/
def exceptionBank : Exception → Bank
  | .undef => .und
  | .swi => .svc
  | .pabt | .dabt => .abt
  | .irq => .irq
  | .fiq => .fiq

/-- INTERNAL: an exception is taken in the mode of its kind. -/
theorem mode_enter (e : Exception) (c : Cpu) : (enter e c).cpsr &&& 0x1f = exceptionMode e := by
  have hclear : c.cpsr &&& ~~~0x3f &&& 0x1f = 0 := by
    rw [BitVec.and_assoc]
    exact BitVec.and_zero
  rw [enter, BitVec.and_or_distrib_right, BitVec.and_or_distrib_right, hclear]
  cases e <;> rfl

/-- INTERNAL: an exception is taken with the banked registers of its kind. -/
theorem bank_enter (e : Exception) (c : Cpu) : bank (enter e c).cpsr = exceptionBank e := by
  rw [bank, mode_enter]
  cases e <;> rfl

/-- INTERNAL: the link register of that bank holds the return address. -/
theorem lr_enter (e : Exception) (c : Cpu) :
    (enter e c).lr = Function.update c.lr (exceptionBank e) (c.pc + linkOffset e) := by
  rw [← bank_enter e c]
  rfl

/-- INTERNAL: the saved status register of that bank holds the interrupted one. -/
theorem spsr_enter (e : Exception) (c : Cpu) :
    (enter e c).spsr = Function.update c.spsr (exceptionBank e) c.cpsr := by
  rw [← bank_enter e c]
  rfl

/-- INTERNAL: the processor behind an exception that returns: at the return address of the call
that faulted, which takes a register as well, where it was interrupted, or one instruction on. -/
def resumed (e : Exception) (c : Cpu) : Cpu :=
  { c with
    r := if e = .pabt then Function.update c.r 1 (c.lr .usr) else c.r
    lr := Function.update c.lr (exceptionBank e)
      (if e = .pabt then c.lr .usr else c.pc + linkOffset e)
    spsr := Function.update c.spsr (exceptionBank e) c.cpsr
    pc := match e with
      | .pabt => c.lr .usr
      | .irq => c.pc
      | _ => c.pc + 4 }

/-- INTERNAL: a handler that only returns. SRC: arch/arm/exception-handlers.S:27-37 -/
theorem exceptionReturn_enter {e : Exception} (he : e = .dabt ∨ e = .swi ∨ e = .undef) (c : Cpu)
    (system : System) : exceptionReturn (linkOffset e - 4) ⟨enter e c, system⟩ =
      ⟨resumed e c, system⟩ := by
  have hreturn : (enter e c).get .lr = c.pc + linkOffset e := by
    rw [Cpu.get, bank_enter, lr_enter, Function.update_self]
  have hsaved : (enter e c).spsr (bank (enter e c).cpsr) = c.cpsr := by
    rw [bank_enter, spsr_enter, Function.update_self]
  have hpc : c.pc + linkOffset e - (linkOffset e - 4) = c.pc + 4 := by grind
  simp only [exceptionReturn, hreturn, hsaved, hpc, lr_enter, spsr_enter]
  rcases he with rfl | rfl | rfl <;> rfl

/-- INTERNAL: the system mode for as long as it takes to read its link register.
SRC: arch/arm/exception-handlers.S:12-18 -/
theorem run_userLink (c : Cpu) (system : System) (hmode : c.cpsr &&& 0x1f = 0x17) :
    run [.mrs (.r 0), .bic .lr (.r 0) 0xf, .orr .lr .lr 0xf, .msr maskFc .lr, .mov (.r 1) .lr,
      .msr maskFc (.r 0), .mov .lr (.r 1)] ⟨c, system⟩ =
      some ⟨{ c with
        r := Function.update (Function.update c.r 0 c.cpsr) 1 (c.lr .usr)
        lr := Function.update c.lr .abt (c.lr .usr) }, system⟩ := by
  have habt : bank c.cpsr = .abt := by
    rw [bank, hmode]
    rfl
  have husr : bank ((c.cpsr &&& 0xfffffff0#32 ||| 0xf#32) &&& maskFc ||| c.cpsr &&& ~~~maskFc) =
      .usr := by
    have hbits : ((c.cpsr &&& 0xfffffff0#32 ||| 0xf#32) &&& maskFc ||| c.cpsr &&& ~~~maskFc) &&& 0x1f =
        c.cpsr &&& 0x1f &&& 0x10 ||| 0xf := by
      rw [BitVec.and_or_distrib_right, BitVec.and_assoc, BitVec.and_or_distrib_right,
        BitVec.and_assoc, BitVec.and_assoc, BitVec.and_assoc]
      have hzero : c.cpsr &&& (~~~maskFc &&& 0x1f) = 0 := BitVec.and_zero
      rw [hzero]
      exact BitVec.or_zero
    rw [bank, hbits, hmode]
    rfl
  have hback : ∀ p q m : Word, p &&& m ||| (q &&& m ||| p &&& ~~~m) &&& ~~~m = p := by
    intro p q m
    ext i hi
    simp only [BitVec.getElem_or, BitVec.getElem_and, BitVec.getElem_not]
    cases m[i] <;> simp
  simp [run, exec, State.set, Cpu.set, Cpu.get, habt, husr, hback]

/-- INTERNAL: a run of two pieces of code is the second's from where the first ends. -/
theorem run_append (code code' : List Instruction) (s : State) :
    run (code ++ code') s = (run code s).bind (run code') := List.foldlM_append

/-- INTERNAL: a run of one instruction is that instruction. -/
theorem run_singleton (i : Instruction) (s : State) : run [i] s = exec s i := by simp [run]

/-- INTERNAL: `pabt_return` comes back to the link register of the interrupted mode, with one word
below its stack overwritten. SRC: arch/arm/exception-handlers.S:9-21 -/
theorem pabtReturn_enter (c : Cpu) (system : System) (hflat : Flat system (c.sp .abt) 1) :
    pabtReturn ⟨enter .pabt c, system⟩ = some ⟨resumed .pabt c,
      { system with mem := store 4 (below 4 (c.sp .abt) 1) (c.r 0) system.mem }⟩ := by
  have hbank : bank (enter .pabt c).cpsr = .abt := bank_enter .pabt c
  have hsp : (enter .pabt c).get .sp = c.sp .abt := by
    rw [Cpu.get, hbank]
    rfl
  have hset : (enter .pabt c).set .sp (below 4 (c.sp .abt) 1) =
      { enter .pabt c with sp := Function.update c.sp .abt (below 4 (c.sp .abt) 1) } := by
    rw [Cpu.set, hbank]
    rfl
  have hpush : run [.push [.r 0]] ⟨enter .pabt c, system⟩ =
      some ⟨(enter .pabt c).set .sp (below 4 (c.sp .abt) 1),
        { system with mem := store 4 (below 4 (c.sp .abt) 1) (c.r 0) system.mem }⟩ := by
    have hone := foldlM_pushRegister [.r 0] (by decide) ⟨enter .pabt c, system⟩
      (by rw [hsp]; exact hflat)
    simp only [hsp] at hone
    rw [run_singleton]
    exact hone
  have hmiddle := run_userLink ((enter .pabt c).set .sp (below 4 (c.sp .abt) 1))
    { system with mem := store 4 (below 4 (c.sp .abt) 1) (c.r 0) system.mem }
    (by rw [set_cpsr]; exact mode_enter .pabt c)
  rw [hset] at hpush hmiddle
  have hpop := foldlM_popRegister [.r 0] (by decide) c
    ⟨{ enter .pabt c with
      r := Function.update (Function.update c.r 0 (enter .pabt c).cpsr) 1 ((enter .pabt c).lr .usr)
      sp := Function.update c.sp .abt (below 4 (c.sp .abt) 1)
      lr := Function.update (enter .pabt c).lr .abt ((enter .pabt c).lr .usr) },
      { system with mem := store 4 (below 4 (c.sp .abt) 1) (c.r 0) system.mem }⟩ (c.sp .abt)
    (by
      rw [Cpu.get]
      simp only [hbank]
      exact Function.update_self _ _ _)
    hflat
    (by
      intro i hi
      obtain rfl : i = 0 := Nat.lt_one_iff.1 hi
      exact load_store (by decide) _ _ _)
  have hcode : pabtReturn ⟨enter .pabt c, system⟩ = (run ([.push [.r 0]] ++
      ([.mrs (.r 0), .bic .lr (.r 0) 0xf, .orr .lr .lr 0xf, .msr maskFc .lr, .mov (.r 1) .lr,
        .msr maskFc (.r 0), .mov .lr (.r 1)] ++ [.pop [.r 0]])) ⟨enter .pabt c, system⟩).map
          (exceptionReturn 0) := by
    unfold pabtReturn
    exact Option.map_eq_bind.symm
  rw [hcode, run_append, hpush, Option.bind_some, run_append, hmiddle, Option.bind_some,
    run_singleton]
  refine (congrArg (Option.map (exceptionReturn 0)) hpop).trans ?_
  have hr : Function.update (Function.update (Function.update c.r 0 (enter .pabt c).cpsr) 1
      (c.lr .usr)) 0 (c.r 0) = Function.update c.r 1 (c.lr .usr) := by
    rw [Function.update_comm (by decide), Function.update_idem, Function.update_eq_self]
  simp [exceptionReturn, Cpu.set, Cpu.get, hbank, resumed, lr_enter, spsr_enter, exceptionBank, hr]

/-! ## The interrupt handler -/

/-- INTERNAL: what the trampoline needs of the C function: the calling convention, for the stack and
the registers of the other modes, and that it spares the vectors and the MMU. -/
structure Conforms (symbols : Symbols) (fn : Handler) : Prop where
  stack : ∀ address s, (fn address s).cpu.sp = s.cpu.sp
  link : ∀ address s b, b ≠ bank s.cpu.cpsr → (fn address s).cpu.lr b = s.cpu.lr b
  saved : ∀ address s, (fn address s).cpu.spsr = s.cpu.spsr
  mode : ∀ address s, bank (fn address s).cpu.cpsr = bank s.cpu.cpsr
  machine : ∀ address s, (fn address s).system.machine = s.system.machine
  memory : ∀ address s x, InRange (s.cpu.get .sp) 56 x ∨
    InRange symbols.platform.vectorsRelocate (size symbols) x ∨ InRange symbols.archIrqHandler 4 x →
      (fn address s).system.mem x = s.system.mem x

/-- INTERNAL: the state the C function is called with. -/
def called (symbols : Symbols) (handler : Word) (s : State) : State :=
  let top := s.cpu.sp .irq
  let c := (enter .irq s.cpu).set .sp (below 4 top 14)
  ⟨(c.set (.r 0) handler).set .lr (symbols.irqHandlerTramp + 16),
    { s.system with mem := pushAll 4 (saved.reverse.map (enter .irq s.cpu).get) top s.system.mem }⟩

section Interrupt

variable {symbols : Symbols} {fn : Handler} (s : State) {handler : Word}

/-- INTERNAL: the C function is called in the interrupt mode. -/
theorem bank_called : bank (called symbols handler s).cpu.cpsr = .irq := by
  rw [called]
  simp only [set_cpsr]
  exact bank_enter .irq s.cpu

/-- INTERNAL: it is called with fourteen words on the interrupt stack.
SRC: arch/arm/exception-handlers.S:40-41 -/
theorem sp_called :
    (called symbols handler s).cpu.sp =
      Function.update s.cpu.sp .irq (below 4 (s.cpu.sp .irq) 14) := by
  have hbank : bank (enter .irq s.cpu).cpsr = .irq := bank_enter .irq s.cpu
  simp only [called, Cpu.set, hbank]
  rfl

/-- INTERNAL: up to the call. SRC: arch/arm/exception-handlers.S:41-45 -/
theorem run_call (hflat : Flat s.system (s.cpu.sp .irq) 14)
    (hhandler : load32 (called symbols handler s).system symbols.archIrqHandler = some handler) :
    run [.push saved, .ldr (.r 0) symbols.archIrqHandler,
      .const .lr (symbols.irqHandlerTramp + 16)] ⟨enter .irq s.cpu, s.system⟩ =
      some (called symbols handler s) := by
  have hsp : (enter .irq s.cpu).get .sp = s.cpu.sp .irq := by
    rw [Cpu.get, bank_enter]
    rfl
  have hpush : run [.push saved] ⟨enter .irq s.cpu, s.system⟩ =
      some ⟨(enter .irq s.cpu).set .sp (below 4 (s.cpu.sp .irq) 14),
        (called symbols handler s).system⟩ := by
    have hall := foldlM_pushRegister saved.reverse (by decide) ⟨enter .irq s.cpu, s.system⟩
      (by rw [hsp]; exact hflat)
    simp only [hsp] at hall
    rw [run_singleton]
    exact hall
  change run ([.push saved] ++ [.ldr (.r 0) symbols.archIrqHandler,
      .const .lr (symbols.irqHandlerTramp + 16)]) ⟨enter .irq s.cpu, s.system⟩ = _
  rw [run_append, hpush, Option.bind_some]
  simp only [run, List.foldlM_cons, List.foldlM_nil, exec, hhandler, Option.map_some,
    Option.bind_eq_bind, Option.bind_some]
  rfl

/-- INTERNAL: a word of the frame, whatever the function has done. -/
theorem load_frame (hfn : Conforms symbols fn) {i : ℕ} (hi : i < saved.length) :
    load (fn handler (called symbols handler s)).system.mem 4
      (below 4 (s.cpu.sp .irq) (saved.length - i)) = (enter .irq s.cpu).get saved[i] := by
  have hlength : saved.length = 14 := rfl
  have hsp : (called symbols handler s).cpu.get .sp = below 4 (s.cpu.sp .irq) 14 := by
    rw [Cpu.get, bank_called, sp_called, Function.update_self]
  have hframe : ∀ x, InRange (below 4 (s.cpu.sp .irq) (saved.length - i)) 4 x →
      (fn handler (called symbols handler s)).system.mem x =
        (called symbols handler s).system.mem x := by
    intro x hx
    refine hfn.memory handler _ x (.inl ?_)
    have hwider := inRange_below (n := 4) (s.cpu.sp .irq) (j := 13 - i) (i := 14 - i) (k := 14)
      (x := x) (by omega) (by omega) (by decide)
    rw [show 4 * (14 - i - (13 - i)) = 4 by omega] at hwider
    have hin := hwider hx
    rw [hsp]
    unfold InRange at hin ⊢
    omega
  rw [load_congr (by decide) hframe]
  have hpushed := load_pushAll (n := 4) (saved.reverse.map (enter .irq s.cpu).get)
    (s.cpu.sp .irq) s.system.mem
    (by simp only [List.length_map, List.length_reverse]; decide) (i := 13 - i)
    (by simp only [List.length_map, List.length_reverse]; omega)
  rw [show 13 - i + 1 = saved.length - i by omega] at hpushed
  refine hpushed.trans ?_
  rw [List.getElem_map, List.getElem_reverse]
  congr 2
  omega

/-- INTERNAL: the registers behind the `pop`, and the return.
SRC: arch/arm/exception-handlers.S:47-48 -/
theorem exceptionReturn_popped {c : Cpu} {system : System} (hbank : bank c.cpsr = .irq)
    (hsp : c.sp = Function.update s.cpu.sp .irq (below 4 (s.cpu.sp .irq) 14))
    (hlr : ∀ b, b ≠ .irq → c.lr b = s.cpu.lr b) (hspsr : c.spsr = (enter .irq s.cpu).spsr) :
    exceptionReturn 4 ⟨saved.foldl (fun c d => c.set d ((enter .irq s.cpu).get d))
      (c.set .sp (s.cpu.sp .irq)), system⟩ = ⟨resumed .irq s.cpu, system⟩ := by
  obtain ⟨hsp', hlr', hspsr', hcpsr', -⟩ := foldl_set_same saved (by decide)
    (enter .irq s.cpu) (c.set .sp (s.cpu.sp .irq))
  have hget : ∀ d ∈ saved, (saved.foldl (fun c d => c.set d ((enter .irq s.cpu).get d))
      (c.set .sp (s.cpu.sp .irq))).get d = (enter .irq s.cpu).get d :=
    fun d hd => get_foldl_set _ _ (.inl hd)
  generalize saved.foldl (fun c d => c.set d ((enter .irq s.cpu).get d))
    (c.set .sp (s.cpu.sp .irq)) = c' at *
  rw [set_cpsr] at hlr' hcpsr'
  have hbank' : bank c'.cpsr = .irq := by rw [hcpsr', hbank]
  have hreturn : c'.lr .irq = s.cpu.pc + 4 := by
    have h := hget .lr (by decide)
    rw [Cpu.get, Cpu.get, hbank', bank_enter, lr_enter] at h
    exact h.trans (Function.update_self _ _ _)
  have hsaved : c'.spsr .irq = s.cpu.cpsr := by
    have hkeeps : (c.set .sp (s.cpu.sp .irq)).spsr = c.spsr := rfl
    rw [hspsr', hkeeps, hspsr, spsr_enter]
    exact Function.update_self _ _ _
  have hr : c'.r = s.cpu.r := by
    funext i
    have hall : ∀ i : Fin 13, Reg.r i ∈ saved := by decide
    exact hget (.r i) (hall i)
  have hstack : c'.sp = s.cpu.sp := by
    rw [hsp', Cpu.set, hbank]
    simp only [hsp, Function.update_idem, Function.update_eq_self]
  have hlink : c'.lr = Function.update s.cpu.lr .irq (s.cpu.pc + 4) := by
    funext b
    by_cases hb : b = .irq
    · rw [hb, hreturn, Function.update_self]
    · rw [Function.update_of_ne hb, ← hlr b hb]
      exact hlr' b (by rw [hbank]; exact hb)
  have hsaves : c'.spsr = Function.update s.cpu.spsr .irq s.cpu.cpsr := by
    have hkeeps : (c.set .sp (s.cpu.sp .irq)).spsr = c.spsr := rfl
    rw [hspsr', hkeeps, hspsr, spsr_enter]
    rfl
  simp only [exceptionReturn, Cpu.get, hbank', hreturn, hsaved, BitVec.add_sub_cancel, hr, hstack,
    hlink, hsaves]
  rfl

/-- INTERNAL: **the trampoline.** SRC: arch/arm/exception-handlers.S:40-48 -/
theorem irqHandlerTramp_enter (hfn : Conforms symbols fn)
    (hflat : Flat s.system (s.cpu.sp .irq) 14)
    (hhandler : load32 (called symbols handler s).system symbols.archIrqHandler = some handler) :
    irqHandlerTramp symbols fn ⟨enter .irq s.cpu, s.system⟩ =
      some ⟨resumed .irq s.cpu, (fn handler (called symbols handler s)).system⟩ := by
  have hbank : bank (fn handler (called symbols handler s)).cpu.cpsr = .irq := by
    rw [hfn.mode, bank_called]
  have hsp := (hfn.stack handler (called symbols handler s)).trans (sp_called s)
  have htop : (fn handler (called symbols handler s)).cpu.get .sp =
      below 4 (s.cpu.sp .irq) saved.length := by
    rw [Cpu.get, hbank, hsp, Function.update_self]
    rfl
  have hflat' : Flat (fn handler (called symbols handler s)).system (s.cpu.sp .irq)
      saved.length := by
    intro k hk hpos
    rw [Program.ArmVectors.translate, System.mmuOn, hfn.machine]
    exact hflat k hk hpos
  have hpop := foldlM_popRegister saved (by decide) (enter .irq s.cpu)
    (fn handler (called symbols handler s)) (s.cpu.sp .irq) htop hflat'
    (fun i hi => load_frame s hfn hi)
  have hr0 : (called symbols handler s).cpu.get (.r 0) = handler := by
    rw [called]
    simp [Cpu.set, Cpu.get]
  rw [irqHandlerTramp, run_call s hflat hhandler]
  simp only [Option.bind_eq_bind, Option.bind_some, hr0, run_singleton]
  refine (congrArg (fun x => Option.bind x fun s => some (exceptionReturn 4 s)) hpop).trans ?_
  refine congrArg some (exceptionReturn_popped s hbank hsp (fun b hb => ?_) ?_)
  · rw [hfn.link handler _ b (by rw [bank_called]; exact hb)]
    have hset : (called symbols handler s).cpu.lr b = (enter .irq s.cpu).lr b := by
      have hbank := bank_enter .irq s.cpu
      simp only [called, Cpu.set, hbank]
      exact Function.update_of_ne hb _ _
    rw [hset, lr_enter]
    exact Function.update_of_ne hb _ _
  · rw [hfn.saved]
    rfl

end Interrupt

/-! ## The stacks -/

/-- INTERNAL: an `msr` of the control field sets the mode. -/
theorem bank_maskC (v q : Word) : bank (v &&& maskC ||| q &&& ~~~maskC) = bank v := by
  have hbits : (v &&& maskC ||| q &&& ~~~maskC) &&& 0x1f = v &&& 0x1f := by
    have hzero : q &&& (~~~maskC &&& 0x1f) = 0 := BitVec.and_zero
    rw [BitVec.and_or_distrib_right, BitVec.and_assoc, BitVec.and_assoc, hzero]
    exact BitVec.or_zero
  rw [bank, hbits, bank]

/-- INTERNAL: from the mode of the reset, each mode has its stack, and the program goes on in the
system mode. SRC: arch/arm/reset.S:36-64 -/
theorem setupStacks_eq (tops : Stacks) (s : State) (hmode : s.cpu.cpsr &&& 0x1f = 0x13)
    (hmmu : s.system.mmuOn = false) :
    ∃ cpu, setupStacks tops s = some
      ⟨cpu, { s.system with mem := store 4 tops.stackTop tops.stackTop s.system.mem }⟩ ∧
      cpu.sp = Function.update (Function.update (Function.update (Function.update s.cpu.sp
        .usr tops.stackTop) .irq tops.irqStackTop) .abt tops.pabtStackTop) .svc tops.swiStackTop ∧
      bank cpu.cpsr = .usr ∧ cpu.pc = s.cpu.lr .svc := by
  have hsvc : bank s.cpu.cpsr = .svc := by
    rw [bank, hmode]
    rfl
  have husr : bank (s.cpu.cpsr ||| 0xf#32) = .usr := by
    rw [bank, BitVec.and_or_distrib_right, hmode]
    rfl
  have hirq : bank 0x12#32 = .irq := by decide
  have habt : bank 0x17#32 = .abt := by decide
  have htranslate : ∀ mem va, Program.ArmVectors.translate { s.system with mem := mem } va =
      some va :=
    fun mem va => if_neg (by rw [System.mmuOn] at hmmu ⊢; rw [hmmu]; decide)
  have hstore : store32 tops.stackTop tops.stackTop s.system =
      .ok { s.system with mem := store 4 tops.stackTop tops.stackTop s.system.mem } := by
    have h : Program.ArmVectors.translate s.system tops.stackTop = some tops.stackTop :=
      htranslate s.system.mem tops.stackTop
    rw [store32, h]
  have hload : load32 { s.system with mem := store 4 tops.stackTop tops.stackTop s.system.mem }
      tops.stackTop = some tops.stackTop := by
    rw [load32, htranslate]
    exact congrArg some (load_store (by decide) _ _ _)
  simp [setupStacks, run, exec, State.set, State.store, Cpu.set, Cpu.get, hstore, hload, bank_maskC,
    hsvc, husr, hirq, habt]

/-- INTERNAL: a stack in the data, apart from the vectors. SRC: arch/arm/reset.S:103-116 -/
structure StackRoom (symbols : Symbols) (top : Word) : Prop where
  low : symbols.platform.dataStart.toNat + 2044 ≤ top.toNat
  high : top ≤ symbols.platform.dataEnd
  apart : ∀ x, InRange (below 4 top 511) 2044 x →
    ¬ InRange symbols.platform.vectorsRelocate (size symbols) x ∧
      ¬ InRange symbols.archIrqHandler 4 x

/-- INTERNAL: a stack with room for 511 words is mapped at its own addresses. -/
theorem StackRoom.flat {symbols : Symbols} {top : Word} (h : StackRoom symbols top)
    {system : System} (hmmu : Mmu symbols.platform system.machine) {n : ℕ} (hn : n ≤ 511) :
    Flat system top n := by
  intro k hk _
  have hlow := h.low
  have hhigh := h.high
  have hvalue : (below 4 top k).toNat = top.toNat - 4 * k := by
    have htop := top.isLt
    rw [below, BitVec.toNat_sub, BitVec.toNat_ofNat,
      Nat.mod_eq_of_lt (show 4 * k < 2 ^ 32 by omega)]
    omega
  rw [BitVec.le_def] at hhigh
  refine hmmu.translate_requested fun _ _ _ => .data (covers_of_le ?_ ?_)
  · rw [BitVec.le_def, hvalue]
    omega
  · rw [BitVec.le_def, hvalue]
    omega

/-- INTERNAL: the words below the top are in the stack. -/
theorem StackRoom.apart_below {symbols : Symbols} {top : Word} (h : StackRoom symbols top) {k : ℕ}
    (hk : k ≤ 511) {x : Word} (hx : InRange (below 4 top k) (4 * k) x) :
    ¬ InRange symbols.platform.vectorsRelocate (size symbols) x ∧
      ¬ InRange symbols.archIrqHandler 4 x := by
  have hin := inRange_below (n := 4) top (j := 0) (i := k) (k := 511) (x := x) (by omega) hk
    (by omega)
  rw [Nat.sub_zero, Nat.sub_zero] at hin
  exact h.apart x (hin hx)

/-! ## Runs with exceptions -/

/-- INTERNAL: what a program may do to the processor between its calls: it keeps to the user and
the system mode. -/
def Program (c c' : Cpu) : Prop := bank c'.cpsr = .usr ∧ ∀ b, b ≠ .usr → c'.sp b = c.sp b

/-- INTERNAL: the states behind the reset handler's preparations, calls of the program and
exceptions it takes. -/
inductive Runs (fuel : ℕ) (board : Board) (tops : Stacks) (fn : Handler) : List Call → State → Prop
  | loaded {s s' : State} {system : System} {cpu : Cpu} (hmode : s.cpu.cpsr &&& 0x1f = 0x13)
      (hmmu : s.system.mmuOn = false) (hinited : s.system.machine.sections.memInited = false)
      (hsetup : setupStacks tops s = some s') (hmem : Loaded board.symbols s'.system.mem)
      (hirq : load s'.system.mem 4 board.symbols.archIrqHandler = 0)
      (hload : loadVectors fuel board.symbols s'.system = some system)
      (hcpu : Program s'.cpu cpu) : Runs fuel board tops fn [] ⟨cpu, enableCaches system⟩
  | call {calls : List Call} {s : State} {system : System} {cpu : Cpu}
      (h : Runs fuel board tops fn calls s) (call : Call)
      (hallowed : Allowed board.symbols s.system call)
      (hrun : runCall fuel board call s.system = .ok system) (hcpu : Program s.cpu cpu) :
      Runs fuel board tops fn (calls ++ [call]) ⟨cpu, system⟩
  | exception {calls : List Call} {s s' : State} (h : Runs fuel board tops fn calls s)
      (hmmu : s.system.mmuOn = true) (e : Exception)
      (hdeliver : deliver board.symbols fn e s = some s') : Runs fuel board tops fn calls s'

/-- INTERNAL: the routine of an exception that returns, if there is one. -/
def returning (symbols : Symbols) : Exception → Option Word
  | .undef => some symbols.undefSkip
  | .swi => some symbols.swiSkip
  | .pabt => some symbols.pabtReturn
  | .dabt => some symbols.dabtSkip
  | .irq => some symbols.irqHandlerTramp
  | .fiq => none

/-- INTERNAL: what a call installs is the handler at the start, or one that returns.
SRC: arch/arm/exception.c:15-91 -/
theorem installs_cases {symbols : Symbols} {call : Call} {e : Exception} {v : Word}
    (h : installs symbols e call = some v) :
    v = initialHandler symbols e ∨ returning symbols e = some v := by
  cases call with
  | ifaultInstallBreak =>
    obtain ⟨rfl, hv⟩ := Option.ite_none_right_eq_some.1 h
    exact .inl (Option.some.inj hv).symm
  | ifaultInstallReturn | dfaultInstallSkip | syscallInstallSkip | undefInstallSkip =>
    obtain ⟨rfl, hv⟩ := Option.ite_none_right_eq_some.1 h
    exact .inr hv
  | _ => cases h

/-- INTERNAL: the handler behind any calls is the one at the start, or one that returns. -/
theorem handlerAfter_cases (symbols : Symbols) (calls : List Call) (e : Exception) :
    handlerAfter symbols calls e = initialHandler symbols e ∨
      returning symbols e = some (handlerAfter symbols calls e) := by
  induction calls using List.reverseRecOn with
  | nil => exact .inl rfl
  | append_singleton calls call ih =>
    rw [handlerAfter_concat]
    cases hinstalls : installs symbols e call with
    | none => exact ih
    | some v => exact installs_cases hinstalls

/-- INTERNAL: no two handlers begin at one address. -/
def Distinct (symbols : Symbols) : Prop :=
  [symbols.pabtReturn, symbols.dabtSkip, symbols.swiSkip, symbols.undefSkip,
    symbols.irqHandlerTramp,
    symbols.defaultHandler, symbols.defaultUndefHandler].Nodup

/-- INTERNAL: memory behind an exception that returns. -/
def behind (symbols : Symbols) (fn : Handler) (handler : Word) (e : Exception) (s : State) :
    System :=
  match e with
  | .pabt => { s.system with mem := store 4 (below 4 (s.cpu.sp .abt) 1) (s.cpu.r 0) s.system.mem }
  | .irq => (fn handler (called symbols handler s)).system
  | _ => s.system

section Deliver

variable {board : Board} {tops : Stacks} {fn : Handler} {calls : List Call} {s : State}

/-- INTERNAL: what holds between exceptions: the invariant of the vectors, and empty stacks. -/
structure Ready (board : Board) (tops : Stacks) (calls : List Call) (s : State) : Prop where
  invariant : Invariant board.symbols calls s.system
  irq : s.cpu.sp .irq = tops.irqStackTop
  pabt : s.cpu.sp .abt = tops.pabtStackTop

/-- INTERNAL: an exception without a routine that returns. -/
theorem Ready.deliver_none (hlayout : Layout board.symbols) (hdistinct : Distinct board.symbols)
    (h : Ready board tops calls s) (hmmu : s.system.mmuOn = true) {e : Exception}
    (hnone : returning board.symbols e ≠ some (handlerAfter board.symbols calls e)) :
    deliver board.symbols fn e s = none := by
  have hinitial := (handlerAfter_cases board.symbols calls e).resolve_right hnone
  have haddress : handlerAfter board.symbols calls e = board.symbols.defaultHandler ∨
      handlerAfter board.symbols calls e = board.symbols.defaultUndefHandler := by
    rw [hinitial] at hnone ⊢
    cases e with
    | undef => exact .inr rfl
    | irq => exact absurd rfl hnone
    | swi | pabt | dabt | fiq => exact .inl rfl
  rw [deliver, h.invariant.dispatch_eq hlayout.below hmmu]
  simp only [Distinct, List.nodup_cons, List.mem_cons, not_or, List.not_mem_nil] at hdistinct
  simp only [Option.bind_eq_bind, Option.bind_some, routine]
  rcases haddress with haddress | haddress <;> rw [haddress] <;> grind

/-- INTERNAL: the handlers are at different addresses, so each address is that of one routine. -/
theorem routine_eq {symbols : Symbols} (hdistinct : Distinct symbols) (fn : Handler) (s : State) :
    routine symbols fn symbols.pabtReturn s = pabtReturn s ∧
      routine symbols fn symbols.dabtSkip s = some (dabtSkip s) ∧
      routine symbols fn symbols.swiSkip s = some (swiSkip s) ∧
      routine symbols fn symbols.undefSkip s = some (undefSkip s) ∧
      routine symbols fn symbols.irqHandlerTramp s = irqHandlerTramp symbols fn s := by
  simp only [Distinct, List.nodup_cons, List.mem_cons, not_or, List.not_mem_nil] at hdistinct
  unfold routine
  refine ⟨?_, ?_, ?_, ?_, ?_⟩ <;> grind

/-- INTERNAL: the trampoline finds the handler that was installed last. -/
theorem Ready.load_handler (hlayout : Layout board.symbols)
    (hirq : StackRoom board.symbols tops.irqStackTop) (h : Ready board tops calls s) :
    load32 (called board.symbols (irqHandlerAfter calls) s).system board.symbols.archIrqHandler =
      some (irqHandlerAfter calls) := by
  have htranslate := translate_text (s := (called board.symbols (irqHandlerAfter calls) s).system)
    h.invariant.mmu hlayout.irqText
  rw [load32, htranslate, ← h.invariant.copy.irq]
  refine congrArg some (load_congr (by decide) fun x hx => ?_)
  refine pushAll_of_notMem _ (by simp only [List.length_map, List.length_reverse]; decide) ?_
  intro hin
  simp only [List.length_map, List.length_reverse] at hin
  rw [h.irq] at hin
  exact (hirq.apart_below (k := 14) (by decide) hin).2 hx

/-- INTERNAL: **an exception returns**, with its handler installed. -/
theorem Ready.deliver_eq (hlayout : Layout board.symbols) (hdistinct : Distinct board.symbols)
    (hpabt : StackRoom board.symbols tops.pabtStackTop)
    (hirq : StackRoom board.symbols tops.irqStackTop) (hfn : Conforms board.symbols fn)
    (h : Ready board tops calls s) (hmmu : s.system.mmuOn = true) {e : Exception}
    (hreturning : returning board.symbols e = some (handlerAfter board.symbols calls e)) :
    deliver board.symbols fn e s = some ⟨resumed e s.cpu,
      behind board.symbols fn (irqHandlerAfter calls) e s⟩ := by
  obtain ⟨hpabtReturn, hdabtSkip, hswiSkip, hundefSkip, htramp⟩ :=
    routine_eq hdistinct fn { s with cpu := enter e s.cpu }
  rw [deliver, h.invariant.dispatch_eq hlayout.below hmmu]
  simp only [Option.bind_eq_bind, Option.bind_some]
  cases e with
  | undef =>
    rw [← Option.some.inj hreturning, hundefSkip]
    exact congrArg some (exceptionReturn_enter (.inr (.inr rfl)) s.cpu s.system)
  | swi =>
    rw [← Option.some.inj hreturning, hswiSkip]
    exact congrArg some (exceptionReturn_enter (.inr (.inl rfl)) s.cpu s.system)
  | pabt =>
    rw [← Option.some.inj hreturning, hpabtReturn]
    refine pabtReturn_enter s.cpu s.system ?_
    rw [h.pabt]
    exact hpabt.flat h.invariant.mmu (by decide)
  | dabt =>
    rw [← Option.some.inj hreturning, hdabtSkip]
    exact congrArg some (exceptionReturn_enter (.inl rfl) s.cpu s.system)
  | irq =>
    rw [← Option.some.inj hreturning, htramp]
    refine irqHandlerTramp_enter s hfn ?_ (h.load_handler hlayout hirq)
    rw [h.irq]
    exact hirq.flat h.invariant.mmu (by decide)
  | fiq => cases hreturning

/-- INTERNAL: an exception that returns spares the vectors and the MMU. -/
theorem Ready.behind_spared (hpabt : StackRoom board.symbols tops.pabtStackTop)
    (hirq : StackRoom board.symbols tops.irqStackTop) (hfn : Conforms board.symbols fn)
    (h : Ready board tops calls s) (handler : Word) (e : Exception) :
    (behind board.symbols fn handler e s).machine = s.system.machine ∧
      ∀ x, InRange board.symbols.platform.vectorsRelocate (size board.symbols) x ∨
        InRange board.symbols.archIrqHandler 4 x →
          (behind board.symbols fn handler e s).mem x = s.system.mem x := by
  cases e with
  | undef | swi | dabt | fiq => exact ⟨rfl, fun _ _ => rfl⟩
  | pabt =>
    refine ⟨rfl, fun x hx => store_of_notMem (n := 4) (fun hin => ?_) _ _⟩
    rw [h.pabt] at hin
    have happart := hpabt.apart_below (k := 1) (by decide) hin
    exact hx.elim happart.1 happart.2
  | irq =>
    refine ⟨hfn.machine _ _, fun x hx => (hfn.memory _ _ x (.inr hx)).trans ?_⟩
    refine pushAll_of_notMem _ (by simp only [List.length_map, List.length_reverse]; decide) ?_
    intro hin
    simp only [List.length_map, List.length_reverse] at hin
    rw [h.irq] at hin
    have happart := hirq.apart_below (k := 14) (by decide) hin
    exact hx.elim happart.1 happart.2

/-- INTERNAL: an exception that returned leaves everything ready for the next. -/
theorem Ready.deliver (hlayout : Layout board.symbols) (hdistinct : Distinct board.symbols)
    (hpabt : StackRoom board.symbols tops.pabtStackTop)
    (hirq : StackRoom board.symbols tops.irqStackTop) (hfn : Conforms board.symbols fn)
    (h : Ready board tops calls s) (hmmu : s.system.mmuOn = true) {e : Exception} {s' : State}
    (hdeliver : deliver board.symbols fn e s = some s') : Ready board tops calls s' := by
  by_cases hreturning : returning board.symbols e = some (handlerAfter board.symbols calls e)
  · rw [h.deliver_eq hlayout hdistinct hpabt hirq hfn hmmu hreturning] at hdeliver
    obtain rfl := Option.some.inj hdeliver
    obtain ⟨hmachine, hspared⟩ := h.behind_spared hpabt hirq hfn (irqHandlerAfter calls) e
    refine ⟨⟨h.invariant.copy.congr hlayout hspared, ?_⟩, h.irq, h.pabt⟩
    rw [hmachine]
    exact h.invariant.mmu
  · rw [h.deliver_none hlayout hdistinct hmmu hreturning] at hdeliver
    cases hdeliver

/-- INTERNAL: a program leaves the stacks of the exceptions alone. -/
theorem Ready.program (h : Ready board tops calls s) {cpu : Cpu} (hcpu : Program s.cpu cpu)
    {calls' : List Call} {system : System} (hinvariant : Invariant board.symbols calls' system) :
    Ready board tops calls' ⟨cpu, system⟩ :=
  ⟨hinvariant, (hcpu.2 .irq (by decide)).trans h.irq, (hcpu.2 .abt (by decide)).trans h.pabt⟩

/-- INTERNAL: **every state of a run is ready for an exception.** -/
theorem Runs.ready (hlayout : Layout board.symbols) (hdistinct : Distinct board.symbols)
    (hpabt : StackRoom board.symbols tops.pabtStackTop)
    (hirq : StackRoom board.symbols tops.irqStackTop) (hfn : Conforms board.symbols fn) {fuel : ℕ}
    (hfuel : 0x10000 < fuel) (h : Runs fuel board tops fn calls s) : Ready board tops calls s := by
  induction h with
  | loaded hmode hmmu hinited hsetup hmem hvariable hload hcpu =>
    obtain ⟨cpu, hcpus, hsp, -⟩ := setupStacks_eq tops _ hmode hmmu
    rw [hcpus] at hsetup
    obtain rfl := Option.some.inj hsetup
    refine ⟨Invariant.loaded hlayout hfuel ?_ ?_ hmem hvariable hload, ?_, ?_⟩
    · exact hmmu
    · exact hinited
    · rw [hcpu.2 .irq (by decide), hsp]
      rfl
    · rw [hcpu.2 .abt (by decide), hsp]
      rfl
  | call _ _ hallowed hrun hcpu ih =>
    exact ih.program hcpu (ih.invariant.step hlayout hallowed hrun)
  | exception _ hmmu _ hdeliver ih =>
    exact ih.deliver hlayout hdistinct hpabt hirq hfn hmmu hdeliver

end Deliver

/-- SOURCE: arch/arm/exception-handlers.S:9-52, arch/arm/reset.S:36-91, arch/arm/vectors.S:5-79,
arch/arm/exception.c:15-91 — **exceptions return to the program**: after any calls and any
exceptions, with the MMU on, an exception whose handler is installed returns to the program, one
instruction on, at the return address of the call that faulted, or where it was interrupted, the
last with the handler in C called once; the registers are as they were but `r1` behind a prefetch
abort. -/
theorem exceptions_return (board : Board) (tops : Stacks) (fn : Handler)
    (hlayout : Layout board.symbols) (hdistinct : Distinct board.symbols)
    (hpabt : StackRoom board.symbols tops.pabtStackTop)
    (hirq : StackRoom board.symbols tops.irqStackTop) (hfn : Conforms board.symbols fn) {fuel : ℕ}
    (hfuel : 0x10000 < fuel) (calls : List Call) (s : State)
    (h : Runs fuel board tops fn calls s) (hmmu : s.system.mmuOn = true) (e : Exception) :
    deliver board.symbols fn e s =
      if returning board.symbols e = some (handlerAfter board.symbols calls e) then
        some ⟨resumed e s.cpu, behind board.symbols fn (irqHandlerAfter calls) e s⟩
      else none := by
  have hready := h.ready hlayout hdistinct hpabt hirq hfn hfuel
  split
  · rename_i hreturning
    exact hready.deliver_eq hlayout hdistinct hpabt hirq hfn hmmu hreturning
  · rename_i hreturning
    exact hready.deliver_none hlayout hdistinct hmmu hreturning

/-! ## A board -/

/-- INTERNAL: the stacks in the data of the SA1100's image. -/
def sa1100Stacks : Stacks := ⟨0xc1100000, 0xc1101000, 0xc1102000, 0xc1103000⟩

/-- INTERNAL: a stack in the data of the board's image has room.
SRC: platform/arm/sa1100/sys.ld:3-51 -/
theorem stackRoom_sa1100 {top : Word} (hlow : 0xc1000800 ≤ top) (hhigh : top ≤ 0xc12fffff) :
    StackRoom sa1100Symbols top := by
  have hmin : 0xc1000800 ≤ top.toNat := hlow
  have hmax : top.toNat ≤ 0xc12fffff := hhigh
  have hvalue : (below 4 top 511).toNat = top.toNat - 2044 := by
    rw [below, BitVec.toNat_sub, BitVec.toNat_ofNat]
    omega
  have hcopy : sa1100Symbols.platform.vectorsRelocate.toNat + size sa1100Symbols ≤ 0xc1000000 := by
    decide
  have hvariable : sa1100Symbols.archIrqHandler.toNat + 4 ≤ 0xc1000000 := by decide
  refine ⟨?_, hhigh, fun x hx => ⟨fun hx' => ?_, fun hx' => ?_⟩⟩
  · have hdata : sa1100Symbols.platform.dataStart.toNat = 0xc1000000 := rfl
    rw [hdata]
    omega
  · exact notInRange_of_le (by omega) (by omega) hx' hx
  · exact notInRange_of_le (by omega) (by omega) hx' hx

/-- INTERNAL: the processor as it starts, in the supervisor mode. -/
def sa1100Reset : State := ⟨⟨fun _ => 0, fun _ => 0, fun _ => 0, fun _ => 0, 0xd3, 0⟩, sa1100Start⟩

/-- INTERNAL: a handler in C that does nothing follows the procedure call standard. -/
theorem conforms_returns (symbols : Symbols) : Conforms symbols fun _ s => s :=
  ⟨fun _ _ => rfl, fun _ _ _ _ => rfl, fun _ _ => rfl, fun _ _ => rfl, fun _ _ => rfl,
    fun _ _ _ _ => rfl⟩

/-- INTERNAL: the handlers of the example are at different addresses. -/
theorem distinct_sa1100 : Distinct sa1100Symbols := by
  unfold Distinct
  decide

/-- INTERNAL: a run of three calls on that board. -/
theorem runs_sa1100 {fuel : ℕ} (hfuel : 0x10000 < fuel) : ∃ s, Runs fuel sa1100Board sa1100Stacks
    (fun _ s => s) [.memInit, .mmuEnable, .dfaultInstallSkip] s ∧ s.system.mmuOn = true := by
  obtain ⟨cpu, hsetup, hsp, husr, -⟩ := setupStacks_eq sa1100Stacks sa1100Reset (by decide) rfl
  have hmem : Loaded sa1100Symbols
      (store 4 sa1100Stacks.stackTop sa1100Stacks.stackTop sa1100Start.mem) := by
    refine ⟨fun e => ?_, fun e => ?_, fun e => ?_⟩
    all_goals cases e <;> rfl
  have hirq : load (store 4 sa1100Stacks.stackTop sa1100Stacks.stackTop sa1100Start.mem) 4
      sa1100Symbols.archIrqHandler = 0 := by rfl
  have hoff : (0x3800 : Word).getLsbD 0 = false := by decide
  have hloaded : Runs fuel sa1100Board sa1100Stacks (fun _ s => s) [] ⟨cpu, _⟩ :=
    .loaded (s := sa1100Reset) (by decide) rfl rfl hsetup hmem hirq
      (loadVectors_eq layout_sa1100 hfuel _) ⟨husr, fun _ _ => rfl⟩
  generalize copied (store 4 sa1100Stacks.stackTop sa1100Stacks.stackTop sa1100Reset.system.mem) _ _
    _ = mem at hloaded
  replace hloaded := (enableCaches_sa1100 mem) ▸ hloaded
  obtain ⟨s, s', hinit, hinited, henable, hmmu⟩ := mmuOn_sa1100 fuel mem
  have hon := (hloaded.call .memInit hoff hinit ⟨husr, fun _ _ => rfl⟩).call
    .mmuEnable hinited henable ⟨husr, fun _ _ => rfl⟩
  have hready := hon.ready layout_sa1100 distinct_sa1100
    (stackRoom_sa1100 (by decide) (by decide)) (stackRoom_sa1100 (by decide) (by decide))
    (conforms_returns _) hfuel
  exact ⟨_, hon.call .dfaultInstallSkip trivial
    (install_eq layout_sa1100 hready.invariant .dabt _) ⟨husr, fun _ _ => rfl⟩, hmmu⟩

/-- INTERNAL: behind it a data abort returns to the program, and a system call, for which no handler
is installed, does not. -/
theorem exceptions_return_sa1100 : ∃ fuel s,
    Runs fuel sa1100Board sa1100Stacks (fun _ s => s) [.memInit, .mmuEnable, .dfaultInstallSkip] s ∧
      deliver sa1100Symbols (fun _ s => s) .dabt s = some ⟨resumed .dabt s.cpu, s.system⟩ ∧
      deliver sa1100Symbols (fun _ s => s) .swi s = none := by
  have hfuel : 0x10000 < 0x10001 := by decide
  obtain ⟨s, hruns, hmmu⟩ := runs_sa1100 hfuel
  have hreturn := exceptions_return sa1100Board sa1100Stacks _ layout_sa1100 distinct_sa1100
    (stackRoom_sa1100 (by decide) (by decide)) (stackRoom_sa1100 (by decide) (by decide))
    (conforms_returns _) hfuel _ s hruns hmmu
  exact ⟨_, s, hruns, hreturn .dabt, hreturn .swi⟩

end Simbench.Analysis.ArmExceptionHandlers
