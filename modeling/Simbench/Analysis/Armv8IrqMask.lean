import Simbench.Library.BitFields
import Simbench.Library.LastWrite
import Simbench.Program.Armv8Machine

/-!
# Interrupt masking through system calls

The handlers behind `arch_irq_enable` and `arch_irq_disable` write bit 12 of SCTLR_EL1, the
instruction cache enable, and leave SPSR_EL1 alone. So over a run bit 12 follows the
requests, the interrupt mask never changes, and the requests are met only where both bits
already agreed with all of them.
-/

set_option autoImplicit false

namespace Simbench.Analysis.Armv8IrqMask

open Simbench.Library.BitFields Simbench.Library.LastWrite Simbench.Program.Armv8Machine

/-! ## One system call -/

/-- INTERNAL: a caller whose `svc` reaches `armv8_handle_syscall`: at EL0, or at EL1 on the
stack of EL0, with the handler `arch_init` installs. -/
structure Caller (s : Machine) : Prop where
  handler : s.el0SyncTable armv8EcSyscall = some .handleSyscall
  mode : modeOf s.pstate = el0t ∨ modeOf s.pstate = el1t

/-- INTERNAL: the machine `armv8_handle_syscall` is entered with. -/
def entered (callNo : Int) (s : Machine) : Machine :=
  { s with
    globalSyscallNo := callNo
    spsr := s.pstate
    esr := syndromeOf armv8EcSyscall 1
    elr := s.pc + 4
    pstate := handlerPstate
    armv8BackupLr := s.x30 }

/-- INTERNAL: an `svc` is `armv8_handle_syscall` between entry and `eret`. -/
theorem armv8Syscall_eq (image : Image) (callNo : Int) {s : Machine} (h : Caller s) :
    armv8Syscall image callNo s = (do
      let (rc, s') ← armv8HandleSyscall image (entered callNo s)
      if rc ≠ 0 then .error (.vector s') else .ok (eret s')) := by
  have hclass : exceptionClass (syndromeOf armv8EcSyscall 1) = armv8EcSyscall := by decide
  have hsyndrome₀ : ¬ syndromeOf armv8EcSyscall 1 &&& 0x1ffffff = 0 := by decide
  have hsyndrome₁ : syndromeOf armv8EcSyscall 1 &&& 0x1ffffff = 1 := by decide
  unfold armv8Syscall takeSynchronous
  rw [if_pos h.mode, if_pos rfl]
  unfold synchronousVector el1LowerSyncHandler
  simp only [hclass, h.handler, Handler.call, handleSyscall, if_neg hsyndrome₀, if_pos hsyndrome₁]
  rfl

/-- INTERNAL: the calls that read and write one register: interrupts, privilege, MMU. -/
def registerCalls : List Int :=
  [syscallIrqEnableNo, syscallIrqDisableNo, syscallMmuEnableNo, syscallMmuDisableNo,
    syscallPrivEnterNo, syscallPrivLeaveNo]

/-- INTERNAL: what such a call makes of SCTLR_EL1. -/
def sctlrAfter (callNo : Int) (sctlr : BitVec 32) : BitVec 32 :=
  if callNo = syscallIrqDisableNo then sctlr ||| 1#32 <<< 12
  else if callNo = syscallIrqEnableNo then sctlr &&& ~~~(1#32 <<< 12)
  else if callNo = syscallMmuEnableNo then sctlr ||| 1#32 <<< 0
  else if callNo = syscallMmuDisableNo then sctlr &&& ~~~(1#32 <<< 0)
  else sctlr

/-- INTERNAL: what it makes of the caller's PSTATE. -/
def pstateAfter (callNo : Int) (pstate : BitVec 32) : BitVec 32 :=
  if callNo = syscallPrivEnterNo then (pstate &&& ~~~(3#32 <<< 2)) ||| 1#32 <<< 2
  else if callNo = syscallPrivLeaveNo then pstate &&& ~~~(3#32 <<< 2)
  else pstate

/-- INTERNAL: **one call**: it returns, and changes the two registers only as it should. -/
theorem armv8Syscall_register (image : Image) {callNo : Int} (hcall : callNo ∈ registerCalls)
    {s : Machine} (h : Caller s) :
    ∃ s', armv8Syscall image callNo s = .ok s' ∧ s'.sctlr = sctlrAfter callNo s.sctlr ∧
      s'.pstate = pstateAfter callNo s.pstate ∧ s'.el0SyncTable = s.el0SyncTable ∧
      s'.tables = s.tables ∧ s'.ttbr0 = s.ttbr0 ∧ s'.tcr = s.tcr := by
  rw [armv8Syscall_eq image callNo h]
  unfold registerCalls at hcall
  simp only [List.mem_cons, List.not_mem_nil, or_false] at hcall
  rcases hcall with rfl | rfl | rfl | rfl | rfl | rfl
  · exact ⟨_, rfl, rfl, rfl, rfl, rfl, rfl, rfl⟩
  · exact ⟨_, rfl, rfl, rfl, rfl, rfl, rfl, rfl⟩
  · exact ⟨_, rfl, rfl, rfl, rfl, rfl, rfl, rfl⟩
  · exact ⟨_, rfl, rfl, rfl, rfl, rfl, rfl, rfl⟩
  · exact ⟨_, rfl, rfl, rfl, rfl, rfl, rfl, rfl⟩
  · refine ⟨_, rfl, rfl, ?_, rfl, rfl, rfl, rfl⟩
    exact BitVec.or_zero

/-- INTERNAL: clearing the level leaves the stack selection of the mode. -/
theorem modeOf_clear (pstate : BitVec 32) :
    modeOf (pstate &&& ~~~(3#32 <<< 2)) = modeOf pstate &&& ~~~(3#32 <<< 2) := by
  unfold modeOf
  rw [BitVec.and_assoc, BitVec.and_assoc, BitVec.and_comm (0xf : BitVec 32)]

/-- INTERNAL: setting the level bits of the saved state to EL1 is setting them in its mode field. -/
theorem modeOf_set (pstate : BitVec 32) :
    modeOf (pstate &&& ~~~(3#32 <<< 2) ||| 1#32 <<< 2) =
      (modeOf pstate &&& ~~~(3#32 <<< 2)) ||| (1#32 <<< 2 &&& 0xf) := by
  rw [← modeOf_clear]
  unfold modeOf
  apply BitVec.eq_of_getLsbD_eq
  intro i _
  simp only [BitVec.getLsbD_and, BitVec.getLsbD_or, Bool.and_or_distrib_right]

/-- INTERNAL: behind `arch_priv_enter` the saved mode is EL1. -/
theorem modeOf_privEnter {pstate : BitVec 32} (h : modeOf pstate = el0t ∨ modeOf pstate = el1t) :
    modeOf (pstateAfter syscallPrivEnterNo pstate) = el1t := by
  unfold pstateAfter
  rw [if_pos rfl, modeOf_set]
  rcases h with h | h <;> rw [h] <;> decide

/-- INTERNAL: behind `arch_priv_leave` it is EL0. -/
theorem modeOf_privLeave {pstate : BitVec 32} (h : modeOf pstate = el0t ∨ modeOf pstate = el1t) :
    modeOf (pstateAfter syscallPrivLeaveNo pstate) = el0t := by
  have hother : syscallPrivLeaveNo ≠ syscallPrivEnterNo := by decide
  unfold pstateAfter
  rw [if_neg hother, if_pos rfl, modeOf_clear]
  rcases h with h | h <;> rw [h] <;> decide

/-- INTERNAL: after the call the program stands where another one reaches the handler. -/
theorem modeOf_pstateAfter (callNo : Int) {pstate : BitVec 32}
    (h : modeOf pstate = el0t ∨ modeOf pstate = el1t) :
    modeOf (pstateAfter callNo pstate) = el0t ∨ modeOf (pstateAfter callNo pstate) = el1t := by
  by_cases henter : callNo = syscallPrivEnterNo
  · rw [henter]
    exact Or.inr (modeOf_privEnter h)
  · by_cases hleave : callNo = syscallPrivLeaveNo
    · rw [hleave]
      exact Or.inl (modeOf_privLeave h)
    · unfold pstateAfter
      rwa [if_neg henter, if_neg hleave]

/-! ## The two bits -/

/-- INTERNAL: PSTATE.I, as the caller finds it when the call returns. -/
def masked (s : Machine) : Bool := s.pstate.getLsbD 7

/-- INTERNAL: the instruction cache enable, bit 12 of SCTLR_EL1. -/
def icacheEnabled (s : Machine) : Bool := s.sctlr.getLsbD 12

/-- INTERNAL: the mask a call asks for. -/
def requested (callNo : Int) : Option Bool :=
  if callNo = syscallIrqDisableNo then some true
  else if callNo = syscallIrqEnableNo then some false
  else none

/-- INTERNAL: the mask the last interrupt call of a sequence asked for. -/
def lastRequested (calls : List Int) : Option Bool :=
  lastWrite (fun callNo => (requested callNo).map some) calls

/-- INTERNAL: the last request of a longer sequence is that of its last call, if it makes one. -/
theorem lastRequested_concat (calls : List Int) (callNo : Int) :
    lastRequested (calls ++ [callNo]) = (requested callNo).or (lastRequested calls) := by
  unfold lastRequested
  rw [lastWrite_concat]
  cases requested callNo <;> rfl

/-- INTERNAL: a request comes from a call of the sequence. -/
theorem mem_of_lastRequested {calls : List Int} {mask : Bool}
    (h : lastRequested calls = some mask) :
    ∃ callNo ∈ calls, requested callNo = some mask := by
  rw [lastRequested, lastWrite_eq_some_iff] at h
  obtain ⟨before, callNo, after, rfl, hwrite, -⟩ := h
  refine ⟨callNo, by simp, ?_⟩
  simpa using hwrite

/-- INTERNAL: no system call changes the interrupt mask of the processor. -/
theorem getLsbD_pstateAfter (callNo : Int) (pstate : BitVec 32) :
    (pstateAfter callNo pstate).getLsbD 7 = pstate.getLsbD 7 := by
  have hmask : (~~~(3#32 <<< 2)).getLsbD 7 = true := by decide
  have hbit : (1#32 <<< 2).getLsbD 7 = false := by decide
  unfold pstateAfter
  split
  · rw [BitVec.getLsbD_or, BitVec.getLsbD_and, hmask, hbit, Bool.and_true, Bool.or_false]
  · split
    · rw [BitVec.getLsbD_and, hmask, Bool.and_true]
    · rfl

/-- INTERNAL: an interrupt call writes its request to bit 12 of SCTLR_EL1. -/
theorem getLsbD_sctlrAfter (callNo : Int) (sctlr : BitVec 32) :
    (sctlrAfter callNo sctlr).getLsbD 12 = (requested callNo).getD (sctlr.getLsbD 12) := by
  unfold sctlrAfter requested
  split
  · rw [getLsbD_or_bit sctlr (by decide)]
    simp
  · split
    · rw [getLsbD_and_not_bit sctlr (by decide)]
      simp
    · split
      · rw [getLsbD_or_bit sctlr (by decide)]
        simp
      · split
        · rw [getLsbD_and_not_bit sctlr (by decide)]
          simp
        · rfl

/-- INTERNAL: an interrupt call leaves SCTLR_EL1 as it was iff bit 12 agrees with it. -/
theorem sctlrAfter_eq_self_iff {callNo : Int} {mask : Bool} (h : requested callNo = some mask)
    (sctlr : BitVec 32) : sctlrAfter callNo sctlr = sctlr ↔ sctlr.getLsbD 12 = mask := by
  unfold requested at h
  unfold sctlrAfter
  split at h
  · rename_i hdisable
    cases h
    rw [if_pos hdisable]
    exact or_bit_eq_self_iff sctlr (by decide)
  · rename_i hdisable
    split at h
    · rename_i henable
      cases h
      rw [if_neg hdisable, if_pos henable]
      exact and_not_bit_eq_self_iff sctlr (by decide)
    · cases h

/-! ## Runs -/

/-- INTERNAL: a sequence of system calls, by their numbers, one after the other. -/
def run (image : Image) (calls : List Int) (s : Machine) : Except Halt Machine :=
  calls.foldlM (fun s callNo => armv8Syscall image callNo s) s

/-- INTERNAL: a run of calls makes its last call from where the others end. -/
theorem run_concat (image : Image) (calls : List Int) (callNo : Int) (s : Machine) :
    run image (calls ++ [callNo]) s = run image calls s >>= armv8Syscall image callNo := by
  unfold run
  rw [List.foldlM_append]
  apply bind_congr
  intro s'
  rw [List.foldlM_cons]
  exact bind_pure _

/-- INTERNAL: where a sequence of calls leads. -/
structure After (calls : List Int) (s s' : Machine) : Prop where
  caller : Caller s'
  mask : masked s' = masked s
  icache : icacheEnabled s' = (lastRequested calls).getD (icacheEnabled s)

/-- INTERNAL: **the run**: every sequence of the calls returns; the mask is what it was, and
bit 12 of SCTLR_EL1 follows the requests. -/
theorem run_after (image : Image) {s : Machine} (h : Caller s) (calls : List Int)
    (hcalls : ∀ callNo ∈ calls, callNo ∈ registerCalls) :
    ∃ s', run image calls s = .ok s' ∧ After calls s s' := by
  induction calls using List.reverseRecOn with
  | nil => exact ⟨s, rfl, h, rfl, rfl⟩
  | append_singleton calls callNo ih =>
    obtain ⟨s₁, hrun, hafter⟩ := ih fun c hc => hcalls c (List.mem_append_left _ hc)
    obtain ⟨s₂, hcall, hsctlr, hpstate, htable, -⟩ :=
      armv8Syscall_register image (hcalls callNo (by simp)) hafter.caller
    refine ⟨s₂, by rw [run_concat, hrun]; exact hcall, ⟨?_, ?_⟩, ?_, ?_⟩
    · rw [htable]
      exact hafter.caller.handler
    · rw [hpstate]
      exact modeOf_pstateAfter callNo hafter.caller.mode
    · rw [masked, hpstate, getLsbD_pstateAfter]
      exact hafter.mask
    · rw [icacheEnabled, hsctlr, getLsbD_sctlrAfter, lastRequested_concat]
      cases requested callNo with
      | none => exact hafter.icache
      | some mask => rfl

/-- INTERNAL: interrupt masking over a run: at every call, the mask the caller is left with is
the last one asked for, and an interrupt call changes no bit of SCTLR_EL1. -/
def MaskingFollows (image : Image) (calls : List Int) (s : Machine) : Prop :=
  ∀ before callNo after, calls = before ++ callNo :: after → ∀ s₁ s₂,
    run image before s = .ok s₁ → armv8Syscall image callNo s₁ = .ok s₂ →
      (∀ mask, lastRequested (before ++ [callNo]) = some mask → masked s₂ = mask) ∧
        (requested callNo ≠ none → s₂.sctlr = s₁.sctlr)

/-- INTERNAL: each request is made by one call number only. -/
theorem requested_inj {callNo callNo' : Int} {mask : Bool} (h : requested callNo = some mask)
    (h' : requested callNo' = some mask) : callNo = callNo' := by
  unfold requested at h h'
  split at h <;> split at h' <;> simp_all

section Follows

variable {image : Image} {s : Machine} {calls : List Int}

/-- INTERNAL: a run stopped before and behind one of its calls. -/
theorem exists_states (image : Image) (hcaller : Caller s)
    (hcalls : ∀ callNo ∈ calls, callNo ∈ registerCalls)
    {before after : List Int} {callNo : Int} (hsplit : calls = before ++ callNo :: after) :
    ∃ s₁ s₂, run image before s = .ok s₁ ∧ armv8Syscall image callNo s₁ = .ok s₂ ∧
      After before s s₁ ∧ After (before ++ [callNo]) s s₂ ∧
        s₂.sctlr = sctlrAfter callNo s₁.sctlr := by
  have hbefore : ∀ c ∈ before, c ∈ registerCalls := fun c hc => hcalls c (by simp [hsplit, hc])
  have hcall : callNo ∈ registerCalls := hcalls callNo (by simp [hsplit])
  obtain ⟨s₁, hrun, hafter₁⟩ := run_after image hcaller before hbefore
  obtain ⟨s₂, hstep, hsctlr, -⟩ := armv8Syscall_register image hcall hafter₁.caller
  obtain ⟨s₂', hrun₂, hafter₂⟩ := run_after image hcaller (before ++ [callNo]) (by
    intro c hc
    rcases List.mem_append.mp hc with hc | hc
    · exact hbefore c hc
    · rw [List.mem_singleton.mp hc]
      exact hcall)
  have hsame : s₂' = s₂ := by
    rw [run_concat, hrun] at hrun₂
    exact Except.ok.inj (hrun₂.symm.trans hstep)
  subst hsame
  exact ⟨s₁, s₂', hrun, hstep, hafter₁, hafter₂, hsctlr⟩

/-- INTERNAL: every request of a run whose masking follows is the mask the run starts with. -/
theorem MaskingFollows.masked_eq (hcaller : Caller s)
    (hcalls : ∀ callNo ∈ calls, callNo ∈ registerCalls) (h : MaskingFollows image calls s)
    {callNo : Int} {mask : Bool} (hmem : callNo ∈ calls) (hrequest : requested callNo = some mask) :
    masked s = mask := by
  obtain ⟨before, after, hsplit⟩ := List.append_of_mem hmem
  obtain ⟨s₁, s₂, hrun, hstep, -, hafter, -⟩ := exists_states image hcaller hcalls hsplit
  rw [← hafter.mask]
  apply (h before callNo after hsplit s₁ s₂ hrun hstep).1
  rw [lastRequested_concat, hrequest]
  rfl

/-- INTERNAL: so is bit 12 of SCTLR_EL1: no request stands before the first one. -/
theorem MaskingFollows.icacheEnabled_eq (hcaller : Caller s)
    (hcalls : ∀ callNo ∈ calls, callNo ∈ registerCalls) (h : MaskingFollows image calls s)
    {callNo : Int} {mask : Bool} (hmem : callNo ∈ calls) (hrequest : requested callNo = some mask) :
    icacheEnabled s = mask := by
  obtain ⟨before, after, hsplit, hfirst⟩ := List.eq_append_cons_of_mem hmem
  obtain ⟨s₁, s₂, hrun, hstep, hafter, -, hsctlr⟩ :=
    exists_states image hcaller hcalls hsplit
  have hkept := (h before callNo after hsplit s₁ s₂ hrun hstep).2 (by simp [hrequest])
  rw [hsctlr, sctlrAfter_eq_self_iff hrequest] at hkept
  have hicache : icacheEnabled s₁ = mask := hkept
  rw [hafter.icache] at hicache
  cases hlast : lastRequested before with
  | none => rwa [hlast] at hicache
  | some earlier =>
    obtain ⟨callNo', hmem', hrequest'⟩ := mem_of_lastRequested hlast
    have hstart := h.masked_eq hcaller hcalls hmem hrequest
    have hstart' := h.masked_eq hcaller hcalls (by simp [hsplit, hmem']) hrequest'
    rw [← hstart', hstart] at hrequest'
    exact absurd (requested_inj hrequest' hrequest ▸ hmem') hfirst

/-- INTERNAL: requests that all agree with both bits are followed. -/
theorem maskingFollows_of_agree (hcaller : Caller s)
    (hcalls : ∀ callNo ∈ calls, callNo ∈ registerCalls)
    (h : ∀ callNo ∈ calls, ∀ mask, requested callNo = some mask →
      masked s = mask ∧ icacheEnabled s = mask) : MaskingFollows image calls s := by
  intro before callNo after hsplit s₁ s₂ hrun hstep
  obtain ⟨s₁', s₂', hrun', hstep', hafter₁, hafter₂, hsctlr⟩ :=
    exists_states image hcaller hcalls hsplit
  obtain rfl : s₁' = s₁ := Except.ok.inj (hrun'.symm.trans hrun)
  obtain rfl : s₂' = s₂ := Except.ok.inj (hstep'.symm.trans hstep)
  constructor
  · intro mask hlast
    obtain ⟨callNo', hmem', hrequest'⟩ := mem_of_lastRequested hlast
    rw [hafter₂.mask]
    refine (h callNo' ?_ mask hrequest').1
    rw [hsplit]
    rcases List.mem_append.mp hmem' with hmem' | hmem'
    · exact List.mem_append_left _ hmem'
    · rw [List.mem_singleton.mp hmem']
      exact List.mem_append_right _ List.mem_cons_self
  · intro hrequest
    obtain ⟨mask, hrequest⟩ := Option.ne_none_iff_exists'.mp hrequest
    obtain ⟨-, hstart⟩ := h callNo (by simp [hsplit]) mask hrequest
    rw [hsctlr, sctlrAfter_eq_self_iff hrequest]
    have hicache := hafter₁.icache
    cases hlast : lastRequested before with
    | none => rwa [hlast, Option.getD_none, hstart] at hicache
    | some earlier =>
      obtain ⟨callNo', hmem', hrequest'⟩ := mem_of_lastRequested hlast
      obtain ⟨-, hstart'⟩ := h callNo' (by simp [hsplit, hmem']) earlier hrequest'
      rwa [hlast, Option.getD_some, ← hstart', hstart] at hicache

end Follows

/-- SOURCE: arch/armv8/syscall.c:8-80, arch/armv8/exception.c:72-86 — **interrupt masking**:
a run of interrupt, privilege and MMU calls returns, and the masking follows its requests
exactly when every disable finds the mask and bit 12 of SCTLR_EL1 set from the start, and
every enable finds both clear. -/
theorem maskingFollows_iff (image : Image) (s : Machine) (hcaller : Caller s) (calls : List Int)
    (hcalls : ∀ callNo ∈ calls, callNo ∈ registerCalls) :
    (∃ s', run image calls s = .ok s') ∧ (MaskingFollows image calls s ↔
      (syscallIrqDisableNo ∈ calls → masked s = true ∧ icacheEnabled s = true) ∧
        (syscallIrqEnableNo ∈ calls → masked s = false ∧ icacheEnabled s = false)) := by
  obtain ⟨s', hrun, -⟩ := run_after image hcaller calls hcalls
  refine ⟨⟨s', hrun⟩, ?_, ?_⟩
  · intro h
    constructor
    · intro hmem
      exact ⟨h.masked_eq hcaller hcalls hmem rfl, h.icacheEnabled_eq hcaller hcalls hmem rfl⟩
    · intro hmem
      exact ⟨h.masked_eq hcaller hcalls hmem rfl, h.icacheEnabled_eq hcaller hcalls hmem rfl⟩
  · rintro ⟨hdisable, henable⟩
    apply maskingFollows_of_agree hcaller hcalls
    intro callNo hmem mask hrequest
    unfold requested at hrequest
    split at hrequest
    · rename_i hcall
      cases hrequest
      exact hdisable (hcall ▸ hmem)
    · split at hrequest
      · rename_i hcall
        cases hrequest
        exact henable (hcall ▸ hmem)
      · cases hrequest

/-! ## From `arch_init` -/

/-- INTERNAL: the state `arch_init` leaves, with the program at EL0. -/
theorem caller_resetHandler (image : Image) (runSimbench : BitVec 64) {s : Machine}
    (hmode : modeOf s.spsr = el0t) : Caller (resetHandler image runSimbench s) := by
  constructor
  · exact Function.update_self armv8EcSyscall (some Handler.handleSyscall) s.el0SyncTable
  · exact Or.inl hmode

/-- INTERNAL: `arch_init` enables the instruction cache. -/
theorem icacheEnabled_resetHandler (image : Image) (runSimbench : BitVec 64) (s : Machine) :
    icacheEnabled (resetHandler image runSimbench s) = true := by
  simp [icacheEnabled, resetHandler, archInit, armv8InstallSyncHandler, eret]

/-- INTERNAL: a program that only asks for what it finds. -/
theorem maskingFollows_iff_disable :
    MaskingFollows virtImage [syscallIrqDisableNo, syscallPrivEnterNo, syscallMmuEnableNo,
      syscallIrqDisableNo] (resetHandler virtImage 0x40001000 { blank with spsr := 0x80 }) := by
  have hcaller := caller_resetHandler virtImage 0x40001000
    (s := { blank with spsr := 0x80 }) (by decide)
  rw [(maskingFollows_iff virtImage _ hcaller _ (by decide)).2]
  constructor
  · intro _
    exact ⟨by decide, icacheEnabled_resetHandler _ _ _⟩
  · intro henable
    exact absurd henable (by decide)

/-- INTERNAL: after `arch_init` no program can enable interrupts: the request turns the
instruction cache off. -/
theorem irqEnable_not_maskingFollows :
    ¬ MaskingFollows virtImage [syscallIrqEnableNo] (resetHandler virtImage 0x40001000 blank) := by
  intro h
  have hicache := h.icacheEnabled_eq (caller_resetHandler virtImage 0x40001000 (by decide))
    (by decide) (List.mem_singleton_self _) rfl
  rw [icacheEnabled_resetHandler] at hicache
  cases hicache

end Simbench.Analysis.Armv8IrqMask
