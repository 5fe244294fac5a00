import Simbench.Analysis.Armv8BenchmarkStates
import Simbench.Analysis.BenchmarkPages

/-!
# The history of exception handlers

Which handlers of `el0_sync_table` a benchmark meets depends on the benchmarks before it: no
cleanup takes one out again. Every exception or memory benchmark but `interrupt` installs what
it needs. `interrupt` reads CurrentEL at EL0, and only an earlier `undef` has installed a handler
for that.
-/

set_option autoImplicit false

namespace Simbench.Analysis.Armv8HandlerHistory

open Simbench.Library.BitFields Simbench.Library.Outcomes Simbench.Program
open Simbench.Program.Armv8Machine Simbench.Program.Armv8Benchmarks
open Simbench.Analysis.Armv8IrqMask Simbench.Analysis.Armv8MemoryCalls
open Simbench.Analysis.Armv8Mappings Simbench.Analysis.Armv8Permissions
open Simbench.Analysis.Armv8Refinement
open Simbench.Analysis.BenchmarkShapes Simbench.Analysis.BenchmarkPages
open Simbench.Analysis.Armv8BenchmarkStates
open Benchmarks (Op Site Name Symbol faultPtr mmuOn mmuOff executeAll)

/-! ## The fault benchmarks -/

section Faults

variable {image : Image} {site : Site} {unknown : Option Handler} {halt : Halt → Prop}

/-- INTERNAL: a benchmark that has installed a handler of its own. -/
structure Installed (image : Image) (unknown : Option Handler) (ec : BitVec 6) (handler : Handler)
    (s : Machine) : Prop where
  on : On image unknown el0t (SimbenchRw image) s
  hidden : Hidden image s
  handler : s.el0SyncTable ec = some handler

/-- INTERNAL: an installed handler stays installed over a step that keeps the vector tables. -/
theorem Installed.of_same {ec : BitVec 6} {handler : Handler} {s s' : Machine}
    (h : Installed image unknown ec handler s) (hsame : Same s s') :
    Installed image unknown ec handler s' := by
  refine ⟨h.on.of_same hsame, h.hidden.congr hsame.tables hsame.ttbr0, ?_⟩
  rw [hsame.handlers]
  exact h.handler

/-- INTERNAL: installing a handler for a class other than the two of the start leaves those two in
place. -/
theorem install_installed (ec : BitVec 6) (handler : Handler) (hsyscall : ec ≠ armv8EcSyscall)
    (hunknown : ec ≠ armv8EcUnknown) {s : Machine} (h : Started image unknown s) :
    Installed image unknown ec handler (armv8InstallSyncHandler ec handler s) := by
  refine ⟨⟨⟨?_, ?_, h.on.mode⟩, h.on.mmuOn, h.on.mapped.congr rfl rfl⟩, h.hidden.congr rfl rfl,
    install_self _ _ s⟩
  · exact (install_of_ne _ hsyscall.symm s).trans h.on.syscall
  · exact (install_of_ne _ hunknown.symm s).trans h.on.unknown

/-- INTERNAL: an abort at EL0 with one of the returning handlers installed comes back to the same
state. -/
theorem takeAbort_installed {ec : BitVec 6} {handler : Handler}
    (hskip : handler = .exceptionSkip ∨ handler = .armv8PabtReturn) {s : Machine}
    (h : Installed image unknown ec handler s) :
    Outcome (Installed image unknown ec handler) halt (takeAbort image ec s) := by
  have hhandler : s.el0SyncTable ec = some .exceptionSkip ∨
      s.el0SyncTable ec = some .armv8PabtReturn := by
    rw [h.handler]
    cases hskip with
    | inl h => exact Or.inl (congrArg some h)
    | inr h => exact Or.inr (congrArg some h)
  unfold takeAbort
  rw [if_pos h.on.mode]
  obtain ⟨s', hreturns, hsame⟩ := takeSynchronous_skip image 0 (Or.inl h.on.mode) hhandler
  rw [hreturns]
  exact h.of_same hsame

/-- INTERNAL: whatever the tables say about the address, the load is skipped or performed. -/
theorem load_installed (ptr : BitVec 64) (e : BitVec 32) (s : Machine)
    (h : Installed image unknown ecDataAbort .exceptionSkip s) :
    Outcome (Installed image unknown ecDataAbort .exceptionSkip) halt
      (exec image site e (.load ptr) s) := by
  show Outcome _ _ (dataAccess image _ false ptr s)
  unfold dataAccess
  split
  · exact h
  · exact takeAbort_installed (Or.inl rfl) h

/-- INTERNAL: a call that faults returns to its caller, and only a call into a region of `mem_init`
does not fault. -/
theorem jump_installed (e : BitVec 32) (s : Machine)
    (h : Installed image unknown ecInstructionAbort .armv8PabtReturn s) :
    Outcome (Installed image unknown ecInstructionAbort .armv8PabtReturn) (Benign image)
      (exec image site e (.jump faultPtr) s) := by
  show Outcome _ _ (jump image faultPtr s)
  unfold jump
  split
  · apply takeAbort_installed (Or.inr rfl)
    exact h.of_same ⟨rfl, rfl, rfl, rfl, rfl⟩
  · rename_i hfetched
    refine Or.inr ⟨rfl, ?_⟩
    by_contra huntouched
    exact hfetched ⟨h.on.mmuOn, h.hidden faultPtr (by decide) huntouched⟩

/-- INTERNAL: a fault benchmark, from the handler it installs and its kernel's access. -/
theorem fault_off {ec : BitVec 6} {handler : Handler} {bm : Benchmarks.Benchmark}
    {install access : Op} {iterations : ℕ}
    (hexecute : bm.execute = mmuOn ++ [install] ++ Benchmarks.loop iterations [access] ++ mmuOff)
    (hinstall : ∀ e s, Started image unknown s →
      Outcome (Installed image unknown ec handler) (Benign image) (exec image site e install s))
    (haccess : ∀ e s, Installed image unknown ec handler s →
      Outcome (Installed image unknown ec handler) (Benign image) (exec image site e access s)) :
    Triple (exec image site) (Benign image) (Off image unknown) bm.execute (Off image unknown) := by
  rw [hexecute]
  refine between_mmu (fun _ h => h) (Triple.single hinstall) ?_ fun _ h => h.on
  intro op hop
  have hop' := mem_of_mem_loop hop
  rw [List.mem_singleton] at hop'
  rw [hop']
  exact haccess

/-- INTERNAL: the data fault benchmark never enables the MMU and leaves it off. -/
theorem dfault_off : Triple (exec image site) (Benign image) (Off image unknown)
    (Benchmarks.dfault site).execute (Off image unknown) := by
  apply fault_off (execute_eq rfl (Or.inl rfl))
  · intro e s h
    exact install_installed ecDataAbort .exceptionSkip (by decide) (by decide) h
  · exact load_installed _

/-- INTERNAL: the instruction fault benchmark leaves the MMU off. -/
theorem ifault_off : Triple (exec image site) (Benign image) (Off image unknown)
    (Benchmarks.ifault site).execute (Off image unknown) := by
  apply fault_off (execute_eq rfl (Or.inl rfl))
  · intro e s h
    exact install_installed ecInstructionAbort .armv8PabtReturn (by decide) (by decide) h
  · exact jump_installed

/-- INTERNAL: the handler `undef` installs stays behind. -/
theorem undef_off : Triple (exec image site) (Benign image) (Off image unknown)
    (Benchmarks.undef site).execute (Off image (some .exceptionSkip)) := by
  rw [execute_eq rfl (Or.inl rfl)]
  refine between_mmu (fun _ h => h) (Triple.single ?_) ?_
    fun s (h : On image (some .exceptionSkip) el0t (SimbenchRw image) s) => h
  · intro e s h
    have hother : armv8EcSyscall ≠ armv8EcUnknown := by decide
    refine ⟨⟨?_, ?_, h.on.mode⟩, h.on.mmuOn, h.on.mapped.congr rfl rfl⟩
    · exact (install_of_ne _ hother s).trans h.on.syscall
    · exact install_self _ _ s
  · intro op hop e s h
    have hop' := mem_of_mem_loop hop
    rw [List.mem_singleton] at hop'
    rw [hop']
    obtain ⟨s', hreturns, hsame⟩ := takeSynchronous_skip image 0 (Or.inl h.mode) (Or.inl h.unknown)
    show Outcome _ _ (takeSynchronous image armv8EcUnknown 0 s)
    rw [hreturns]
    exact h.of_same hsame

/-- INTERNAL: `svc #0` returns. SRC: arch/armv8/exception.c:16-18 -/
theorem takeSynchronous_test (image : Image) {s : Machine} (h : Caller s) :
    ∃ s', takeSynchronous image armv8EcSyscall 0 s = .ok s' ∧ Same s s' := by
  have hsyndrome : syndromeOf armv8EcSyscall 0 &&& 0x1ffffff = 0 := by decide
  unfold takeSynchronous
  rw [if_pos h.mode, if_pos rfl]
  unfold synchronousVector el1LowerSyncHandler
  simp only [exceptionClass_syndromeOf, h.handler, Handler.call, handleSyscall, if_pos hsyndrome]
  exact ⟨_, rfl, rfl, rfl, rfl, rfl, rfl⟩

/-- INTERNAL: the system call benchmark leaves the MMU off. -/
theorem syscall_off : Triple (exec image site) (Benign image) (Off image unknown)
    (Benchmarks.syscall site).execute (Off image unknown) := by
  rw [execute_eq rfl (Or.inl rfl)]
  refine between_mmu (fun _ h => h) (Triple.single fun _ s h => h.on) ?_ fun _ h => h
  intro op hop e s h
  have hop' := mem_of_mem_loop hop
  rw [List.mem_singleton] at hop'
  rw [hop']
  obtain ⟨s', hreturns, hsame⟩ := takeSynchronous_test image h.toBase.caller
  show Outcome _ _ (takeSynchronous image armv8EcSyscall 0 s)
  rw [hreturns]
  exact h.of_same hsame

end Faults

/-! ## The memory benchmarks -/

section Memory

variable {image : Image} {site : Site} {unknown : Option Handler}

/-- INTERNAL: the region of the virt machine is 0x20000 pages, on page boundaries. -/
theorem onVirt_pagedRegion (h : OnVirt image site) : PagedRegion site 0x20000 := by
  constructor
  · rw [h.pageSize]
    decide
  · rw [h.physMemStart, h.physMemEnd]
    decide
  · rw [h.physMemEnd]
    decide

/-- INTERNAL: the variables of the benchmarks lie in what `mem_init` maps. -/
theorem onVirt_symbol (h : OnVirt image site) (symbol : Symbol) (hsymbol : symbol ≠ .block) :
    SimbenchRw image (site.symbol symbol) := Or.inl (h.inData symbol hsymbol)

/-- INTERNAL: all its pages lie below 2^48. -/
theorem onVirt_page_lt (h : OnVirt image site) {p : BitVec 64}
    (hp : p ∈ Benchmarks.physPages site) :
    p.toNat < 2 ^ 48 := by
  obtain ⟨k, hk, hp⟩ := ((onVirt_pagedRegion h).physPages_spec.2 p).mp hp
  rw [hp, h.physMemStart, show (0x80000000 : BitVec 64).toNat = 0x80000000 from rfl]
  omega

/-- INTERNAL: every operation of a kernel is a load, a store or does nothing to the machine. -/
inductive Harmless (allowed : BitVec 64 → Prop) : Op → Prop
  | load (ptr : BitVec 64) : allowed ptr → Harmless allowed (.load ptr)
  | store (ptr : BitVec 64) : allowed ptr → Harmless allowed (.store ptr)
  | tlbFlush : Harmless allowed .memTlbFlush
  | tlbEvict (ptr : BitVec 64) : Harmless allowed (.memTlbEvict ptr)

/-- INTERNAL: a harmless operation keeps the state with the MMU on. -/
theorem Harmless.on {rw : BitVec 64 → Prop} {op : Op} (hop : Harmless rw op) (e : BitVec 32)
    (s : Machine)
    (h : On image unknown el0t rw s) :
    Outcome (On image unknown el0t rw) (Benign image) (exec image site e op s) := by
  cases hop with
  | load ptr hptr => exact h.outcome hptr _ _
  | store ptr hptr => exact h.outcome hptr _ _
  | tlbFlush => exact h
  | tlbEvict ptr => exact h

/-- INTERNAL: a harmless operation keeps the state with the MMU off, where every address may be
used. -/
theorem Harmless.off {op : Op} (hop : Harmless (fun _ => True) op) (e : BitVec 32) (s : Machine)
    (h : Off image unknown s) :
    Outcome (Off image unknown) (Benign image) (exec image site e op s) := by
  cases hop with
  | load ptr =>
    show Outcome _ _ (dataAccess image _ false ptr s)
    rw [h.dataAccess]
    exact h
  | store ptr =>
    show Outcome _ _ (dataAccess image _ true ptr s)
    rw [h.dataAccess]
    exact h
  | tlbFlush => exact h
  | tlbEvict ptr => exact h

/-- INTERNAL: an operation stays harmless when more addresses are allowed. -/
theorem Harmless.mono {allowed allowed' : BitVec 64 → Prop}
    (hallowed : ∀ ptr, allowed ptr → allowed' ptr)
    {op : Op} (hop : Harmless allowed op) : Harmless allowed' op := by
  cases hop with
  | load ptr hptr => exact .load ptr (hallowed ptr hptr)
  | store ptr hptr => exact .store ptr (hallowed ptr hptr)
  | tlbFlush => exact .tlbFlush
  | tlbEvict ptr => exact .tlbEvict ptr

/-- INTERNAL: `memory-hot` only touches its own variable. -/
theorem harmless_memoryHotKernel {op : Op} (hop : op ∈ Benchmarks.memoryHotKernel site) :
    Harmless (fun ptr => ptr = site.symbol .memoryHotValue) op := by
  have hop' := mem_of_mem_loop (mem_of_mem_loop hop)
  simp only [List.mem_cons, List.not_mem_nil, or_false] at hop'
  cases hop' with
  | inl h =>
    rw [h]
    exact .load _ rfl
  | inr h =>
    rw [h]
    exact .store _ rfl

/-- INTERNAL: the other kernels touch pages of the physical memory region. -/
theorem harmless_memoryColdKernel (h : OnVirt image site) {op : Op}
    (hop : op ∈ Benchmarks.memoryColdKernel site) :
    Harmless (fun ptr => ptr ∈ Benchmarks.physPages site) op := by
  have hregion := onVirt_pagedRegion h
  rw [Benchmarks.memoryColdKernel, List.mem_map] at hop
  obtain ⟨ptr, hptr, rfl⟩ := hop
  exact .load _ (hregion.mem_sweep _ (hregion.physMemStart_mem (by decide)) hptr)

/-- INTERNAL: the kernels of the TLB benchmarks touch the pages of the region only. -/
theorem harmless_tlbKernel (h : OnVirt image site) {after : BitVec 64 → Op}
    (hafter : ∀ ptr, Harmless (fun ptr => ptr ∈ Benchmarks.physPages site) (after ptr)) {op : Op}
    (hop : op ∈ (Benchmarks.tlbSweep site).flatMap fun ptr => [.store ptr, after ptr]) :
    Harmless (fun ptr => ptr ∈ Benchmarks.physPages site) op := by
  rw [List.mem_flatMap] at hop
  obtain ⟨ptr, hptr, hop⟩ := hop
  simp only [List.mem_cons, List.not_mem_nil, or_false] at hop
  cases hop with
  | inl hop =>
    rw [hop]
    exact .store _ ((onVirt_pagedRegion h).mem_tlbSweep (by decide) hptr)
  | inr hop =>
    rw [hop]
    exact hafter ptr

/-- INTERNAL: a benchmark that never turns address translation on. -/
theorem harmless_off {bm : Benchmarks.Benchmark} (hexecute : bm.execute = bm.kernel)
    (hkernel : ∀ op ∈ bm.kernel, Harmless (fun _ => True) op) :
    Triple (exec image site) (Benign image) (Off image unknown) bm.execute (Off image unknown) := by
  rw [hexecute]
  exact Triple.invariant fun op hop => (hkernel op hop).off

/-- INTERNAL: a benchmark that maps the physical memory region first. -/
theorem mapped_off (hsite : OnVirt image site) {bm : Benchmarks.Benchmark}
    (hexecute : bm.execute =
      Op.memInit :: (Benchmarks.mapPhysMem site ++ [.memMmuEnable, .memTlbFlush]) ++
      bm.kernel ++ mmuOff)
    (hkernel : ∀ op ∈ bm.kernel, Harmless (fun ptr => ptr ∈ Benchmarks.physPages site) op) :
    Triple (exec image site) (Benign image) (Off image unknown) bm.execute (Off image unknown) := by
  have hmap : Triple (exec image site) (Benign image)
      (fun s => Ready image unknown (SimbenchRw image) s ∧ Hidden image s)
      (Benchmarks.mapPhysMem site)
      (Ready image unknown fun va => SimbenchRw image va ∨ va ∈ Benchmarks.physPages site) :=
    (mapPages_ready _ fun p hp => onVirt_page_lt hsite hp).mono (fun _ h => h.1) (fun _ h => h)
      fun _ h => h
  rw [hexecute]
  refine ((Triple.cons memInit_off (hmap.append enable_on)).append (Triple.invariant ?_)).append
    mmuOff_off
  intro op hop
  exact ((hkernel op hop).mono fun ptr hptr => Or.inr hptr).on

/-- INTERNAL: leaving EL1 is harmless at EL0. -/
theorem privLeave_off (e : BitVec 32) (s : Machine) (h : Off image unknown s) :
    Outcome (Off image unknown) (Benign image) (exec image site e .archPrivLeave s) := by
  have hcall : syscallPrivLeaveNo ∈ registerCalls := by decide
  obtain ⟨s', hreturns, hsctlr, hpstate, hhandlers, htables, -⟩ :=
    armv8Syscall_register image hcall h.toBase.caller
  show Outcome _ _ (armv8Syscall image syscallPrivLeaveNo s)
  rw [hreturns]
  refine (outcome_ok _).mpr ⟨⟨?_, ?_, ?_⟩, ?_, ?_⟩
  · rw [hhandlers]
    exact h.syscall
  · rw [hhandlers]
    exact h.unknown
  · rw [hpstate]
    exact modeOf_privLeave (Or.inl h.mode)
  · unfold mmuEnabled
    rw [hsctlr]
    exact h.mmuOff
  · rw [htables]
    exact h.tables

/-- INTERNAL: the benchmark that runs its kernel at EL1. -/
theorem memoryNonpriv_off (hsite : OnVirt image site) : Triple (exec image site) (Benign image)
    (Off image unknown) (Benchmarks.memoryNonpriv site).execute (Off image unknown) := by
  have hvalue := onVirt_symbol hsite .memoryNonprivValue (by decide)
  have hbound : ∀ p ∈ [site.symbol .memoryNonprivValue], p.toNat < 2 ^ 48 := by
    intro p hp
    rw [List.mem_singleton.mp hp]
    exact Nat.lt_of_le_of_lt (hsite.inData _ (by decide)).2 (image_dataEnd_lt image)
  have hmap : Triple (exec image site) (Benign image)
      (fun s => Ready image unknown (SimbenchRw image) s ∧ Hidden image s)
      [.memCreatePageMappingData (site.symbol .memoryNonprivValue) (site.symbol .memoryNonprivValue)]
      (Ready image unknown (SimbenchRw image)) :=
    (mapPages_ready _ hbound).mono (fun _ h => h.1)
      (fun s h => ⟨h.toBase, h.mmuOff, h.mapped.mono fun va hva => Or.inl hva⟩) fun _ h => h
  have henter : ∀ e s, On image unknown el0t (SimbenchRw image) s →
      Outcome (On image unknown el1t (SimbenchRw image)) (Benign image)
        (exec image site e .archPrivEnter s) := by
    intro e s h
    exact register_on syscallPrivEnterNo (by decide) (by decide) (Or.inl rfl)
      (fun _ h => modeOf_privEnter (Or.inl h)) h
  have hleave : ∀ e s, On image unknown el1t (SimbenchRw image) s →
      Outcome (On image unknown el0t (SimbenchRw image)) (Benign image)
        (exec image site e .archPrivLeave s) := by
    intro e s h
    exact register_on syscallPrivLeaveNo (by decide) (by decide) (Or.inr rfl)
      (fun _ h => modeOf_privLeave (Or.inr h)) h
  have hkernel : Triple (exec image site) (Benign image) (On image unknown el1t (SimbenchRw image))
      (Benchmarks.memoryNonpriv site).kernel (On image unknown el1t (SimbenchRw image)) := by
    apply Triple.invariant
    intro op hop e s h
    rw [List.mem_singleton.mp (mem_of_mem_loop hop)]
    exact h.outcome hvalue true false
  have hinit := Triple.cons memInit_off (hmap.append enable_on)
  have hbody := (hinit.append (Triple.single henter)).append hkernel
  exact hbody.append (((Triple.single hleave).append mmuOff_off).append (Triple.single privLeave_off))

end Memory

/-! ## The interrupt benchmark -/

/-- INTERNAL: the run ends in a halt other than that of a missing handler. -/
def Spared (halt : Halt) : Prop := ¬ MissingHandler halt

section Interrupt

variable {image : Image} {site : Site} {unknown : Option Handler} {mode : BitVec 32}
  {rw : BitVec 64 → Prop}

/-- INTERNAL: a run of accesses to allowed addresses ends in the state it began in. -/
theorem accesses_on {s : Machine} (h : On image unknown mode rw s) {list : List (Bool × BitVec 64)}
    (hlist : ∀ a ∈ list, rw a.2) : Armv8Benchmarks.accesses image list s = .ok s := by
  induction list with
  | nil => rfl
  | cons a list ih =>
    unfold Armv8Benchmarks.accesses
    rw [List.foldlM_cons]
    unfold access
    rw [h.dataAccess (hlist a List.mem_cons_self)]
    exact ih fun a' ha' => hlist a' (List.mem_cons_of_mem _ ha')

/-- INTERNAL: the registers of the interrupt controller lie in a device region. -/
theorem simbenchRw_gic {accesses : List (Bool × BitVec 64)}
    (h : accesses.all (fun a => decide ((0x08000000 : BitVec 64).toNat ≤ a.2.toNat ∧
      a.2.toNat ≤ (0x08020000 : BitVec 64).toNat)) = true) :
    ∀ a ∈ accesses, SimbenchRw image a.2 := by
  intro a ha
  have hrange := of_decide_eq_true (List.all_eq_true.mp h a ha)
  exact Or.inr ⟨(0x08000000, 0x08020000), by simp [memGetDeviceInfo], hrange⟩

/-- INTERNAL: with the handler of `undef` the privilege check passes, or finds EL1 in a stale
register. SRC: arch/armv8/exception.c:72-86 -/
theorem archIrq_on (callNo : Int) (hcall : callNo ∈ registerCalls)
    (hdisable : callNo ≠ syscallMmuDisableNo)
    (hafter : ∀ pstate, modeOf pstate = el0t → modeOf (pstateAfter callNo pstate) = el0t)
    (stale : BitVec 32) (s : Machine) (h : On image (some .exceptionSkip) el0t rw s) :
    Outcome (On image (some .exceptionSkip) el0t rw) Spared (archIrq image callNo stale s) := by
  obtain ⟨s', hreturns, hsame⟩ := takeSynchronous_skip image 0 (Or.inl h.mode) (Or.inl h.unknown)
  unfold archIrq armv8InEl1
  rw [if_pos h.mode, hreturns]
  show Outcome _ _ (if decide (stale = 1) = true then _ else armv8Syscall image callNo s')
  split
  · exact id
  · exact register_on callNo hcall hdisable (Or.inl rfl) hafter (h.of_same hsame)

/-- INTERNAL: without it, it ends the run. -/
theorem archIrq_missing (callNo : Int) (stale : BitVec 32) (s : Machine)
    (h : On image none el0t rw s) :
    Outcome (fun _ => False) MissingHandler (archIrq image callNo stale s) := by
  obtain ⟨halt, hhalts, hmissing⟩ := takeSynchronous_missing image 0 (Or.inl h.mode) h.unknown
  unfold archIrq armv8InEl1
  rw [if_pos h.mode, hhalts]
  exact hmissing

/-- INTERNAL: one round trip through the interrupt vector. -/
theorem platformTriggerSwi_on (hsite : OnVirt image site) (e : BitVec 32) (s : Machine)
    (h : On image unknown el0t (SimbenchRw image) s) :
    Outcome (On image unknown el0t (SimbenchRw image)) Spared
      (exec image site e .platformTriggerSwi s) := by
  have hflag := onVirt_symbol hsite .swiFlag (by decide)
  have htrigger : ∀ a ∈ triggerAccesses, SimbenchRw image a.2 := simbenchRw_gic (by decide)
  have hclear : ∀ a ∈ (true, site.symbol .swiFlag) :: clearAccesses, SimbenchRw image a.2 := by
    intro a ha
    cases List.mem_cons.mp ha with
    | inl ha =>
      rw [ha]
      exact hflag
    | inr ha => exact simbenchRw_gic (by decide) a ha
  show Outcome _ _ (platformTriggerSwi image (site.symbol .swiFlag) s)
  unfold platformTriggerSwi
  rw [accesses_on h htrigger]
  show Outcome _ _ (if s.pstate.getLsbD 7 = true then _ else _)
  split
  · exact id
  · unfold takeIrq
    rw [if_pos h.mode]
    split
    · have hentered : On image unknown (modeOf handlerPstate) (SimbenchRw image)
          { s with spsr := s.pstate, elr := s.pc, pstate := handlerPstate } :=
        ⟨⟨h.syscall, h.unknown, rfl⟩, h.mmuOn, h.mapped.congr rfl rfl⟩
      have hback : On image unknown el0t (SimbenchRw image) (eret
          { s with spsr := s.pstate, elr := s.pc, pstate := handlerPstate }) :=
        ⟨⟨h.syscall, h.unknown, h.mode⟩, h.mmuOn, h.mapped.congr rfl rfl⟩
      rw [accesses_on hentered hclear]
      exact hback.outcome hflag _ _
    · exact id

/-- INTERNAL: `interrupt` behind `undef`, whose skip handler serves its undefined instruction, comes
back with the MMU off. -/
theorem interrupt_off (hsite : OnVirt image site) : Triple (exec image site) Spared
    (Off image (some .exceptionSkip)) (Benchmarks.interrupt site).execute
    (Off image (some .exceptionSkip)) := by
  have hexecute : (Benchmarks.interrupt site).execute =
      mmuOn ++ [.archIrqInstallHandler, .archIrqEnable] ++
        ((Benchmarks.interrupt site).kernel ++ [.archIrqDisable]) ++ mmuOff := by
    rw [execute_eq rfl (Or.inl rfl), ← List.append_assoc]
    exact List.append_cons ..
  have hhandler : ∀ e s, Started image (some .exceptionSkip) s →
      Outcome (On image (some .exceptionSkip) el0t (SimbenchRw image)) Spared
        (exec image site e .archIrqInstallHandler s) :=
    fun _ s h => ⟨⟨h.on.syscall, h.on.unknown, h.on.mode⟩, h.on.mmuOn, h.on.mapped.congr rfl rfl⟩
  have henable : ∀ e s, On image (some .exceptionSkip) el0t (SimbenchRw image) s →
      Outcome (On image (some .exceptionSkip) el0t (SimbenchRw image)) Spared
        (exec image site e .archIrqEnable s) :=
    archIrq_on syscallIrqEnableNo (by decide) (by decide) fun _ h => h
  rw [hexecute]
  refine between_mmu (fun _ h => h.not_missing) (Triple.cons hhandler (Triple.single henable)) ?_
    fun _ h => h
  intro op hop
  cases List.mem_append.mp hop with
  | inl hop =>
    have hop' := mem_of_mem_loop hop
    simp only [List.mem_cons, List.not_mem_nil, or_false] at hop'
    cases hop' with
    | inl h =>
      rw [h]
      exact fun _ s h => h.outcome (onVirt_symbol hsite .swiFlag (by decide)) _ _
    | inr h =>
      rw [h]
      exact platformTriggerSwi_on hsite
  | inr hop =>
    rw [List.mem_singleton.mp hop]
    exact archIrq_on syscallIrqDisableNo (by decide) (by decide) fun _ h => h

/-- INTERNAL: how a run without `undef` ends that comes to `interrupt`. -/
def Fails (image : Image) (halt : Halt) : Prop := Benign image halt ∨ MissingHandler halt

/-- INTERNAL: what `interrupt` does behind `mem_init`. -/
def interruptRest (site : Site) : List Op :=
  [.memMmuEnable, .memTlbFlush] ++ [.archIrqInstallHandler, .archIrqEnable] ++
    ((Benchmarks.interrupt site).kernel ++ (Benchmarks.interrupt site).kernelCleanup)

/-- INTERNAL: the interrupt benchmark begins with `mem_init`, its first step that can fail. -/
theorem interrupt_execute :
    (Benchmarks.interrupt site).execute = .memInit :: interruptRest site := by
  rw [execute_eq rfl (Or.inl rfl), List.append_assoc]
  rfl

/-- INTERNAL: `interrupt` without `undef`: its `kernel_init` does not return. -/
theorem interruptRest_missing (site : Site) : Triple (exec image site) MissingHandler
    (fun s => Ready image none (SimbenchRw image) s ∧ Hidden image s) (interruptRest site)
    fun _ => False := by
  have hhandler : ∀ e s, On image none el0t (SimbenchRw image) s →
      Outcome (On image none el0t (SimbenchRw image)) MissingHandler
        (exec image site e .archIrqInstallHandler s) :=
    fun _ s h => ⟨⟨h.syscall, h.unknown, h.mode⟩, h.mmuOn, h.mapped.congr rfl rfl⟩
  have henable : ∀ e s, On image none el0t (SimbenchRw image) s →
      Outcome (fun _ => False) MissingHandler (exec image site e .archIrqEnable s) :=
    archIrq_missing syscallIrqEnableNo
  have hrest : Triple (exec image site) MissingHandler (fun _ => False)
      ((Benchmarks.interrupt site).kernel ++ (Benchmarks.interrupt site).kernelCleanup)
      fun _ => False := fun _ _ _ h => h.elim
  have hon : Triple (exec image site) MissingHandler
      (fun s => Ready image none (SimbenchRw image) s ∧ Hidden image s) [.memMmuEnable,
        .memTlbFlush]
      (On image none el0t (SimbenchRw image)) :=
    enable_on.mono (fun _ h => h.1) (fun _ h => h) fun _ h => h
  exact (hon.append (Triple.cons hhandler (Triple.single henable))).append hrest

/-- INTERNAL: without a handler for unknown instructions the interrupt benchmark always ends in a
halt. -/
theorem interrupt_missing : Triple (exec image site) (Fails image) (Off image none)
    (Benchmarks.interrupt site).execute fun _ => False := by
  have hinit : ∀ e s, Off image none s →
      Outcome (fun s' => Ready image none (SimbenchRw image) s' ∧ Hidden image s') (Fails image)
        (exec image site e .memInit s) :=
    fun e s h => (memInit_off e s h).mono (fun _ h => h) fun _ h => Or.inl h
  rw [interrupt_execute]
  exact Triple.cons hinit
    ((interruptRest_missing site).mono (fun _ h => h) (fun _ h => h) fun _ h => Or.inr h)

/-- INTERNAL: with room for the tables of `mem_init`, nothing else ends the run before. -/
theorem interrupt_missing_of_room {s : Machine} (h : Off image none s)
    (hroom : s.tables.heapPtr.toNat + 4 * ((simbenchCalls image).length + 1) * 4096 ≤
      image.heap.heapEnd.toNat) (stale : ℕ → BitVec 32) :
    ∃ halt, runBenchmarks image site stale [.interrupt] s = .error halt ∧ MissingHandler halt := by
  obtain ⟨s₁, hinit⟩ := syscallMemInit_of_room image (s := entered syscallMemInitNo s) hroom
  have hreturns : memInit image s = .ok (eret s₁) := by
    rw [memInit_eq image h.toBase.caller h.mmuOff, hinit]
    rfl
  have hrest := interruptRest_missing site stale 1 _ ((memInit_ready h).of_ok hreturns)
  have hrun : runBenchmarks image site stale [.interrupt] s =
      run (exec image site) stale 1 (interruptRest site) (eret s₁) := by
    show run (exec image site) stale 0 ((Benchmarks.interrupt site).execute ++ []) s = _
    rw [List.append_nil, interrupt_execute]
    show (memInit image s >>= _) = _
    rw [hreturns]
    rfl
  rw [hrun]
  cases hresult : run (exec image site) stale 1 (interruptRest site) (eret s₁) with
  | ok s' => exact (hrest.of_ok hresult).elim
  | error halt => exact ⟨halt, rfl, hrest.of_error hresult⟩

end Interrupt

/-! ## Histories -/

/-- INTERNAL: the exception and memory benchmarks of the image. SRC: benchmarks/Makefile:3-37 -/
def exceptionAndMemory : List Name :=
  [.undef, .interrupt, .syscall, .dfault, .ifault, .tlbFlush, .tlbEvict, .memoryHotNommu,
    .memoryHotMmu, .memoryColdNommu, .memoryColdMmu, .memoryNonpriv]

/-- INTERNAL: every `interrupt` comes behind an `undef`. -/
def InterruptsAfterUndef (names : List Name) : Prop :=
  ∀ before after, names = before ++ .interrupt :: after → .undef ∈ before

section Histories

variable {image : Image} {site : Site} {unknown : Option Handler}

/-- INTERNAL: **one benchmark** other than the two ends where it started. -/
theorem execute_off (unknown : Option Handler) (hsite : OnVirt image site) {name : Name}
    (hname : name ∈ exceptionAndMemory) (hundef : name ≠ .undef) (hinterrupt : name ≠ .interrupt) :
    Triple (exec image site) (Benign image) (Off image unknown) (name.benchmark site).execute
      (Off image unknown) := by
  cases name with
  | undef => exact absurd rfl hundef
  | interrupt => exact absurd rfl hinterrupt
  | syscall => exact syscall_off
  | dfault => exact dfault_off
  | ifault => exact ifault_off
  | tlbFlush =>
    exact mapped_off hsite (execute_eq rfl (Or.inl rfl)) fun op hop =>
      harmless_tlbKernel hsite (fun _ => .tlbFlush) hop
  | tlbEvict =>
    exact mapped_off hsite (execute_eq rfl (Or.inl rfl)) fun op hop =>
      harmless_tlbKernel hsite .tlbEvict hop
  | memoryHotNommu =>
    refine harmless_off ?_ fun op hop => (harmless_memoryHotKernel hop).mono fun _ _ => trivial
    rw [execute_eq rfl (Or.inr rfl)]
    exact List.append_nil _
  | memoryHotMmu =>
    show Triple _ _ _ (Benchmarks.memoryHotMmu site).execute _
    rw [execute_eq rfl (Or.inr rfl)]
    refine (Triple.append (mmuOn_on.mono (fun _ h => h) (fun _ h => h.on) fun _ h => h)
      (Triple.invariant fun op hop => ?_)).append mmuOff_off
    refine ((harmless_memoryHotKernel hop).mono ?_).on
    rintro ptr rfl
    exact onVirt_symbol hsite .memoryHotValue (by decide)
  | memoryColdNommu =>
    refine harmless_off ?_ fun op hop => (harmless_memoryColdKernel hsite hop).mono fun _ _ => trivial
    rw [execute_eq rfl (Or.inr rfl)]
    exact List.append_nil _
  | memoryColdMmu =>
    exact mapped_off hsite (execute_eq rfl (Or.inr rfl)) fun op hop =>
      harmless_memoryColdKernel hsite hop
  | memoryNonpriv => exact memoryNonpriv_off hsite
  | _ => simp [exceptionAndMemory] at hname

/-- INTERNAL: the operations of a list of benchmarks are those of its first followed by the
others'. -/
theorem executeAll_cons (name : Name) (names : List Name) :
    executeAll site (name :: names) = (name.benchmark site).execute ++ executeAll site names :=
  List.flatMap_cons

/-- INTERNAL: the first benchmark of a history: `undef`, or one that is not `interrupt`. -/
theorem interruptsAfterUndef_cons {name : Name} {names : List Name} :
    InterruptsAfterUndef (name :: names) ↔
      name = .undef ∨ name ≠ .interrupt ∧ InterruptsAfterUndef names := by
  constructor
  · intro h
    by_cases hundef : name = .undef
    · exact Or.inl hundef
    · refine Or.inr ⟨?_, fun before after hsplit => ?_⟩
      · rintro rfl
        exact List.not_mem_nil (h [] names rfl)
      · have hmem := h (name :: before) after (by rw [hsplit, List.cons_append])
        exact (List.mem_cons.mp hmem).resolve_left (Ne.symm hundef)
  · intro h before after hsplit
    cases before with
    | nil =>
      -- an `interrupt` in front is neither
      cases hsplit
      rcases h with h | ⟨h, -⟩
      · cases h
      · exact absurd rfl h
    | cons first before =>
      cases hsplit
      rcases h with rfl | ⟨-, htail⟩
      · exact List.mem_cons_self
      · exact List.mem_cons_of_mem _ (htail before after rfl)

/-- INTERNAL: **the run**, forwards: once `undef` has run, or while no `interrupt` comes before
it, every exception finds a handler. Induction on the benchmarks. -/
theorem executeAll_spared (hsite : OnVirt image site) {names : List Name}
    (hnames : ∀ name ∈ names, name ∈ exceptionAndMemory)
    (h : unknown = some .exceptionSkip ∨ InterruptsAfterUndef names) :
    Triple (exec image site) Spared (Off image unknown) (executeAll site names) fun _ => True := by
  induction names generalizing unknown with
  | nil => exact fun _ _ _ _ => trivial
  | cons name names ih =>
    obtain ⟨hname, hrest⟩ := List.forall_mem_cons.mp hnames
    rw [interruptsAfterUndef_cons] at h
    rw [executeAll_cons]
    by_cases hundef : name = .undef
    · rw [hundef]
      exact (undef_off.mono (fun _ h => h) (fun _ h => h) fun _ h => h.not_missing).append
        (ih hrest (Or.inl rfl))
    · by_cases hinterrupt : name = .interrupt
      · have hseen : unknown = some .exceptionSkip :=
          h.resolve_right fun hafter => (hafter.resolve_left hundef).1 hinterrupt
        rw [hinterrupt, hseen]
        exact (interrupt_off hsite).append (ih hrest (Or.inl rfl))
      · have hone := execute_off unknown hsite hname hundef hinterrupt
        exact (hone.mono (fun _ h => h) (fun _ h => h) fun _ h => h.not_missing).append
          (ih hrest (h.imp_right fun hafter => (hafter.resolve_left hundef).2))

/-- INTERNAL: the run to an `interrupt` without `undef` before it. -/
theorem executeAll_fails (hsite : OnVirt image site) {names : List Name}
    (hnames : ∀ name ∈ names, name ∈ exceptionAndMemory) (h : ¬ InterruptsAfterUndef names) :
    Triple (exec image site) (Fails image) (Off image none) (executeAll site names)
      fun _ => False := by
  induction names with
  | nil =>
    refine absurd ?_ h
    intro before after hsplit
    simp at hsplit
  | cons name names ih =>
    obtain ⟨hname, hrest⟩ := List.forall_mem_cons.mp hnames
    rw [interruptsAfterUndef_cons, not_or] at h
    obtain ⟨hundef, htail⟩ := h
    rw [executeAll_cons]
    by_cases hinterrupt : name = .interrupt
    · rw [hinterrupt]
      exact interrupt_missing.append fun _ _ _ h => h.elim
    · have hone := execute_off none hsite hname hundef hinterrupt
      exact (hone.mono (fun _ h => h) (fun _ h => h) fun _ h => Or.inl h).append
        (ih hrest fun hafter => htail ⟨hinterrupt, hafter⟩)

end Histories

/-- SOURCE: arch/armv8/exception.c:24-123, arch/armv8/armv8.c:4-12 — **which histories are
safe**: a sequence of exception and memory benchmarks from the state `arch_init` leaves never
ends for want of a handler if every `interrupt` comes behind an `undef`. Otherwise it does end,
and for that reason unless the heap ends first, or `ifault` jumps into a page that a region of
`mem_init` touches. -/
theorem runBenchmarks_handlers (image : Image) (site : Site) (hsite : OnVirt image site)
    (runSimbench : BitVec 64) (s : Machine) (hpower : PowerOn image s)
    (hmode : modeOf s.spsr = el0t) (stale : ℕ → BitVec 32) (names : List Name)
    (hnames : ∀ name ∈ names, name ∈ exceptionAndMemory) :
    (InterruptsAfterUndef names → ∀ halt,
      runBenchmarks image site stale names (resetHandler image runSimbench s) = .error halt →
        ¬ MissingHandler halt) ∧
    (¬ InterruptsAfterUndef names → ∃ halt,
      runBenchmarks image site stale names (resetHandler image runSimbench s) = .error halt ∧
        (halt = .outOfHeap ∨ halt = .undefined ∧ Touched (ofImage image) faultPtr ∨
          MissingHandler halt)) := by
  have hoff := off_resetHandler runSimbench hpower hmode
  constructor
  · intro hafter halt hhalts
    exact (executeAll_spared hsite hnames (Or.inr hafter) stale 0 _ hoff).of_error hhalts
  · intro hbefore
    have hfails := executeAll_fails hsite hnames hbefore stale 0 _ hoff
    cases hrun : run (exec image site) stale 0 (executeAll site names)
        (resetHandler image runSimbench s) with
    | ok s' => exact (hfails.of_ok hrun).elim
    | error halt => exact ⟨halt, hrun, or_assoc.mp (hfails.of_error hrun)⟩

/-- INTERNAL: the variables of a small build. -/
def virtSite : Site where
  physMemStart := 0x80000000
  physMemEnd := 0xa0000000
  pageSize := memGetPageSize
  nullDevptr := 0x09000044
  symbol := fun _ => 0x40009000
  fnHeads := []
  fast := true

/-- INTERNAL: the addresses of the virt machine's headers are a site as the results ask for. -/
theorem onVirt_virtSite : OnVirt virtImage virtSite := by
  have hdata : virtImage.dataStart.toNat ≤ (0x40009000 : BitVec 64).toNat ∧
      (0x40009000 : BitVec 64).toNat ≤ virtImage.dataEnd.toNat := by decide
  exact ⟨rfl, rfl, rfl, rfl, fun _ _ => hdata⟩

/-- INTERNAL: the order of the image, `undef` before `interrupt`, never ends in a missing
handler. -/
theorem runBenchmarks_handlers_undef : Outcome (fun _ => True) (fun halt => ¬ MissingHandler halt)
    (runBenchmarks virtImage virtSite (fun _ => 0) [.undef, .interrupt]
      (resetHandler virtImage 0x40001000 blank)) := by
  have hafter : InterruptsAfterUndef [.undef, .interrupt] :=
    interruptsAfterUndef_cons.mpr (Or.inl rfl)
  have hspared := (runBenchmarks_handlers virtImage virtSite onVirt_virtSite 0x40001000 blank
    (powerOn_blank virtImage) (by decide) (fun _ => 0) [.undef, .interrupt] (by decide)).1 hafter
  cases hrun : runBenchmarks virtImage virtSite (fun _ => 0) [.undef, .interrupt]
      (resetHandler virtImage 0x40001000 blank) with
  | ok s' => trivial
  | error halt => exact hspared halt hrun

/-- INTERNAL: `interrupt` right after `arch_init` ends in the halt of a missing handler. -/
theorem interrupt_aborts : ∃ halt, runBenchmarks virtImage virtSite (fun _ => 0) [.interrupt]
    (resetHandler virtImage 0x40001000 blank) = .error halt ∧ MissingHandler halt := by
  have hlength : (simbenchCalls virtImage).length ≤ 200 := by decide
  apply interrupt_missing_of_room (off_resetHandler 0x40001000 (powerOn_blank virtImage) (by decide))
  have hptr : (resetHandler virtImage 0x40001000 blank).tables.heapPtr.toNat = 0x40100000 := rfl
  have hend : virtImage.heap.heapEnd.toNat = 0x80100000 := rfl
  rw [hptr, hend]
  generalize (simbenchCalls virtImage).length = calls at hlength ⊢
  omega

end Simbench.Analysis.Armv8HandlerHistory
