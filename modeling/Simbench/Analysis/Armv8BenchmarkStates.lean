import Simbench.Analysis.Armv8Permissions
import Simbench.Program.Armv8Benchmarks

/-!
# The machine between and inside the ARMv8 benchmarks

Benchmarks start and end at EL0 with address translation off, and call `mem_init` and the mapping
routines there; from `mem_mmu_enable` to the shared cleanup they run under the tables these calls
have built. An exception whose handler skips it leaves all of this alone, and one without a handler
ends the run.
-/

set_option autoImplicit false

namespace Simbench.Analysis.Armv8BenchmarkStates

open Simbench.Library.BitFields Simbench.Library.Outcomes Simbench.Program
open Simbench.Program.Armv8Machine Simbench.Program.Armv8Benchmarks
open Simbench.Analysis.Armv8IrqMask Simbench.Analysis.Armv8MemoryCalls
open Simbench.Analysis.Armv8Mappings Simbench.Analysis.Armv8Permissions
open Simbench.Analysis.Armv8Refinement
open Benchmarks (Op Site faultPtr mmuOn mmuOff)

/-! ## Exceptions that a handler skips -/

/-- INTERNAL: the abort of a synchronous vector for want of a handler. -/
def MissingHandler : Halt → Prop
  | .vector s => s.el0SyncTable (exceptionClass s.esr) = none
  | _ => False

/-- INTERNAL: a syndrome built from a class and an instruction specific part gives the class
back. -/
theorem exceptionClass_syndromeOf (ec : BitVec 6) (iss : BitVec 25) :
    exceptionClass (syndromeOf ec iss) = ec := by
  apply BitVec.eq_of_getLsbD_eq
  intro i hi
  unfold exceptionClass syndromeOf
  rw [BitVec.getLsbD_setWidth, BitVec.getLsbD_ushiftRight, BitVec.getLsbD_or,
    getLsbD_or_bit _ (by decide), BitVec.getLsbD_shiftLeft, BitVec.getLsbD_setWidth,
    BitVec.getLsbD_setWidth]
  have hiss : iss.getLsbD (26 + i) = false := BitVec.getLsbD_of_ge _ _ (by omega)
  have hbit : ¬ 25 = 26 + i := by omega
  have hlow : ¬ 26 + i < 26 := by omega
  have hindex : 26 + i - 26 = i := by omega
  have h32 : 26 + i < 32 := by omega
  have h32' : i < 32 := by omega
  rw [hiss, hindex, decide_eq_true hi, decide_eq_true h32, decide_eq_true h32',
    decide_eq_false hbit, decide_eq_false hlow]
  simp only [Bool.true_and, Bool.not_false, Bool.or_false, Bool.and_false]

/-- INTERNAL: after an installation the table of the lower level holds the handler for its class. -/
theorem install_self (ec : BitVec 6) (handler : Handler) (s : Machine) :
    (armv8InstallSyncHandler ec handler s).el0SyncTable ec = some handler := by
  unfold armv8InstallSyncHandler
  exact Function.update_self ..

/-- INTERNAL: an installation leaves the entries of all other classes alone. -/
theorem install_of_ne {ec ec' : BitVec 6} (handler : Handler) (h : ec' ≠ ec) (s : Machine) :
    (armv8InstallSyncHandler ec handler s).el0SyncTable ec' = s.el0SyncTable ec' := by
  unfold armv8InstallSyncHandler
  exact Function.update_of_ne h ..

/-- INTERNAL: the parts of the machine a skipped exception leaves as they are. -/
structure Same (s s' : Machine) : Prop where
  sctlr : s'.sctlr = s.sctlr
  pstate : s'.pstate = s.pstate
  ttbr0 : s'.ttbr0 = s.ttbr0
  tables : s'.tables = s.tables
  handlers : s'.el0SyncTable = s.el0SyncTable

/-- INTERNAL: an exception with `exception_skip` or `armv8_pabt_return` behind it returns.
SRC: arch/armv8/vectors.S:288-305; arch/armv8/exception.c:32-41,105-123 -/
theorem takeSynchronous_skip (image : Image) {ec : BitVec 6} (iss : BitVec 25) {s : Machine}
    (hmode : modeOf s.pstate = el0t ∨ modeOf s.pstate = el1t)
    (hhandler : s.el0SyncTable ec = some .exceptionSkip ∨
      s.el0SyncTable ec = some .armv8PabtReturn) :
    ∃ s', takeSynchronous image ec iss s = .ok s' ∧ Same s s' := by
  unfold takeSynchronous
  rw [if_pos hmode]
  unfold synchronousVector el1LowerSyncHandler
  simp only [exceptionClass_syndromeOf]
  cases hhandler with
  | inl h =>
    simp only [h]
    exact ⟨_, rfl, rfl, rfl, rfl, rfl, rfl⟩
  | inr h =>
    simp only [h]
    exact ⟨_, rfl, rfl, rfl, rfl, rfl, rfl⟩

/-- INTERNAL: one without a handler does not. -/
theorem takeSynchronous_missing (image : Image) {ec : BitVec 6} (iss : BitVec 25) {s : Machine}
    (hmode : modeOf s.pstate = el0t ∨ modeOf s.pstate = el1t)
    (hhandler : s.el0SyncTable ec = none) :
    ∃ halt, takeSynchronous image ec iss s = .error halt ∧ MissingHandler halt := by
  unfold takeSynchronous
  rw [if_pos hmode]
  unfold synchronousVector el1LowerSyncHandler
  simp only [exceptionClass_syndromeOf, hhandler]
  refine ⟨_, rfl, ?_⟩
  unfold MissingHandler
  simp only [exceptionClass_syndromeOf]
  exact hhandler

/-! ## Between and inside benchmarks -/

/-- INTERNAL: the entries of the handler table every benchmark depends on, and the level it
runs at; `unknown` is the handler for undefined instructions. -/
structure Base (unknown : Option Handler) (mode : BitVec 32) (s : Machine) : Prop where
  syscall : s.el0SyncTable armv8EcSyscall = some .handleSyscall
  unknown : s.el0SyncTable armv8EcUnknown = unknown
  mode : modeOf s.pstate = mode

/-- INTERNAL: the state benchmarks start and end in: at EL0 with address translation off. -/
structure Off (image : Image) (unknown : Option Handler) (s : Machine) : Prop
    extends Base unknown el0t s where
  mmuOff : mmuEnabled s = false
  tables : ∃ calls, Represents image.heap s.tables calls

/-- INTERNAL: the state behind `mem_init`, still with address translation off; the tables map the
addresses in `rw` for reading and writing. -/
structure Ready (image : Image) (unknown : Option Handler) (rw : BitVec 64 → Prop) (s : Machine) :
    Prop extends Base unknown el0t s where
  mmuOff : mmuEnabled s = false
  mapped : Mapped image rw s

/-- INTERNAL: the state behind `mem_mmu_enable`, under these tables. -/
structure On (image : Image) (unknown : Option Handler) (mode : BitVec 32)
    (rw : BitVec 64 → Prop) (s : Machine) : Prop extends Base unknown mode s where
  mmuOn : mmuEnabled s = true
  mapped : Mapped image rw s

/-- INTERNAL: no address outside the regions of `mem_init` translates. -/
def Hidden (image : Image) (s : Machine) : Prop :=
  ∀ va, va.toNat < 2 ^ 48 → ¬ Touched (ofImage image) va → translate s va = none

section States

variable {image : Image} {unknown : Option Handler} {mode : BitVec 32} {rw : BitVec 64 → Prop}
  {s s' : Machine}

/-- INTERNAL: the part of the state that no benchmark changes is kept by a step that keeps the
registers and the tables the invariant reads. -/
theorem Base.of_same (h : Base unknown mode s) (hsame : Same s s') : Base unknown mode s' := by
  constructor
  · rw [hsame.handlers]
    exact h.syscall
  · rw [hsame.handlers]
    exact h.unknown
  · rw [hsame.pstate]
    exact h.mode

/-- INTERNAL: such a step keeps the state with the MMU on as well. -/
theorem On.of_same (h : On image unknown mode rw s) (hsame : Same s s') :
    On image unknown mode rw s' := by
  refine ⟨h.toBase.of_same hsame, ?_, h.mapped.congr hsame.tables hsame.ttbr0⟩
  unfold mmuEnabled
  rw [hsame.sctlr]
  exact h.mmuOn

/-- INTERNAL: translation reads the tables and the base register only. -/
theorem translate_congr (htables : s'.tables = s.tables) (httbr0 : s'.ttbr0 = s.ttbr0)
    (va : BitVec 64) : translate s' va = translate s va := by
  rw [Armv8Machine.translate, Armv8Machine.translate, htables, httbr0]

/-- INTERNAL: that the pages of the heap are mapped by nothing depends on the tables and the base
register only. -/
theorem Hidden.congr (h : Hidden image s) (htables : s'.tables = s.tables)
    (httbr0 : s'.ttbr0 = s.ttbr0) : Hidden image s' :=
  fun va hva huntouched => (translate_congr htables httbr0 va).trans (h va hva huntouched)

/-- INTERNAL: a state made ready by `mem_init` is still one with the MMU off. -/
theorem Ready.off (h : Ready image unknown rw s) : Off image unknown s :=
  ⟨h.toBase, h.mmuOff, h.mapped.represents⟩

/-- INTERNAL: at EL0 with the syscall handler installed, the code may make system calls. -/
theorem Base.caller (h : Base unknown el0t s) : Caller s := ⟨h.syscall, Or.inl h.mode⟩

/-- INTERNAL: an access to a page that is mapped changes nothing. -/
theorem On.dataAccess (h : On image unknown mode rw s) {ptr : BitVec 64} (hptr : rw ptr)
    (unprivileged write : Bool) : dataAccess image unprivileged write ptr s = .ok s :=
  if_pos (h.mapped.accessible hptr unprivileged write)

/-- INTERNAL: without address translation no access is checked. -/
theorem Off.dataAccess (h : Off image unknown s) (ptr : BitVec 64) (unprivileged write : Bool) :
    dataAccess image unprivileged write ptr s = .ok s := by
  unfold Armv8Machine.dataAccess accessible
  rw [h.mmuOff]
  rfl

end States

/-! ## The start -/

/-- INTERNAL: the state `arch_init` leaves, with the program at EL0. -/
theorem off_resetHandler {image : Image} (runSimbench : BitVec 64) {s : Machine}
    (hpower : PowerOn image s)
    (hmode : modeOf s.spsr = el0t) : Off image none (resetHandler image runSimbench s) := by
  have hcaller := caller_resetHandler image runSimbench hmode
  have hother : armv8EcUnknown ≠ armv8EcSyscall := by decide
  refine ⟨⟨hcaller.handler, ?_, hmode⟩, ?_, [],
    .fresh ⟨hpower.noTable, rfl⟩ hpower.zeroHeap fun _ => rfl⟩
  · refine (install_of_ne .handleSyscall hother _).trans ?_
    show s.el0SyncTable armv8EcUnknown = none
    rw [hpower.noHandlers]
  · show (s.sctlr &&& ~~~(1#32 <<< 4 ||| 1#32 <<< 3) ||| 1#32 <<< 26 ||| 1#32 <<< 12 |||
      1#32 <<< 2).getLsbD 0 = false
    rw [getLsbD_or_bit _ (by decide), getLsbD_or_bit _ (by decide), getLsbD_or_bit _ (by decide),
      BitVec.getLsbD_and, hpower.mmuOff]
    rfl

/-- INTERNAL: a machine that reads as zero has just been switched on. -/
theorem powerOn_blank (image : Image) : PowerOn image blank :=
  ⟨rfl, rfl, rfl, rfl, fun _ _ _ => rfl⟩

/-! ## The operations around a kernel -/

/-- INTERNAL: how the benchmarks other than `interrupt` may end early: with the heap, or where
`ifault` calls into memory that a region of `mem_init` touches. -/
def Benign (image : Image) (halt : Halt) : Prop :=
  halt = .outOfHeap ∨ halt = .undefined ∧ Touched (ofImage image) faultPtr

/-- INTERNAL: the halts the benchmarks may end in are none of a missing handler. -/
theorem Benign.not_missing {image : Image} {halt : Halt} (h : Benign image halt) :
    ¬ MissingHandler halt := by
  rcases h with rfl | ⟨rfl, -⟩ <;> exact id

section Operations

variable {image : Image} {unknown : Option Handler} {mode : BitVec 32} {rw : BitVec 64 → Prop}
  {s : Machine}

/-- INTERNAL: the sections of an image lie in the layout that is built from it. -/
theorem fits_ofImage (image : Image) : Fits (ofImage image) := by
  have hheap := image.dataHeap
  have hsize := image.heapSize
  have hbound := image.heap.bounded
  have htextData := image.textData
  have hdata := image.data
  have htextEnd : (ofImage image).textEnd = image.textEnd := rfl
  have hdataEnd : (ofImage image).dataEnd = image.dataEnd := rfl
  refine ⟨by rw [htextEnd]; omega, by rw [hdataEnd]; omega, fun d hd => ?_⟩
  have hbounds := memGetDeviceInfo_bounds d hd
  omega

/-- INTERNAL: `mem_init` and `mem_reset`, with address translation off. -/
theorem memInit_ready (h : Off image unknown s) :
    Outcome (fun s' => Ready image unknown (SimbenchRw image) s' ∧ Hidden image s') (Benign image)
      (memInit image s) := by
  obtain ⟨calls, hrepresents⟩ := h.tables
  rw [memInit_eq image h.toBase.caller h.mmuOff]
  have hinit := (syscallMemInit_mapped image (s := entered syscallMemInitNo s) hrepresents).and
    (syscallMemInit_shows (fits_ofImage image) (s := entered syscallMemInitNo s) hrepresents)
  apply (hinit.mono (fun _ h => h) fun _ h => Or.inl h.1).bind
  rintro ⟨rc, s'⟩ ⟨⟨hzero, hmapped, hhandlers, hspsr, hmmu⟩, -, -, hshows⟩
  dsimp only at hzero hmapped hhandlers hspsr hmmu hshows ⊢
  subst hzero
  refine (outcome_ok _).mpr ⟨⟨⟨?_, ?_, ?_⟩, ?_, hmapped.congr rfl rfl⟩, fun va hva huntouched => ?_⟩
  · exact (congrFun hhandlers _).trans h.syscall
  · exact (congrFun hhandlers _).trans h.unknown
  · exact (congrArg modeOf hspsr).trans h.mode
  · exact hmmu.trans h.mmuOff
  · have hwalk : translate s' va = memInitMap (ofImage image) va := by
      rw [Armv8Machine.translate, ← hshows.table]
      exact hshows.walk hva
    exact (translate_congr rfl rfl va).trans (hwalk.trans (memInitMap_untouched huntouched))

/-- INTERNAL: no call but `mem_mmu_disable` turns address translation off. -/
theorem getLsbD_sctlrAfter_zero {callNo : Int} (hcall : callNo ≠ syscallMmuDisableNo)
    {sctlr : BitVec 32} (h : sctlr.getLsbD 0 = true) :
    (sctlrAfter callNo sctlr).getLsbD 0 = true := by
  unfold sctlrAfter
  rw [if_neg hcall]
  split
  · rw [getLsbD_or_bit sctlr (by decide), h]
    rfl
  · split
    · rw [getLsbD_and_not_bit sctlr (by decide), h]
      rfl
    · split
      · rw [getLsbD_or_bit sctlr (by decide), h]
        rfl
      · exact h

/-- INTERNAL: a call that only writes registers, under the tables. -/
theorem register_on {halt : Halt → Prop} (callNo : Int) (hcall : callNo ∈ registerCalls)
    (hdisable : callNo ≠ syscallMmuDisableNo) {mode' : BitVec 32}
    (hmode : mode = el0t ∨ mode = el1t) (hafter : ∀ pstate, modeOf pstate = mode →
      modeOf (pstateAfter callNo pstate) = mode') (h : On image unknown mode rw s) :
    Outcome (On image unknown mode' rw) halt (armv8Syscall image callNo s) := by
  have hcaller : Caller s := ⟨h.syscall, by rwa [h.mode]⟩
  obtain ⟨s', hreturns, hsctlr, hpstate, hhandlers, htables, httbr0, -⟩ :=
    armv8Syscall_register image hcall hcaller
  rw [hreturns]
  refine (outcome_ok _).mpr ⟨⟨?_, ?_, ?_⟩, ?_, h.mapped.congr htables httbr0⟩
  · rw [hhandlers]
    exact h.syscall
  · rw [hhandlers]
    exact h.unknown
  · rw [hpstate]
    exact hafter _ h.mode
  · rw [mmuEnabled, hsctlr]
    exact getLsbD_sctlrAfter_zero hdisable h.mmuOn

/-- INTERNAL: an access to an address the image may read and write goes through with the MMU on, and
the state stays on. -/
theorem On.outcome {halt : Halt → Prop} (h : On image unknown mode rw s) {ptr : BitVec 64}
    (hptr : rw ptr) (unprivileged write : Bool) :
    Outcome (On image unknown mode rw) halt
      (Armv8Machine.dataAccess image unprivileged write ptr s) := by
  rw [h.dataAccess hptr]
  exact h

end Operations

section Parts

variable {image : Image} {site : Site} {unknown unknown' : Option Handler}
  {rw : BitVec 64 → Prop}

/-- INTERNAL: `mem_init` with the MMU off ends with the tables built and the heap mapped by nothing,
or out of pages. -/
theorem memInit_off (e : BitVec 32) (s : Machine) (h : Off image unknown s) :
    Outcome (fun s' => Ready image unknown (SimbenchRw image) s' ∧ Hidden image s') (Benign image)
      (exec image site e .memInit s) := memInit_ready h

/-- INTERNAL: `mem_mmu_enable` leaves tables and TTBR0_EL1 as they are. -/
theorem memMmuEnable_on {halt : Halt → Prop} (e : BitVec 32) (s : Machine)
    (h : Ready image unknown rw s) :
    Outcome (fun s' => On image unknown el0t rw s' ∧ s'.tables = s.tables ∧ s'.ttbr0 = s.ttbr0) halt
      (exec image site e .memMmuEnable s) := by
  obtain ⟨s', hreturns, hsctlr, hpstate, hhandlers, htables, httbr0, -⟩ :=
    armv8Syscall_register image (show syscallMmuEnableNo ∈ registerCalls by decide) h.toBase.caller
  show Outcome _ _ (armv8Syscall image syscallMmuEnableNo s)
  rw [hreturns]
  refine (outcome_ok _).mpr ⟨⟨⟨?_, ?_, ?_⟩, ?_, h.mapped.congr htables httbr0⟩, htables, httbr0⟩
  · rw [hhandlers]
    exact h.syscall
  · rw [hhandlers]
    exact h.unknown
  · rw [hpstate]
    exact h.mode
  · rw [mmuEnabled, hsctlr]
    exact (getLsbD_or_bit s.sctlr (by decide) 0).trans (by simp)

/-- INTERNAL: switching the MMU on over built tables, then flushing the TLB, leads to the state with
the MMU on. -/
theorem enable_on {halt : Halt → Prop} : Triple (exec image site) halt (Ready image unknown rw)
    [.memMmuEnable, .memTlbFlush] (On image unknown el0t rw) :=
  Triple.cons (fun e s h => (memMmuEnable_on e s h).mono (fun _ h => h.1) fun _ h => h)
    (Triple.single fun _ _ h => h)

/-- INTERNAL: what the benchmarks that share `mmuOn` start their own part with. -/
structure Started (image : Image) (unknown : Option Handler) (s : Machine) : Prop where
  on : On image unknown el0t (SimbenchRw image) s
  hidden : Hidden image s

/-- INTERNAL: `mem_init`, enable and flush, the prologue of the MMU benchmarks, from the MMU off. -/
theorem mmuOn_on : Triple (exec image site) (Benign image) (Off image unknown) mmuOn
    (Started image unknown) := by
  have henable : ∀ e s, Ready image unknown (SimbenchRw image) s ∧ Hidden image s →
      Outcome (Started image unknown) (Benign image) (exec image site e .memMmuEnable s) := by
    intro e s h
    refine (memMmuEnable_on e s h.1).mono ?_ fun _ h => h
    rintro s' ⟨hon, htables, httbr0⟩
    exact ⟨hon, h.2.congr htables httbr0⟩
  unfold mmuOn
  exact Triple.cons memInit_off (Triple.cons henable (Triple.single fun _ _ h => h))

/-- INTERNAL: the shared cleanup ends where the benchmark started. -/
theorem mmuOff_off : Triple (exec image site) (Benign image) (On image unknown el0t rw) mmuOff
    (Off image unknown) := by
  unfold mmuOff
  have hdisable : ∀ e s, On image unknown el0t rw s →
      Outcome (Off image unknown) (Benign image) (exec image site e .memMmuDisable s) := by
    intro e s h
    obtain ⟨s', hreturns, hsctlr, hpstate, hhandlers, htables, -⟩ :=
      armv8Syscall_register image (show syscallMmuDisableNo ∈ registerCalls by decide)
        h.toBase.caller
    show Outcome _ _ (armv8Syscall image syscallMmuDisableNo s)
    rw [hreturns]
    refine (outcome_ok _).mpr ⟨⟨?_, ?_, ?_⟩, ?_, ?_⟩
    · rw [hhandlers]
      exact h.syscall
    · rw [hhandlers]
      exact h.unknown
    · rw [hpstate]
      exact h.mode
    · rw [mmuEnabled, hsctlr]
      exact (getLsbD_and_not_bit s.sctlr (by decide) 0).trans (by simp)
    · rw [htables]
      exact h.mapped.represents
  have hreset : ∀ e s, Off image unknown s →
      Outcome (Off image unknown) (Benign image) (exec image site e .memReset s) :=
    fun e s h => (memInit_ready h).mono (fun _ h => h.1.off) fun _ h => h
  apply Triple.cons hdisable
  apply Triple.cons fun _ s h => h
  exact Triple.cons hreset Triple.nil

/-- INTERNAL: a benchmark between `mmuOn` and `mmuOff`: what it installs establishes an
invariant of its kernel. -/
theorem between_mmu {halt : Halt → Prop} (hbenign : ∀ h, Benign image h → halt h)
    {install kernel : List Op} {Inv : Machine → Prop}
    (hinstall : Triple (exec image site) halt (Started image unknown) install Inv)
    (hkernel : ∀ op ∈ kernel, ∀ e s, Inv s → Outcome Inv halt (exec image site e op s))
    (hinv : ∀ s, Inv s → On image unknown' el0t rw s) :
    Triple (exec image site) halt (Off image unknown) (mmuOn ++ install ++ kernel ++ mmuOff)
      (Off image unknown') := by
  have hon : Triple (exec image site) halt (Off image unknown) mmuOn (Started image unknown) :=
    mmuOn_on.mono (fun _ h => h) (fun _ h => h) hbenign
  have hoff : Triple (exec image site) halt Inv mmuOff (Off image unknown') :=
    mmuOff_off.mono hinv (fun _ h => h) hbenign
  exact ((hon.append hinstall).append (Triple.invariant hkernel)).append hoff

/-- INTERNAL: mapping pages makes them accessible. Induction on the pages. -/
theorem mapPages_ready (pages : List (BitVec 64)) (hpages : ∀ p ∈ pages, p.toNat < 2 ^ 48) :
    Triple (exec image site) (Benign image) (Ready image unknown rw)
      (pages.map fun ptr => .memCreatePageMappingData ptr ptr)
      (Ready image unknown fun va => rw va ∨ va ∈ pages) := by
  induction pages generalizing rw with
  | nil =>
    refine Triple.nil.mono (fun _ h => h) ?_ fun _ h => h
    intro s h
    refine ⟨h.toBase, h.mmuOff, h.mapped.mono ?_⟩
    simp
  | cons p pages ih =>
    rw [List.map_cons]
    have hmap : ∀ e s, Ready image unknown rw s →
        Outcome (Ready image unknown fun va => rw va ∨ va = p) (Benign image)
          (exec image site e (.memCreatePageMappingData p p) s) := by
      intro e s h
      refine (h.mapped.mapping h.mmuOff (hpages p List.mem_cons_self)).mono ?_ fun _ h => Or.inl h
      rintro s' ⟨hmapped, hs'⟩
      refine ⟨?_, ?_, hmapped⟩
      · rw [hs']
        exact ⟨h.syscall, h.unknown, h.mode⟩
      · rw [hs']
        exact h.mmuOff
    apply Triple.cons hmap
    refine (ih fun p' hp' => hpages p' (List.mem_cons_of_mem _ hp')).mono (fun _ h => h) ?_ fun _ h => h
    intro s h
    refine ⟨h.toBase, h.mmuOff, h.mapped.mono ?_⟩
    intro va hva
    rw [List.mem_cons, ← or_assoc] at hva
    exact hva

end Parts

end Simbench.Analysis.Armv8BenchmarkStates
