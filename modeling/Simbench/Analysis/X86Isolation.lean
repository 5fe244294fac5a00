import Simbench.Analysis.BenchmarkShapes
import Simbench.Analysis.X86Startup

/-!
# Isolation of the x86-64 benchmarks

CR3 and the page fault handler are all a benchmark could leave behind for the next one to fault
on. The cleanup shared by those that touch either puts both back, and the others never touch
them.
-/

set_option autoImplicit false

namespace Simbench.Analysis.X86Isolation

open Simbench.Library.Outcomes Simbench.Library.PagedMemory Simbench.Program
open Simbench.Program.X86Boot
open Simbench.Program.X86Kernel Simbench.Analysis.BenchmarkShapes Simbench.Analysis.X86Startup
open Simbench.Program.Benchmarks (Op Site Name mmuOn mmuOff executeAll)

/-! ## Plain operations -/

/-- INTERNAL: what a plain operation keeps. -/
structure Kept (s s' : Machine) : Prop where
  pages : s'.pages = s.pages
  initialPagetables : s'.initialPagetables = s.initialPagetables
  cr3 : s'.cr3 = s.cr3
  memInited : s'.memInited = s.memInited
  handler : s'.pageFaultHandlerFn = s.pageFaultHandlerFn

/-- INTERNAL: a machine that does nothing keeps everything. -/
theorem Kept.refl (s : Machine) : Kept s s := ⟨rfl, rfl, rfl, rfl, rfl⟩

/-- INTERNAL: a halt other than the end of the heap. -/
def NotHeap (halt : Halt) : Prop := halt ≠ .heapExhausted

/-- INTERNAL: a data fault comes back to the same state, or ends the run. -/
theorem dataFault_same (env : Env) (s : Machine) :
    Outcome (fun s' => s' = s) NotHeap (dataFault env s) := by
  unfold dataFault
  cases s.pageFaultHandlerFn with
  | defaultPageFaultHandler => exact Halt.noConfusion
  | returnHandler => exact Halt.noConfusion
  | memSkipHandler =>
    dsimp only
    split
    · rfl
    · exact Halt.noConfusion

/-- INTERNAL: an access comes back to the same state, or ends the run. -/
theorem access_same (env : Env) (ptr : BitVec 64) (s : Machine) :
    Outcome (fun s' => s' = s) NotHeap (access env ptr s) := by
  unfold access
  split
  · exact dataFault_same env s
  · rfl

/-- INTERNAL: accesses one after the other come back to the same state, or end the run. -/
theorem accesses_same (env : Env) (ptrs : List (BitVec 64)) (s : Machine) :
    Outcome (fun s' => s' = s) NotHeap (accesses env ptrs s) := by
  induction ptrs with
  | nil => rfl
  | cons ptr ptrs ih =>
    unfold accesses
    rw [List.foldlM_cons]
    apply (access_same env ptr s).bind
    rintro s' rfl
    exact ih

/-- INTERNAL: a jump to code comes back to the same state, or ends the run. -/
theorem jump_same (env : Env) (ptr : BitVec 64) (s : Machine) :
    Outcome (fun s' => s' = s) NotHeap (jump env ptr s) := by
  unfold jump fetchFault
  split
  · cases s.pageFaultHandlerFn with
    | defaultPageFaultHandler => exact Halt.noConfusion
    | returnHandler => rfl
    | memSkipHandler => exact Halt.noConfusion
  · exact Halt.noConfusion

/-- INTERNAL: the software interrupt comes back to the same state, or ends the run. -/
theorem platformTriggerSwi_same (env : Env) (flag : BitVec 64) (s : Machine) :
    Outcome (fun s' => s' = s) NotHeap (platformTriggerSwi env flag s) := by
  unfold platformTriggerSwi
  apply (accesses_same env _ s).bind
  rintro s' rfl
  split
  · exact Halt.noConfusion
  · split
    · exact Halt.noConfusion
    · split
      · exact Halt.noConfusion
      · apply (accesses_same env _ s').bind
        rintro s₂ rfl
        exact access_same env flag s₂

/-- INTERNAL: **one plain operation** keeps the tables, the heap, the handlers and the memory, or
ends the run. -/
theorem exec_plain (image : Image) (site : Site) (e : Env) {op : Op} (hop : plain op = true)
    (s : Machine) : Outcome (Kept s) NotHeap (exec image site e op s) := by
  have hsame : ∀ {x : Except Halt Machine}, Outcome (fun s' => s' = s) NotHeap x →
      Outcome (Kept s) NotHeap x := by
    intro x hx
    refine hx.mono ?_ fun _ h => h
    rintro s' rfl
    exact Kept.refl s'
  cases op with
  | memTlbFlush | memTlbEvict | archCoprocessorAccess | archCodeFlush | archPrivEnter
  | archPrivLeave => exact Kept.refl s
  | archUndefInstallSkip | archSyscallInstallSkip | archIrqInstallHandler | archIrqEnable
  | archIrqDisable => exact ⟨rfl, rfl, rfl, rfl, rfl⟩
  | archSyscall =>
    show Outcome _ _ (archSyscall s)
    unfold archSyscall
    split
    · exact Halt.noConfusion
    · exact Kept.refl s
  | archUndefinedInstruction =>
    show Outcome _ _ (archUndefinedInstruction s)
    unfold archUndefinedInstruction
    split
    · exact Halt.noConfusion
    · exact Kept.refl s
  | archNonpriviligedRead ptr => exact hsame (access_same e ptr s)
  | platformTriggerSwi => exact hsame (platformTriggerSwi_same e _ s)
  | load ptr => exact hsame (access_same e ptr s)
  | store ptr => exact hsame (access_same e ptr s)
  | jump ptr => exact hsame (jump_same e ptr s)
  | memInit | memReset | memMmuEnable | memMmuDisable | memCreatePageMappingData
  | archDfaultInstallSkip | archIfaultInstallReturn => cases hop

/-- INTERNAL: an invariant of what plain operations keep is an invariant of their runs. -/
theorem plain_triple {image : Image} {site : Site} {Inv : Machine → Prop}
    (hinv : ∀ s s', Kept s s' → Inv s → Inv s') {ops : List Op} (hops : Plain ops) :
    Triple (exec image site) NotHeap Inv ops Inv :=
  Triple.invariant fun op hop e s h =>
    (exec_plain image site e (hops op hop) s).mono (fun s' hkept => hinv s s' hkept h) fun _ h => h

/-! ## Memory management operations -/

/-- INTERNAL: the run may end in any halt. -/
def Any : Halt → Prop := fun _ => True

section Operations

variable {image : Image} {site : Site}

/-- INTERNAL: a step that takes pages, whatever becomes of it. -/
theorem onHeap_any {α : Type} (pages : α → X86PageTables.Machine) (x : Option α) :
    Outcome (fun _ => True) Any (onHeap pages x) := by
  unfold onHeap
  split
  · split <;> trivial
  · trivial

/-- INTERNAL: `mem_init` leaves CR3 alone; the handler stays, or becomes the default one. -/
theorem memInit_context (s : Machine) :
    Outcome (fun s' => s'.initialPagetables = s.initialPagetables ∧ s'.cr3 = s.cr3 ∧
      (s'.pageFaultHandlerFn = s.pageFaultHandlerFn ∨
        s'.pageFaultHandlerFn = .defaultPageFaultHandler)) Any (memInit image s) := by
  unfold memInit
  split
  · exact ⟨rfl, rfl, Or.inl rfl⟩
  · apply (onHeap_any _ _).bind
    intro pages _
    apply (onHeap_any _ _).bind
    intro pages' _
    exact ⟨rfl, rfl, Or.inr rfl⟩

/-- INTERNAL: the initial page tables are chosen once. -/
theorem exec_initialPagetables (e : Env) (op : Op) (s : Machine) :
    Outcome (fun s' => s'.initialPagetables = s.initialPagetables) Any
      (exec image site e op s) := by
  by_cases hop : plain op = true
  · exact (exec_plain image site e hop s).mono (fun _ h => h.initialPagetables) fun _ _ => trivial
  · cases op with
    | memInit => exact (memInit_context s).mono (fun _ h => h.1) fun _ h => h
    | memReset | memMmuEnable | memMmuDisable => rfl
    | archDfaultInstallSkip | archIfaultInstallReturn => rfl
    | memCreatePageMappingData pa va =>
      apply (onHeap_any _ _).bind
      intro pages _
      rfl
    | _ => exact absurd rfl hop

/-- INTERNAL: an operation that installs no page fault handler keeps the default one. -/
theorem exec_default {op : Op} (hdata : op ≠ .archDfaultInstallSkip)
    (hfetch : op ≠ .archIfaultInstallReturn) (e : Env) (s : Machine)
    (h : s.pageFaultHandlerFn = .defaultPageFaultHandler) :
    Outcome (fun s' => s'.pageFaultHandlerFn = .defaultPageFaultHandler) Any
      (exec image site e op s) := by
  by_cases hop : plain op = true
  · exact (exec_plain image site e hop s).mono (fun _ hkept => hkept.handler.trans h)
      fun _ _ => trivial
  · cases op with
    | memInit =>
      refine (memInit_context s).mono ?_ fun _ h => h
      rintro s' ⟨-, -, hsame | hdefault⟩
      · exact hsame.trans h
      · exact hdefault
    | memReset => rfl
    | memMmuEnable | memMmuDisable => exact h
    | memCreatePageMappingData pa va =>
      apply (onHeap_any _ _).bind
      intro pages _
      exact h
    | archDfaultInstallSkip => exact absurd rfl hdata
    | archIfaultInstallReturn => exact absurd rfl hfetch
    | _ => exact absurd rfl hop

/-! ## Benchmarks -/

/-- INTERNAL: the state between two benchmarks. -/
structure Between (s : Machine) : Prop where
  initialPagetables : s.initialPagetables = initPgt
  cr3 : s.cr3 = s.initialPagetables
  handler : s.pageFaultHandlerFn = .defaultPageFaultHandler

/-- INTERNAL: the shared cleanup restores both. SRC: arch/x86_64/mem.c:62-90 -/
theorem mmuOff_between : Triple (exec image site) Any (fun s => s.initialPagetables = initPgt)
    mmuOff Between := by
  have hdisable : ∀ e s, s.initialPagetables = initPgt → Outcome (fun s' =>
      s'.initialPagetables = initPgt ∧ s'.cr3 = s'.initialPagetables) Any
        (exec image site e .memMmuDisable s) := fun _ _ h => ⟨h, rfl⟩
  have hreset : ∀ e s, s.initialPagetables = initPgt ∧ s.cr3 = s.initialPagetables →
      Outcome Between Any (exec image site e .memReset s) := fun _ _ h => ⟨h.1, h.2, rfl⟩
  have hflush : ∀ e s, s.initialPagetables = initPgt ∧ s.cr3 = s.initialPagetables →
      Outcome (fun s' => s'.initialPagetables = initPgt ∧ s'.cr3 = s'.initialPagetables) Any
        (exec image site e .memTlbFlush s) := fun _ _ h => h
  exact Triple.cons hdisable (Triple.cons hflush (Triple.single hreset))

/-- INTERNAL: the state between two benchmarks is kept by plain operations. -/
theorem Between.of_kept {s s' : Machine} (hkept : Kept s s') (h : Between s) : Between s' := by
  constructor
  · exact hkept.initialPagetables.trans h.initialPagetables
  · rw [hkept.cr3, hkept.initialPagetables]
    exact h.cr3
  · exact hkept.handler.trans h.handler

/-- INTERNAL: **one benchmark** ends where it started. -/
theorem execute_between (name : Name) :
    Triple (exec image site) Any Between (name.benchmark site).execute Between := by
  have hplain : ∀ {ops : List Op}, Plain ops → Triple (exec image site) Any Between ops Between :=
    fun hops => (plain_triple (fun _ _ hkept h => Between.of_kept hkept h) hops).mono (fun _ h => h)
      (fun _ h => h) fun _ _ => trivial
  cases hname : usesMmu name with
  | false => exact hplain (execute_plain site hname)
  | true =>
    obtain ⟨middle, tail, hexecute, -, htail⟩ := execute_mmu site hname
    have hbefore : Triple (exec image site) Any Between (mmuPrologue site name ++ middle)
        fun s => s.initialPagetables = initPgt := by
      refine (Triple.invariant fun op _ e s h => ?_).mono (fun s h => h.initialPagetables)
        (fun _ h => h) fun _ h => h
      exact (exec_initialPagetables e op s).mono (fun _ hsame => hsame.trans h) fun _ h => h
    rw [hexecute]
    exact (hbefore.append mmuOff_between).append (hplain htail)

/-- INTERNAL: each benchmark leads from such a state to another, or the run ends. -/
theorem executeAll_between (names : List Name) :
    Triple (exec image site) Any Between (executeAll site names) Between := by
  induction names with
  | nil => exact Triple.nil
  | cons name names ih => exact (execute_between name).append ih

/-- INTERNAL: the handler in force while the kernel of a benchmark runs. -/
def ownHandler : Name → PageFaultHandler
  | .dfault => .memSkipHandler
  | .ifault => .returnHandler
  | _ => .defaultPageFaultHandler

/-- INTERNAL: a benchmark other than the two installs nothing. -/
theorem mem_execute_ne {name : Name} (hname : installs name = []) {op : Op}
    (hop : op ∈ (name.benchmark site).execute) :
    op ≠ .archDfaultInstallSkip ∧ op ≠ .archIfaultInstallReturn := by
  have hplain : ∀ {ops : List Op}, Plain ops → op ∈ ops →
      op ≠ .archDfaultInstallSkip ∧ op ≠ .archIfaultInstallReturn := by
    intro ops hops hmem
    have h := hops op hmem
    constructor
    · rintro rfl
      cases h
    · rintro rfl
      cases h
  cases hmmu : usesMmu name with
  | false => exact hplain (execute_plain site hmmu) hop
  | true =>
    obtain ⟨middle, tail, hexecute, hmiddle, htail⟩ := execute_mmu site hmmu
    rw [hexecute, mmuPrologue, hname] at hop
    simp only [List.mem_append, List.append_nil] at hop
    rcases hop with (((hop | hop) | hop) | hop) | hop
    · simp only [List.mem_cons, List.mem_map] at hop
      rcases hop with rfl | ⟨ptr, -, rfl⟩
      all_goals exact ⟨Op.noConfusion, Op.noConfusion⟩
    · simp only [List.mem_cons, List.not_mem_nil, or_false] at hop
      rcases hop with rfl | rfl
      all_goals exact ⟨Op.noConfusion, Op.noConfusion⟩
    · exact hplain hmiddle hop
    · simp only [mmuOff, List.mem_cons, List.not_mem_nil, or_false] at hop
      rcases hop with rfl | rfl | rfl
      all_goals exact ⟨Op.noConfusion, Op.noConfusion⟩
    · exact hplain htail hop

/-- INTERNAL: at every point of such a benchmark the default handler is in force. -/
theorem default_within {name : Name} (hname : installs name = []) {before after : List Op}
    (hsplit : (name.benchmark site).execute = before ++ after) :
    Triple (exec image site) Any Between before
      fun s => s.pageFaultHandlerFn = .defaultPageFaultHandler := by
  refine (Triple.invariant fun op hop e s h => ?_).mono (fun s h => h.handler) (fun _ h => h)
    fun _ h => h
  obtain ⟨hdata, hfetch⟩ := mem_execute_ne hname (hsplit ▸ List.mem_append_left after hop)
  exact exec_default hdata hfetch e s h

/-- INTERNAL: what the prologue installs stays in force in the kernel. -/
theorem installed_within (before : List Op) (install : Op) (handler : PageFaultHandler)
    {kernel : List Op} (hinstall : ∀ e s, Outcome (fun s' => s'.pageFaultHandlerFn = handler) Any
      (exec image site e install s)) (hkernel : Plain kernel) :
    Triple (exec image site) Any Between (before ++ [install] ++ kernel)
      fun s => s.pageFaultHandlerFn = handler := by
  have hany : Triple (exec image site) Any Between before fun _ => True := by
    refine (Triple.invariant fun op _ e s _ => ?_).mono (fun _ _ => trivial) (fun _ h => h) fun _ h => h
    cases exec image site e op s <;> trivial
  have hplain : Triple (exec image site) Any (fun s => s.pageFaultHandlerFn = handler) kernel
      fun s => s.pageFaultHandlerFn = handler :=
    (plain_triple (fun _ _ hkept h => hkept.handler.trans h) hkernel).mono (fun _ h => h)
      (fun _ h => h) fun _ _ => trivial
  exact (hany.append (Triple.single fun e s _ => hinstall e s)).append hplain

/-- INTERNAL: in the kernel of any benchmark its own handler is in force. -/
theorem ownHandler_within (name : Name) {before after : List Op}
    (hsplit : (name.benchmark site).kernel = before ++ after) :
    Triple (exec image site) Any Between ((name.benchmark site).prologue ++ before)
      fun s => s.pageFaultHandlerFn = ownHandler name := by
  have hplain : ∀ {body : List Op} {n : ℕ}, Plain body →
      (name.benchmark site).kernel = Benchmarks.loop n body → Plain before := by
    intro body n hbody hkernel op hop
    exact hbody.loop n op (by rw [← hkernel, hsplit]; exact List.mem_append_left after hop)
  have hdefault : installs name = [] → ownHandler name = .defaultPageFaultHandler →
      Triple (exec image site) Any Between ((name.benchmark site).prologue ++ before)
        fun s => s.pageFaultHandlerFn = ownHandler name := by
    intro hinstalls hown
    rw [hown]
    apply default_within hinstalls
    show (name.benchmark site).execute =
      (name.benchmark site).prologue ++ before ++ (after ++ (name.benchmark site).epilogue)
    unfold Program.Benchmarks.Benchmark.execute
    rw [hsplit]
    simp only [List.append_assoc]
  cases name with
  | dfault =>
    exact installed_within mmuOn .archDfaultInstallSkip .memSkipHandler (fun _ _ => rfl)
      (hplain (plain_single rfl) rfl)
  | ifault =>
    exact installed_within mmuOn .archIfaultInstallReturn .returnHandler (fun _ _ => rfl)
      (hplain (plain_single rfl) rfl)
  | _ => exact hdefault rfl rfl

end Operations

/-! ## From `arch_init` -/

/-- INTERNAL: the default handler aborts. SRC: arch/x86_64/irq.c:41-45 -/
theorem fault_aborts {s : Machine} (h : s.pageFaultHandlerFn = .defaultPageFaultHandler) {e : Env}
    {ptr : BitVec 64} (hfault : e.faults ptr = true) :
    access e ptr s = .error .abort ∧ jump e ptr s = .error .abort := by
  unfold access dataFault jump fetchFault
  rw [hfault, h]
  exact ⟨rfl, rfl⟩

/-- SOURCE: arch/x86_64/mem.c:49-90, arch/x86_64/exception.c:13-48, harness/harness.c:11-48 —
**isolation**: after `arch_init` and any sequence of benchmarks that returns, CR3 holds the
initial tables and the default page fault handler is in force; in the kernel of the benchmark
that follows, the handler that its own initialisation installed is, or the default one; and
everywhere in a benchmark that installs none a page fault aborts. -/
theorem benchmarks_isolated (image : Image) (site : Site) (traps : Trap → BitVec 64)
    (gigabytePages : Bool) (mem : Memory) :
    ∃ s₀, archInit image traps (booted gigabytePages mem) = .ok s₀ ∧
      ∀ (env : ℕ → Env) (names : List Name),
        (∀ s, runBenchmarks image site env names s₀ = .ok s →
          s.cr3 = s.initialPagetables ∧ s.initialPagetables = initPgt ∧
            s.pageFaultHandlerFn = .defaultPageFaultHandler) ∧
        (∀ (name : Name) (before after : List Op) (s : Machine),
          (name.benchmark site).kernel = before ++ after →
          runOps image site env (executeAll site names ++
            ((name.benchmark site).prologue ++ before)) s₀ = .ok s →
          s.pageFaultHandlerFn = ownHandler name) ∧
        (∀ (name : Name) (before after : List Op) (s : Machine), name ≠ .dfault → name ≠ .ifault →
          (name.benchmark site).execute = before ++ after →
          runOps image site env (executeAll site names ++ before) s₀ = .ok s →
          ∀ e ptr, e.faults ptr = true →
            access e ptr s = .error .abort ∧ jump e ptr s = .error .abort) := by
  obtain ⟨s₀, hinit, hstarted⟩ := archInit_started image traps gigabytePages mem
  have hbetween : Between s₀ := ⟨hstarted.initialPagetables, hstarted.cr3, hstarted.handler⟩
  refine ⟨s₀, hinit, fun env names => ⟨?_, ?_, ?_⟩⟩
  · intro s hrun
    have hs := (executeAll_between names env 0 s₀ hbetween).of_ok hrun
    exact ⟨hs.cr3, hs.initialPagetables, hs.handler⟩
  · intro name before after s hsplit hrun
    exact ((executeAll_between names).append (ownHandler_within name hsplit) env 0 s₀ hbetween).of_ok
      hrun
  · intro name before after s hdfault hifault hsplit hrun e ptr hfault
    have hinstalls : installs name = [] := by
      cases name with
      | dfault => exact absurd rfl hdfault
      | ifault => exact absurd rfl hifault
      | _ => rfl
    have hs := ((executeAll_between names).append (default_within hinstalls hsplit) env 0 s₀
      hbetween).of_ok hrun
    exact fault_aborts hs hfault

end Simbench.Analysis.X86Isolation
