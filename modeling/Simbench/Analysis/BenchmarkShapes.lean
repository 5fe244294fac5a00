import Simbench.Program.Benchmarks

/-!
# The shape of a benchmark

Ten benchmarks run between `mem_init` with what they map and the shared cleanup; two of these
install a page fault handler first. All other operations, and the other ten benchmarks, leave
the memory management and the page fault handler alone.
-/

set_option autoImplicit false

namespace Simbench.Analysis.BenchmarkShapes

open Simbench.Program.Benchmarks

/-- INTERNAL: a loop of at least one round has the operations of its body. -/
theorem mem_loop {iterations : ℕ} {body : List Op} {op : Op} :
    op ∈ loop iterations body ↔ iterations ≠ 0 ∧ op ∈ body := by
  unfold loop
  simp only [List.mem_flatten, List.mem_replicate]
  constructor
  · rintro ⟨round, ⟨hiterations, rfl⟩, hop⟩
    exact ⟨hiterations, hop⟩
  · rintro ⟨hiterations, hop⟩
    exact ⟨body, ⟨hiterations, rfl⟩, hop⟩

/-- INTERNAL: a loop has no others. -/
theorem mem_of_mem_loop {iterations : ℕ} {body : List Op} {op : Op}
    (h : op ∈ loop iterations body) :
    op ∈ body := (mem_loop.mp h).2

/-- INTERNAL: a benchmark without a control kernel that does something. -/
theorem execute_eq {bm : Benchmark} (hpriv : bm.kernelPriv = false)
    (hcontrol : bm.kernelControl = none ∨ bm.kernelControl = some []) :
    bm.execute = bm.kernelInit ++ bm.kernel ++ bm.kernelCleanup := by
  unfold Benchmark.execute Benchmark.prologue Benchmark.epilogue Benchmark.priv
  cases hcontrol with
  | inl h => simp [hpriv, h]
  | inr h => simp [hpriv, h]

/-! ## Plain operations -/

/-- INTERNAL: whether an operation leaves the memory management and the page fault handler
alone. -/
def plain : Op → Bool
  | .memInit | .memReset | .memMmuEnable | .memMmuDisable | .memCreatePageMappingData _ _ => false
  | .archDfaultInstallSkip | .archIfaultInstallReturn => false
  | _ => true

/-- INTERNAL: all operations of a list are plain. -/
def Plain (ops : List Op) : Prop := ∀ op ∈ ops, plain op = true

/-- INTERNAL: no operation, none that is not plain. -/
theorem plain_nil : Plain [] := fun _ h => absurd h List.not_mem_nil

/-- INTERNAL: a list is plain when its first operation and the others are. -/
theorem plain_cons {op : Op} {ops : List Op} : Plain (op :: ops) ↔ plain op = true ∧ Plain ops := by
  unfold Plain
  simp

/-- INTERNAL: a list of a single plain operation is plain. -/
theorem plain_single {op : Op} (h : plain op = true) : Plain [op] := plain_cons.mpr ⟨h, plain_nil⟩

/-- INTERNAL: a list of two plain operations is plain. -/
theorem plain_pair {op op' : Op} (h : plain op = true) (h' : plain op' = true) : Plain [op, op'] :=
  plain_cons.mpr ⟨h, plain_single h'⟩

/-- INTERNAL: one plain list behind another. -/
theorem plain_append {before after : List Op} :
    Plain (before ++ after) ↔ Plain before ∧ Plain after := by
  unfold Plain
  simp only [List.mem_append, or_imp, forall_and]

/-- INTERNAL: a loop around a plain body. -/
theorem Plain.loop {body : List Op} (h : Plain body) (iterations : ℕ) :
    Plain (Program.Benchmarks.loop iterations body) := fun op hop => h op (mem_of_mem_loop hop)

/-- INTERNAL: an operation for each element, each plain. -/
theorem plain_map {α : Type} {xs : List α} {f : α → Op} (h : ∀ x, plain (f x) = true) :
    Plain (xs.map f) := by
  intro op hop
  obtain ⟨x, -, rfl⟩ := List.mem_map.mp hop
  exact h x

/-- INTERNAL: a plain list for each element. -/
theorem plain_flatMap {α : Type} {xs : List α} {f : α → List Op} (h : ∀ x, Plain (f x)) :
    Plain (xs.flatMap f) := by
  intro op hop
  obtain ⟨x, -, hop⟩ := List.mem_flatMap.mp hop
  exact h x op hop

/-! ## The two kinds -/

/-- INTERNAL: the pages a benchmark maps, each to itself. -/
def maps (site : Site) : Name → List (BitVec 64)
  | .tlbFlush | .tlbEvict | .memoryColdMmu => physPages site
  | .memoryNonpriv => [site.symbol .memoryNonprivValue]
  | _ => []

/-- INTERNAL: the page fault handler a benchmark installs. -/
def installs : Name → List Op
  | .dfault => [.archDfaultInstallSkip]
  | .ifault => [.archIfaultInstallReturn]
  | _ => []

/-- INTERNAL: whether it turns address translation on. -/
def usesMmu : Name → Bool
  | .undef | .interrupt | .syscall | .dfault | .ifault => true
  | .tlbFlush | .tlbEvict | .memoryHotMmu | .memoryColdMmu | .memoryNonpriv => true
  | _ => false

/-- INTERNAL: what such a benchmark does before its kernel. -/
def mmuPrologue (site : Site) (name : Name) : List Op :=
  .memInit :: ((maps site name).map fun ptr => .memCreatePageMappingData ptr ptr) ++
    [.memMmuEnable, .memTlbFlush] ++ installs name

section Shapes

variable (site : Site)

/-- INTERNAL: plain operations between the prologue and the shared cleanup, and behind it. -/
def MmuShape (bm : Benchmark) (name : Name) : Prop :=
  ∃ middle tail, bm.execute = mmuPrologue site name ++ middle ++ mmuOff ++ tail ∧ Plain middle ∧
    Plain tail

/-- INTERNAL: a benchmark at EL0 with the usual initialisation and cleanup. -/
theorem execute_mmuOn {bm : Benchmark} {name : Name} (install middle : List Op)
    (hmaps : maps site name = []) (hinit : bm.kernelInit = mmuOn ++ (installs name ++ install))
    (hcleanup : bm.kernelCleanup = middle ++ mmuOff) (hpriv : bm.kernelPriv = false)
    (hcontrol : bm.kernelControl = none ∨ bm.kernelControl = some []) (hinstall : Plain install)
    (hkernel : Plain bm.kernel) (hmiddle : Plain middle) : MmuShape site bm name := by
  refine ⟨install ++ bm.kernel ++ middle, [], ?_,
    plain_append.mpr ⟨plain_append.mpr ⟨hinstall, hkernel⟩, hmiddle⟩, plain_nil⟩
  rw [execute_eq hpriv hcontrol, hinit, hcleanup]
  unfold mmuPrologue mmuOn
  rw [hmaps]
  simp

/-- INTERNAL: one that maps the physical memory region. -/
theorem execute_mapPhysMem {bm : Benchmark} {name : Name} (hmaps : maps site name = physPages site)
    (hinstalls : installs name = [])
    (hinit : bm.kernelInit = .memInit :: (mapPhysMem site ++ [.memMmuEnable, .memTlbFlush]))
    (hcleanup : bm.kernelCleanup = mmuOff) (hpriv : bm.kernelPriv = false)
    (hcontrol : bm.kernelControl = none ∨ bm.kernelControl = some []) (hkernel : Plain bm.kernel) :
    MmuShape site bm name := by
  refine ⟨bm.kernel, [], ?_, hkernel, plain_nil⟩
  rw [execute_eq hpriv hcontrol, hinit, hcleanup]
  unfold mmuPrologue mapPhysMem
  rw [hmaps, hinstalls]
  simp

/-- INTERNAL: **benchmarks with address translation**: the prologue that maps and enables, plain
operations, the cleanup that disables, and plain operations behind it. -/
theorem execute_mmu {name : Name} (hname : usesMmu name = true) :
    ∃ middle tail, (name.benchmark site).execute =
      mmuPrologue site name ++ middle ++ mmuOff ++ tail ∧ Plain middle ∧ Plain tail := by
  cases name with
  | undef =>
    exact execute_mmuOn site [.archUndefInstallSkip] [] rfl rfl rfl rfl (Or.inl rfl)
      (plain_single rfl) ((plain_single rfl).loop _) plain_nil
  | interrupt =>
    exact execute_mmuOn site [.archIrqInstallHandler, .archIrqEnable] [.archIrqDisable] rfl rfl rfl
      rfl (Or.inl rfl) (plain_pair rfl rfl) ((plain_pair rfl rfl).loop _) (plain_single rfl)
  | syscall =>
    exact execute_mmuOn site [.archSyscallInstallSkip] [] rfl rfl rfl rfl (Or.inl rfl)
      (plain_single rfl) ((plain_single rfl).loop _) plain_nil
  | dfault | ifault =>
    exact execute_mmuOn site [] [] rfl rfl rfl rfl (Or.inl rfl) plain_nil
      ((plain_single rfl).loop _) plain_nil
  | memoryHotMmu =>
    exact execute_mmuOn site [] [] rfl rfl rfl rfl (Or.inr rfl) plain_nil
      (((plain_pair rfl rfl).loop 10).loop _) plain_nil
  | tlbFlush | tlbEvict =>
    exact execute_mapPhysMem site rfl rfl rfl rfl rfl (Or.inl rfl)
      (plain_flatMap fun _ => plain_pair rfl rfl)
  | memoryColdMmu =>
    exact execute_mapPhysMem site rfl rfl rfl rfl rfl (Or.inr rfl) (plain_map fun _ => rfl)
  | memoryNonpriv =>
    refine ⟨[.archPrivEnter] ++ (memoryNonpriv site).kernel ++ [.archPrivLeave], [.archPrivLeave],
      ?_, ?_, plain_single rfl⟩
    · simp [Name.benchmark, memoryNonpriv, Benchmark.execute, Benchmark.prologue,
        Benchmark.epilogue, Benchmark.priv, mmuPrologue, maps, installs]
    · simp only [plain_append]
      exact ⟨⟨plain_single rfl, (plain_single rfl).loop _⟩, plain_single rfl⟩
  | _ => cases hname

/-- INTERNAL: a benchmark whose three parts are plain. -/
theorem plain_execute {bm : Benchmark} (hpriv : bm.kernelPriv = false)
    (hcontrol : bm.kernelControl = none ∨ bm.kernelControl = some []) (hinit : Plain bm.kernelInit)
    (hkernel : Plain bm.kernel) (hcleanup : Plain bm.kernelCleanup) : Plain bm.execute := by
  rw [execute_eq hpriv hcontrol]
  exact plain_append.mpr ⟨plain_append.mpr ⟨hinit, hkernel⟩, hcleanup⟩

/-- INTERNAL: **benchmarks without** it make plain operations only. -/
theorem execute_plain {name : Name} (hname : usesMmu name = false) :
    Plain (name.benchmark site).execute := by
  cases name with
  | smallBlocks =>
    have hload : ∀ fnHead, Plain [.load fnHead, .archCodeFlush fnHead] :=
      fun _ => plain_pair rfl rfl
    have hstore : ∀ fnHead, Plain [.load fnHead, .store fnHead, .archCodeFlush fnHead] :=
      fun _ => plain_cons.mpr ⟨rfl, plain_pair rfl rfl⟩
    show Plain (Program.Benchmarks.smallBlocks site).execute
    simp only [Benchmark.execute, Benchmark.prologue, Benchmark.epilogue, Benchmark.priv,
      smallBlocks, plain_append]
    refine ⟨⟨⟨⟨plain_flatMap fun _ => plain_pair rfl rfl, ?_⟩, plain_nil⟩, ?_⟩, ?_⟩
    · exact ⟨⟨plain_nil, (plain_flatMap hload).loop _⟩, plain_nil⟩
    · exact (plain_flatMap hstore).loop _
    · exact ⟨⟨plain_nil, plain_nil⟩, plain_nil⟩
  | largeBlocks =>
    have hblock : Plain (block site) := by
      unfold block
      simp only [plain_cons]
      exact ⟨rfl, rfl, rfl, rfl, rfl, rfl, plain_nil⟩
    have hload : ∀ ptr, Plain [.load ptr, .archCodeFlush ptr] := fun _ => plain_pair rfl rfl
    have hstore : ∀ ptr, Plain [.load ptr, .store ptr, .archCodeFlush ptr] :=
      fun _ => plain_cons.mpr ⟨rfl, plain_pair rfl rfl⟩
    show Plain (Program.Benchmarks.largeBlocks site).execute
    simp only [Benchmark.execute, Benchmark.prologue, Benchmark.epilogue, Benchmark.priv,
      largeBlocks, plain_append]
    refine ⟨⟨⟨⟨plain_nil, ?_⟩, plain_nil⟩, ?_⟩, ?_⟩
    · exact ⟨⟨plain_nil, (plain_append.mpr ⟨hblock, hload _⟩).loop _⟩, plain_nil⟩
    · exact (plain_append.mpr ⟨hblock, hstore _⟩).loop _
    · exact ⟨⟨plain_nil, plain_nil⟩, plain_nil⟩
  | intraPageIndirect | interPageIndirect | intraPageDirect | interPageDirect => exact plain_nil
  | memoryHotNommu =>
    exact plain_execute rfl (Or.inr rfl) plain_nil (((plain_pair rfl rfl).loop 10).loop _) plain_nil
  | memoryColdNommu => exact plain_execute rfl (Or.inr rfl) plain_nil (plain_map fun _ => rfl) plain_nil
  | deviceAccess | coprocessorAccess =>
    exact plain_execute rfl (Or.inl rfl) plain_nil ((plain_single rfl).loop _) plain_nil
  | _ => cases hname

end Shapes

/-! ## The parts of a benchmark with address translation -/

/-- INTERNAL: the kernels of the benchmarks find their handlers installed. -/
def handlersFor : Name → List Op
  | .undef => [.archUndefInstallSkip]
  | .syscall => [.archSyscallInstallSkip]
  | .interrupt => [.archIrqInstallHandler, .archIrqEnable]
  | .memoryNonpriv => [.archPrivEnter]
  | _ => []

/-- INTERNAL: between the kernel and the shared cleanup. -/
def leaving : Name → List Op
  | .interrupt => [.archIrqDisable]
  | .memoryNonpriv => [.archPrivLeave]
  | _ => []

/-- INTERNAL: what a benchmark does behind its cleanup: `memory_nonpriv` leaves privileged mode. -/
def afterwards : Name → List Op
  | .memoryNonpriv => [.archPrivLeave]
  | _ => []

/-- INTERNAL: a benchmark with address translation, part by part. -/
theorem execute_parts (site : Site) {name : Name} (hname : usesMmu name = true) :
    (name.benchmark site).execute = mmuPrologue site name ++ (handlersFor name ++
      ((name.benchmark site).kernel ++ (leaving name ++ (mmuOff ++ afterwards name)))) := by
  cases name with
  | undef | interrupt | syscall | dfault | ifault | memoryHotMmu | memoryNonpriv =>
    simp [Name.benchmark, undef, interrupt, syscall, dfault, ifault, memoryHotMmu, memoryNonpriv,
      Benchmark.execute, Benchmark.prologue, Benchmark.epilogue, Benchmark.priv, mmuPrologue, mmuOn,
      maps, installs, handlersFor, leaving, afterwards]
  | tlbFlush | tlbEvict | memoryColdMmu =>
    simp [Name.benchmark, tlbFlush, tlbEvict, memoryColdMmu, mapPhysMem, Benchmark.execute,
      Benchmark.prologue, Benchmark.epilogue, Benchmark.priv, mmuPrologue, maps, installs,
        handlersFor,
      leaving, afterwards]
  | _ => cases hname

/-! ## What operations touch -/

/-- INTERNAL: operations that change nothing if what they access can be reached; `P` says of an
address that it can. -/
def Touches (P : BitVec 64 → Prop) : Op → Prop
  | .load ptr | .store ptr | .archNonpriviligedRead ptr => P ptr
  | .memTlbFlush | .memTlbEvict _ | .archCodeFlush _ | .archCoprocessorAccess => True
  | .archPrivEnter | .archPrivLeave => True
  | _ => False

/-- INTERNAL: all operations of a list. -/
def Touching (P : BitVec 64 → Prop) (ops : List Op) : Prop := ∀ op ∈ ops, Touches P op

section Touching

variable {P : BitVec 64 → Prop}

/-- INTERNAL: a load touches its own address. -/
@[simp] theorem touches_load {ptr : BitVec 64} : Touches P (.load ptr) ↔ P ptr := Iff.rfl

/-- INTERNAL: a store touches its own address. -/
@[simp] theorem touches_store {ptr : BitVec 64} : Touches P (.store ptr) ↔ P ptr := Iff.rfl

/-- INTERNAL: a code flush touches no data. -/
@[simp] theorem touches_codeFlush (address : BitVec 64) :
    Touches P (.archCodeFlush address) := trivial

/-- INTERNAL: neither does the access to a coprocessor. -/
@[simp] theorem touches_coprocessor : Touches P .archCoprocessorAccess := trivial

/-- INTERNAL: a list of no operation touches nothing. -/
@[simp] theorem touching_nil : Touching P [] := fun _ h => absurd h List.not_mem_nil

/-- INTERNAL: a list touches what its first operation and the others touch. -/
@[simp] theorem touching_cons {op : Op} {ops : List Op} :
    Touching P (op :: ops) ↔ Touches P op ∧ Touching P ops := by
  unfold Touching
  simp

/-- INTERNAL: a list behind a list touches what the two touch. -/
@[simp] theorem touching_append {before after : List Op} :
    Touching P (before ++ after) ↔ Touching P before ∧ Touching P after := by
  unfold Touching
  simp only [List.mem_append, or_imp, forall_and]

/-- INTERNAL: a list for each element, each within the same addresses. -/
theorem touching_flatMap {α : Type} {xs : List α} {f : α → List Op}
    (h : ∀ x ∈ xs, Touching P (f x)) : Touching P (xs.flatMap f) := by
  intro op hop
  obtain ⟨x, hx, hop⟩ := List.mem_flatMap.mp hop
  exact h x hx op hop

/-- INTERNAL: a loop touches what its body touches. -/
theorem Touching.loop {body : List Op} (h : Touching P body) (iterations : ℕ) :
    Touching P (Program.Benchmarks.loop iterations body) :=
  fun op hop => h op (mem_of_mem_loop hop)

end Touching

end Simbench.Analysis.BenchmarkShapes
