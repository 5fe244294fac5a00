import Simbench.Analysis.X86InterruptTable
import Simbench.Program.X86Tlb

/-!
# The TLB makes no difference

The kernel writes CR3 whenever it puts other tables in force, and what it maps while tables are in
force only adds to them. So every translation the TLB keeps is one of the tables, and the
benchmarks run as on a processor that walks the tables for every access.
-/

set_option autoImplicit false

namespace Simbench.Analysis.X86TlbCoherence

open Simbench.Library.PagedMemory Simbench.Library.TableWalk Simbench.Library.Outcomes
open Simbench.Library.TranslationCaches
open Simbench.Program Simbench.Program.X86Boot Simbench.Program.X86Kernel
open Simbench.Program.X86PageTables hiding Machine walk
open Simbench.Program.X86BootCode (Access cpuWalk finish pageAddress)
open Simbench.Program.X86Tlb (walk maintains runTables runTlb)
open Simbench.Program.Benchmarks (Op Site Name executeAll)
open Simbench.Analysis.X86Isolation (Any Kept exec_plain memInit_context)
open Simbench.Analysis.BenchmarkShapes Simbench.Analysis.BenchmarkOrder
open Simbench.Analysis.X86InterruptTable

/-! ## Addresses -/

/-- INTERNAL: the bits of an address that are translated. -/
def low (va : BitVec 64) : BitVec 64 := (va.setWidth 48).setWidth 64

/-- INTERNAL: the bits of an address that the walk uses are its low 48. -/
theorem toNat_low (va : BitVec 64) : (low va).toNat = va.toNat % 2 ^ 48 := by
  unfold low
  rw [BitVec.toNat_setWidth, BitVec.toNat_setWidth]
  omega

/-- INTERNAL: every index is among them. -/
theorem walkIndex_low {shift : ℕ} (hshift : shift + 9 ≤ 48) (va : BitVec 64) :
    walkIndex shift (low va) = walkIndex shift va := by
  unfold walkIndex
  congr 1
  apply BitVec.eq_of_getLsbD_eq
  intro i hi
  rw [BitVec.getLsbD_extractLsb', BitVec.getLsbD_extractLsb', low, BitVec.getLsbD_setWidth,
    BitVec.getLsbD_setWidth, decide_eq_true (show shift + i < 64 by omega),
    decide_eq_true (show shift + i < 48 by omega)]
  simp

/-- INTERNAL: the offset of an address is among its low 48 bits. -/
theorem finish_low {shift : ℕ} (hshift : shift ≤ 48) (path : List (BitVec 64))
    (entry va : BitVec 64) :
    finish shift path entry (low va) = finish shift path entry va := by
  have haddr : pageAddress shift entry (low va) = pageAddress shift entry va := by
    unfold pageAddress
    rw [toNat_low, Nat.mod_mod_of_dvd _ (Nat.pow_dvd_pow 2 hshift)]
  unfold finish
  rw [haddr]

/-- INTERNAL: the walk reads nothing else of an address. -/
theorem cpuWalk_low (gigabytePages : Bool) (mem : Memory) (cr3 va : BitVec 64) :
    cpuWalk gigabytePages mem cr3 (low va) = cpuWalk gigabytePages mem cr3 va := by
  unfold cpuWalk
  simp only [walkIndex_low, finish_low, Nat.reduceAdd, Nat.reduceLeDiff]

/-! ## Tables in force -/

section Tables

variable {image : Image} {gigabytePages : Bool} {traps : Trap → BitVec 64} {idt root : Page}
  {calls calls' : List Call} {s s' : Machine}

/-- INTERNAL: the walk of the tables in force. -/
theorem mapped_walk_eq (h : Mapped image gigabytePages traps idt root calls s) (va : BitVec 64) :
    walk gigabytePages s va =
      if s.cr3 = initPgt then if BootCovers (low va) then some ⟨low va, true, false⟩ else none
      else if MapsPage calls (low va) then some ⟨low va, true, true⟩ else none := by
  have hlow : (low va).toNat < 2 ^ 48 := by
    rw [toNat_low]
    exact Nat.mod_lt _ (by decide)
  unfold walk
  rw [← cpuWalk_low]
  by_cases hcr3 : s.cr3 = initPgt
  · rw [if_pos hcr3, hcr3, h.installed.tables.cpuWalk_eq hlow]
  · rw [if_neg hcr3, h.cr3.resolve_left hcr3, tables_cpuWalk_eq h.tables h.root_lt hlow]

/-- INTERNAL: more calls take no translation back. -/
theorem mapped_within (h : Mapped image gigabytePages traps idt root calls s)
    (h' : Mapped image gigabytePages traps idt root calls' s') (hcr3 : s'.cr3 = s.cr3)
    (hcalls : ∀ c ∈ calls, c ∈ calls') :
    Within (walk gigabytePages s) (walk gigabytePages s') := by
  intro va access hwalk
  rw [mapped_walk_eq h] at hwalk
  rw [mapped_walk_eq h', hcr3]
  split at hwalk
  · rename_i hboot
    rw [if_pos hboot, hwalk]
  · rename_i hruntime
    rw [if_neg hruntime]
    split at hwalk
    · rename_i hmaps
      obtain ⟨c, hc, hpage⟩ := hmaps
      rw [if_pos ⟨c, hcalls c hc, hpage⟩, hwalk]
    · cases hwalk

/-- INTERNAL: the walk depends on the tables and on CR3. -/
theorem walk_congr (hpages : s'.pages = s.pages) (hcr3 : s'.cr3 = s.cr3) :
    walk gigabytePages s' = walk gigabytePages s := by
  unfold walk
  rw [hpages, hcr3]

end Tables

/-! ## Operations -/

section Operations

variable {platform : Platform} {image : Image} {site : Site} {gigabytePages : Bool}
  {traps : Trap → BitVec 64} {idt : Page} {s : Machine}

/-- INTERNAL: **one operation**: it takes no translation back, or writes CR3. -/
theorem exec_safe (hsite : OnPlatform platform image site) (hidt : 0x100 ≤ idt.toNat)
    (h : Serving image gigabytePages traps idt s) {before : List Op}
    (hinited : .memInit ∈ before → s.memInited = true) {op : Op} (hop : InOrder site before op)
    (e : Env) :
    Outcome (Safe (walk gigabytePages) maintains op s) Any (exec image site e op s) := by
  have hkept : ∀ {s' : Machine}, s'.pages = s.pages → s'.cr3 = s.cr3 →
      Safe (walk gigabytePages) maintains op s s' := by
    intro s' hpages hcr3
    refine Or.inr ?_
    rw [walk_congr hpages hcr3]
    exact Within.refl _
  by_cases hplain : plain op = true
  · exact (exec_plain image site e hplain s).mono (fun s' h' => hkept h'.pages h'.cr3) fun _ _ => trivial
  · cases op with
    | memInit =>
      show Outcome _ _ (memInit image s)
      cases hmemInited : s.memInited with
      | true =>
        rw [memInit, if_pos hmemInited]
        exact hkept rfl rfl
      | false =>
        have hflush : maintains .memInit s = .flush := by rw [maintains, hmemInited]; rfl
        exact (memInit_context s).mono (fun _ _ => Or.inl hflush) fun _ h => h
    | memCreatePageMappingData pa va =>
      obtain ⟨hinit, rfl, hva⟩ := hop
      obtain ⟨root, calls, hmapped⟩ := h.exists_mapped (hinited hinit)
      refine (hmapped.mapping hidt (maps_bootCovers hsite hva) e).mono ?_ fun _ h => h
      rintro s' ⟨hmapped', hcr3⟩
      exact Or.inr (mapped_within hmapped hmapped' hcr3 fun c hc => List.mem_append_left _ hc)
    | memMmuEnable | memMmuDisable => exact Or.inl rfl
    | memReset | archDfaultInstallSkip | archIfaultInstallReturn => exact hkept rfl rfl
    | _ => exact absurd rfl hplain

/-- INTERNAL: from `arch_init` to anywhere in a benchmark, with any TLB. -/
theorem runTlb_same (hsite : OnPlatform platform image site) {s₀ : Machine}
    (h : Served image gigabytePages traps idt s₀) {names : List Name} {ops : List Op}
    (hops : ops <+: executeAll site names) (env : ℕ → Bool × Activity (BitVec 64))
    {tlb : Cache (BitVec 64) Access} (htlb : Within tlb (walk gigabytePages s₀)) :
    Same (walk gigabytePages) (runTlb image site gigabytePages env ops ⟨s₀, tlb⟩)
      (runTables image site gigabytePages (fun i => (env i).1) ops s₀) := by
  have hordered := (executeAll_ordered site names).of_initial hops
  have hstep : ∀ e before op after s, ops = before ++ op :: after →
      ServingAfter image gigabytePages traps idt before s →
      Outcome (fun s' => ServingAfter image gigabytePages traps idt (before ++ [op]) s' ∧
        Safe (walk gigabytePages) maintains op s s') Any
          (execTables (walk gigabytePages) (X86Tlb.exec image site) e op s) := by
    intro e before op after s hsplit hs
    have hop := hordered before op after hsplit
    exact ((exec_servingAfter hsite h.idt_ge hs hop _).and
      (exec_safe hsite h.idt_ge hs.1 hs.2 hop _)).mono (fun _ h => h) fun _ h => h.1
  exact run_same hstep env 0 (Serving.fresh h).after_nil htlb

end Operations

/-- SOURCE: arch/x86_64/mem.c:29-105,155-206, arch/x86_64/boot.S:160-232, benchmarks — **the TLB
makes no difference**: from what `arch_init` leaves, with any TLB that holds translations of the
tables then in force, and whatever it keeps and loads between operations, the benchmarks get where
they get on a processor that walks the tables for every access, to the same halt or to the same
state; and every translation the TLB holds there is one of the tables then in force. -/
theorem runTlb_transparent (platform : Platform) (image : Image) (site : Site)
    (hsite : OnPlatform platform image site)
    (traps : Trap → BitVec 64) (gigabytePages : Bool) (mem : Memory) :
    ∃ s₀, archInit image traps (booted gigabytePages mem) = .ok s₀ ∧
      ∀ tlb, Within tlb (walk gigabytePages s₀) → ∀ env names ops, ops <+: executeAll site names →
        Same (walk gigabytePages) (runTlb image site gigabytePages env ops ⟨s₀, tlb⟩)
          (runTables image site gigabytePages (fun i => (env i).1) ops s₀) := by
  obtain ⟨s₀, idt, hinit, -, hserved⟩ := archInit_served image traps gigabytePages mem
  exact ⟨s₀, hinit, fun tlb htlb env names ops hops => runTlb_same hsite hserved hops env htlb⟩

/-- INTERNAL: behind `mem_mmu_enable`, from a TLB that is full of the boot tables. -/
theorem runTlb_transparent_enabled : ∃ s₀ c, archInit smallImage (fun _ => 0x100200)
    (booted false fun _ => 0xff) = .ok s₀ ∧
    runTlb smallImage (X86HeapUse.smallSite .native) false
      (fun _ => (true, ⟨fun _ => true, fun _ => true⟩))
      [.memInit, .memMmuEnable] ⟨s₀, walk false s₀⟩ = .ok c ∧
    c.machine.cr3 = c.machine.pages.runtimePagetables ∧ Coherent (walk false) c := by
  obtain ⟨s₀, hinit, hall⟩ := runTlb_transparent .native smallImage (X86HeapUse.smallSite .native)
    (X86HeapUse.onPlatform_smallSite .native) (fun _ => 0x100200) false fun _ => 0xff
  obtain ⟨hinitial, hruns⟩ := memInit_enabled (fun _ => 0x100200) false fun _ => 0xff
  obtain ⟨s, hrun, hcr3⟩ := hruns s₀ hinit fun _ => ⟨fun _ => false, true⟩
  have hsame := hall _ (Within.refl _) (fun _ => (true, ⟨fun _ => true, fun _ => true⟩)) _ _ hinitial
  have htables : runTables smallImage (X86HeapUse.smallSite .native) false (fun _ => true)
      [.memInit, .memMmuEnable] s₀ = .ok s := hrun
  rw [htables] at hsame
  generalize hcached : runTlb smallImage (X86HeapUse.smallSite .native) false
    (fun _ => (true, ⟨fun _ => true, fun _ => true⟩)) [.memInit, .memMmuEnable]
      ⟨s₀, walk false s₀⟩ = cached at hsame
  cases hsame with
  | ok c hcoherent => exact ⟨s₀, c, hinit, hcached, hcr3, hcoherent⟩

end Simbench.Analysis.X86TlbCoherence
