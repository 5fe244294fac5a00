import Simbench.Analysis.ArmSectionRequests
import Simbench.Analysis.Armv8Mappings
import Simbench.Analysis.Armv8TableCount
import Simbench.Library.AddressLoops

/-!
# When the region loops end

Both ports map a region page by page, up to and with the page of its last address. The counter is
an address: behind the last page of the address space it starts again at zero, below every end, so
a region that reaches this page is mapped for ever.
-/

set_option autoImplicit false

namespace Simbench.Analysis.RegionLoops

open Simbench.Library.AddressLoops Simbench.Library.PagedMemory
open Simbench.Library.TreePaths Simbench.Program
open Simbench.Analysis.ArmSectionTable Simbench.Analysis.ArmSectionRequests
open Simbench.Analysis.Armv8TableCount

/-! ## ARM -/

section Arm

open ArmSections (Kind State Halt memGetPageSize memCreatePageMapping regionLoop createRegion)

variable (kind : Kind) (regionEnd : BitVec 32)

/-- INTERNAL: the loop takes one round more than it maps pages. SRC: arch/arm/mem.c:51-53,64-69 -/
theorem arm_bounded : Bounded memGetPageSize regionEnd (fun i => memCreatePageMapping kind i i)
    Halt.endless 1 (regionLoop (fun i => memCreatePageMapping kind i i) regionEnd) := by
  constructor
  · intro i s _
    rfl
  · intro rounds i s hgt hrounds
    cases rounds with
    | zero => omega
    | succ rounds => rw [regionLoop, if_neg hgt]
  · intro rounds i s s₁ hle hcall
    rw [regionLoop, if_pos hle, hcall]
    rfl

/-- INTERNAL: the section a region starts in. -/
def armFirst (regionStart : BitVec 32) : BitVec 32 := regionStart &&& ~~~(memGetPageSize - 1)

/-- INTERNAL: the arm loop begins at its start rounded down to a section. -/
theorem toNat_armFirst (regionStart : BitVec 32) : (armFirst regionStart).toNat =
    regionStart.toNat / memGetPageSize.toNat * memGetPageSize.toNat := by
  rw [armFirst, page_eq_sectionBase, sectionBase_toNat, sectionIndex_toNat]
  rfl

/-- INTERNAL: every mapping call of a region function succeeds. SRC: arch/arm/mem.c:44-71 -/
def ArmCallsSucceed (kind : Kind) (regionStart regionEnd : BitVec 32) (s : State) : Prop :=
  CallsSucceed memGetPageSize regionEnd (afterSuccess fun i => memCreatePageMapping kind i i)
    (armFirst regionStart) s

/-- INTERNAL: the region function returns zero, having mapped each section of the region once.
SRC: arch/arm/mem.c:44-71 -/
def ArmMaps (kind : Kind) (regionStart regionEnd : BitVec 32) (s s' : State) : Prop :=
  createRegion (fun i => memCreatePageMapping kind i i) regionStart regionEnd s = .ok (0, s') ∧
    VisitsEachOnce memGetPageSize regionStart regionEnd (fun i => memCreatePageMapping kind i i)
      (armFirst regionStart) s s'

variable {kind regionEnd} {regionStart : BitVec 32} {s : State}

/-- INTERNAL: **ARM**: a region loop that ends a section before the end of the address space maps
each of its sections once and returns. -/
theorem arm_maps (hcalls : ArmCallsSucceed kind regionStart regionEnd s)
    (hroom : regionEnd.toNat + 2 ^ 20 < 2 ^ 32) :
    ∃ s', ArmMaps kind regionStart regionEnd s s' := by
  have hsize : memGetPageSize.toNat = 2 ^ 20 := rfl
  obtain ⟨visited, s', hloop, honce, hreturns⟩ := (arm_bounded kind regionEnd).visits (by decide)
    (toNat_armFirst regionStart) hcalls hroom
  have hlength := hloop.length_le hroom
  rw [hsize] at hlength
  exact ⟨s', hreturns 4097 (by omega), visited, hloop, honce⟩

/-- INTERNAL: **ARM**: up to the last section. -/
theorem arm_never (hcalls : ArmCallsSucceed kind regionStart regionEnd s)
    (hlast : 2 ^ 32 ≤ regionEnd.toNat + 2 ^ 20) (rounds : ℕ) :
    regionLoop (fun i => memCreatePageMapping kind i i) regionEnd rounds (armFirst regionStart) s =
      .error .endless := by
  have hfirst : memGetPageSize.toNat ∣ (armFirst regionStart).toNat := by
    rw [toNat_armFirst]
    exact Nat.dvd_mul_left _ _
  exact (arm_bounded kind regionEnd).never (by decide) hfirst hcalls hlast rounds

/-- INTERNAL: the table holds nothing but identity mappings of data. -/
def DataSections (t : ArmSections.Table) : Prop :=
  ∀ i, ArmSections.misaligned i = false →
    ArmSections.readWord t (ArmSections.sectionIndex i) = 0 ∨
      ArmSections.readWord t (ArmSections.sectionIndex i) = Kind.data.descriptor i

/-- INTERNAL: mapping a section of data to itself succeeds on such a table and keeps it so.
SRC: arch/arm/mem.c:352-383 -/
theorem mapping_dataSections {i : BitVec 32} (hi : ArmSections.misaligned i = false)
    (h : DataSections s.table) :
    ∃ s', memCreatePageMapping .data i i s = .ok (0, s') ∧ DataSections s'.table := by
  have hentry : ¬ (ArmSections.readWord s.table (ArmSections.sectionIndex i) ≠ 0 ∧
      ArmSections.readWord s.table (ArmSections.sectionIndex i) ≠ Kind.data.descriptor i) := by
    rintro ⟨hzero, hne⟩
    exact (h i hi).elim hzero hne
  refine ⟨_, by rw [memCreatePageMapping, hi, Bool.or_self, if_neg Bool.false_ne_true, if_neg hentry],
    fun j hj => ?_⟩
  dsimp only
  rw [readWord_writeWord]
  split
  · rename_i hsame
    rw [← sectionBase_index hi, ← sectionBase_index hj, hsame]
    exact Or.inr rfl
  · exact h j hj

/-- INTERNAL: there every mapping call of a region succeeds. -/
theorem dataSections_callsSucceed (regionEnd : BitVec 32) {i : BitVec 32}
    (hi : ArmSections.misaligned i = false) (h : DataSections s.table) :
    CallsSucceed memGetPageSize regionEnd
      (afterSuccess fun i => memCreatePageMapping .data i i) i s := by
  apply CallsSucceed.of_invariant fun i s =>
    ArmSections.misaligned i = false ∧ DataSections s.table
  · rintro i s ⟨hi, h⟩ -
    obtain ⟨s₁, hcall, hnext⟩ := mapping_dataSections hi h
    have haligned : ArmSections.misaligned (i + memGetPageSize) = false := by
      have hmod := (not_misaligned_iff i).mp hi
      rw [not_misaligned_iff, toNat_next]
      omega
    exact ⟨s₁, afterSuccess_eq_some.mpr hcall, haligned, hnext⟩
  · exact ⟨hi, h⟩

/-- INTERNAL: an empty table has no sections but of data. -/
theorem dataSections_zeroTable : DataSections zeroTable := fun _ _ => Or.inl (readWord_zeroTable _)

end Arm

/-! ## ARMv8 -/

section Armv8

open Armv8Tables (Kind HeapLayout memCreatePageMapping)
open Armv8Machine (Halt onHeap memGetPageSize regionLoop createRegion)

variable (L : HeapLayout) (kind : Kind) (regionEnd : BitVec 64)

/-- INTERNAL: the loop takes as many rounds as it maps pages.
SRC: arch/armv8/mem.c:33-35,46-48,59-64 -/
theorem armv8_bounded : Bounded memGetPageSize regionEnd
    (fun i t => onHeap (memCreatePageMapping L kind i i t)) Halt.endless 0
    (regionLoop (fun i => memCreatePageMapping L kind i i) regionEnd) := by
  constructor
  · intro i t hle
    rw [regionLoop, if_pos hle]
  · intro rounds i t hgt _
    cases rounds <;> rw [regionLoop, if_neg hgt]
  · intro rounds i t t₁ hle hcall
    rw [regionLoop, if_pos hle, hcall]
    rfl

/-- INTERNAL: the page a region starts in. -/
def armv8First (regionStart : BitVec 64) : BitVec 64 := regionStart &&& ~~~(memGetPageSize - 1)

/-- INTERNAL: the armv8 loop begins at its start rounded down to a page. -/
theorem toNat_armv8First (regionStart : BitVec 64) : (armv8First regionStart).toNat =
    regionStart.toNat / memGetPageSize.toNat * memGetPageSize.toNat :=
  Armv8Mappings.toNat_regionStart regionStart

/-- INTERNAL: every mapping call of a region function succeeds. SRC: arch/armv8/mem.c:26-66 -/
def Armv8CallsSucceed (kind : Kind) (regionStart regionEnd : BitVec 64) (t : Armv8Tables.Machine) :
    Prop :=
  CallsSucceed memGetPageSize regionEnd
    (afterSuccess fun i t => onHeap (memCreatePageMapping L kind i i t)) (armv8First regionStart) t

/-- INTERNAL: the region function returns zero, having mapped each page of the region once.
SRC: arch/armv8/mem.c:26-66 -/
def Armv8Maps (kind : Kind) (regionStart regionEnd : BitVec 64) (t t' : Armv8Tables.Machine) :
    Prop :=
  createRegion (fun i => memCreatePageMapping L kind i i) regionStart regionEnd t = .ok (0, t') ∧
    VisitsEachOnce memGetPageSize regionStart regionEnd
      (fun i t => onHeap (memCreatePageMapping L kind i i t)) (armv8First regionStart) t t'

variable {L kind regionEnd} {regionStart : BitVec 64} {t : Armv8Tables.Machine}

/-- INTERNAL: **ARMv8**: a region loop that ends a page before the end of the address space maps
each of its pages once and returns. -/
theorem armv8_maps (hcalls : Armv8CallsSucceed L kind regionStart regionEnd t)
    (hroom : regionEnd.toNat + 2 ^ 12 < 2 ^ 64) :
    ∃ t', Armv8Maps L kind regionStart regionEnd t t' := by
  have hsize : memGetPageSize.toNat = 2 ^ 12 := rfl
  obtain ⟨visited, t', hloop, honce, hreturns⟩ :=
    (armv8_bounded L kind regionEnd).visits (by decide)
    (toNat_armv8First regionStart) hcalls hroom
  have hlength := hloop.length_le hroom
  rw [hsize] at hlength
  have hrounds : visited.length ≤ (regionEnd.toNat - (armv8First regionStart).toNat) / 4096 + 1 := by
    omega
  exact ⟨t', hreturns _ hrounds, visited, hloop, honce⟩

/-- INTERNAL: **ARMv8**: up to the last page. -/
theorem armv8_never (hcalls : Armv8CallsSucceed L kind regionStart regionEnd t)
    (hlast : 2 ^ 64 ≤ regionEnd.toNat + 2 ^ 12) (rounds : ℕ) :
    regionLoop (fun i => memCreatePageMapping L kind i i) regionEnd rounds
      (armv8First regionStart) t =
      .error .endless := by
  have hfirst : memGetPageSize.toNat ∣ (armv8First regionStart).toNat := by
    rw [toNat_armv8First]
    exact Nat.dvd_mul_left _ _
  exact (armv8_bounded L kind regionEnd).never (by decide) hfirst hcalls hlast rounds

/-- INTERNAL: on a heap with a page for every path, every mapping call of a region succeeds. -/
theorem counted_callsSucceed (kind : Kind) (regionEnd : BitVec 64)
    (hheap : L.heapStart.toNat + 4096 * (2 ^ 9 + 2 ^ 18 + 2 ^ 27 + 5) ≤ L.heapEnd.toNat)
    {root : Page} {lvl : Page → Option ℕ} {vas : Finset (BitVec 64)} (i : BitVec 64)
    (h : Counted L root lvl (tablePaths vas) t) :
    CallsSucceed memGetPageSize regionEnd
      (afterSuccess fun i t => onHeap (memCreatePageMapping L kind i i t)) i t := by
  apply CallsSucceed.of_invariant fun _ t => ∃ lvl vas, Counted L root lvl (tablePaths vas) t
  · rintro i t ⟨lvl, vas, h⟩ -
    obtain ⟨t₁, hcall⟩ := h.mapping_returns hheap kind i i
    obtain ⟨lvl₁, h₁⟩ := h.mapping hcall
    refine ⟨t₁, afterSuccess_eq_some.mpr ?_, lvl₁, _, h₁⟩
    rw [hcall]
    rfl
  · exact ⟨lvl, vas, h⟩

end Armv8

/-! ## Both -/

/-- SOURCE: arch/arm/mem.c:44-71, arch/armv8/mem.c:26-66 — **the region loops**: when every
mapping call succeeds, a region function returns, having mapped each page from the one of the first
address through the one of the last once, exactly when the region ends below the last page of the
address space; otherwise no number of rounds is enough. -/
theorem regions_mapped_iff (L : Armv8Tables.HeapLayout) :
    (∀ kind regionStart regionEnd s, ArmCallsSucceed kind regionStart regionEnd s →
      ((∃ s', ArmMaps kind regionStart regionEnd s s') ↔ regionEnd < 0xfff00000) ∧
      (¬ regionEnd < 0xfff00000 → ∀ rounds,
        ArmSections.regionLoop (fun i => ArmSections.memCreatePageMapping kind i i) regionEnd rounds
          (armFirst regionStart) s = .error .endless)) ∧
    ∀ kind regionStart regionEnd t, Armv8CallsSucceed L kind regionStart regionEnd t →
      ((∃ t', Armv8Maps L kind regionStart regionEnd t t') ↔ regionEnd < 0xfffffffffffff000) ∧
      (¬ regionEnd < 0xfffffffffffff000 → ∀ rounds,
        Armv8Machine.regionLoop (fun i => Armv8Tables.memCreatePageMapping L kind i i)
          regionEnd rounds
          (armv8First regionStart) t = .error .endless) := by
  constructor
  · intro kind regionStart regionEnd s hcalls
    have hbound : regionEnd < 0xfff00000 ↔ regionEnd.toNat + 2 ^ 20 < 2 ^ 32 := by
      rw [BitVec.lt_def, show (0xfff00000 : BitVec 32).toNat = 2 ^ 32 - 2 ^ 20 from rfl]
      omega
    rw [hbound, Nat.not_lt]
    refine ⟨⟨?_, arm_maps hcalls⟩, arm_never hcalls⟩
    rintro ⟨s', hreturns, -⟩
    by_contra hlast
    cases (arm_never hcalls (Nat.not_lt.mp hlast) 4097).symm.trans hreturns
  · intro kind regionStart regionEnd t hcalls
    have hbound : regionEnd < 0xfffffffffffff000 ↔ regionEnd.toNat + 2 ^ 12 < 2 ^ 64 := by
      rw [BitVec.lt_def, show (0xfffffffffffff000 : BitVec 64).toNat = 2 ^ 64 - 2 ^ 12 from rfl]
      omega
    rw [hbound, Nat.not_lt]
    refine ⟨⟨?_, armv8_maps hcalls⟩, armv8_never hcalls⟩
    rintro ⟨t', hreturns, -⟩
    by_contra hlast
    cases (armv8_never hcalls (Nat.not_lt.mp hlast) _).symm.trans hreturns

/-- INTERNAL: a heap with a page for every path. -/
def wideHeap : Armv8Tables.HeapLayout where
  heapStart := 0x1000
  heapEnd := 0x10000000000
  aligned := Armv8Tables.smallHeap.aligned
  nonzero := Armv8Tables.smallHeap.nonzero
  ordered := by decide
  bounded := by decide

/-- INTERNAL: the tables of that heap right after `get_txln_table`. -/
theorem counted_wideHeap : ∃ t a root lvl, Armv8Tables.getTxlnTable wideHeap
    (Armv8Tables.armv8HeapInit wideHeap fun _ => 0) = some (a, t) ∧
      Counted wideHeap root lvl (tablePaths ∅) t := by
  obtain ⟨a, t, hroot, -⟩ := Armv8TableCalls.getL0Table_returns (L := wideHeap)
    (s := Armv8Tables.armv8HeapInit wideHeap fun _ => 0) (by decide)
  obtain ⟨root, -, h⟩ := counted_of_fresh ⟨rfl, rfl⟩ (fun _ _ _ => rfl) hroot
  exact ⟨t, a, root, _, hroot, h⟩

/-- INTERNAL: two sections of ARM, two pages of ARMv8. -/
theorem regions_mapped_iff_two :
    (∃ s', ArmMaps .data 0x100000 0x2fffff (ArmSections.State.start zeroTable false) s') ∧
    ∃ t t', Armv8Maps wideHeap .device 0x9000000 0x9001000 t t' := by
  obtain ⟨harm, harmv8⟩ := regions_mapped_iff wideHeap
  have hcalls : ArmCallsSucceed .data 0x100000 0x2fffff (ArmSections.State.start zeroTable false) :=
    dataSections_callsSucceed _ (by decide) dataSections_zeroTable
  obtain ⟨t, -, root, lvl, -, h⟩ := counted_wideHeap
  have hcalls' : Armv8CallsSucceed wideHeap .device 0x9000000 0x9001000 t :=
    counted_callsSucceed _ _ (by decide) _ h
  exact ⟨(harm _ _ _ _ hcalls).1.mpr (by decide), t, (harmv8 _ _ _ _ hcalls').1.mpr (by decide)⟩

/-- INTERNAL: the page of the high exception vectors is the last one on ARM, and no region of the
last page of ARMv8 ends either. -/
theorem regions_never_end :
    (¬ ∀ kind regionStart regionEnd s, regionStart ≤ regionEnd →
      ArmCallsSucceed kind regionStart regionEnd s →
        ∃ s', ArmMaps kind regionStart regionEnd s s') ∧
    ¬ ∀ L kind regionStart regionEnd t, regionStart ≤ regionEnd →
      Armv8CallsSucceed L kind regionStart regionEnd t →
        ∃ t', Armv8Maps L kind regionStart regionEnd t t' := by
  constructor
  · intro hclaim
    have hcalls : ArmCallsSucceed .data 0xffff0000 0xffff0fff (ArmSections.State.start zeroTable false) :=
      dataSections_callsSucceed _ (by decide) dataSections_zeroTable
    obtain ⟨s', hreturns, -⟩ := hclaim _ _ _ _ (by decide) hcalls
    cases (arm_never hcalls (by decide) 4097).symm.trans hreturns
  · intro hclaim
    obtain ⟨t, -, root, lvl, -, h⟩ := counted_wideHeap
    have hcalls : Armv8CallsSucceed wideHeap .data 0xfffffffffffff000 0xffffffffffffffff t :=
      counted_callsSucceed _ _ (by decide) _ h
    obtain ⟨t', hreturns, -⟩ := hclaim _ _ _ _ _ (by decide) hcalls
    cases (armv8_never hcalls (by decide) _).symm.trans hreturns

end Simbench.Analysis.RegionLoops
