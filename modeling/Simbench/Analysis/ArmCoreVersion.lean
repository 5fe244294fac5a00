import Mathlib.Tactic.IntervalCases
import Simbench.Library.BitFields
import Simbench.Program.ArmCaches

/-!
# What the core identification finds

The early tests of `mem_get_arm_arch_version` look at bit 19, which is the highest bit of
the architecture field, so the cases of its switch for architectures 1 to 7 are never
reached. A core of architecture 3 to 6 is classified below version 5, its cache type
register is never read, and every cache flush returns at once.
-/

set_option autoImplicit false

namespace Simbench.Analysis.ArmCoreVersion

open Simbench.Library.BitFields Simbench.Program Simbench.Program.ArmSections
open Simbench.Program.ArmCaches

/-! ## Bit fields -/

/-- INTERNAL: bits 19 to 16 of a main ID register. -/
def architecture (mainId : BitVec 32) : ℕ := ((mainId >>> 16) &&& 0xf).toNat

/-- INTERNAL: bits 15 to 12, which are 0 or 7 in the formats of ARM7 and before. -/
def PostArm7 (mainId : BitVec 32) : Prop :=
  (mainId >>> 12) &&& 0xf ≠ 0 ∧ (mainId >>> 12) &&& 0xf ≠ 7

/-- INTERNAL: whether the main identification register is that of a later core can be computed. -/
instance (mainId : BitVec 32) : Decidable (PostArm7 mainId) :=
  inferInstanceAs (Decidable (_ ∧ _))

/-- INTERNAL: the version the switch assigns to an architecture. SRC: arch/arm/mem.c:94-108 -/
def switchVersion : ℕ → Option ℕ
  | 1 | 2 => some 4
  | 3 | 4 | 5 | 6 => some 5
  | 7 => some 6
  | 0xf => some 7
  | _ => none

/-- INTERNAL: the architecture field is bits 16 to 19 of the main identification register.
SRC: arch/arm/mem.c:93-94 -/
theorem architecture_eq (mainId : BitVec 32) :
    architecture mainId = mainId.toNat / 2 ^ 16 % 16 := by
  unfold architecture
  rw [BitVec.toNat_and, BitVec.toNat_ushiftRight, Nat.shiftRight_eq_div_pow]
  exact Nat.and_two_pow_sub_one_eq_mod _ 4

/-- INTERNAL: the architecture field has four bits. -/
theorem architecture_lt (mainId : BitVec 32) : architecture mainId < 16 := by
  rw [architecture_eq]
  exact Nat.mod_lt _ (by decide)

/-- INTERNAL: bit 19 is the highest bit of the architecture field. -/
theorem bit_19_iff (mainId : BitVec 32) :
    mainId &&& 1#32 <<< 19 = 0 ↔ architecture mainId < 8 := by
  rw [and_bit_eq_zero_iff _ (by decide), architecture_eq, BitVec.getLsbD,
    Nat.testBit_eq_decide_div_mod_eq, decide_eq_false_iff_not]
  omega

/-! ## The version -/

/-- INTERNAL: below architecture 8 only bit 23 decides. -/
theorem memGetArmArchVersion_low {mainId : BitVec 32} (hlow : architecture mainId < 8) :
    memGetArmArchVersion mainId = if mainId.getLsbD 23 then 4 else 3 := by
  unfold memGetArmArchVersion
  rw [if_pos ((bit_19_iff mainId).mpr hlow)]
  cases hbit : mainId.getLsbD 23 with
  | false => rw [if_pos ((and_bit_eq_zero_iff mainId (by decide)).mpr hbit), if_neg (by simp)]
  | true =>
    rw [if_neg, if_pos rfl]
    rw [and_bit_eq_zero_iff mainId (by decide), hbit]
    simp

/-- INTERNAL: from architecture 8 on the switch decides. -/
theorem memGetArmArchVersion_high {mainId : BitVec 32} (hhigh : 8 ≤ architecture mainId) :
    memGetArmArchVersion mainId = if architecture mainId = 0xf then 7 else 0 := by
  have hlt := architecture_lt mainId
  unfold memGetArmArchVersion
  rw [if_neg (by rw [bit_19_iff]; omega), ← architecture]
  generalize architecture mainId = k at *
  interval_cases k <;> simp

/-- INTERNAL: with bit 19 zero the version is below 5. SRC: arch/arm/mem.c:81-88 -/
theorem memGetArmArchVersion_low_lt {mainId : BitVec 32} (hlow : architecture mainId < 8) :
    memGetArmArchVersion mainId < 5 := by
  rw [memGetArmArchVersion_low hlow]
  split <;> decide

/-- INTERNAL: the switch's table and the result agree for these registers. -/
theorem switchVersion_agrees_iff (mainId : BitVec 32) :
    (∀ v, switchVersion (architecture mainId) = some v → memGetArmArchVersion mainId = v) ↔
      ¬ (3 ≤ architecture mainId ∧ architecture mainId ≤ 7) ∧
        (architecture mainId = 1 ∨ architecture mainId = 2 → mainId.getLsbD 23 = true) := by
  by_cases hlow : architecture mainId < 8
  · rw [memGetArmArchVersion_low hlow]
    generalize architecture mainId = k at *
    interval_cases k <;> cases mainId.getLsbD 23 <;> simp [switchVersion]
  · have hlt := architecture_lt mainId
    rw [memGetArmArchVersion_high (by omega)]
    generalize architecture mainId = k at *
    have h8 : 8 ≤ k := by omega
    clear hlow
    interval_cases k <;> simp [switchVersion]

/-! ## The flags -/

/-- INTERNAL: what calls of `mem_init` and `mem_reset` make of the statics of a program. -/
inductive Inited (core : Core) (platform : Platform) : Machine → Prop
  | first {m m' : Machine} (hstart : m.flags = Flags.start)
      (hinit : ArmCaches.memInit core platform m = .ok m') : Inited core platform m'
  | again {m m' : Machine} (h : Inited core platform m)
      (hinit : ArmCaches.memInit core platform m = .ok m') : Inited core platform m'

/-- INTERNAL: `mem_init` decides what caches and TLBs there are before it maps anything.
SRC: arch/arm/mem.c:160-161 -/
theorem memInit_flags {core : Core} {platform : Platform} {m m' : Machine}
    (hinit : ArmCaches.memInit core platform m = .ok m') :
    m'.flags = memCheckIsCacheUnified core (memCheckIsTlbUnified core m.flags) := by
  unfold ArmCaches.memInit at hinit
  cases hsections : ArmSections.memInit platform m.control m.sections with
  | error halt => simp [hsections, bind, Except.bind] at hinit
  | ok sections =>
    simp only [hsections, bind, Except.bind, Except.ok.injEq] at hinit
    rw [← hinit]

/-- INTERNAL: looking for the TLBs leaves what is known of the cache alone.
SRC: arch/arm/mem.c:114-125 -/
theorem memCheckIsTlbUnified_cache (core : Core) (f : Flags) :
    (memCheckIsTlbUnified core f).memCacheImplemented = f.memCacheImplemented := by
  unfold memCheckIsTlbUnified
  split <;> rfl

/-- INTERNAL: below version 5 `mem_cache_implemented` stays as it was. -/
theorem memCheckIsCacheUnified_old {core : Core} (f : Flags)
    (hold : memGetArmArchVersion core.mainId < 5) :
    (memCheckIsCacheUnified core f).memCacheImplemented = f.memCacheImplemented := by
  unfold memCheckIsCacheUnified
  generalize memGetArmArchVersion core.mainId = version at hold
  interval_cases version <;> rfl

/-- INTERNAL: on a core classified below version 5 no call finds a cache. -/
theorem Inited.no_cache {core : Core} {platform : Platform} {m : Machine}
    (hold : memGetArmArchVersion core.mainId < 5) (h : Inited core platform m) :
    m.flags.memCacheImplemented = false := by
  induction h with
  | first hstart hinit =>
    rw [memInit_flags hinit, memCheckIsCacheUnified_old _ hold, memCheckIsTlbUnified_cache,
      hstart]
    rfl
  | again _ hinit ih =>
    rw [memInit_flags hinit, memCheckIsCacheUnified_old _ hold, memCheckIsTlbUnified_cache, ih]

/-- INTERNAL: without a cache there is nothing to flush. SRC: arch/arm/mem.c:306-312 -/
theorem memCacheFlush_no_cache {core : Core} {f : Flags} (h : f.memCacheImplemented = false) :
    memCacheFlush core f = .ok [] := by
  unfold memCacheFlush
  rw [h]
  rfl

/-! ## Maintenance -/

/-- INTERNAL: enabling the MMU does not abort and cleans the cache. -/
def EnableCleans (core : Core) (m : Machine) : Prop :=
  ∃ operations m', memMmuEnable core m = .ok (operations, m') ∧
    ∃ operation ∈ operations, operation.isClean = true

/-- INTERNAL: the identification of a core drives its cache maintenance: the version is the
switch's, and on architectures 3 to 6 with a cache the flushes of `mem_mmu_enable` clean it. -/
def DrivesMaintenance (core : Core) : Prop :=
  (∀ v, switchVersion (architecture core.mainId) = some v →
      memGetArmArchVersion core.mainId = v) ∧
    (3 ≤ architecture core.mainId ∧ architecture core.mainId ≤ 6 →
      reportsCache core.cacheType = true → ∀ (platform : Platform) (m : Machine),
        Inited core platform m → EnableCleans core m)

/-- INTERNAL: without a cache, enabling the MMU writes the control register and flushes the
prefetch and branch buffers only. -/
theorem memMmuEnable_no_cache (core : Core) {m : Machine}
    (h : m.flags.memCacheImplemented = false) :
    ∃ c, memMmuEnable core m =
      .ok ([.writeControl c, .prefetchFlush, .btbFlush], { m with control := c }) := by
  unfold memMmuEnable
  rw [memCacheFlush_no_cache h]
  exact ⟨_, rfl⟩

/-- SOURCE: arch/arm/mem.c:73-156,242-257,306-338 — **core identification**: it drives the
cache maintenance of a core exactly when the architecture field is none of 3 to 7 and, where
it is 1 or 2, bit 23 is set. On architectures 3 to 6 no flush of an initialised memory system
issues an operation, whatever the cache type register says. -/
theorem drivesMaintenance_iff (core : Core) :
    (DrivesMaintenance core ↔
      ¬ (3 ≤ architecture core.mainId ∧ architecture core.mainId ≤ 7) ∧
        (architecture core.mainId = 1 ∨ architecture core.mainId = 2 →
          core.mainId.getLsbD 23 = true)) ∧
    (3 ≤ architecture core.mainId ∧ architecture core.mainId ≤ 6 →
      ∀ (platform : Platform) (m : Machine), Inited core platform m →
        memCacheFlush core m.flags = .ok [] ∧ ¬ EnableCleans core m) := by
  constructor
  · unfold DrivesMaintenance
    rw [switchVersion_agrees_iff]
    constructor
    · intro h
      exact h.1
    · intro h
      refine ⟨h, fun harch => ?_⟩
      exact absurd ⟨harch.1, by omega⟩ h.1
  · intro harch platform m hinited
    have hnone := hinited.no_cache (memGetArmArchVersion_low_lt (by omega))
    refine ⟨memCacheFlush_no_cache hnone, ?_⟩
    rintro ⟨operations, m', henable, operation, hmem, hclean⟩
    obtain ⟨c, hquiet⟩ := memMmuEnable_no_cache core hnone
    rw [hquiet, Except.ok.injEq, Prod.mk.injEq] at henable
    rw [← henable.1] at hmem
    simp only [List.mem_cons, List.not_mem_nil, or_false] at hmem
    rcases hmem with rfl | rfl | rfl <;> simp [Operation.isClean] at hclean

/-- INTERNAL: an ARMv7 core, architecture field 0xf. -/
def cortexA8 : Core := ⟨0x413fc082, 0x82048004, 0x00202001, true⟩

/-- INTERNAL: the Cortex-A8 is a later core, and its caches are maintained. -/
theorem drivesMaintenance_iff_cortexA8 : PostArm7 cortexA8.mainId ∧ DrivesMaintenance cortexA8 := by
  refine ⟨by decide, ?_⟩
  rw [(drivesMaintenance_iff cortexA8).1]
  decide

/-- INTERNAL: an ARMv5 core, architecture field 6, with separate caches. -/
def arm926 : Core := ⟨0x41069265, 0x1d152152, 0, false⟩

/-- INTERNAL: the ARM926 reports a cache and an architecture field of 6; version 3 is taken for it,
and its cache is not maintained. -/
theorem arm926_not_drivesMaintenance :
    PostArm7 arm926.mainId ∧ architecture arm926.mainId = 6 ∧
      reportsCache arm926.cacheType = true ∧ memGetArmArchVersion arm926.mainId = 3 ∧
        ¬ DrivesMaintenance arm926 := by
  refine ⟨by decide, by decide, by decide, by decide, ?_⟩
  intro h
  exact absurd (h.1 5 (by decide)) (by decide)

end Simbench.Analysis.ArmCoreVersion
