import Simbench.Program.ArmSections

/-!
# Core identification and cache maintenance on ARM

The first half of `arch/arm/mem.c`: what `mem_init` finds out about the core from its
identification registers, and the coprocessor operations `mem_cache_flush` and
`mem_mmu_enable` issue. The three flags are the file's statics, zero when the program starts.
-/

set_option autoImplicit false

namespace Simbench.Program.ArmCaches

open Simbench.Program.ArmSections

/-! ## The core -/

/-- INTERNAL: the registers `mrc p15, 0, r, cr0, cr0, n` reads, `n` being 0, 1 and 3, and
whether the build has `ARCH_ARMV7`. -/
structure Core where
  mainId : BitVec 32
  cacheType : BitVec 32
  tlbType : BitVec 32
  archArmv7 : Bool
  deriving DecidableEq, Repr

/-- INTERNAL: `mem_get_arm_arch_version`; `ctrl` is the main ID register.
SRC: arch/arm/mem.c:73-112 -/
def memGetArmArchVersion (ctrl : BitVec 32) : ℕ :=
  if ctrl &&& 1#32 <<< 19 = 0 then
    if ctrl &&& 1#32 <<< 23 = 0 then 3 else 4
  else
    match ((ctrl >>> 16) &&& 0xf).toNat with
    | 1 | 2 => 4
    | 3 | 4 | 5 | 6 => 5
    | 7 => 6
    | 0xf => 7
    | _ => 0

/-! ## Flags -/

/-- INTERNAL: what `mem_init` finds out about the caches and the TLB. SRC: arch/arm/mem.c:18-20 -/
structure Flags where
  memTlbUnified : Bool
  memCacheUnified : Bool
  memCacheImplemented : Bool
  deriving DecidableEq, Repr

/-- INTERNAL: their values in the data section. SRC: arch/arm/mem.c:18-20 -/
def Flags.start : Flags := ⟨false, false, false⟩

/-- INTERNAL: `mem_check_is_tlb_unified`. SRC: arch/arm/mem.c:114-125 -/
def memCheckIsTlbUnified (core : Core) (f : Flags) : Flags :=
  if memGetArmArchVersion core.mainId < 5 then { f with memTlbUnified := false }
  else { f with memTlbUnified := core.tlbType &&& 1 = 0 }

/-- INTERNAL: the size field of a cache type register that says a cache is there.
SRC: arch/arm/mem.c:141-143 -/
def reportsCache (cacheType : BitVec 32) : Bool :=
  let cacheSize := cacheType &&& 0xfff
  (cacheSize >>> 2) &&& 0xf ≠ 1

/-- INTERNAL: `mem_check_is_cache_unified`; `mem_cache_implemented` is assigned from version
5 on only. SRC: arch/arm/mem.c:127-156 -/
def memCheckIsCacheUnified (core : Core) (f : Flags) : Flags :=
  match memGetArmArchVersion core.mainId with
  | 0 | 1 | 2 | 3 | 4 => { f with memCacheUnified := false }
  | 5 | 6 =>
    { f with
      memCacheImplemented := reportsCache core.cacheType
      memCacheUnified := (core.cacheType >>> 24) &&& 1 = 0 }
  | 7 => { f with memCacheImplemented := true }
  | _ => f

/-! ## Operations -/

/-- INTERNAL: the coprocessor operations. SRC: arch/arm/mem.c:251-255,319-337 -/
inductive Operation
  | cleanUnifiedCache
  | cleanDataCache
  | flushDcacheArmv7
  | drainWriteBuffer
  | prefetchFlush
  | btbFlush
  | writeControl (c : BitVec 32)
  deriving DecidableEq, Repr

/-- INTERNAL: the operations that clean the data cache. -/
def Operation.isClean : Operation → Bool
  | .cleanUnifiedCache | .cleanDataCache | .flushDcacheArmv7 => true
  | _ => false

/-- INTERNAL: `mem_cache_flush`: the operations it issues. SRC: arch/arm/mem.c:306-338 -/
def memCacheFlush (core : Core) (f : Flags) : Except Halt (List Operation) :=
  if !f.memCacheImplemented then .ok []
  else if memGetArmArchVersion core.mainId ≤ 5 then
    .ok [if f.memCacheUnified then .cleanUnifiedCache else .cleanDataCache, .drainWriteBuffer,
      .prefetchFlush]
  else if core.archArmv7 then .ok [.flushDcacheArmv7, .drainWriteBuffer, .prefetchFlush]
  else .error .abort

/-- INTERNAL: the statics of the file and the control register. -/
structure Machine where
  flags : Flags
  sections : State
  control : BitVec 32

/-- INTERNAL: `mem_init`. SRC: arch/arm/mem.c:158-234 -/
def memInit (core : Core) (platform : Platform) (m : Machine) : Except Halt Machine := do
  let flags := memCheckIsCacheUnified core (memCheckIsTlbUnified core m.flags)
  let sections ← ArmSections.memInit platform m.control m.sections
  .ok { m with flags := flags, sections := sections }

/-- INTERNAL: `mem_mmu_enable`: the operations in order. SRC: arch/arm/mem.c:242-257 -/
def memMmuEnable (core : Core) (m : Machine) : Except Halt (List Operation × Machine) := do
  let before ← memCacheFlush core m.flags
  let c := m.control ||| 1
  let c := c ||| (1#32 <<< 2 ||| 1#32 <<< 3 ||| 1#32 <<< 26 ||| 1#32 <<< 14)
  let after ← memCacheFlush core m.flags
  .ok (before ++ [.writeControl c, .prefetchFlush, .btbFlush] ++ after, { m with control := c })

end Simbench.Program.ArmCaches
