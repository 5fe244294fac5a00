import Simbench.Library.Loops
import Simbench.Program.ArmCaches
import Mathlib.Data.Nat.Log

/-!
# Cache maintenance by set and way on ARMv7

`arch/arm/cache.S`, and the routines of `arch/arm/mem.c` that end in it. The cache level ID
register and the cache size ID registers, one for each value of the cache size selection register,
say what caches there are; a routine is the list of barriers and coprocessor writes it makes. The
registers it uses have the names they have in the source; what it pushes and pops is left out.
-/

set_option autoImplicit false

namespace Simbench.Program.ArmCacheFlush

open Simbench.Library.Loops Simbench.Program.ArmSections Simbench.Program.ArmCaches

/-! ## The processor -/

/-- INTERNAL: a register of the processor: 32 bits. -/
abbrev Word : Type := BitVec 32

/-- INTERNAL: the identification registers of the caches: CLIDR, and CCSIDR by what CSSELR holds. -/
structure CacheIds where
  clidr : Word
  ccsidr : Word → Word

/-- INTERNAL: barriers, and `mcr p15, opc1, value, crn, crm, opc2`. -/
inductive Instruction
  | dmb
  | dsb
  | isb
  | mcr (opc1 crn crm opc2 : ℕ) (value : Word)
  deriving DecidableEq, Repr

/-- INTERNAL: the write that selects a cache level in CSSELR. -/
def selectLevel (value : Word) : Instruction := .mcr 2 0 0 0 value

/-- INTERNAL: the write that cleans and invalidates one line, DCCISW. -/
def cleanInvalidate (value : Word) : Instruction := .mcr 0 7 14 2 value

/-- INTERNAL: the shift to the left by a register takes the low byte of the register. -/
def lsl (a shift : Word) : Word := a <<< (shift.toNat % 256)

/-- INTERNAL: the shift to the right, likewise. -/
def lsr (a shift : Word) : Word := a >>> (shift.toNat % 256)

/-! ## `flush_cache_kernel` -/

/-- INTERNAL: a round of `loop2`: a line, and the next index. SRC: arch/arm/cache.S:48-53 -/
def loop2 (r10 r4 r5 r2 : Word) (s : Word × List Instruction) :
    Option ((Word × List Instruction) × Bool) :=
  let (r9, code) := s
  let r11 := r10 ||| lsl r4 r5
  let r11 := r11 ||| lsl r9 r2
  some ((r9 - 1, code ++ [cleanInvalidate r11]), (1 : Word).sle r9)

/-- INTERNAL: a round of `loop1`: all indices of a way, and the next way.
SRC: arch/arm/cache.S:46-55 -/
def loop1 (fuel : ℕ) (r10 r5 r2 r7 : Word) (s : Word × List Instruction) :
    Option ((Word × List Instruction) × Bool) := do
  let (r4, code) := s
  let (_, code) ← doWhile (loop2 r10 r4 r5 r2) fuel (r7, code)
  some ((r4 - 1, code), (1 : Word).sle r4)

/-- INTERNAL: one level, if it has a data or a unified cache. SRC: arch/arm/cache.S:29-55 -/
def flushLevel (fuel : ℕ) (ids : CacheIds) (r10 : Word) (code : List Instruction) :
    Option (List Instruction) := do
  let r2 := r10 + r10 >>> 1
  let r1 := lsr ids.clidr r2 &&& 7
  if r1.slt 2 then some code
  else
    let code := code ++ [selectLevel r10, .isb]
    let r1 := ids.ccsidr r10
    let r2 := (r1 &&& 7) + 4
    let r4 := 0x3ff &&& r1 >>> 3
    let r5 := r4.clz
    let r7 := 0x7fff &&& r1 >>> 13
    let (_, code) ← doWhile (loop1 fuel r10 r5 r2 r7) fuel (r4, code)
    some code

/-- INTERNAL: a round of `flush_levels`: a level, and the next one. SRC: arch/arm/cache.S:28-59 -/
def flushLevels (fuel : ℕ) (ids : CacheIds) (r3 : Word) (s : Word × List Instruction) :
    Option ((Word × List Instruction) × Bool) := do
  let (r10, code) := s
  let code ← flushLevel fuel ids r10 code
  let r10 := r10 + 2
  some ((r10, code), r10.slt r3)

/-- INTERNAL: `flush_cache_kernel`, for at most `fuel` rounds of each of its loops.
SRC: arch/arm/cache.S:20-65 -/
def flushCacheKernel (fuel : ℕ) (ids : CacheIds) : Option (List Instruction) := do
  let r3 := ids.clidr >>> 23 &&& 0xe
  let code := [Instruction.dmb]
  let code ←
    if r3 = 0 then some code
    else do
      let (_, code) ← doWhile (flushLevels fuel ids r3) fuel (0, code)
      some code
  some (code ++ [selectLevel 0, .dsb, .isb])

/-! ## The routines around it -/

/-- INTERNAL: `mem_arm_flush_dcache`. SRC: arch/arm/cache.S:14-18 -/
def memArmFlushDcache (fuel : ℕ) (ids : CacheIds) : Option (List Instruction) :=
  flushCacheKernel fuel ids

/-- INTERNAL: the TLB flush, the branch predictor flush and the barriers by coprocessor writes.
SRC: arch/arm/cache.S:85-88,108-112 -/
def flushTlb : List Instruction :=
  [.mcr 0 8 7 0 0, .mcr 0 7 5 6 0, .mcr 0 7 10 4 0, .mcr 0 7 5 4 0]

/-- INTERNAL: the control register without the MMU, the data cache and the write buffer.
SRC: arch/arm/cache.S:77-79,101-103 -/
def controlOff (c : Word) : Word := c &&& ~~~0xd

/-- INTERNAL: `mem_armv5_cache_mmu_off`; what it writes first is what `r0` held.
SRC: arch/arm/cache.S:71-89 -/
def memArmv5CacheMmuOff (r0 control : Word) : List Instruction × Word :=
  ([.mcr 0 7 10 4 r0, .mcr 0 7 5 4 r0, .mcr 0 1 0 0 (controlOff control), .mcr 0 7 14 0 0] ++
    flushTlb, controlOff control)

/-- INTERNAL: `mem_armv7_cache_mmu_off`. SRC: arch/arm/cache.S:95-113 -/
def memArmv7CacheMmuOff (fuel : ℕ) (ids : CacheIds) (control : Word) :
    Option (List Instruction × Word) := do
  let code ← flushCacheKernel fuel ids
  some ([.dmb, .dsb, .mcr 0 1 0 0 (controlOff control)] ++ code ++ flushTlb, controlOff control)

/-- INTERNAL: `mem_mmu_disable`; `r0` is what that register holds. SRC: arch/arm/mem.c:267-284 -/
def memMmuDisable (fuel : ℕ) (ids : CacheIds) (core : Core) (r0 : Word) (m : Machine) :
    Except Halt (List Instruction × Machine) :=
  if memGetArmArchVersion core.mainId = 7 then
    if core.archArmv7 then
      match memArmv7CacheMmuOff fuel ids m.control with
      | some (code, control) => .ok (code, { m with control := control })
      | none => .error .endless
    else .error .abort
  else if core.archArmv7 then .error .abort
  else
    let (code, control) := memArmv5CacheMmuOff r0 m.control
    .ok (code, { m with control := control })

/-- INTERNAL: `mem_tlb_flush`: the whole TLB is invalidated. SRC: arch/arm/mem.c:286-290 -/
def memTlbFlush : List Instruction := [.mcr 0 8 7 0 0, .mcr 0 7 5 4 0]

/-- INTERNAL: `mem_tlb_evict`: the entry of one address is. SRC: arch/arm/mem.c:292-300 -/
def memTlbEvict (f : Flags) (ptr : Word) : List Instruction :=
  if f.memTlbUnified then [.mcr 0 8 7 1 ptr] else [.mcr 0 8 5 1 ptr, .mcr 0 8 6 1 ptr]

/-! ## The geometry of a cache -/

/-- INTERNAL: the number of levels CLIDR says to be coherent, LoC. -/
def levelOfCoherency (ids : CacheIds) : ℕ := (ids.clidr >>> 24).toNat % 8

/-- INTERNAL: the level has a data cache or a unified one: its type in CLIDR is 2 or more. -/
def hasDataCache (ids : CacheIds) (level : ℕ) : Bool := 2 ≤ (ids.clidr >>> (3 * level)).toNat % 8

/-- INTERNAL: CCSIDR of a data or unified cache. -/
def sizeId (ids : CacheIds) (level : ℕ) : Word := ids.ccsidr (BitVec.ofNat 32 (2 * level))

/-- INTERNAL: the last way of the cache at a level, from CCSIDR. SRC: arch/arm/cache.S:41-42 -/
def lastWay (ids : CacheIds) (level : ℕ) : ℕ := (sizeId ids level >>> 3).toNat % 2 ^ 10

/-- INTERNAL: the last set of the cache at a level, from CCSIDR. SRC: arch/arm/cache.S:44-45 -/
def lastSet (ids : CacheIds) (level : ℕ) : ℕ := (sizeId ids level >>> 13).toNat % 2 ^ 15

/-- INTERNAL: the offset bits of its lines. SRC: arch/arm/cache.S:39-40 -/
def lineBits (ids : CacheIds) (level : ℕ) : ℕ := (sizeId ids level).toNat % 8 + 4

/-- INTERNAL: the bits of the way field, the logarithm of the ways rounded up. -/
def wayBits (ids : CacheIds) (level : ℕ) : ℕ := Nat.clog 2 (lastWay ids level + 1)

/-- INTERNAL: what a set/way operand means to the processor: the level in bits 3 to 1, the way in
the topmost bits, the set above the bits of a line. -/
def setWay (ids : CacheIds) (value : Word) : ℕ × ℕ × ℕ :=
  let level := value.toNat / 2 % 8
  (level, value.toNat / 2 ^ (32 - wayBits ids level),
    value.toNat % 2 ^ (32 - wayBits ids level) / 2 ^ lineBits ids level)

/-- INTERNAL: the line an instruction cleans and invalidates. -/
def Instruction.line (ids : CacheIds) : Instruction → Option (ℕ × ℕ × ℕ)
  | .mcr 0 7 14 2 value => some (setWay ids value)
  | _ => none

/-- INTERNAL: the fields of a set/way operand have room for all ways and sets of the caches. -/
def FieldsFit (ids : CacheIds) : Prop :=
  ∀ level < levelOfCoherency ids, hasDataCache ids level →
    lastSet ids level < 2 ^ (32 - wayBits ids level - lineBits ids level)

end Simbench.Program.ArmCacheFlush
