import Simbench.Program.ArmCacheFlush
import Mathlib.Data.List.Nodup

/-!
# Every line once

`flush_cache_kernel` counts the levels up and the ways and sets of each level down. It returns, and
its operands, read by the processor, are the lines of the data caches up to the level of coherency,
each of them once.
-/

set_option autoImplicit false

namespace Simbench.Analysis.ArmCacheLines

open Simbench.Library.Loops Simbench.Program.ArmCacheFlush

/-! ## Counting down -/

/-- INTERNAL: a counter below 2^31 counts down without borrowing. -/
theorem ofNat_sub_ofNat {n i : ℕ} (hn : n < 2 ^ 31) (hi : i ≤ n) :
    (BitVec.ofNat 32 n - BitVec.ofNat 32 i : Word) = BitVec.ofNat 32 (n - i) := by
  apply BitVec.eq_of_toNat_eq
  rw [BitVec.toNat_sub]
  simp only [BitVec.toNat_ofNat]
  omega

/-- INTERNAL: a number below 2^31 is the same read as a signed word. -/
theorem toInt_ofNat {n : ℕ} (hn : n < 2 ^ 31) : (BitVec.ofNat 32 n : Word).toInt = n := by
  have hvalue : (BitVec.ofNat 32 n).toNat = n := by
    rw [BitVec.toNat_ofNat, Nat.mod_eq_of_lt (by omega)]
  rw [BitVec.toInt_eq_toNat_of_lt (by omega), hvalue]

/-- INTERNAL: `subs` and `bge`: another round as long as the count was not zero. -/
theorem one_sle_ofNat {n i : ℕ} (hn : n < 2 ^ 31) (hi : i ≤ n) :
    (1 : Word).sle (BitVec.ofNat 32 n - BitVec.ofNat 32 i) = decide (i < n) := by
  rw [ofNat_sub_ofNat hn hi, BitVec.sle, toInt_ofNat (by omega), show (1 : Word).toInt = 1 from rfl]
  simp only [decide_eq_decide]
  omega

/-- INTERNAL: `subs r, r, #1` behind `i` subtractions is subtraction number `i + 1`. -/
theorem sub_ofNat_succ (a : Word) (i : ℕ) :
    a - BitVec.ofNat 32 i - 1 = a - BitVec.ofNat 32 (i + 1) := by
  rw [BitVec.sub_sub, BitVec.ofNat_add]
  rfl

/-! ## The loops -/

/-- INTERNAL: the operand of a line, as the source composes it. -/
def operand (ids : CacheIds) (level way set : ℕ) : Word :=
  BitVec.ofNat 32 (2 * level) ||| lsl (BitVec.ofNat 32 way) (BitVec.ofNat 32 (lastWay ids level)).clz
    ||| lsl (BitVec.ofNat 32 set) (BitVec.ofNat 32 (lineBits ids level))

/-- INTERNAL: the sets of a way, from the last one down. -/
def wayCode (ids : CacheIds) (level way : ℕ) : List Instruction :=
  (List.range (lastSet ids level + 1)).map fun k =>
    cleanInvalidate (operand ids level way (lastSet ids level - k))

/-- INTERNAL: a level: its ways from the last one down. -/
def levelCode (ids : CacheIds) (level : ℕ) : List Instruction :=
  if hasDataCache ids level then
    [selectLevel (BitVec.ofNat 32 (2 * level)), .isb] ++
      (List.range (lastWay ids level + 1)).flatMap fun k =>
        wayCode ids level (lastWay ids level - k)
  else []

section Level

variable (ids : CacheIds) (level : ℕ)

/-- INTERNAL: the number of the last set is a 15-bit field of the size identification register.
SRC: arch/arm/cache.S:44-45 -/
theorem lastSet_lt : lastSet ids level < 2 ^ 15 := Nat.mod_lt _ (by decide)

/-- INTERNAL: the number of the last way is a 10-bit field of that register.
SRC: arch/arm/cache.S:41-42 -/
theorem lastWay_lt : lastWay ids level < 2 ^ 10 := Nat.mod_lt _ (by decide)

/-- INTERNAL: a line takes at most 11 bits of the operand: a 3-bit field and 4. -/
theorem lineBits_le : lineBits ids level ≤ 11 := by
  have h := Nat.mod_lt (sizeId ids level).toNat (show 0 < 8 by decide)
  unfold lineBits
  omega

/-- INTERNAL: `loop2` is a way. SRC: arch/arm/cache.S:48-53 -/
theorem doWhile_loop2 {fuel : ℕ} (hfuel : 0x8000 ≤ fuel) (way : ℕ) (code : List Instruction) :
    ∃ r9, doWhile (loop2 (BitVec.ofNat 32 (2 * level)) (BitVec.ofNat 32 way)
        (BitVec.ofNat 32 (lastWay ids level)).clz (BitVec.ofNat 32 (lineBits ids level))) fuel
        (BitVec.ofNat 32 (lastSet ids level), code) = some (r9, code ++ wayCode ids level way) := by
  have hset := lastSet_lt ids level
  have hloop := doWhile_eq (loop2 (BitVec.ofNat 32 (2 * level)) (BitVec.ofNat 32 way)
    (BitVec.ofNat 32 (lastWay ids level)).clz (BitVec.ofNat 32 (lineBits ids level)))
    (lastSet ids level)
    (fun i => (BitVec.ofNat 32 (lastSet ids level) - BitVec.ofNat 32 i, code ++
      (List.range i).map fun k => cleanInvalidate (operand ids level way (lastSet ids level - k))))
    ?_ (show lastSet ids level < fuel by omega)
  · simp only [BitVec.sub_zero, List.range_zero, List.map_nil, List.append_nil] at hloop
    exact ⟨_, hloop⟩
  · intro i hi
    simp only [loop2, one_sle_ofNat (show lastSet ids level < 2 ^ 31 by omega) hi, sub_ofNat_succ,
      List.range_succ, List.map_append, List.append_assoc, List.map_singleton]
    rw [ofNat_sub_ofNat (by omega) hi]
    rfl

/-- INTERNAL: `loop1` is all ways. SRC: arch/arm/cache.S:46-55 -/
theorem doWhile_loop1 {fuel : ℕ} (hfuel : 0x8000 ≤ fuel) (code : List Instruction) :
    ∃ r4, doWhile (loop1 fuel (BitVec.ofNat 32 (2 * level))
      (BitVec.ofNat 32 (lastWay ids level)).clz
        (BitVec.ofNat 32 (lineBits ids level)) (BitVec.ofNat 32 (lastSet ids level))) fuel
        (BitVec.ofNat 32 (lastWay ids level), code) =
      some (r4, code ++ (List.range (lastWay ids level + 1)).flatMap fun k =>
        wayCode ids level (lastWay ids level - k)) := by
  have hway := lastWay_lt ids level
  have hloop := doWhile_eq (loop1 fuel (BitVec.ofNat 32 (2 * level))
    (BitVec.ofNat 32 (lastWay ids level)).clz (BitVec.ofNat 32 (lineBits ids level))
    (BitVec.ofNat 32 (lastSet ids level)))
    (lastWay ids level)
    (fun i => (BitVec.ofNat 32 (lastWay ids level) - BitVec.ofNat 32 i, code ++
      (List.range i).flatMap fun k => wayCode ids level (lastWay ids level - k)))
    ?_ (show lastWay ids level < fuel by omega)
  · simp only [BitVec.sub_zero, List.range_zero, List.flatMap_nil, List.append_nil] at hloop
    exact ⟨_, hloop⟩
  · intro i hi
    obtain ⟨r9, hsets⟩ := doWhile_loop2 ids level hfuel (lastWay ids level - i)
      (code ++ (List.range i).flatMap fun k => wayCode ids level (lastWay ids level - k))
    simp only [loop1, one_sle_ofNat (show lastWay ids level < 2 ^ 31 by omega) hi, sub_ofNat_succ,
      List.range_succ, List.flatMap_append, List.flatMap_cons, List.flatMap_nil, List.append_nil]
    rw [ofNat_sub_ofNat (by omega) hi, hsets, List.append_assoc]
    rfl

/-- INTERNAL: a mask of `n` low bits leaves the number modulo 2^`n`. -/
theorem toNat_and_mask (a : Word) {n : ℕ} (hn : n ≤ 32) :
    (a &&& BitVec.ofNat 32 (2 ^ n - 1)).toNat = a.toNat % 2 ^ n := by
  have hlt : 2 ^ n - 1 < 2 ^ 32 :=
    Nat.lt_of_lt_of_le (Nat.sub_lt (Nat.two_pow_pos n) Nat.one_pos)
      (Nat.pow_le_pow_right (by decide) hn)
  rw [BitVec.toNat_and, BitVec.toNat_ofNat, Nat.mod_eq_of_lt hlt, Nat.and_two_pow_sub_one_eq_mod]

/-- INTERNAL: the type of the cache. SRC: arch/arm/cache.S:29-33 -/
theorem slt_two (hlevel : level < 8) :
    ((lsr ids.clidr (BitVec.ofNat 32 (2 * level) + BitVec.ofNat 32 (2 * level) >>> 1) &&& 7 :
      Word).slt 2) = !hasDataCache ids level := by
  have htriple : ∀ level < 8, (BitVec.ofNat 32 (2 * level) + BitVec.ofNat 32 (2 * level) >>> 1 :
      Word) = BitVec.ofNat 32 (3 * level) := by
    decide
  have hvalue : (ids.clidr >>> (3 * level) &&& 7 : Word).toNat =
      (ids.clidr >>> (3 * level)).toNat % 2 ^ 3 := toNat_and_mask (n := 3) _ (by decide)
  have hsmall := Nat.mod_lt (ids.clidr >>> (3 * level)).toNat (show 0 < 2 ^ 3 by decide)
  have hint : (ids.clidr >>> (3 * level) &&& 7 : Word).toInt =
      ((ids.clidr >>> (3 * level)).toNat % 2 ^ 3 : ℕ) := by
    rw [← hvalue]
    apply BitVec.toInt_eq_toNat_of_lt
    omega
  rw [htriple level hlevel, lsr, BitVec.toNat_ofNat,
    Nat.mod_eq_of_lt (show 3 * level < 2 ^ 32 by omega),
    Nat.mod_eq_of_lt (show 3 * level < 256 by omega), BitVec.slt, hint,
    show (2 : Word).toInt = 2 from rfl, hasDataCache, ← decide_not]
  simp only [decide_eq_decide]
  omega

/-- INTERNAL: the fields of CCSIDR in the registers. SRC: arch/arm/cache.S:38-44 -/
theorem sizeId_fields :
    (sizeId ids level &&& 7) + 4 = BitVec.ofNat 32 (lineBits ids level) ∧
      0x3ff &&& sizeId ids level >>> 3 = BitVec.ofNat 32 (lastWay ids level) ∧
      0x7fff &&& sizeId ids level >>> 13 = BitVec.ofNat 32 (lastSet ids level) := by
  have hfield : ∀ (a : Word) (n : ℕ), n ≤ 32 →
      a &&& BitVec.ofNat 32 (2 ^ n - 1) = BitVec.ofNat 32 (a.toNat % 2 ^ n) := by
    intro a n hn
    rw [← toNat_and_mask a hn, BitVec.ofNat_toNat, BitVec.setWidth_eq]
  refine ⟨?_, ?_, ?_⟩
  · rw [lineBits, BitVec.ofNat_add]
    exact congrArg (· + 4) (hfield _ 3 (by decide))
  · rw [BitVec.and_comm]
    exact hfield _ 10 (by decide)
  · rw [BitVec.and_comm]
    exact hfield _ 15 (by decide)

/-- INTERNAL: **a level**. SRC: arch/arm/cache.S:29-55 -/
theorem flushLevel_eq {fuel : ℕ} (hfuel : 0x8000 ≤ fuel) (hlevel : level < 8)
    (code : List Instruction) :
    flushLevel fuel ids (BitVec.ofNat 32 (2 * level)) code =
      some (code ++ levelCode ids level) := by
  obtain ⟨hline, hway, hset⟩ := sizeId_fields ids level
  rw [sizeId] at hline hway hset
  unfold flushLevel levelCode
  simp only [slt_two ids level hlevel]
  cases hcache : hasDataCache ids level with
  | false => simp
  | true =>
    obtain ⟨r4, hways⟩ := doWhile_loop1 ids level hfuel
      (code ++ [selectLevel (BitVec.ofNat 32 (2 * level)), .isb])
    simp only [hline, hway, hset, Bool.not_true, Bool.false_eq_true, if_false, if_true, hways]
    rw [List.append_assoc]
    rfl

end Level

section Levels

variable (ids : CacheIds)

/-- INTERNAL: the level of coherency is a 3-bit field. SRC: arch/arm/cache.S:24 -/
theorem levelOfCoherency_lt : levelOfCoherency ids < 8 := Nat.mod_lt _ (by decide)

/-- INTERNAL: LoC in the place where the levels are counted. SRC: arch/arm/cache.S:23-24 -/
theorem coherency_bits :
    ids.clidr >>> 23 &&& 0xe = BitVec.ofNat 32 (2 * levelOfCoherency ids) := by
  have hbits : ∀ n : ℕ, n >>> 23 &&& 0xe = 2 * (n >>> 24 &&& 7) := by
    intro n
    apply Nat.eq_of_testBit_eq
    intro i
    cases i with
    | zero => simp
    | succ i =>
      have hmask : Nat.testBit 0xe (i + 1) = Nat.testBit 7 i := Nat.testBit_succ 0xe i
      have hdouble : Nat.testBit (2 * (n >>> 24 &&& 7)) (i + 1) =
          Nat.testBit (n >>> 24 &&& 7) i := by
        rw [Nat.testBit_succ, Nat.mul_div_cancel_left _ (by decide)]
      rw [hdouble, Nat.testBit_and, Nat.testBit_and, hmask, Nat.testBit_shiftRight,
        Nat.testBit_shiftRight, show 23 + (i + 1) = 24 + i by omega]
  apply BitVec.eq_of_toNat_eq
  have hmask : (ids.clidr >>> 24).toNat &&& 7 = (ids.clidr >>> 24).toNat % 2 ^ 3 :=
    Nat.and_two_pow_sub_one_eq_mod _ 3
  have hlt := levelOfCoherency_lt ids
  rw [BitVec.toNat_and, BitVec.toNat_ushiftRight, BitVec.toNat_ofNat]
  rw [show (0xe : Word).toNat = 0xe from rfl, hbits, ← BitVec.toNat_ushiftRight, hmask,
    Nat.mod_eq_of_lt (show 2 * levelOfCoherency ids < 2 ^ 32 by omega)]
  rfl

/-- INTERNAL: **all levels**. SRC: arch/arm/cache.S:20-65 -/
theorem flushCacheKernel_eq {fuel : ℕ} (hfuel : 0x8000 ≤ fuel) :
    flushCacheKernel fuel ids = some ([.dmb] ++
      (List.range (levelOfCoherency ids)).flatMap (levelCode ids) ++
        [selectLevel 0, .dsb, .isb]) := by
  have hlt := levelOfCoherency_lt ids
  unfold flushCacheKernel
  rw [coherency_bits]
  by_cases hzero : levelOfCoherency ids = 0
  · rw [hzero]
    rfl
  have hbits : BitVec.ofNat 32 (2 * levelOfCoherency ids) ≠ 0 := by
    intro h
    have htoNat := congrArg BitVec.toNat h
    rw [BitVec.toNat_ofNat, Nat.mod_eq_of_lt (by omega)] at htoNat
    simp at htoNat
    omega
  have hloop := doWhile_eq (flushLevels fuel ids (BitVec.ofNat 32 (2 * levelOfCoherency ids)))
    (levelOfCoherency ids - 1)
    (fun i => (BitVec.ofNat 32 (2 * i), [Instruction.dmb] ++
      (List.range i).flatMap (levelCode ids)))
    ?_ (show levelOfCoherency ids - 1 < fuel by omega)
  · simp only [if_neg hbits]
    rw [show levelOfCoherency ids - 1 + 1 = levelOfCoherency ids by omega] at hloop
    simp only [List.range_zero, List.flatMap_nil, List.append_nil] at hloop
    rw [show ((0 : Word), [Instruction.dmb]) = (BitVec.ofNat 32 (2 * 0), [Instruction.dmb]) from rfl,
      hloop]
    rfl
  · intro i hi
    have hagain : (BitVec.ofNat 32 (2 * (i + 1)) : Word).slt
        (BitVec.ofNat 32 (2 * levelOfCoherency ids)) = decide (i < levelOfCoherency ids - 1) := by
      rw [BitVec.slt, toInt_ofNat (by omega), toInt_ofNat (by omega)]
      simp only [decide_eq_decide]
      omega
    have hnext : (BitVec.ofNat 32 (2 * i) + 2 : Word) = BitVec.ofNat 32 (2 * (i + 1)) :=
      (BitVec.ofNat_add _ _).symm
    simp only [flushLevels, flushLevel_eq ids i hfuel (by omega)]
    simp only [Option.bind_eq_bind, Option.bind_some, hnext, hagain, List.range_succ,
      List.flatMap_append, List.flatMap_singleton, List.append_assoc]

end Levels

/-! ## The operands -/

section Operand

variable (ids : CacheIds) (level : ℕ)

/-- INTERNAL: the ways take at most 10 bits of the operand. -/
theorem wayBits_le : wayBits ids level ≤ 10 :=
  Nat.clog_le_of_le_pow (lastWay_lt ids level)

/-- INTERNAL: `clz` of the last way is where the field of the way begins. -/
theorem clz_lastWay :
    (BitVec.ofNat 32 (lastWay ids level) : Word).clz.toNat = 32 - wayBits ids level := by
  have hway := lastWay_lt ids level
  have hvalue : (BitVec.ofNat 32 (lastWay ids level)).toNat = lastWay ids level := by
    rw [BitVec.toNat_ofNat, Nat.mod_eq_of_lt (by omega)]
  by_cases hzero : lastWay ids level = 0
  · rw [wayBits, hzero]
    decide
  have hne : BitVec.ofNat 32 (lastWay ids level) ≠ 0#32 := by
    intro h
    rw [h] at hvalue
    exact hzero hvalue.symm
  have hbelow := BitVec.toNat_lt_two_pow_sub_clz (x := BitVec.ofNat 32 (lastWay ids level))
  have habove := BitVec.two_pow_sub_clz_le_toNat_of_ne_zero (by decide) hne
  have hclz := BitVec.clz_lt_iff_ne_zero.2 hne
  rw [hvalue] at hbelow habove
  rw [BitVec.lt_def] at hclz
  have hle : wayBits ids level ≤ 32 - (BitVec.ofNat 32 (lastWay ids level)).clz.toNat :=
    Nat.clog_le_of_le_pow hbelow
  have hlt : 32 - 1 - (BitVec.ofNat 32 (lastWay ids level)).clz.toNat < wayBits ids level :=
    (Nat.lt_clog_iff_pow_lt (by decide)).2 (Nat.lt_succ_of_le habove)
  change _ < 32 at hclz
  omega

/-- INTERNAL: a field stored above the bits of another is added to it. -/
theorem or_mul_two_pow {low high n : ℕ} (hlow : low < 2 ^ n) :
    low ||| high * 2 ^ n = low + high * 2 ^ n := by
  rw [Nat.or_comm, Nat.mul_comm, ← Nat.two_pow_add_eq_or_of_lt hlow, Nat.add_comm]

variable {ids level} {way set : ℕ}

/-- INTERNAL: the operand as a sum of its fields. -/
theorem toNat_operand (hlevel : level < 8) (hway : way ≤ lastWay ids level)
    (hset : set < 2 ^ (32 - wayBits ids level - lineBits ids level)) :
    (operand ids level way set).toNat =
      2 * level + set * 2 ^ lineBits ids level + way * 2 ^ (32 - wayBits ids level) ∧
    2 * level + set * 2 ^ lineBits ids level < 2 ^ (32 - wayBits ids level) := by
  have hline := lineBits_le ids level
  have hbits := wayBits_le ids level
  have hlastWay := lastWay_lt ids level
  have hlevelField : 2 * level < 2 ^ lineBits ids level :=
    Nat.lt_of_lt_of_le (show 2 * level < 2 ^ 4 by omega)
      (Nat.pow_le_pow_right (by decide) (by unfold lineBits; omega))
  -- the set and the level stay below the way
  have hlow : 2 * level + set * 2 ^ lineBits ids level < 2 ^ (32 - wayBits ids level) := by
    calc 2 * level + set * 2 ^ lineBits ids level
        < (set + 1) * 2 ^ lineBits ids level := by rw [Nat.add_mul]; omega
      _ ≤ 2 ^ (32 - wayBits ids level - lineBits ids level) * 2 ^ lineBits ids level :=
          Nat.mul_le_mul_right _ hset
      _ = 2 ^ (32 - wayBits ids level) := by rw [← Nat.pow_add, Nat.sub_add_cancel (by omega)]
  have hsmall : 2 ^ (32 - wayBits ids level) ≤ 2 ^ 32 :=
    Nat.pow_le_pow_right (by decide) (Nat.sub_le _ _)
  have hwayField : way * 2 ^ (32 - wayBits ids level) < 2 ^ 32 := by
    have hroom : way < 2 ^ wayBits ids level :=
      Nat.lt_of_lt_of_le (Nat.lt_succ_of_le hway) (Nat.le_pow_clog (by decide) _)
    calc way * 2 ^ (32 - wayBits ids level)
        < 2 ^ wayBits ids level * 2 ^ (32 - wayBits ids level) :=
          Nat.mul_lt_mul_of_pos_right hroom (Nat.two_pow_pos _)
      _ = 2 ^ 32 := by rw [← Nat.pow_add, Nat.add_sub_cancel' (by omega)]
  have hshift : ∀ (value : ℕ) {n : ℕ} (shift : Word), value * 2 ^ n < 2 ^ 32 → shift.toNat = n →
      n ≤ 32 → (lsl (BitVec.ofNat 32 value) shift).toNat = value * 2 ^ n := by
    intro value n shift hfit hn hle
    have hvalue : value < 2 ^ 32 :=
      Nat.lt_of_le_of_lt (Nat.le_mul_of_pos_right value (Nat.two_pow_pos n)) hfit
    rw [lsl, hn, Nat.mod_eq_of_lt (show n < 256 by omega), BitVec.toNat_shiftLeft,
      BitVec.toNat_ofNat, Nat.mod_eq_of_lt hvalue, Nat.shiftLeft_eq, Nat.mod_eq_of_lt hfit]
  have hwayShift := hshift way (BitVec.ofNat 32 (lastWay ids level)).clz hwayField
    (clz_lastWay ids level) (by omega)
  have hsetShift := hshift set (BitVec.ofNat 32 (lineBits ids level)) (by omega)
    (Nat.mod_eq_of_lt (show lineBits ids level < 2 ^ 32 by omega)) (by omega)
  refine ⟨?_, hlow⟩
  rw [operand, BitVec.toNat_or, BitVec.toNat_or, hwayShift, hsetShift, BitVec.toNat_ofNat,
    Nat.mod_eq_of_lt (show 2 * level < 2 ^ 32 by omega), Nat.or_assoc,
    Nat.or_comm (way * 2 ^ (32 - wayBits ids level)), ← Nat.or_assoc, or_mul_two_pow hlevelField,
    or_mul_two_pow hlow]

/-- INTERNAL: **an operand names its line**: the level, way and set it was made from are read
back. -/
theorem setWay_operand (hlevel : level < 8) (hway : way ≤ lastWay ids level)
    (hset : set < 2 ^ (32 - wayBits ids level - lineBits ids level)) :
    setWay ids (operand ids level way set) = (level, way, set) := by
  obtain ⟨hvalue, hlow⟩ := toNat_operand hlevel hway hset
  have hline : 4 ≤ lineBits ids level := Nat.le_add_left 4 _
  have hlevelField : 2 * level < 2 ^ lineBits ids level :=
    Nat.lt_of_lt_of_le (show 2 * level < 2 ^ 4 by omega) (Nat.pow_le_pow_right (by decide) hline)
  have hwayField : (operand ids level way set).toNat / 2 ^ (32 - wayBits ids level) = way := by
    rw [hvalue, Nat.add_mul_div_right _ _ (Nat.two_pow_pos _), Nat.div_eq_of_lt hlow, Nat.zero_add]
  have hsetField : (operand ids level way set).toNat % 2 ^ (32 - wayBits ids level) /
      2 ^ lineBits ids level = set := by
    rw [hvalue, Nat.add_mul_mod_self_right, Nat.mod_eq_of_lt hlow,
      Nat.add_mul_div_right _ _ (Nat.two_pow_pos _), Nat.div_eq_of_lt hlevelField, Nat.zero_add]
  have hlevelBits : (operand ids level way set).toNat / 2 % 8 = level := by
    obtain ⟨a, ha⟩ := Nat.pow_dvd_pow 2 hline
    obtain ⟨b, hb⟩ := Nat.pow_dvd_pow 2 (show 4 ≤ 32 - wayBits ids level by
      have := wayBits_le ids level
      omega)
    have hsixteen : 2 * level + set * (2 ^ 4 * a) + way * (2 ^ 4 * b) =
        2 * level + 2 ^ 4 * (set * a + way * b) := by
      rw [Nat.mul_left_comm set, Nat.mul_left_comm way, Nat.mul_add, Nat.add_assoc]
    rw [hvalue, ha, hb, hsixteen]
    omega
  rw [setWay]
  simp only [hlevelBits, hwayField, hsetField]

end Operand

/-! ## Every line once -/

/-- INTERNAL: lists that tell by a key which element they come from have no entry twice when put
together. -/
theorem nodup_flatMap_of_key {α β : Type} {l : List α} (hl : l.Nodup) {f : α → List β}
    (hf : ∀ x ∈ l, (f x).Nodup) (key : β → α) (hkey : ∀ x ∈ l, ∀ y ∈ f x, key y = x) :
    (l.flatMap f).Nodup := by
  refine List.nodup_flatMap.2 ⟨hf, hl.imp_of_mem ?_⟩
  intro a b ha hb hne y hya hyb
  exact hne ((hkey a ha y hya).symm.trans (hkey b hb y hyb))

/-- INTERNAL: the lines of a level in the order in which they are named. -/
def levelLines (ids : CacheIds) (level : ℕ) : List (ℕ × ℕ × ℕ) :=
  if hasDataCache ids level then
    (List.range (lastWay ids level + 1)).flatMap fun way =>
      (List.range (lastSet ids level + 1)).map fun set =>
        (level, lastWay ids level - way, lastSet ids level - set)
  else []

/-- INTERNAL: the maintenance instructions of one level, decoded, are the lines of that level. -/
theorem filterMap_levelCode {ids : CacheIds} (hfit : FieldsFit ids) {level : ℕ}
    (hlevel : level < levelOfCoherency ids) :
    (levelCode ids level).filterMap (Instruction.line ids) = levelLines ids level := by
  have hlt := levelOfCoherency_lt ids
  unfold levelCode levelLines
  split
  · rename_i hcache
    have hset := hfit level hlevel hcache
    have hwayCode : ∀ way, (wayCode ids level (lastWay ids level - way)).filterMap
        (Instruction.line ids) = (List.range (lastSet ids level + 1)).map fun set =>
          (level, lastWay ids level - way, lastSet ids level - set) := by
      intro way
      rw [wayCode, List.filterMap_map, ← List.filterMap_eq_map]
      congr 1
      funext set
      exact congrArg some (setWay_operand (by omega) (Nat.sub_le _ _)
        (Nat.lt_of_le_of_lt (Nat.sub_le _ _) hset))
    rw [List.filterMap_append, List.filterMap_flatMap]
    simp only [hwayCode]
    rfl
  · rfl

/-- INTERNAL: the lines of a level with a data cache are all its sets in all its ways. -/
theorem mem_levelLines {ids : CacheIds} {level : ℕ} {line : ℕ × ℕ × ℕ} :
    line ∈ levelLines ids level ↔ line.1 = level ∧ hasDataCache ids level ∧
      line.2.1 ≤ lastWay ids level ∧ line.2.2 ≤ lastSet ids level := by
  obtain ⟨l, way, set⟩ := line
  unfold levelLines
  split
  · rename_i hcache
    simp only [List.mem_flatMap, List.mem_map, List.mem_range, Prod.mk.injEq]
    constructor
    · rintro ⟨i, hi, j, hj, rfl, rfl, rfl⟩
      exact ⟨rfl, hcache, Nat.sub_le _ _, Nat.sub_le _ _⟩
    · rintro ⟨rfl, -, hway, hset⟩
      exact ⟨lastWay ids l - way, by omega, lastSet ids l - set, by omega, rfl, by omega, by omega⟩
  · rename_i hcache
    simp [hcache]

/-- INTERNAL: no line of a level is named twice. -/
theorem nodup_levelLines (ids : CacheIds) (level : ℕ) : (levelLines ids level).Nodup := by
  unfold levelLines
  split
  · refine nodup_flatMap_of_key List.nodup_range ?_ (fun line => lastWay ids level - line.2.1) ?_
    · intro way _
      refine List.Nodup.map_on ?_ List.nodup_range
      intro i hi j hj h
      have hi := List.mem_range.1 hi
      have hj := List.mem_range.1 hj
      simp only [Prod.mk.injEq, true_and] at h
      omega
    · intro way hway line hline
      obtain ⟨set, _, rfl⟩ := List.mem_map.1 hline
      have hway := List.mem_range.1 hway
      simp only
      omega
  · exact List.nodup_nil

/-- INTERNAL: **every line of the data caches up to the level of coherency once**, whatever the
caches are, as long as their ways and sets fit into an operand. SRC: arch/arm/cache.S:14-65 -/
theorem memArmFlushDcache_lines (ids : CacheIds) (hfit : FieldsFit ids) {fuel : ℕ}
    (hfuel : 0x8000 ≤ fuel) :
    ∃ code, memArmFlushDcache fuel ids = some code ∧
      (code.filterMap (Instruction.line ids)).Nodup ∧
      ∀ level way set, (level, way, set) ∈ code.filterMap (Instruction.line ids) ↔
        level < levelOfCoherency ids ∧ hasDataCache ids level ∧ way ≤ lastWay ids level ∧
          set ≤ lastSet ids level := by
  have hlt := levelOfCoherency_lt ids
  -- the lines in the order in which they are named
  have hlines : ([Instruction.dmb] ++ (List.range (levelOfCoherency ids)).flatMap (levelCode ids) ++
      [selectLevel 0, .dsb, .isb]).filterMap (Instruction.line ids) =
      (List.range (levelOfCoherency ids)).flatMap (levelLines ids) := by
    rw [List.filterMap_append, List.filterMap_append, List.filterMap_flatMap]
    refine (List.append_nil _).trans (List.flatMap_congr ?_)
    intro level hlevel
    have hlevel := List.mem_range.1 hlevel
    exact filterMap_levelCode hfit (by omega)
  refine ⟨_, flushCacheKernel_eq ids hfuel, ?_, ?_⟩
  · rw [hlines]
    exact nodup_flatMap_of_key List.nodup_range (fun level _ => nodup_levelLines ids level) Prod.fst
      fun level _ line hline => (mem_levelLines.1 hline).1
  · intro level way set
    rw [hlines, List.mem_flatMap]
    constructor
    · rintro ⟨l, hl, hline⟩
      obtain ⟨rfl, h⟩ := mem_levelLines.1 hline
      exact ⟨List.mem_range.1 hl, h⟩
    · rintro ⟨hlevel, h⟩
      exact ⟨level, List.mem_range.2 hlevel, mem_levelLines.2 ⟨rfl, h⟩⟩


/-- INTERNAL: one level of coherency, a data cache of 4 ways and 128 sets of 32 bytes. -/
def smallCache : CacheIds := ⟨0x09200003, fun _ => 0x700fe019⟩

/-- INTERNAL: a level of two ways and four sets, flushed line by line. -/
theorem memArmFlushDcache_lines_smallCache :
    ∃ code, memArmFlushDcache 0x8000 smallCache = some code ∧
      (code.filterMap (Instruction.line smallCache)).Nodup ∧
      ∀ level way set, (level, way, set) ∈ code.filterMap (Instruction.line smallCache) ↔
        level < levelOfCoherency smallCache ∧ hasDataCache smallCache level ∧
          way ≤ lastWay smallCache level ∧ set ≤ lastSet smallCache level := by
  have hfit : FieldsFit smallCache := by
    unfold FieldsFit
    decide
  exact memArmFlushDcache_lines smallCache hfit (Nat.le_refl _)

end Simbench.Analysis.ArmCacheLines
