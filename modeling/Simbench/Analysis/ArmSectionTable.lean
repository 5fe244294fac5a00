import Simbench.Program.ArmSections
import Mathlib.Tactic.Common

/-!
# Words of the section table

Words read back from the bytes of the table, the whole-table zeroing of `bzero`, the bits of
the two descriptors, and the addresses a region is mapped at.
-/

set_option autoImplicit false

namespace Simbench.Analysis.ArmSectionTable

open Simbench.Library.ByteParser Simbench.Program.ArmSections

/-! ## Bytes and words -/

/-- INTERNAL: `memset` sets the `n` bytes from `p` on. SRC: util/memset.c:3-14 -/
theorem memset_apply (p : BitVec 14) (b : BitVec 8) {n : ℕ} (hn : n ≤ 2 ^ 14) (t : Table)
    (i : BitVec 14) : memset p b n t i = if (i - p).toNat < n then b else t i := by
  induction n generalizing p t with
  | zero => rfl
  | succ n ih =>
    rw [memset, ih (p + 1) (by omega)]
    by_cases hi : i = p
    · -- the byte just set is at the end of the table seen from `p + 1`
      subst hi
      have hlast : ¬ (i - (i + 1)).toNat < n := by bv_omega
      have hfirst : (i - i).toNat < n + 1 := by bv_omega
      rw [if_neg hlast, if_pos hfirst, Function.update_self]
    · have hstep : (i - (p + 1)).toNat < n ↔ (i - p).toNat < n + 1 := by bv_omega
      rw [Function.update_of_ne hi, if_congr hstep rfl rfl]

/-- INTERNAL: the section table as `mem_init` zeroes it. -/
def zeroTable : Table := fun _ => 0

/-- INTERNAL: `mem_init` zeroes every byte. SRC: arch/arm/mem.c:166-167 -/
theorem bzero_table (t : Table) : bzero 0 16384 t = zeroTable := by
  funext i
  rw [bzero, memset_apply 0 0 (by decide), if_pos]
  · rfl
  · bv_omega

/-- INTERNAL: the four bytes of a word, and those of different words, are different bytes of the
table. -/
theorem byteAddr_inj {i j : BitVec 12} {k l : ℕ} (hk : k < 4) (hl : l < 4) :
    byteAddr i k = byteAddr j l ↔ i = j ∧ k = l := by
  constructor
  · intro h
    have hnat := congrArg BitVec.toNat h
    rw [byteAddr, byteAddr, BitVec.toNat_ofNat, BitVec.toNat_ofNat] at hnat
    have hi := i.isLt
    have hj := j.isLt
    exact ⟨BitVec.eq_of_toNat_eq (by omega), by omega⟩
  · rintro ⟨rfl, rfl⟩
    rfl

/-- INTERNAL: the bytes of a word follow one another. -/
theorem byteAddr_succ (i : BitVec 12) (k : ℕ) : byteAddr i k + 1 = byteAddr i (k + 1) := by
  rw [byteAddr, byteAddr]
  bv_omega

/-- INTERNAL: storing a word stores its four bytes. -/
theorem writeWord_eq (t : Table) (i : BitVec 12) (w : BitVec 32) :
    writeWord t i w = Function.update (Function.update (Function.update (Function.update t
      (byteAddr i 0) (w.extractLsb' 0 8)) (byteAddr i 1) (w.extractLsb' 8 8))
      (byteAddr i 2) (w.extractLsb' 16 8)) (byteAddr i 3) (w.extractLsb' 24 8) := by
  simp only [writeWord, bytesOf32, storeBytes, byteAddr_succ, Nat.zero_add, Nat.reduceAdd]

/-- INTERNAL: a word that was stored, and any other. -/
theorem readWord_writeWord (t : Table) (i : BitVec 12) (w : BitVec 32) (j : BitVec 12) :
    readWord (writeWord t i w) j = if j = i then w else readWord t j := by
  by_cases hj : j = i
  · subst hj
    have hbytes : [writeWord t j w (byteAddr j 0), writeWord t j w (byteAddr j 1),
        writeWord t j w (byteAddr j 2), writeWord t j w (byteAddr j 3)] = bytesOf32 w := by
      rw [writeWord_eq, bytesOf32]
      simp [byteAddr_inj]
    rw [readWord, hbytes, littleEndianValue_bytesOf32, if_pos rfl, BitVec.ofNat_toNat,
      BitVec.setWidth_eq]
  · have hbyte : ∀ k, k < 4 → writeWord t i w (byteAddr j k) = t (byteAddr j k) := by
      intro k hk
      rw [writeWord_eq]
      simp [byteAddr_inj, hj, hk]
    rw [if_neg hj, readWord, hbyte 0 (by decide), hbyte 1 (by decide), hbyte 2 (by decide),
      hbyte 3 (by decide)]
    rfl

/-- INTERNAL: the words of a zero table are zero. -/
theorem readWord_zeroTable (i : BitVec 12) : readWord zeroTable i = 0 := rfl

/-! ## Descriptors -/

/-- INTERNAL: the attribute bits of each routine. -/
def attributes : Kind → BitVec 32
  | .data => 0xc0e
  | .device => 0xc02

/-- INTERNAL: a descriptor is the base address and the attributes of its kind.
SRC: arch/arm/mem.c:364-370,397-401 -/
theorem descriptor_eq (kind : Kind) (pa : BitVec 32) :
    kind.descriptor pa = (pa &&& 0xfff00000) ||| attributes kind := by
  cases kind <;> simp [Kind.descriptor, sectionDescriptor, attributes, BitVec.or_assoc]

/-- INTERNAL: the low two bits say that the entry is a section. -/
theorem descriptor_and_three (kind : Kind) (pa : BitVec 32) : kind.descriptor pa &&& 3 = 2 := by
  rw [descriptor_eq, BitVec.and_or_distrib_right, BitVec.and_assoc]
  cases kind <;> simp [attributes]

/-- INTERNAL: the base address in a descriptor is that of the page. -/
theorem descriptor_and_base (kind : Kind) (pa : BitVec 32) :
    kind.descriptor pa &&& 0xfff00000 = pa &&& 0xfff00000 := by
  rw [descriptor_eq, BitVec.and_or_distrib_right, BitVec.and_assoc]
  cases kind <;> simp [attributes]

/-- INTERNAL: a descriptor is not the empty word. -/
theorem descriptor_ne_zero (kind : Kind) (pa : BitVec 32) : kind.descriptor pa ≠ 0 := by
  intro h
  have hbits := descriptor_and_three kind pa
  rw [h] at hbits
  exact absurd hbits (by decide)

/-- INTERNAL: the base of a section and the offset in it have no bit in common. -/
theorem base_or_offset (pa va : BitVec 32) :
    (pa &&& 0xfff00000) ||| (va &&& 0xfffff) = (pa &&& 0xfff00000) + (va &&& 0xfffff) := by
  have hdisjoint : 0xfff00000 &&& (va &&& 0xfffff) = 0 := by
    rw [BitVec.and_comm va, ← BitVec.and_assoc]
    exact BitVec.zero_and
  refine (BitVec.add_eq_or_of_and_eq_zero _ _ ?_).symm
  rw [BitVec.and_assoc, hdisjoint]
  exact BitVec.and_zero

/-- INTERNAL: an address whose section is mapped goes to the same place of the page. -/
theorem translate_descriptor {t : Table} {va : BitVec 32} {kind : Kind} {pa : BitVec 32}
    (h : readWord t (sectionIndex va) = kind.descriptor pa) :
    sectionTranslate t va = some ((pa &&& 0xfff00000) + (va &&& 0xfffff)) := by
  rw [sectionTranslate, h]
  simp only [descriptor_and_three, descriptor_and_base, if_true, base_or_offset]

/-- INTERNAL: an address whose section is empty has no translation. -/
theorem translate_zero {t : Table} {va : BitVec 32} (h : readWord t (sectionIndex va) = 0) :
    sectionTranslate t va = none := by
  rw [sectionTranslate, h]
  rfl

/-! ## Regions -/

/-- INTERNAL: aligned addresses are the multiples of 1 MiB. SRC: arch/arm/mem.c:346-350 -/
theorem not_misaligned_iff (i : BitVec 32) : misaligned i = false ↔ i.toNat % 2 ^ 20 = 0 := by
  have hmask : (i &&& (memGetPageSize - 1)).toNat = i.toNat % 2 ^ 20 := by
    rw [BitVec.toNat_and]
    exact Nat.and_two_pow_sub_one_eq_mod i.toNat 20
  rw [misaligned, decide_eq_false_iff_not, not_not, ← hmask]
  exact ⟨fun h => congrArg BitVec.toNat h, fun h => BitVec.eq_of_toNat_eq h⟩

/-- INTERNAL: the next page, which wraps around behind the last section. -/
theorem toNat_next (i : BitVec 32) :
    (i + memGetPageSize).toNat = (i.toNat + 2 ^ 20) % 2 ^ 32 := by
  rw [BitVec.toNat_add]
  rfl

/-- INTERNAL: a region is mapped from an aligned address on. SRC: arch/arm/mem.c:49,62 -/
theorem misaligned_regionStart (a : BitVec 32) :
    misaligned (a &&& ~~~(memGetPageSize - 1)) = false := by
  have hmask : ~~~(memGetPageSize - 1) &&& (memGetPageSize - 1) = 0 := by decide
  have hzero : a &&& 0 = 0 := BitVec.and_zero
  rw [misaligned, BitVec.and_assoc, hmask, hzero]
  rfl

/-- INTERNAL: an identity mapping of a section address that returns, returns 0. -/
theorem memCreatePageMapping_aligned {kind : Kind} {i : BitVec 32} {s s' : State} {rc : ℕ}
    (hi : misaligned i = false) (h : memCreatePageMapping kind i i s = .ok (rc, s')) : rc = 0 := by
  rw [memCreatePageMapping, if_neg (by simp [hi])] at h
  dsimp only at h
  split at h
  · cases h
  · exact (Prod.mk.inj (Except.ok.inj h)).1.symm

end Simbench.Analysis.ArmSectionTable
