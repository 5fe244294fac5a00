import Simbench.Library.ByteCopies
import Simbench.Program.MemoryKernels

/-!
# What memcpy and memmove leave in memory

The loop of `memcpy` after each of its rounds is a copy of so many bytes upwards. That is the
copy of the original bytes when the destination begins at the source, below it, or apart from
it; `memmove` makes two copies, each between ranges that are apart.
-/

set_option autoImplicit false

namespace Simbench.Analysis.MemoryCopies

open Simbench.Library.ByteCopies
open Simbench.Library.Loops
open Simbench.Program.MemoryKernels

variable {w : ℕ} {dest src temp n x : BitVec w} {mem : Memory w}

/-- INTERNAL: one round of the loop. -/
theorem whileLoop_byte {c : Copying w} (hn : c.n ≠ 0) (fuel : ℕ) :
    whileLoop Copying.more Copying.byte (fuel + 1) c = whileLoop Copying.more Copying.byte fuel
      ⟨c.d + 1, c.s + 1, c.n - 1, Function.update c.mem c.d (c.mem c.s)⟩ := by
  have hmore : (Copying.more c).1 = true := decide_eq_true hn
  rw [whileLoop]
  simp only [hmore, if_true]
  rfl

/-- INTERNAL: the loop with `i` bytes copied and `k` to go. Induction on `k`. -/
theorem run_copying (mem : Memory w) (h : Upwards dest src n.toNat) :
    ∀ k i fuel, i + k = n.toNat → k < fuel →
    ∃ c, whileLoop Copying.more Copying.byte fuel ⟨dest + BitVec.ofNat w i,
      src + BitVec.ofNat w i, BitVec.ofNat w k, copied mem dest src i⟩ = some c ∧
      c.mem = copied mem dest src n.toNat := by
  have hsize := n.isLt
  intro k
  induction k with
  | zero =>
    rintro i (_ | fuel) hi hfuel
    · omega
    · obtain rfl : i = n.toNat := by omega
      exact ⟨_, rfl, rfl⟩
  | succ k ih =>
    rintro i (_ | fuel) hi hfuel
    · omega
    · obtain ⟨c, hrun, hc⟩ := ih (i + 1) fuel (by omega) (by omega)
      refine ⟨c, ?_, hc⟩
      have hmore : BitVec.ofNat w (k + 1) ≠ 0#w := by
        rw [ne_eq, ← BitVec.toNat_inj, BitVec.toNat_ofNat, Nat.mod_eq_of_lt (by omega)]
        exact Nat.succ_ne_zero k
      have hnext (a : BitVec w) : a + BitVec.ofNat w i + 1 = a + BitVec.ofNat w (i + 1) := by
        rw [BitVec.add_assoc, BitVec.ofNat_add]
        rfl
      have hleft : BitVec.ofNat w (k + 1) - 1 = BitVec.ofNat w k := by
        rw [BitVec.ofNat_add]
        exact BitVec.add_sub_cancel _ _
      rw [whileLoop_byte hmore, copied_succ h (by omega) (by omega), hnext, hnext, hleft]
      exact hrun

/-- INTERNAL: `memcpy` returns the destination, and the copy is made. -/
theorem memcpy_upwards (h : Upwards dest src n.toNat) {fuel : ℕ} (hfuel : n.toNat < fuel) :
    memcpy fuel dest src n mem = some (dest, copied mem dest src n.toNat) := by
  obtain ⟨c, hrun, hc⟩ := run_copying mem h n.toNat 0 fuel (Nat.zero_add _) hfuel
  rw [BitVec.add_zero, BitVec.add_zero, BitVec.ofNat_toNat, BitVec.setWidth_eq,
    copied_zero] at hrun
  rw [memcpy, hrun, ← hc]
  rfl

/-- INTERNAL: `memmove` copies to its array and from there. -/
theorem memmove_apart (hsrc : Apart temp src n.toNat) (hdest : Apart temp dest n.toNat) {fuel : ℕ}
    (hfuel : n.toNat < fuel) : memmove fuel temp dest src n mem =
      some (copied (copied mem temp src n.toNat) dest temp n.toNat) := by
  rw [memmove, memcpy_upwards (.of_apart hsrc) hfuel]
  dsimp only [Option.bind_eq_bind, Option.bind_some]
  rw [memcpy_upwards (.of_apart hdest.symm) hfuel]
  rfl

/-- SOURCE: util/memcpy.c:3-20 — **copies under any overlap**: `memmove` returns, each byte of the
destination is the byte of the source as it was, and no other byte outside of its array has
changed; `memcpy` returns with the same bytes where the ranges are apart or the destination is
not above the source. -/
theorem memmove_memcpy_copies (mem : Memory w) (dest src n : BitVec w) :
    (∀ temp, Apart temp src n.toNat → Apart temp dest n.toNat →
      ∃ mem', (∀ fuel, n.toNat < fuel → memmove fuel temp dest src n mem = some mem') ∧
        (∀ i < n.toNat, mem' (dest + BitVec.ofNat w i) = mem (src + BitVec.ofNat w i)) ∧
        ∀ x, ¬ InRange dest n.toNat x → ¬ InRange temp n.toNat x → mem' x = mem x) ∧
    (Apart dest src n.toNat ∨ dest ≤ src ∧ src.toNat + n.toNat ≤ 2 ^ w →
      ∃ mem', (∀ fuel, n.toNat < fuel → memcpy fuel dest src n mem = some (dest, mem')) ∧
        (∀ i < n.toNat, mem' (dest + BitVec.ofNat w i) = mem (src + BitVec.ofNat w i)) ∧
        ∀ x, ¬ InRange dest n.toNat x → mem' x = mem x) := by
  have hsize := Nat.le_of_lt n.isLt
  constructor
  · intro temp hsrc hdest
    refine ⟨_, fun fuel hfuel => memmove_apart hsrc hdest hfuel, fun i hi => ?_,
      fun x hx htemp => ?_⟩
    · have hin : InRange dest n.toNat (dest + BitVec.ofNat w i) := inRange_add hi hsize
      rw [copied_copied (hdest.symm _ hin), copied_add hi hsize]
    · rw [copied_copied htemp, copied_of_notMem hx]
  · intro h
    have hupwards : Upwards dest src n.toNat := by
      obtain hapart | ⟨hle, hsrc⟩ := h
      · exact .of_apart hapart
      · exact .of_le hle hsrc
    exact ⟨_, fun fuel hfuel => memcpy_upwards hupwards hfuel, fun i hi => copied_add hi hsize,
      fun x hx => copied_of_notMem hx⟩

/-- SOURCE: util/memcpy.c:3-20 — four bytes moved up by two, and down by two. -/
theorem memmove_memcpy_copies_by_two :
    (∃ mem', memmove 5 0x2000 0x1002 0x1000 4 (fun x : BitVec 32 => x.setWidth 8) = some mem' ∧
      mem' 0x1004 = 0x02 ∧ mem' 0x1006 = 0x06) ∧
    ∃ mem', memcpy 5 0x1000 0x1002 4 (fun x : BitVec 32 => x.setWidth 8) = some (0x1000, mem') ∧
      mem' 0x1002 = 0x04 ∧ mem' 0x1004 = 0x04 := by
  have happart (a b : BitVec 32) (hab : (a - b).toNat < 2 ^ 32 - 4 ∧ 4 ≤ (a - b).toNat) :
      Apart a b 4 := by
    intro x ha hb
    simp only [InRange, BitVec.toNat_sub] at ha hb hab
    omega
  constructor
  · obtain ⟨mem', hrun, hin, hout⟩ := (memmove_memcpy_copies (fun x : BitVec 32 => x.setWidth 8)
      0x1002 0x1000 4).1 0x2000 (happart _ _ (by decide)) (happart _ _ (by decide))
    exact ⟨mem', hrun 5 (by decide), hin 2 (by decide), hout 0x1006 (by decide) (by decide)⟩
  · obtain ⟨mem', hrun, hin, hout⟩ := (memmove_memcpy_copies (fun x : BitVec 32 => x.setWidth 8)
      0x1000 0x1002 4).2 (.inr ⟨by decide, by decide⟩)
    exact ⟨mem', hrun 5 (by decide), hin 2 (by decide), hout 0x1004 (by decide)⟩

end Simbench.Analysis.MemoryCopies
