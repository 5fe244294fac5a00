import Simbench.Analysis.BenchmarkShapes
import Simbench.Analysis.MemoryKernelPages

/-!
# The pages of the memory benchmarks

With 4 KiB pages and a region of whole pages, the mapping loops map every page of the region
once, and the kernels that sweep over it only ever touch those pages.
-/

set_option autoImplicit false

namespace Simbench.Analysis.BenchmarkPages

open Simbench.Library.AddressLoops Simbench.Program.Benchmarks
open Simbench.Program.MemoryKernels (sweep)
open Simbench.Analysis Simbench.Analysis.BenchmarkShapes

/-- INTERNAL: a physical memory region of `pages` pages of 4 KiB. -/
structure PagedRegion (site : Site) (pages : ℕ) : Prop where
  pageSize : site.pageSize = 4096
  size : site.physMemEnd.toNat = site.physMemStart.toNat + pages * 4096
  room : site.physMemEnd.toNat + 4096 < 2 ^ 64

/-- INTERNAL: one page further does not wrap below the end of the address space. -/
theorem toNat_add_page (ptr : BitVec 64) (h : ptr.toNat + 4096 < 2 ^ 64) :
    (ptr + 4096).toNat = ptr.toNat + 4096 := toNat_add_step h

/-- INTERNAL: the loop over a region of `pages` pages. Induction on the rounds: `ptr` is the
first page of those left. -/
theorem regionPages_spec {regionEnd : BitVec 64} (hroom : regionEnd.toNat + 4096 < 2 ^ 64)
    (rounds pages : ℕ) (ptr : BitVec 64) (hsize : regionEnd.toNat = ptr.toNat + pages * 4096)
    (hrounds : pages ≤ rounds) :
    (regionPages regionEnd 4096 rounds ptr).length = pages ∧
      ∀ p, p ∈ regionPages regionEnd 4096 rounds ptr ↔
        ∃ k < pages, p.toNat = ptr.toNat + k * 4096 := by
  induction rounds generalizing ptr pages with
  | zero =>
    obtain rfl : pages = 0 := by omega
    simp [regionPages]
  | succ rounds ih =>
    cases pages with
    | zero =>
      have hdone : ¬ ptr < regionEnd := by
        rw [BitVec.lt_def]
        omega
      rw [regionPages, if_neg hdone]
      simp
    | succ pages =>
      have hmore : ptr < regionEnd := by
        rw [BitVec.lt_def]
        omega
      have hnext := toNat_add_page ptr (by omega)
      obtain ⟨hlength, hmem⟩ := ih pages (ptr + 4096) (by omega) (by omega)
      rw [regionPages, if_pos hmore]
      refine ⟨by rw [List.length_cons, hlength], fun p => ?_⟩
      rw [List.mem_cons, hmem, hnext, strided_cons]

section Region

variable {site : Site} {pages : ℕ}

/-- INTERNAL: the pages of a region, as many as it has, one behind the other from its start. -/
theorem PagedRegion.physPages_spec (h : PagedRegion site pages) :
    (physPages site).length = pages ∧ ∀ p, p ∈ physPages site ↔
      ∃ k < pages, p.toNat = site.physMemStart.toNat + k * 4096 := by
  unfold physPages
  rw [h.pageSize]
  apply regionPages_spec h.room _ _ _ h.size
  rw [h.size, Nat.add_sub_cancel_left, show (4096 : BitVec 64).toNat = 4096 from rfl,
    Nat.mul_div_cancel _ (by decide)]
  omega

/-- INTERNAL: the mapping loop stops at the end of the region. -/
theorem PagedRegion.virtEnd_eq (h : PagedRegion site pages) : virtEnd site = site.physMemEnd := by
  have hsize := h.size
  have hroom := h.room
  unfold virtEnd
  rw [h.physPages_spec.1, h.pageSize]
  apply BitVec.eq_of_toNat_eq
  rw [BitVec.toNat_add, BitVec.toNat_mul, BitVec.toNat_ofNat,
    show (4096 : BitVec 64).toNat = 4096 from rfl]
  omega

/-- INTERNAL: a sweep stays on the pages of the region. -/
theorem PagedRegion.mem_sweep (h : PagedRegion site pages) (iterations : ℕ) {ptr p : BitVec 64}
    (hptr : ptr ∈ physPages site)
    (hp : p ∈ sweep site.physMemStart site.physMemEnd 4096 iterations ptr) :
    p ∈ physPages site := by
  have hsize := h.size
  have hroom := h.room
  have hstep : ∀ k, site.physMemStart.toNat + k * 4096 < site.physMemEnd.toNat →
      site.physMemStart.toNat + (k + 1) * 4096 < 2 ^ 64 := by
    intro k hk
    rw [Nat.succ_mul, ← Nat.add_assoc]
    exact Nat.lt_trans (Nat.add_lt_add_right hk 4096) hroom
  rw [h.physPages_spec.2] at hptr ⊢
  obtain ⟨k, hk, hvalue⟩ := hptr
  have hnonempty : site.physMemStart < site.physMemEnd := by
    rw [BitVec.lt_def]
    omega
  have hinside : ptr < site.physMemEnd := by
    rw [BitVec.lt_def]
    omega
  obtain ⟨hend, k', (hk' : p.toNat = site.physMemStart.toNat + k' * 4096)⟩ :=
    MemoryKernelPages.mem_sweep hnonempty (show ∀ k, _ + k * (4096 : BitVec 64).toNat < _ → _ from hstep)
      ⟨k, hvalue⟩ hinside hp
  rw [BitVec.lt_def] at hend
  exact ⟨k', by omega, hk'⟩

/-- INTERNAL: the region starts with a page. -/
theorem PagedRegion.physMemStart_mem (h : PagedRegion site pages) (hpages : 0 < pages) :
    site.physMemStart ∈ physPages site := by
  rw [h.physPages_spec.2]
  exact ⟨0, hpages, by omega⟩

/-- INTERNAL: the TLB benchmarks touch pages of the region only. -/
theorem PagedRegion.mem_tlbSweep (h : PagedRegion site pages) (hpages : 0 < pages) {p : BitVec 64}
    (hp : p ∈ tlbSweep site) : p ∈ physPages site := by
  rw [tlbSweep, h.virtEnd_eq, h.pageSize] at hp
  exact h.mem_sweep _ (h.physMemStart_mem hpages) hp

end Region

end Simbench.Analysis.BenchmarkPages
