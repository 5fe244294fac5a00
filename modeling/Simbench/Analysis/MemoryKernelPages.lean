import Simbench.Library.AddressLoops
import Simbench.Program.MemoryKernels

/-!
# The memory kernels touch only what they mapped

The mapping loop runs over the pages from the start of the region to the first one at or behind
its end, which is no more than a page behind it. The kernels sweep over multiples of their stride
from the same start; a sweep that has not reached its bound is below the end of the region, and the
page it is on was mapped.
-/

set_option autoImplicit false

namespace Simbench.Analysis.MemoryKernelPages

open Simbench.Library.AddressLoops Simbench.Library.Loops Simbench.Program.MemoryKernels

variable {w : ℕ} {port : Port w} {step : BitVec w}

/-! ## The mapping loop -/

/-- INTERNAL: the identity mappings of pages. -/
def maps (pages : List (BitVec w)) : List (Op w) :=
  pages.map fun page => .memCreatePageMappingData page page

/-- INTERNAL: a body that does not fail. -/
abbrev visit : BitVec w → Unit → Option Unit := fun _ _ => some ()

/-- INTERNAL: a loop with a positive step below the top of the address space has its rounds. -/
theorem exists_loop {last : BitVec w} (hroom : last.toNat + step.toNat < 2 ^ w)
    (hstep : 0 < step.toNat) (ptr : BitVec w) : ∃ pages, Loop step last visit ptr () pages () := by
  have hcalls : CallsSucceed step last visit ptr () := fun _ _ _ _ => ⟨(), rfl⟩
  obtain ⟨pages, _, h⟩ := Loop.of_callsSucceed hroom hstep hcalls
  exact ⟨pages, h⟩

/-- INTERNAL: **the `while` loop** makes the calls of the loop over pages and stops behind the last
one. -/
theorem whileLoop_maps {last : BitVec w} (hlast : ∀ ptr, ptr < port.physMemEnd ↔ ptr ≤ last)
    {ptr : BitVec w} {pages : List (BitVec w)} {s s' : Unit}
    (h : Loop step last visit ptr s pages s') (ops : List (Op w)) {fuel : ℕ}
    (hfuel : pages.length < fuel) :
    whileLoop (Mapping.more port) (Mapping.page step) fuel ⟨ptr, ptr, ops⟩ =
      some ⟨ptr + BitVec.ofNat w pages.length * step, ptr + BitVec.ofNat w pages.length * step,
        ops ++ maps pages⟩ := by
  induction h generalizing ops fuel with
  | @done ptr s hdone =>
    obtain ⟨fuel, rfl⟩ := Nat.exists_eq_succ_of_ne_zero (Nat.ne_of_gt hfuel)
    have hmore : (Mapping.more port ⟨ptr, ptr, ops⟩).1 = false :=
      decide_eq_false ((hlast ptr).not.mpr hdone)
    rw [whileLoop]
    simp only [hmore, Bool.false_eq_true, if_false, List.length_nil, BitVec.zero_mul,
      BitVec.add_zero, maps, List.map_nil, List.append_nil]
    rfl
  | @round ptr s s₁ s' pages hle _ _ ih =>
    obtain ⟨fuel, rfl⟩ := Nat.exists_eq_succ_of_ne_zero (Nat.ne_of_gt (Nat.zero_lt_of_lt hfuel))
    have hmore : (Mapping.more port ⟨ptr, ptr, ops⟩).1 = true :=
      decide_eq_true ((hlast ptr).mpr hle)
    have hnext : ptr + step + BitVec.ofNat w pages.length * step =
        ptr + BitVec.ofNat w (pages.length + 1) * step := by
      rw [BitVec.ofNat_add]
      grind
    have hrest := ih (ops ++ [.memCreatePageMappingData ptr ptr]) (Nat.lt_of_succ_lt_succ hfuel)
    rw [whileLoop]
    simp only [hmore, if_true]
    rw [hnext, List.append_assoc] at hrest
    exact hrest

/-! ## Sweeps -/

/-- INTERNAL: **a sweep** stays on multiples of its step and below its bound, when no step from
there wraps around. Induction on the iterations. -/
theorem mem_sweep {first last ptr p : BitVec w} {iterations : ℕ} (hfirst : first < last)
    (hstep : ∀ k, first.toNat + k * step.toNat < last.toNat →
      first.toNat + (k + 1) * step.toNat < 2 ^ w)
    (hptr : ∃ k, ptr.toNat = first.toNat + k * step.toNat) (hlast : ptr < last)
    (hp : p ∈ sweep first last step iterations ptr) :
    p < last ∧ ∃ k, p.toNat = first.toNat + k * step.toNat := by
  induction iterations generalizing ptr with
  | zero => cases hp
  | succ iterations ih =>
    rw [sweep, List.mem_cons] at hp
    obtain rfl | hp := hp
    · exact ⟨hlast, hptr⟩
    obtain ⟨k, hk⟩ := hptr
    have hbound := hstep k (hk ▸ hlast)
    have hnext : (ptr + step).toNat = first.toNat + (k + 1) * step.toNat := by
      rw [Nat.succ_mul] at hbound ⊢
      rw [toNat_add_step (by omega), hk, Nat.add_assoc]
    split at hp
    · exact ih ⟨0, by rw [Nat.zero_mul, Nat.add_zero]⟩ hfirst hp
    · rename_i hinside
      exact ih ⟨k + 1, hnext⟩ (BitVec.not_le.mp hinside) hp

/-! ## Regions -/

/-- INTERNAL: a region that starts with a page of the port's size, 4 KiB or 1 MiB, is not empty,
and ends a page before the end of the address space or earlier. -/
structure Region (port : Port w) : Prop where
  pageSize : port.pageSize.toNat = 2 ^ 12 ∨ port.pageSize.toNat = 2 ^ 20
  aligned : port.physMemStart.toNat % port.pageSize.toNat = 0
  nonempty : port.physMemStart < port.physMemEnd
  room : port.physMemEnd.toNat ≤ 2 ^ w - port.pageSize.toNat

/-- INTERNAL: an address in the region, on a page the initialisation has mapped. -/
structure Owned (port : Port w) (init : List (Op w)) (p : BitVec w) : Prop where
  start_le : port.physMemStart ≤ p
  lt_end : p < port.physMemEnd
  mapped : ∃ page, .memCreatePageMappingData page page ∈ init ∧
    page.toNat = p.toNat / port.pageSize.toNat * port.pageSize.toNat

/-- INTERNAL: a list of operations dereferences only such addresses. -/
def AllOwned (port : Port w) (init ops : List (Op w)) : Prop :=
  ∀ op ∈ ops, ∀ p, op.dereferenced = some p → Owned port init p

/-- INTERNAL: what the mapping loop has done to a region: the pages it has mapped, and where it has
stopped. -/
structure Maps (port : Port w) (pages : List (BitVec w)) (virtEnd : BitVec w) : Prop where
  returns : ∀ fuel, pages.length < fuel →
    mapPhysMem fuel port port.pageSize = some ⟨virtEnd, virtEnd, maps pages⟩
  mem_iff : ∀ p, p ∈ pages ↔
    ∃ k, p.toNat = port.physMemStart.toNat + k * port.pageSize.toNat ∧ p < port.physMemEnd
  virtEnd_eq : virtEnd.toNat = port.physMemStart.toNat + pages.length * port.pageSize.toNat
  lt_end : ∀ k < pages.length,
    port.physMemStart.toNat + k * port.pageSize.toNat < port.physMemEnd.toNat

namespace Region

/-- INTERNAL: a port's pages have at least 4096 bytes and fit 32 bits. -/
theorem pageSize_le (h : Region port) :
    4096 ≤ port.pageSize.toNat ∧ port.pageSize.toNat < 2 ^ 32 := by
  obtain hsize | hsize := h.pageSize
  · omega
  · omega

/-- INTERNAL: its region ends a page before the end of the address space. -/
theorem add_pageSize_le (h : Region port) :
    port.physMemEnd.toNat + port.pageSize.toNat ≤ 2 ^ w := by
  have hroom := h.room
  have hsize := port.pageSize.isLt
  omega

/-- INTERNAL: **every page of the region** is mapped, and the loop ends. -/
theorem exists_maps (h : Region port) : ∃ pages virtEnd, Maps port pages virtEnd := by
  have hnonempty : port.physMemStart.toNat < port.physMemEnd.toNat := h.nonempty
  have hroom := h.add_pageSize_le
  have hsize := h.pageSize_le
  have hlastNat : (BitVec.ofNat w (port.physMemEnd.toNat - 1)).toNat =
      port.physMemEnd.toNat - 1 := by
    rw [BitVec.toNat_ofNat, Nat.mod_eq_of_lt (by omega)]
  generalize BitVec.ofNat w (port.physMemEnd.toNat - 1) = last at hlastNat
  have hlast (ptr : BitVec w) : ptr < port.physMemEnd ↔ ptr ≤ last := by
    rw [BitVec.lt_def, BitVec.le_def, hlastNat]
    omega
  have hroom' : last.toNat + port.pageSize.toNat < 2 ^ w := by omega
  obtain ⟨pages, hloop⟩ := exists_loop hroom' (by omega) port.physMemStart
  have hlength := hloop.length_le hroom'
  refine ⟨pages, port.physMemStart + BitVec.ofNat w pages.length * port.pageSize, ?_, ?_, ?_, ?_⟩
  · intro fuel hfuel
    exact whileLoop_maps hlast hloop [] hfuel
  · intro p
    rw [hloop.mem_iff hroom', hlast, BitVec.le_def]
  · have hcount : pages.length ≤ pages.length * port.pageSize.toNat :=
      Nat.le_mul_of_pos_right _ (by omega)
    have hoffset : (BitVec.ofNat w pages.length * port.pageSize).toNat =
        pages.length * port.pageSize.toNat := by
      rw [BitVec.toNat_mul, BitVec.toNat_ofNat, Nat.mod_eq_of_lt (by omega : pages.length < 2 ^ w),
        Nat.mod_eq_of_lt (by omega)]
    rw [BitVec.toNat_add, hoffset, Nat.mod_eq_of_lt (by omega)]
  · intro k hk
    have hbefore := Nat.mul_le_mul_right port.pageSize.toNat (Nat.succ_le_of_lt hk)
    rw [Nat.succ_mul] at hbefore
    omega

end Region

section Kernels

variable {pages : List (BitVec w)} {virtEnd p : BitVec w}

/-- INTERNAL: **any address of the region** is on a mapped page. -/
theorem Maps.owned (hmaps : Maps port pages virtEnd) (h : Region port)
    (hstart : port.physMemStart ≤ p) (hend : p < port.physMemEnd) :
    Owned port (mmuOn (maps pages)) p := by
  refine ⟨hstart, hend, ?_⟩
  have hpos : 0 < port.pageSize.toNat := Nat.lt_of_lt_of_le (by decide) h.pageSize_le.1
  have hbase : p.toNat / port.pageSize.toNat * port.pageSize.toNat ≤ p.toNat :=
    Nat.div_mul_le_self _ _
  have hfirst : port.physMemStart.toNat / port.pageSize.toNat * port.pageSize.toNat =
      port.physMemStart.toNat := Nat.div_mul_cancel (Nat.dvd_of_mod_eq_zero h.aligned)
  have hfirst_le : port.physMemStart.toNat / port.pageSize.toNat ≤
      p.toNat / port.pageSize.toNat := Nat.div_le_div_right hstart
  have hpage : (BitVec.ofNat w (p.toNat / port.pageSize.toNat * port.pageSize.toNat)).toNat =
      p.toNat / port.pageSize.toNat * port.pageSize.toNat := by
    rw [BitVec.toNat_ofNat, Nat.mod_eq_of_lt (Nat.lt_of_le_of_lt hbase p.isLt)]
  refine ⟨_, ?_, hpage⟩
  have hmem : BitVec.ofNat w (p.toNat / port.pageSize.toNat * port.pageSize.toNat) ∈ pages := by
    rw [hmaps.mem_iff]
    refine ⟨p.toNat / port.pageSize.toNat - port.physMemStart.toNat / port.pageSize.toNat, ?_, ?_⟩
    · rw [hpage, Nat.sub_mul, hfirst, Nat.add_sub_cancel']
      rw [← hfirst]
      exact Nat.mul_le_mul_right _ hfirst_le
    · rw [BitVec.lt_def, hpage]
      exact Nat.lt_of_le_of_lt hbase hend
  exact List.mem_cons_of_mem _ (List.mem_append_left _ (List.mem_map_of_mem hmem))

/-- INTERNAL: the pointer of `memory-cold.c` stays on pages the initialisation has mapped: its step
of 4096 divides the page size. -/
theorem Maps.sweep_cold (hmaps : Maps port pages virtEnd) (h : Region port) {iterations : ℕ}
    (hp : p ∈ sweep port.physMemStart port.physMemEnd ((4096#32).setWidth w) iterations
      port.physMemStart) : Owned port (mmuOn (maps pages)) p := by
  have hroom := h.add_pageSize_le
  have hsize := h.pageSize_le
  have hstride : ((4096#32).setWidth w).toNat ≤ port.pageSize.toNat := by
    rw [BitVec.toNat_setWidth]
    exact Nat.le_trans (Nat.mod_le _ _) hsize.1
  have hstep : ∀ k, port.physMemStart.toNat + k * ((4096#32).setWidth w).toNat <
      port.physMemEnd.toNat →
        port.physMemStart.toNat + (k + 1) * ((4096#32).setWidth w).toNat < 2 ^ w := by
    intro k hk
    rw [Nat.succ_mul]
    omega
  obtain ⟨hend, k, hk⟩ :=
    mem_sweep h.nonempty hstep ⟨0, by rw [Nat.zero_mul, Nat.add_zero]⟩ h.nonempty hp
  refine hmaps.owned h ?_ hend
  rw [BitVec.le_def]
  omega

/-- INTERNAL: the pointer of the TLB benchmarks, up to where the mapping loop has stopped. -/
theorem Maps.sweep_tlb (hmaps : Maps port pages virtEnd) (h : Region port) {iterations : ℕ}
    (hp : p ∈ sweep port.physMemStart virtEnd port.pageSize iterations port.physMemStart) :
    Owned port (mmuOn (maps pages)) p := by
  have hpos : 0 < port.pageSize.toNat := Nat.lt_of_lt_of_le (by decide) h.pageSize_le.1
  have hvirtEnd := hmaps.virtEnd_eq
  -- the bound is the start of the first page that is not mapped
  have hcount {k : ℕ} (hk : port.physMemStart.toNat + k * port.pageSize.toNat < virtEnd.toNat) :
      k < pages.length := by
    rw [hvirtEnd] at hk
    exact Nat.lt_of_mul_lt_mul_right (Nat.lt_of_add_lt_add_left hk)
  have hstep : ∀ k, port.physMemStart.toNat + k * port.pageSize.toNat < virtEnd.toNat →
      port.physMemStart.toNat + (k + 1) * port.pageSize.toNat < 2 ^ w := by
    intro k hk
    have hle : (k + 1) * port.pageSize.toNat ≤ pages.length * port.pageSize.toNat :=
      Nat.mul_le_mul_right _ (hcount hk)
    have hbound := virtEnd.isLt
    omega
  have hfirst : port.physMemStart < virtEnd := by
    have hmem : port.physMemStart ∈ pages :=
      (hmaps.mem_iff _).mpr ⟨0, by rw [Nat.zero_mul, Nat.add_zero], h.nonempty⟩
    have hlength := Nat.mul_pos (List.length_pos_of_mem hmem) hpos
    rw [BitVec.lt_def, hvirtEnd]
    omega
  obtain ⟨hbelow, k, hk⟩ :=
    mem_sweep hfirst hstep ⟨0, by rw [Nat.zero_mul, Nat.add_zero]⟩ hfirst hp
  refine hmaps.owned h ?_ ?_
  · rw [BitVec.le_def]
    omega
  · rw [BitVec.lt_def, hk]
    exact hmaps.lt_end k (hcount (hk ▸ hbelow))

/-- INTERNAL: a load of each of the owned addresses. -/
theorem allOwned_load {init : List (Op w)} {ptrs : List (BitVec w)}
    (h : ∀ p ∈ ptrs, Owned port init p) : AllOwned port init (ptrs.map .load) := by
  intro op hop p hp
  obtain ⟨ptr, hptr, rfl⟩ := List.mem_map.mp hop
  exact Option.some.inj hp ▸ h ptr hptr

/-- INTERNAL: stores, each with an operation on the TLB behind it. -/
theorem allOwned_store {init : List (Op w)} {ptrs : List (BitVec w)} {tlb : BitVec w → Op w}
    (htlb : ∀ ptr, (tlb ptr).dereferenced = none) (h : ∀ p ∈ ptrs, Owned port init p) :
    AllOwned port init (ptrs.flatMap fun ptr => [.store ptr, tlb ptr]) := by
  intro op hop p hp
  obtain ⟨ptr, hptr, hop⟩ := List.mem_flatMap.mp hop
  rw [List.mem_cons, List.mem_singleton] at hop
  obtain rfl | rfl := hop
  · exact Option.some.inj hp ▸ h ptr hptr
  · rw [htlb] at hp
    cases hp

end Kernels

/-- SOURCE: benchmarks/memory/memory-cold.c:7-68, benchmarks/memory/tlb-flush.c:10-57,
benchmarks/memory/tlb-evict.c:8-54 — **the memory benchmarks touch only what they mapped**: each
initialisation ends, and every address the kernel behind it dereferences, however often it
iterates, lies in the physical region and on a page the initialisation has mapped. -/
theorem kernels_owned (port : Port w) (h : Region port) (iterations : ℕ) :
    (∃ enough init, (∀ fuel, enough < fuel → memoryColdKernelMmuInit fuel port = some init) ∧
      AllOwned port init (memoryColdKernel port iterations)) ∧
    (∃ enough statics init,
      (∀ fuel, enough < fuel → tlbFlushKernelMmuInit fuel port = some (statics, init)) ∧
      AllOwned port init (tlbFlushKernelMmu port statics iterations)) ∧
    ∃ enough statics init,
      (∀ fuel, enough < fuel → tlbEvictKernelMmuInit fuel port = some (statics, init)) ∧
      AllOwned port init (tlbEvictKernelMmu port statics iterations) := by
  obtain ⟨pages, virtEnd, hmaps⟩ := h.exists_maps
  have hcold : (port.pageSize.setWidth 32).setWidth w = port.pageSize := by
    apply BitVec.eq_of_toNat_eq
    rw [BitVec.toNat_setWidth, BitVec.toNat_setWidth, Nat.mod_eq_of_lt h.pageSize_le.2,
      Nat.mod_eq_of_lt port.pageSize.isLt]
  have htlb : ∀ fuel, pages.length < fuel → tlbKernelMmuInit fuel port =
      some (⟨port.physMemStart, virtEnd⟩, mmuOn (maps pages)) := by
    intro fuel hfuel
    rw [tlbKernelMmuInit, hmaps.returns fuel hfuel]
    rfl
  refine ⟨⟨pages.length, mmuOn (maps pages), fun fuel hfuel => ?_, ?_⟩,
    ⟨pages.length, ⟨port.physMemStart, virtEnd⟩, mmuOn (maps pages), htlb, ?_⟩,
    ⟨pages.length, ⟨port.physMemStart, virtEnd⟩, mmuOn (maps pages), htlb, ?_⟩⟩
  · rw [memoryColdKernelMmuInit, hcold, hmaps.returns fuel hfuel]
    rfl
  · exact allOwned_load fun p => hmaps.sweep_cold h
  · exact allOwned_store (fun _ => rfl) fun p => hmaps.sweep_tlb h
  · exact allOwned_store (fun _ => rfl) fun p => hmaps.sweep_tlb h

/-- INTERNAL: 32-bit pointers, 1 MiB pages and a region of one and a half pages and a bit. -/
def oddRegion : Port 32 := ⟨0x00100000, 0x00280800, 0x00100000⟩

/-- SOURCE: benchmarks/memory/tlb-flush.c:12-57 — the benchmark on that region. -/
theorem kernels_owned_oddRegion : ∃ fuel statics init,
    tlbFlushKernelMmuInit fuel oddRegion = some (statics, init) ∧
      AllOwned oddRegion init (tlbFlushKernelMmu oddRegion statics 1000) := by
  have hregion : Region oddRegion := ⟨.inr rfl, rfl, by decide, by decide⟩
  obtain ⟨-, ⟨enough, statics, init, hreturns, howned⟩, -⟩ :=
    kernels_owned oddRegion hregion 1000
  exact ⟨enough + 1, statics, init, hreturns _ (Nat.lt_succ_self enough), howned⟩

end Simbench.Analysis.MemoryKernelPages
