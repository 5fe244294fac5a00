import Mathlib.Data.Set.BooleanAlgebra
import Mathlib.Data.Set.Disjoint
import Mathlib.Order.CompletePartialOrder
import Simbench.Program.X86Boot

/-!
# The heap and the boot stack

The stack the boot code sets up grows down from the end of the range that `heap_init` hands
to the page allocator. Call number `i` of a run returns page `i` of that range whatever the
stack does, so it spares the live stack exactly when page `i` ends below the stack pointer.
-/

set_option autoImplicit false

namespace Simbench.Analysis.X86HeapStack

open Simbench.Library.PagedMemory Simbench.Program.X86PageTables Simbench.Program.X86Boot

/-! ## The allocator over a run -/

/-- INTERNAL: the heap once `k` pages have been handed out. -/
structure HeapAt (image : Image) (k : ℕ) (s : Machine) : Prop where
  cur : s.heapCur.toNat = image.heapStart.toNat + k * 4096
  limit : s.heapEnd.toNat = image.heapStart.toNat + 0x40000

/-- INTERNAL: the heap has 256 KiB. -/
theorem toNat_heapSize : heapSize.toNat = 262144 := by decide

/-- INTERNAL: after its initialisation no page has been handed out. -/
theorem heapAt_heapInit (image : Image) (mem : Memory) :
    HeapAt image 0 (heapInit image.heapStart heapSize mem) := by
  have hbounded := image.bounded
  rw [toNat_heapSize] at hbounded
  constructor
  · simp [heapInit]
  · rw [heapInit, BitVec.toNat_add, toNat_heapSize]
    omega

/-- INTERNAL: its end stays where the initialisation puts it. -/
theorem HeapAt.heapEnd_eq {image : Image} {k : ℕ} {s : Machine} (h : HeapAt image k s) :
    s.heapEnd = image.heapStart + heapSize := by
  have hbounded := image.bounded
  rw [toNat_heapSize] at hbounded
  apply BitVec.eq_of_toNat_eq
  rw [h.limit, BitVec.toNat_add, toNat_heapSize]
  omega

/-- INTERNAL: one call: page number `k`, or the abort behind the last page.
SRC: arch/x86_64/heap.c:19-32 -/
theorem heapAllocPage_at {image : Image} {k : ℕ} {s : Machine} (h : HeapAt image k s) :
    (heapAllocPage s = none ∧ 64 ≤ k) ∨ ∃ s', heapAllocPage s = some (s.heapCur, s') ∧ k < 64 ∧
      HeapAt image (k + 1) s' := by
  have hbounded := image.bounded
  have hcur := h.cur
  have hlimit := h.limit
  by_cases hfull : s.heapEnd ≤ s.heapCur
  · left
    refine ⟨by rw [heapAllocPage, if_pos hfull], ?_⟩
    rw [BitVec.le_def] at hfull
    omega
  · right
    have hlt : k < 64 := by
      rw [BitVec.le_def] at hfull
      omega
    refine ⟨{ s with heapCur := s.heapCur + 0x1000, mem := fastZeroPage s.heapCur s.mem },
      by rw [heapAllocPage, if_neg hfull], hlt, ?_, hlimit⟩
    have hpage : (0x1000 : BitVec 64).toNat = 4096 := rfl
    rw [BitVec.toNat_add, hpage]
    omega

/-- INTERNAL: a run of `n` calls returns the next `n` pages, in order. -/
theorem allocPages_at {image : Image} (n : ℕ) {k : ℕ} {s s' : Machine} {pages : List (BitVec 64)}
    (h : HeapAt image k s) (hk : k ≤ 64) (hrun : allocPages n s = some (pages, s')) :
    pages.length = n ∧ k + n ≤ 64 ∧ ∀ i page, pages[i]? = some page →
      page.toNat = image.heapStart.toNat + (k + i) * 4096 := by
  induction n generalizing k s pages with
  | zero =>
    simp only [allocPages, Option.some.injEq, Prod.mk.injEq] at hrun
    obtain ⟨rfl, -⟩ := hrun
    simp [hk]
  | succ n ih =>
    simp only [allocPages, Option.bind_eq_bind, Option.bind_eq_some_iff, Prod.exists,
      Option.some.injEq, Prod.mk.injEq] at hrun
    obtain ⟨page, s₁, halloc, rest, s₂, hrest, rfl, rfl⟩ := hrun
    rcases heapAllocPage_at h with ⟨hnone, -⟩ | ⟨s₁', hsome, hlt, hnext⟩
    · simp [hnone] at halloc
    · rw [halloc, Option.some.injEq, Prod.mk.injEq] at hsome
      obtain ⟨rfl, rfl⟩ := hsome
      obtain ⟨hlength, hroom, hpages⟩ := ih hnext hlt hrest
      refine ⟨by simp [hlength], by omega, fun i page hpage => ?_⟩
      cases i with
      | zero =>
        simp only [List.getElem?_cons_zero, Option.some.injEq] at hpage
        rw [← hpage, h.cur, Nat.add_zero]
      | succ i =>
        simp only [List.getElem?_cons_succ] at hpage
        rw [hpages i page hpage]
        omega

/-- INTERNAL: a run returns as long as the range lasts. -/
theorem allocPages_returns {image : Image} (n : ℕ) {k : ℕ} {s : Machine} (h : HeapAt image k s)
    (hroom : k + n ≤ 64) : ∃ pages s', allocPages n s = some (pages, s') := by
  induction n generalizing k s with
  | zero => exact ⟨[], s, rfl⟩
  | succ n ih =>
    rcases heapAllocPage_at h with ⟨-, hfull⟩ | ⟨s₁, hsome, -, hnext⟩
    · omega
    · obtain ⟨pages, s', hrest⟩ := ih hnext (by omega)
      exact ⟨s.heapCur :: pages, s', by simp [allocPages, hsome, hrest]⟩

/-! ## The live stack -/

/-- INTERNAL: the bytes of the live stack. -/
def LiveStack (image : Image) (rsp : BitVec 64) : Set (BitVec 64) :=
  {a | rsp.toNat ≤ a.toNat ∧ a.toNat < (stackTop image).toNat}

/-- INTERNAL: the 4096 bytes of a page, which `heap_alloc_page` zeroes. -/
def pageBytes (page : BitVec 64) : Set (BitVec 64) :=
  {a | page.toNat ≤ a.toNat ∧ a.toNat < page.toNat + 4096}

/-- INTERNAL: the stack starts where the heap ends. SRC: arch/x86_64/boot.S:30-32 -/
theorem toNat_stackTop (image : Image) :
    (stackTop image).toNat = image.heapStart.toNat + 0x40000 := by
  have hbounded := image.bounded
  rw [toNat_heapSize] at hbounded
  rw [stackTop, start32Esp, BitVec.toNat_setWidth, BitVec.toNat_add, BitVec.toNat_setWidth,
    BitVec.toNat_setWidth, toNat_heapSize]
  omega

/-- INTERNAL: page `i` of the heap spares the live stack iff it ends below it. -/
theorem disjoint_liveStack_iff {image : Image} {page rsp : BitVec 64} {i : ℕ} (hi : i < 64)
    (hpage : page.toNat = image.heapStart.toNat + i * 4096)
    (hlive : rsp.toNat < (stackTop image).toNat) :
    Disjoint (pageBytes page) (LiveStack image rsp) ↔
      image.heapStart.toNat + (i + 1) * 4096 ≤ rsp.toNat := by
  have hbounded := image.bounded
  have htop := toNat_stackTop image
  rw [Set.disjoint_left]
  constructor
  · intro hdisjoint
    by_contra hlow
    -- the higher of the two first bytes lies in both
    by_cases hle : page.toNat ≤ rsp.toNat
    · refine hdisjoint (a := rsp) ⟨hle, ?_⟩ ⟨Nat.le_refl _, hlive⟩
      omega
    · refine hdisjoint (a := page) ⟨Nat.le_refl _, by omega⟩ ⟨by omega, ?_⟩
      omega
  · intro hle a hpageByte hstack
    have h₁ := hpageByte.2
    have h₂ := hstack.1
    omega

/-- SOURCE: arch/x86_64/heap.c:10-32, arch/x86_64/boot.S:29-32 — **heap and boot stack**: in
every run of calls from `heap_init` that return, whatever the stack pointer is at each call
of it, no page returned meets the live stack exactly when every page ends below the stack
pointer of its call. -/
theorem pages_spare_stack_iff (image : Image) (mem : Memory) (n : ℕ) (rsp : ℕ → BitVec 64)
    (hlive : ∀ i < n, (rsp i).toNat < (stackTop image).toNat) (pages : List (BitVec 64))
    (s : Machine) (hrun : allocPages n (heapInit image.heapStart heapSize mem) = some (pages, s)) :
    (∀ i page, pages[i]? = some page → Disjoint (pageBytes page) (LiveStack image (rsp i))) ↔
      ∀ i < n, image.heapStart.toNat + (i + 1) * 0x1000 ≤ (rsp i).toNat := by
  obtain ⟨hlength, hroom, hpages⟩ :=
    allocPages_at n (heapAt_heapInit image mem) (Nat.zero_le _) hrun
  have hspare : ∀ i page, i < n → pages[i]? = some page →
      (Disjoint (pageBytes page) (LiveStack image (rsp i)) ↔
        image.heapStart.toNat + (i + 1) * 4096 ≤ (rsp i).toNat) := by
    intro i page hi hpage
    apply disjoint_liveStack_iff (by omega) _ (hlive i hi)
    rw [hpages i page hpage, Nat.zero_add]
  constructor
  · intro hdisjoint i hi
    have hpage : pages[i]? = some (pages.get ⟨i, by omega⟩) := List.getElem?_eq_getElem _
    exact (hspare i _ hi hpage).mp (hdisjoint i _ hpage)
  · intro hbelow i page hpage
    have hi : i < n := by
      rw [← hlength]
      exact (List.getElem?_eq_some_iff.mp hpage).1
    exact (hspare i page hi hpage).mpr (hbelow i hi)

/-- INTERNAL: three pages under a stack of one page. -/
theorem pages_spare_stack_iff_three : ∃ (pages : List (BitVec 64)) (s : Machine),
    allocPages 3 (heapInit smallImage.heapStart heapSize fun _ => 0xff) = some (pages, s) ∧
    ((∀ (i : ℕ) (page : BitVec 64), pages[i]? = some page →
      Disjoint (pageBytes page) (LiveStack smallImage 0x142000)) ↔
        ∀ i < 3, smallImage.heapStart.toNat + (i + 1) * 0x1000 ≤ (0x142000 : BitVec 64).toNat) := by
  obtain ⟨pages, s, hrun⟩ := allocPages_returns 3 (heapAt_heapInit smallImage fun _ => 0xff)
    (by decide)
  exact ⟨pages, s, hrun, pages_spare_stack_iff smallImage _ 3 (fun _ => 0x142000)
    (fun _ _ => by decide) pages s hrun⟩

/-- INTERNAL: with the stack `arch_start` is entered on, the last page of the heap is the
page that stack lives in. -/
theorem last_page_meets_stack : ¬ ∀ (image : Image) (mem : Memory) (n : ℕ) (rsp : ℕ → BitVec 64),
    (∀ i < n, (rsp i).toNat < (stackTop image).toNat) → ∀ (pages : List (BitVec 64)) (s : Machine),
      allocPages n (heapInit image.heapStart heapSize mem) = some (pages, s) →
        ∀ i page, pages[i]? = some page →
          Disjoint (pageBytes page) (LiveStack image (rsp i)) := by
  intro hclaim
  have hstart := heapAt_heapInit smallImage fun _ => 0
  obtain ⟨pages, s, hrun⟩ := allocPages_returns 64 hstart (by decide)
  obtain ⟨hlength, -, hpages⟩ := allocPages_at 64 hstart (by decide) hrun
  have hpage : pages[63]? = some (pages.get ⟨63, by omega⟩) := List.getElem?_eq_getElem _
  have hdisjoint := hclaim smallImage (fun _ => 0) 64 (fun _ => stackTop smallImage - 16)
    (fun _ _ => by decide) pages s hrun 63 _ hpage
  have hbelow := (disjoint_liveStack_iff (i := 63) (by decide) (by rw [hpages 63 _ hpage, Nat.zero_add])
    (by decide)).mp hdisjoint
  exact absurd hbelow (by decide)

end Simbench.Analysis.X86HeapStack
