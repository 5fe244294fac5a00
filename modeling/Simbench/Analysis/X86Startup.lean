import Simbench.Analysis.X86HeapStack
import Simbench.Program.X86Kernel

/-!
# What `arch_init` leaves

Mapping the LAPIC in the initial page tables takes at most three pages and the interrupt table
one, so `arch_init` returns, with at most four pages of the heap in use, at the initial tables
and with the default handlers.
-/

set_option autoImplicit false

namespace Simbench.Analysis.X86Startup

open Simbench.Library.PagedMemory Simbench.Program Simbench.Program.X86Boot
open Simbench.Program.X86PageTables hiding Machine
open Simbench.Program.X86Kernel Simbench.Analysis.X86HeapStack

/-! ## The last page -/

section LastPage

variable {image : Image} {k : ℕ}

/-- INTERNAL: a step goes on as long as the last page of the heap is left.
SRC: arch/x86_64/heap.c:19-32 -/
theorem onHeap_of_heapAt {α : Type} {pages : α → X86PageTables.Machine} {a : α}
    (h : HeapAt image k (pages a)) (hk : k < 64) : onHeap pages (some a) = .ok a := by
  have hcur := h.cur
  have hlimit := h.limit
  rw [onHeap, if_pos]
  rw [BitVec.lt_def]
  omega

/-- INTERNAL: behind the last page it does not. SRC: arch/x86_64/heap.c:19-32 -/
theorem onHeap_of_full {α : Type} {pages : α → X86PageTables.Machine} {a : α}
    (h : HeapAt image k (pages a)) (hk : 64 ≤ k) :
    onHeap pages (some a) = .error .heapExhausted := by
  have hcur := h.cur
  have hlimit := h.limit
  rw [onHeap, if_neg]
  rw [BitVec.lt_def]
  omega

/-- INTERNAL: **why the run ends there**: with a stack that lies in the last page, an allocation
goes on exactly when its page spares the live stack. SRC: arch/x86_64/boot.S:30-32;
arch/x86_64/util.S:1-7 -/
theorem onHeap_heapAllocPage_iff {s : X86PageTables.Machine} (h : HeapAt image k s) (hk : k < 64)
    {rsp : BitVec 64} (hlow : image.heapStart.toNat + 63 * 4096 ≤ rsp.toNat)
    (hlive : rsp.toNat < (stackTop image).toNat) :
    (∃ r, onHeap Prod.snd (heapAllocPage s) = .ok r) ↔
      Disjoint (pageBytes s.heapCur) (LiveStack image rsp) := by
  rw [disjoint_liveStack_iff hk h.cur hlive]
  rcases heapAllocPage_at h with ⟨-, hfull⟩ | ⟨s', hsome, -, hnext⟩
  · omega
  · rw [hsome]
    by_cases hlast : k + 1 < 64
    · have hgoes : onHeap Prod.snd (some (s.heapCur, s')) = .ok (s.heapCur, s') :=
        onHeap_of_heapAt hnext hlast
      have hle : (k + 1) * 4096 ≤ 63 * 4096 := Nat.mul_le_mul_right 4096 (Nat.le_of_lt_succ hlast)
      have hspared := (Nat.add_le_add_left hle image.heapStart.toNat).trans hlow
      exact iff_of_true ⟨_, hgoes⟩ hspared
    · have hfull := Nat.le_of_not_lt hlast
      have hends : onHeap Prod.snd (some (s.heapCur, s')) = .error .heapExhausted :=
        onHeap_of_full hnext hfull
      have htop := toNat_stackTop image
      refine iff_of_false ?_ (by omega)
      rintro ⟨r, hgoes⟩
      cases hends.symm.trans hgoes

end LastPage

/-! ## Pages -/

section Pages

variable {image : Image} {k : ℕ} {s : X86PageTables.Machine}

/-- INTERNAL: a step that takes at most `n` pages. -/
def TakesAtMost (image : Image) (k n : ℕ) (r : Option X86PageTables.Machine) : Prop :=
  ∃ k' s', r = some s' ∧ k' ≤ k + n ∧ HeapAt image k' s'

/-- INTERNAL: steps one after the other take their pages together. -/
theorem TakesAtMost.bind {n m : ℕ} {r : Option X86PageTables.Machine}
    {f : X86PageTables.Machine → Option X86PageTables.Machine} (h : TakesAtMost image k n r)
    (hf : ∀ k₁ s₁, k₁ ≤ k + n → HeapAt image k₁ s₁ → TakesAtMost image k₁ m (f s₁)) :
    TakesAtMost image k (n + m) (r.bind f) := by
  obtain ⟨k₁, s₁, rfl, hle₁, h₁⟩ := h
  obtain ⟨k₂, s₂, h₂, hle₂, hheap₂⟩ := hf k₁ s₁ hle₁ h₁
  exact ⟨k₂, s₂, h₂, by omega, hheap₂⟩

/-- INTERNAL: filling an entry takes one page at most. -/
theorem populate_takes (h : HeapAt image k s) (hroom : k < 64) (pte : BitVec 64) :
    TakesAtMost image k 1 (populate pte s) := by
  unfold populate
  split
  · exact ⟨k, s, rfl, by omega, h⟩
  · split
    · rcases heapAllocPage_at h with ⟨-, hfull⟩ | ⟨s₁, hsome, -, h₁⟩
      · omega
      · rw [hsome]
        exact ⟨k + 1, _, rfl, by omega, h₁.cur, h₁.limit⟩
    · exact ⟨k, _, rfl, by omega, h.cur, h.limit⟩

/-- INTERNAL: a mapping call takes at most a page a level, in any tables.
SRC: arch/x86_64/mem.c:155-191 -/
theorem createPageMapping_takes (h : HeapAt image k s) (hroom : k + 3 ≤ 64)
    (pml4 pa va : BitVec 64) :
    TakesAtMost image k 3 (createPageMapping pml4 pa va s) := by
  unfold createPageMapping
  refine TakesAtMost.bind (n := 1) (m := 2) (populate_takes h (by omega) _) fun k₁ s₁ hle₁ h₁ => ?_
  refine TakesAtMost.bind (n := 1) (m := 1) (populate_takes h₁ (by omega) _) fun k₂ s₂ hle₂ h₂ => ?_
  refine TakesAtMost.bind (n := 1) (m := 0) (populate_takes h₂ (by omega) _) fun k₃ s₃ hle₃ h₃ => ?_
  exact ⟨k₃, _, rfl, by omega, h₃.cur, h₃.limit⟩

end Pages

/-! ## `arch_init` -/

/-- INTERNAL: the machine `arch_init` leaves: at most four pages taken, `mem_init` not yet called,
the boot tables in force and the default page fault handler installed. -/
structure Started (image : Image) (s : Machine) : Prop where
  heap : ∃ k ≤ 4, HeapAt image k s.pages
  memInited : s.memInited = false
  initialPagetables : s.initialPagetables = initPgt
  cr3 : s.cr3 = s.initialPagetables
  handler : s.pageFaultHandlerFn = .defaultPageFaultHandler

/-- INTERNAL: `early_mem_init` is the mapping call. SRC: arch/x86_64/mem.c:208-214 -/
theorem earlyMemInit_of_mapping {image : Image} {k : ℕ} {s : Machine}
    {pages : X86PageTables.Machine}
    (h : createPageMapping 0x8000 lapic lapic s.pages = some pages) (hpages : HeapAt image k pages)
    (hk : k < 64) :
    earlyMemInit s = .ok { s with pages := pages, initialPagetables := 0x8000 } := by
  rw [earlyMemInit]
  show (onHeap id (createPageMapping 0x8000 lapic lapic s.pages) >>= _) = _
  have hgoes : onHeap id (some pages) = .ok pages := onHeap_of_heapAt hpages hk
  rw [h, hgoes]
  rfl

/-- INTERNAL: `arch_init` returns. SRC: arch/x86_64/arch.c:12-18; arch/x86_64/irq.c:144-185 -/
theorem archInit_started (image : Image) (traps : Trap → BitVec 64) (gigabytePages : Bool)
    (mem : Memory) :
    ∃ s, archInit image traps (booted gigabytePages mem) = .ok s ∧ Started image s := by
  have hstart := heapAt_heapInit image (booted gigabytePages mem).pages.mem
  obtain ⟨k, pages, hmap, hk, hpages⟩ :=
    createPageMapping_takes hstart (by decide) 0x8000 lapic lapic
  rcases heapAllocPage_at hpages with ⟨-, hfull⟩ | ⟨pages₁, halloc, -, hpages₁⟩
  · omega
  · have hinit : ∃ mem', archInit image traps (booted gigabytePages mem) =
        .ok { booted gigabytePages mem with
          pages := { pages₁ with mem := mem' }, initialPagetables := 0x8000 } := by
      have hearly := earlyMemInit_of_mapping (s := { booted gigabytePages mem with
        pages := heapInit image.heapStart heapSize (booted gigabytePages mem).pages.mem }) hmap
          hpages (by omega)
      unfold archInit
      show ∃ mem', (earlyMemInit _ >>= irqInit traps) = _
      erw [hearly]
      show ∃ mem', irqInit traps _ = _
      unfold irqInit
      show ∃ mem', (onHeap Prod.snd (heapAllocPage pages) >>= _) = _
      have hgoes : onHeap Prod.snd (some (pages.heapCur, pages₁)) = .ok (pages.heapCur, pages₁) :=
        onHeap_of_heapAt hpages₁ (by omega)
      rw [halloc, hgoes]
      exact ⟨_, rfl⟩
    obtain ⟨mem', hinit⟩ := hinit
    exact ⟨_, hinit, ⟨k + 1, by omega, hpages₁.cur, hpages₁.limit⟩, rfl, rfl, rfl, rfl⟩

end Simbench.Analysis.X86Startup
