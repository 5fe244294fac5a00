import Simbench.Analysis.X86BootTables
import Simbench.Analysis.X86PageTableInvariant
import Simbench.Analysis.X86Startup

/-!
# The two boot paths

How every address translates behind `build_pagetables` and behind `early_mem_init`: the first GiB
to itself, then the page of the LAPIC too, whichever way the CPU's answer made the code go. The
LAPIC has an entry of the second table that both paths leave zero, so its mapping is two new
tables of the heap, and nothing below the first GiB is walked through them.
-/

set_option autoImplicit false

namespace Simbench.Analysis.X86BootPaths

open Simbench.Library.RadixTree Simbench.Library.PagedMemory Simbench.Library.TableWalk
open Simbench.Program
open Simbench.Program.X86Boot (Image heapSize)
open Simbench.Program.X86PageTables hiding Machine
open Simbench.Program.X86Kernel (Halt booted earlyMemInit lapic)
open Simbench.Program.X86BootCode
open Simbench.Analysis.X86PageTableInvariant Simbench.Analysis.X86HeapStack
open Simbench.Analysis.X86BootTables Simbench.Analysis.X86Startup

/-! ## Entries -/

/-- INTERNAL: an entry without its present bit ends a walk. -/
theorem walk_zero (shift : ℕ) (path : List (BitVec 64)) (va : BitVec 64) :
    large 0 = false ∧ table 0 = none ∧ finish shift path 0 va = none := by
  refine ⟨by decide, by decide, ?_⟩
  simp [finish, present]

/-- INTERNAL: the flags of an entry with the flags of the code. -/
theorem entryWord_flags (a : BitVec 64) : present (entryWord a) = true ∧
    writable (entryWord a) = true ∧ user (entryWord a) = true ∧ large (entryWord a) = false := by
  have hlow : ∀ k < 12, (entryWord a).getLsbD k = (7#64).getLsbD k := by
    intro k hk
    have hbase : (base (pageOf a)).getLsbD k = false := by
      rw [BitVec.getLsbD, toNat_base, show (pageOf a).toNat * 4096 = (pageOf a).toNat <<< 12 by
        rw [Nat.shiftLeft_eq], Nat.testBit_shiftLeft]
      simp [show ¬ 12 ≤ k by omega]
    rw [entryWord, BitVec.getLsbD_or, hbase, Bool.or_false]
  unfold present writable user large
  rw [hlow 0 (by decide), hlow 1 (by decide), hlow 2 (by decide), hlow 7 (by decide)]
  decide

/-- INTERNAL: an entry that refers to a table below 2^52 is followed to that table. -/
theorem table_entryWord {c : Page} (h : c.toNat * 4096 < 2 ^ 52) :
    table (entryWord (base c)) = some (base c) := by
  have hframe := (entryWord_fields (a := base c) (by rw [toNat_base]; exact h)).1
  rw [table, if_pos (entryWord_flags _).1, hframe, pageOf_base]

/-- INTERNAL: an entry of the page directory. SRC: arch/x86_64/boot.S:220-230 -/
theorem hugeEntry_fields (i : Slot) :
    (0x83 + 0x200000 * i.setWidth 64 : BitVec 64).toNat = 2 ^ 21 * i.toNat + 0x83 ∧
      present (0x83 + 0x200000 * i.setWidth 64) = true ∧
      writable (0x83 + 0x200000 * i.setWidth 64) = true ∧
      large (0x83 + 0x200000 * i.setWidth 64) = true := by
  have hi := i.isLt
  have hn : (0x83 + 0x200000 * i.setWidth 64 : BitVec 64).toNat = 2 ^ 21 * i.toNat + 0x83 := by
    rw [BitVec.toNat_add, BitVec.toNat_mul, BitVec.toNat_setWidth,
      show (0x83 : BitVec 64).toNat = 0x83 from rfl,
      show (0x200000 : BitVec 64).toNat = 2 ^ 21 from rfl]
    omega
  refine ⟨hn, ?_⟩
  unfold present writable large
  simp only [BitVec.getLsbD, hn]
  rw [Nat.testBit_two_pow_mul_add _ (by decide), Nat.testBit_two_pow_mul_add _ (by decide),
    Nat.testBit_two_pow_mul_add _ (by decide), if_pos (by decide), if_pos (by decide),
    if_pos (by decide)]
  decide

/-! ## Walks of the boot tables -/

/-- INTERNAL: the first GiB, by its indices. -/
theorem gigabyte_slots {va : BitVec 64} (hva : va.toNat < 2 ^ 48) :
    va.toNat < 2 ^ 30 ↔ vaSlot 39 va = 0 ∧ vaSlot 30 va = 0 := by
  simp only [← BitVec.toNat_inj, toNat_vaSlot, show (0 : Slot).toNat = 0 from rfl]
  omega

section Walks

variable {gigabytePages : Bool} {rest : Slot → BitVec 64} {mem : Memory} {va : BitVec 64}

/-- INTERNAL: behind the first 512 GiB there is nothing. -/
theorem cpuWalk_high (h : BootTables gigabytePages rest mem) (hpml : vaSlot 39 va ≠ 0) :
    cpuWalk gigabytePages mem 0x8000 va = none := by
  have hroot : (0x8000 : BitVec 64) &&& frameMask = base pmlPage := by decide
  have hentry := h.pml (vaSlot 39 va)
  rw [if_neg hpml] at hentry
  simp only [cpuWalk, hroot, read_walkIndex mem, hentry, (walk_zero 0 [] va).1,
    (walk_zero 0 [] va).2.1]
  rfl

/-- INTERNAL: the walk in the first 512 GiB, from the second table on. -/
theorem cpuWalk_low (h : BootTables gigabytePages rest mem) (hpml : vaSlot 39 va = 0) :
    cpuWalk gigabytePages mem 0x8000 va =
      (let pdp := view mem pdpPage (vaSlot 30 va)
      if large pdp then (if gigabytePages then finish 30 [0x9003] pdp va else none)
      else do
        let pds ← table pdp
        let pd := mem (wordAddr pds (walkIndex 21 va))
        if large pd then finish 21 [0x9003, pdp] pd va
        else
          let pts ← table pd
          finish 12 [0x9003, pdp, pd] (mem (wordAddr pts (walkIndex 12 va))) va) := by
  have hroot : (0x8000 : BitVec 64) &&& frameMask = base pmlPage := by decide
  have hflags : large 0x9003 = false ∧ table 0x9003 = some (base pdpPage) := by decide
  have hentry := h.pml (vaSlot 39 va)
  rw [if_pos hpml] at hentry
  simp only [cpuWalk, hroot, read_walkIndex mem, hentry, hflags, Bool.false_eq_true, if_false,
    Option.bind_eq_bind, Option.bind_some]

/-- INTERNAL: **the first GiB**, as one page or as 512.
SRC: arch/x86_64/boot.S:198-199,220-230 -/
theorem cpuWalk_gigabyte (h : BootTables gigabytePages rest mem) (hva : va.toNat < 2 ^ 30) :
    cpuWalk gigabytePages mem 0x8000 va = some ⟨va, true, false⟩ := by
  obtain ⟨hpml, hpdp⟩ := (gigabyte_slots (by omega)).mp hva
  have hentry := h.pdp (vaSlot 30 va)
  rw [if_pos hpdp] at hentry
  rw [cpuWalk_low h hpml, hentry]
  cases gigabytePages with
  | true =>
    have hflags : large 0x83 = true ∧ present 0x83 = true ∧ reserved 30 0x83 = 0 ∧
        [0x83, 0x9003].all writable = true ∧ [0x83, 0x9003].all user = false := by decide
    have haddr : pageAddress 30 0x83 va = va := by
      apply BitVec.eq_of_toNat_eq
      rw [pageAddress, show (0x83 : BitVec 64).toNat = 0x83 from rfl, BitVec.toNat_ofNat]
      omega
    simp only [if_true, hflags, finish, haddr, and_self]
  | false =>
    obtain ⟨hn, hpresent, hwritable, hlarge⟩ := hugeEntry_fields (vaSlot 21 va)
    have hpd := h.pd rfl (vaSlot 21 va)
    have hslot := toNat_vaSlot 21 va
    have hflags : large 0xa003 = false ∧ table 0xa003 = some (base pdPage) ∧
        writable 0xa003 = true ∧ writable 0x9003 = true ∧ user 0x9003 = false := by decide
    have hreserved : reserved 21 (0x83 + 0x200000 * (vaSlot 21 va).setWidth 64) = 0 := by
      rw [reserved, hn]
      omega
    have haddr : pageAddress 21 (0x83 + 0x200000 * (vaSlot 21 va).setWidth 64) va = va := by
      apply BitVec.eq_of_toNat_eq
      rw [pageAddress, hn, BitVec.toNat_ofNat, hslot]
      omega
    simp only [Bool.false_eq_true, if_false, hflags, Option.bind_eq_bind, Option.bind_some,
      read_walkIndex mem, hpd, hlarge, if_true, finish, hpresent, hreserved, haddr, and_self,
      List.all_cons, List.all_nil, hwritable, Bool.false_and, Bool.and_false, Bool.and_true]

/-- INTERNAL: an entry of the second table the code has linked a page to. -/
theorem cpuWalk_rest_table (h : BootTables gigabytePages rest mem) (hpml : vaSlot 39 va = 0)
    {c : Page} (hc : c.toNat * 4096 < 2 ^ 52)
    (hentry : view mem pdpPage (vaSlot 30 va) = entryWord (base c)) :
    cpuWalk gigabytePages mem 0x8000 va =
      (let pd := view mem c (vaSlot 21 va)
      if large pd then finish 21 [0x9003, entryWord (base c)] pd va
      else do
        let pts ← table pd
        finish 12 [0x9003, entryWord (base c), pd] (mem (wordAddr pts (walkIndex 12 va))) va) := by
  rw [cpuWalk_low h hpml, hentry]
  simp only [entryWord_flags, Bool.false_eq_true, if_false, table_entryWord hc,
    Option.bind_eq_bind, Option.bind_some, read_walkIndex mem]

/-- INTERNAL: an entry of the second table that was left zero. -/
theorem cpuWalk_rest_zero (h : BootTables gigabytePages rest mem) (hpdp : vaSlot 30 va ≠ 0)
    (hrest : rest (vaSlot 30 va) = 0) : cpuWalk gigabytePages mem 0x8000 va = none := by
  by_cases hpml : vaSlot 39 va = 0
  · have hentry := h.pdp (vaSlot 30 va)
    rw [if_neg hpdp, hrest] at hentry
    rw [cpuWalk_low h hpml, hentry]
    simp only [(walk_zero 0 [] va).1, (walk_zero 0 [] va).2.1]
    rfl
  · exact cpuWalk_high h hpml

end Walks

/-! ## Walks behind `early_mem_init` -/

/-- INTERNAL: the entries of the second table behind `early_mem_init`. -/
def lapicRest (p₁ : Page) (i : Slot) : BitVec 64 := if i = 3 then entryWord (base p₁) else 0

/-- INTERNAL: the two tables `early_mem_init` takes from the heap. -/
structure LapicTables (mem : Memory) (p₁ p₂ : Page) : Prop where
  pd : ∀ i, view mem p₁ i = if i = 0x1f7 then entryWord (base p₂) else 0
  pt : ∀ i, view mem p₂ i = if i = 0 then entryWord lapic else 0
  pd_lt : p₁.toNat * 4096 < 2 ^ 52
  pt_lt : p₂.toNat * 4096 < 2 ^ 52

/-- INTERNAL: the page of the LAPIC, by its indices. -/
theorem lapic_slots {va : BitVec 64} (hva : va.toNat < 2 ^ 48) :
    va.toNat / 4096 = lapic.toNat / 4096 ↔
      vaSlot 39 va = 0 ∧ vaSlot 30 va = 3 ∧ vaSlot 21 va = 0x1f7 ∧ vaSlot 12 va = 0 := by
  have hlapic : lapic.toNat < 2 ^ 48 := by decide
  have hslots : vaSlot 39 lapic = 0 ∧ vaSlot 30 lapic = 3 ∧ vaSlot 21 lapic = 0x1f7 ∧
      vaSlot 12 lapic = 0 := by decide
  rw [← vaPath_eq_iff hva hlapic]
  simp only [vaPath, hslots, List.cons.injEq, and_true]
  tauto

/-- INTERNAL: the last entry of the LAPIC's walk; the first one keeps user code out. -/
theorem finish_lapic (p₁ p₂ : Page) {va : BitVec 64}
    (hpage : va.toNat / 4096 = lapic.toNat / 4096) :
    finish 12 [0x9003, entryWord (base p₁), entryWord (base p₂)] (entryWord lapic) va =
      some ⟨va, true, false⟩ := by
  have hroot : writable 0x9003 = true ∧ user 0x9003 = false := by decide
  have hreserved : reserved 12 (entryWord lapic) = 0 := by decide
  have haddr : pageAddress 12 (entryWord lapic) va = va := by
    have hword : (entryWord lapic).toNat = 0xfee00007 ∧ lapic.toNat = 0xfee00000 := by decide
    apply BitVec.eq_of_toNat_eq
    rw [pageAddress, hword.1, BitVec.toNat_ofNat]
    omega
  simp only [finish, entryWord_flags, hreserved, haddr, hroot, and_self, if_true, List.all_cons,
    List.all_nil, Bool.and_true, Bool.and_false]

/-- INTERNAL: **above the first GiB** there is the page of the LAPIC.
SRC: arch/x86_64/mem.c:208-214 -/
theorem cpuWalk_lapic {gigabytePages : Bool} {mem : Memory} {p₁ p₂ : Page} {va : BitVec 64}
    (h : BootTables gigabytePages (lapicRest p₁) mem) (hl : LapicTables mem p₁ p₂)
    (hva : va.toNat < 2 ^ 48) (hhigh : 2 ^ 30 ≤ va.toNat) :
    cpuWalk gigabytePages mem 0x8000 va =
      if va.toNat / 4096 = lapic.toNat / 4096 then some ⟨va, true, false⟩ else none := by
  have hentry : vaSlot 30 va = 3 → view mem pdpPage (vaSlot 30 va) = entryWord (base p₁) := by
    intro hpdp
    rw [hpdp, h.pdp, if_neg (by decide), lapicRest, if_pos rfl]
  by_cases hpage : va.toNat / 4096 = lapic.toNat / 4096
  · obtain ⟨hpml, hpdp, hpdSlot, hptSlot⟩ := (lapic_slots hva).mp hpage
    rw [if_pos hpage, cpuWalk_rest_table h hpml hl.pd_lt (hentry hpdp), hl.pd, if_pos hpdSlot]
    simp only [entryWord_flags, Bool.false_eq_true, if_false, table_entryWord hl.pt_lt,
      Option.bind_eq_bind, Option.bind_some, read_walkIndex mem, hl.pt, if_pos hptSlot,
      finish_lapic p₁ p₂ hpage]
  · rw [if_neg hpage]
    have hslots := fun hs => hpage ((lapic_slots hva).mpr hs)
    by_cases hpml : vaSlot 39 va = 0
    case neg => exact cpuWalk_high h hpml
    by_cases hpdp : vaSlot 30 va = 3
    case neg =>
      have hfirst : vaSlot 30 va ≠ 0 := fun hzero =>
        Nat.not_lt.mpr hhigh ((gigabyte_slots hva).mpr ⟨hpml, hzero⟩)
      exact cpuWalk_rest_zero h hfirst (if_neg hpdp)
    rw [cpuWalk_rest_table h hpml hl.pd_lt (hentry hpdp), hl.pd]
    by_cases hpdSlot : vaSlot 21 va = 0x1f7
    case neg =>
      rw [if_neg hpdSlot]
      rfl
    have hptSlot : vaSlot 12 va ≠ 0 := fun hpt => hslots ⟨hpml, hpdp, hpdSlot, hpt⟩
    simp only [if_pos hpdSlot, entryWord_flags, Bool.false_eq_true, if_false,
      table_entryWord hl.pt_lt, Option.bind_eq_bind, Option.bind_some, read_walkIndex mem, hl.pt,
      if_neg hptSlot, (walk_zero 12 _ va).2.2]

/-! ## `early_mem_init` -/

/-- INTERNAL: an empty entry gets the next page of the heap, cleared.
SRC: arch/x86_64/mem.c:171-178 -/
theorem populate_heap {image : Image} {k : ℕ} {s : X86PageTables.Machine} (h : HeapAt image k s)
    (hk : k < 64) {t : Page} {i : Slot} (hzero : view s.mem t i = 0) :
    ∃ (c : Page) (s' : X86PageTables.Machine), populate (slotAddr t i) s = some s' ∧
      c.toNat * 4096 = image.heapStart.toNat + k * 4096 ∧
      view s'.mem = graft (view s.mem) t i c (entryWord (base c)) (fun _ => 0) ∧
      HeapAt image (k + 1) s' := by
  have hbounded := image.bounded
  have haligned := image.heapAligned
  have hcur := h.cur
  have hlimit := h.limit
  rcases heapAllocPage_at h with ⟨-, hfull⟩ | ⟨s₁, halloc, -, h₁⟩
  · omega
  · obtain ⟨hpage, hs₁, -, -⟩ := heapAllocPage_spec (by omega) (by omega) halloc
    refine ⟨pageOf s.heapCur, _, populate_alloc hzero halloc, ?_, ?_, h₁.cur, h₁.limit⟩
    · rw [toNat_pageOf]
      omega
    · rw [hs₁, hpage, view_update, fastZeroPage, view_updateWords, pageOf_base]
      rfl

/-- INTERNAL: the tables with the LAPIC mapped. -/
def lapicMapped (T : Page → Slot → BitVec 64) (p₁ p₂ : Page) : Page → Slot → BitVec 64 :=
  setEntry (graft (graft T pdpPage 3 p₁ (entryWord (base p₁)) fun _ => 0) p₁ 0x1f7 p₂
    (entryWord (base p₂)) fun _ => 0) p₂ 0 (entryWord lapic)

/-- INTERNAL: the two new tables lie behind the image. -/
structure BehindImage (p₁ p₂ : Page) : Prop where
  first : 0x100 ≤ p₁.toNat
  second : p₂.toNat = p₁.toNat + 1
  bounded : p₂.toNat * 4096 < 2 ^ 52

/-- INTERNAL: pages with different numbers are different. -/
theorem page_ne {p q : Page} (h : p.toNat ≠ q.toNat) : p ≠ q := fun he => h (congrArg _ he)

/-- INTERNAL: the two new tables are two. -/
theorem BehindImage.ne {p₁ p₂ : Page} (h : BehindImage p₁ p₂) : p₁ ≠ p₂ := by
  have hsecond := h.second
  exact page_ne (by omega)

/-- INTERNAL: the heap lies behind the first MiB, as the text does. -/
theorem heapStart_ge (image : Image) : 0x100000 ≤ image.heapStart.toNat := by
  have htext := image.text_le
  have hdata := image.data_le
  have hdata' := image.data_lt
  have hend := image.heap_le
  rw [show X86Boot.textStart.toNat = 0x100000 from rfl] at htext
  omega

/-- INTERNAL: the first two pages of the heap lie behind the image. -/
theorem behindImage_of_heap {image : Image} {p₁ p₂ : Page}
    (h₁ : p₁.toNat * 4096 = image.heapStart.toNat)
    (h₂ : p₂.toNat * 4096 = image.heapStart.toNat + 4096) : BehindImage p₁ p₂ := by
  have hbehind := heapStart_ge image
  have hbounded := image.bounded
  exact ⟨by omega, by omega, by omega⟩

/-- INTERNAL: **mapping the LAPIC** in the boot tables: the entry of the first GiB's table is
followed, the two below are new: the first two pages of the heap. SRC: arch/x86_64/mem.c:155-191 -/
theorem createPageMapping_lapic {image : Image} {gigabytePages : Bool}
    {s : X86PageTables.Machine} (hheap : HeapAt image 0 s)
    (h : BootTables gigabytePages (fun _ => 0) s.mem) :
    ∃ s' p₁ p₂, createPageMapping 0x8000 lapic lapic s = some s' ∧ HeapAt image 2 s' ∧
      p₁.toNat * 4096 = image.heapStart.toNat ∧ p₂.toNat * 4096 = image.heapStart.toNat + 4096 ∧
      view s'.mem = lapicMapped (view s.mem) p₁ p₂ := by
  have hbehind := heapStart_ge image
  have hfollow : ∀ (t p : Page) (i : Slot) (m : Memory), view m t i = entryWord (base p) →
      getBaseAddress (slotAddr t i) m = base p := by
    intro t p i m hentry
    rw [getBaseAddress, show m (slotAddr t i) = _ from hentry, entryWord_base, pageOf_base]
  have hslots : vaSlot 30 lapic = 3 ∧ vaSlot 21 lapic = 0x1f7 ∧ vaSlot 12 lapic = 0 := by decide
  -- the first level is there
  have hpmlAddr : wordAddr 0x8000 (tableIndex 39 lapic) = slotAddr pmlPage 0 := by decide
  have hpmlEntry : s.mem (slotAddr pmlPage 0) = 0x9003 := h.pml 0
  have hpml : populate (slotAddr pmlPage 0) s = some s := by
    rw [populate, if_pos (isPresent_of_bit (by rw [hpmlEntry]; decide))]
  have hpdps : getBaseAddress (slotAddr pmlPage 0) s.mem = base pdpPage := by
    rw [getBaseAddress, hpmlEntry]
    decide
  -- the second has an empty entry, and so has the page linked there
  obtain ⟨p₁, s₁, hpdp, hp₁, hview₁, hheap₁⟩ := populate_heap hheap (by decide) (h.pdp 3)
  have hpds := hfollow pdpPage p₁ 3 s₁.mem (by rw [hview₁, graft_self])
  have hempty : view s₁.mem p₁ 0x1f7 = 0 := by
    have hpdpNat : pdpPage.toNat = 9 := rfl
    rw [hview₁, graft_child]
    rintro ⟨he, -⟩
    exact page_ne (by omega) he
  obtain ⟨p₂, s₂, hpd, hp₂, hview₂, hheap₂⟩ := populate_heap hheap₁ (by decide) hempty
  have hpts := hfollow p₁ p₂ 0x1f7 s₂.mem (by rw [hview₂, graft_self])
  refine ⟨{ s₂ with mem := Function.update s₂.mem (slotAddr p₂ 0) (entryWord lapic) }, p₁, p₂,
    ?_, ⟨hheap₂.cur, hheap₂.limit⟩, by rw [hp₁, Nat.zero_mul, Nat.add_zero],
    by rw [hp₂, Nat.zero_add, Nat.one_mul], ?_⟩
  · simp only [createPageMapping, calculateIndicies, hpmlAddr, hpml, hpdps, wordAddr_tableIndex,
      hslots, hpdp, hpds, hpd, hpts, setFlags_setBaseAddress, Option.bind_eq_bind, Option.bind_some]
  · dsimp only
    rw [view_update, hview₂, hview₁, lapicMapped]

section Mapped

variable {gigabytePages : Bool} {mem mem' : Memory} {p₁ p₂ : Page}

/-- INTERNAL: the boot tables lie below the image and keep all their entries but the LAPIC's. -/
theorem bootTables_lapicMapped (h : BootTables gigabytePages (fun _ => 0) mem)
    (hpages : BehindImage p₁ p₂) (hview : view mem' = lapicMapped (view mem) p₁ p₂) :
    BootTables gigabytePages (lapicRest p₁) mem' := by
  have hfirst := hpages.first
  have hsecond := hpages.second
  have hboot : pmlPage.toNat = 8 ∧ pdpPage.toNat = 9 ∧ pdPage.toNat = 10 := by decide
  have hgraft : ∀ p j, p.toNat < 0x100 → view mem' p j =
      graft (view mem) pdpPage 3 p₁ (entryWord (base p₁)) (fun _ => 0) p j := by
    intro p j hp
    rw [hview, lapicMapped, setEntry_of_ne _ _ _ _ fun he => page_ne (by omega) he.1,
      graft_of_ne _ _ _ _ _ _ (fun he => page_ne (by omega) he.1) (page_ne (by omega))]
  have hkeep : ∀ p j, p.toNat < 0x100 → ¬ (p = pdpPage ∧ j = 3) → view mem' p j = view mem p j := by
    intro p j hp hother
    rw [hgraft p j hp, graft_of_ne _ _ _ _ _ _ hother (page_ne (by omega))]
  refine ⟨fun i => ?_, fun i => ?_, fun hgigabyte i => ?_⟩
  · rw [hkeep _ _ (by omega) fun he => page_ne (by omega) he.1, h.pml]
  · by_cases hi : i = 3
    · rw [hi, hgraft _ _ (by omega), graft_self, if_neg (by decide), lapicRest, if_pos rfl]
    · rw [hkeep _ _ (by omega) fun he => hi he.2, h.pdp, lapicRest, if_neg hi]
  · rw [hkeep _ _ (by omega) fun he => page_ne (by omega) he.1, h.pd hgigabyte]

/-- INTERNAL: the tables with the LAPIC mapped have its two new tables as they should be. -/
theorem lapicTables_lapicMapped (hpages : BehindImage p₁ p₂)
    (hview : view mem' = lapicMapped (view mem) p₁ p₂) : LapicTables mem' p₁ p₂ := by
  have hfirst := hpages.first
  have hsecond := hpages.second
  have hbounded := hpages.bounded
  have hlt : p₁.toNat * 4096 < 2 ^ 52 :=
    Nat.lt_of_le_of_lt (Nat.mul_le_mul_right _ (by omega)) hbounded
  have hpdpNat : pdpPage.toNat = 9 := rfl
  have hclear : ∀ j, graft (view mem) pdpPage 3 p₁ (entryWord (base p₁)) (fun _ => 0) p₁ j = 0 := by
    intro j
    rw [graft_child]
    rintro ⟨he, -⟩
    exact page_ne (by omega) he
  refine ⟨fun i => ?_, fun i => ?_, hlt, hbounded⟩
  · rw [hview, lapicMapped, setEntry_of_ne _ _ _ _ fun he => hpages.ne he.1]
    split
    case isTrue hi => rw [hi, graft_self]
    case isFalse hi =>
      rw [graft_of_ne _ _ _ _ _ _ (fun he => hi he.2) hpages.ne, hclear]
  · rw [hview, lapicMapped]
    split
    case isTrue hi => rw [hi, setEntry_self]
    case isFalse hi =>
      rw [setEntry_of_ne _ _ _ _ fun he => hi he.2,
        graft_child _ _ _ _ _ _ fun he => hpages.ne he.1.symm]

end Mapped

/-! ## Both paths -/

/-- INTERNAL: `build_pagetables` returns tables of the first GiB. -/
theorem translateAtBoot_eq {fuel : ℕ} (hfuel : 0x200 ≤ fuel) (edx : BitVec 32) (mem : Memory)
    {va : BitVec 64} (hva : va.toNat < 2 ^ 48) :
    translateAtBoot fuel edx mem va =
      some (if va.toNat < 2 ^ 30 then some ⟨va, true, false⟩ else none) := by
  have htables := bootTables_buildPagetables (reportsGigabytePages edx) mem
  rw [translateAtBoot, buildPagetables_eq hfuel]
  show some (cpuWalk _ _ 0x8000 va) = _
  congr 1
  split
  case isTrue hlow => exact cpuWalk_gigabyte htables hlow
  case isFalse hhigh =>
    by_cases hpml : vaSlot 39 va = 0
    · have hfirst : vaSlot 30 va ≠ 0 := fun hzero =>
        hhigh ((gigabyte_slots hva).mpr ⟨hpml, hzero⟩)
      exact cpuWalk_rest_zero htables hfirst rfl
    · exact cpuWalk_high htables hpml

/-- INTERNAL: `early_mem_init` returns, and adds the page of the LAPIC. -/
theorem translateAtStart_eq (image : Image) {fuel : ℕ} (hfuel : 0x200 ≤ fuel) (edx : BitVec 32)
    (mem : Memory) {va : BitVec 64} (hva : va.toNat < 2 ^ 48) :
    translateAtStart image fuel edx mem va =
      some (.ok (if va.toNat < 2 ^ 30 ∨ va.toNat / 0x1000 = lapic.toNat / 0x1000 then
        some ⟨va, true, false⟩ else none)) := by
  have htables := bootTables_buildPagetables (reportsGigabytePages edx) mem
  obtain ⟨s', p₁, p₂, hmap, hheap, hp₁, hp₂, hview⟩ :=
    createPageMapping_lapic (heapAt_heapInit image _) htables
  have hpages := behindImage_of_heap hp₁ hp₂
  have hboot := bootTables_lapicMapped htables hpages hview
  have hlapic := lapicTables_lapicMapped hpages hview
  have hinit := earlyMemInit_of_mapping (s := { booted (reportsGigabytePages edx) mem with
    pages := heapInit image.heapStart heapSize
      (X86Boot.buildPagetables (reportsGigabytePages edx) mem) }) hmap hheap (by decide)
  rw [translateAtStart, buildPagetables_eq hfuel]
  show some (earlyMemInit _ >>= _) = _
  rw [hinit]
  show some (Except.ok (cpuWalk _ s'.mem 0x8000 va)) = _
  congr 2
  by_cases hlow : va.toNat < 2 ^ 30
  · rw [if_pos (Or.inl hlow), cpuWalk_gigabyte hboot hlow]
  · simp only [hlow, false_or]
    exact cpuWalk_lapic hboot hlapic hva (by omega)

/-- SOURCE: arch/x86_64/boot.S:160-232, arch/x86_64/mem.c:155-191,208-214 — **the boot paths**:
whatever `cpuid` answers and whatever memory holds, `build_pagetables` returns, and every 48-bit
address translates as behind any other answer: below 1 GiB to itself, writable, and above not at
all; `early_mem_init` returns too, and what it adds is the page of the LAPIC, to itself. -/
theorem boot_paths_interchangeable (image : Image) (fuel : ℕ) (hfuel : 0x200 ≤ fuel)
    (edx edx' : BitVec 32) (mem mem' : Memory) (va : BitVec 64) (hva : va.toNat < 2 ^ 48) :
    (translateAtBoot fuel edx mem va = translateAtBoot fuel edx' mem' va ∧
      translateAtBoot fuel edx mem va =
        some (if va.toNat < 2 ^ 30 then some ⟨va, true, false⟩ else none)) ∧
    (translateAtStart image fuel edx mem va = translateAtStart image fuel edx' mem' va ∧
      translateAtStart image fuel edx mem va =
        some (.ok (if va.toNat < 2 ^ 30 ∨ va.toNat / 0x1000 = lapic.toNat / 0x1000 then
          some ⟨va, true, false⟩ else none))) := by
  have hboot := translateAtBoot_eq hfuel edx mem hva
  have hboot' := translateAtBoot_eq hfuel edx' mem' hva
  have hstart := translateAtStart_eq image hfuel edx mem hva
  have hstart' := translateAtStart_eq image hfuel edx' mem' hva
  exact ⟨⟨hboot.trans hboot'.symm, hboot⟩, hstart.trans hstart'.symm, hstart⟩

/-- INTERNAL: a register of the LAPIC, on a CPU with pages of 1 GiB and on one without. -/
theorem boot_paths_interchangeable_lapic :
    reportsGigabytePages 0x4000000 = true ∧ reportsGigabytePages 0 = false ∧
    translateAtBoot 0x200 0x4000000 (fun _ => 0xff) 0xfee00310 = some none ∧
    translateAtBoot 0x200 0 (fun a => a) 0xfee00310 = some none ∧
    translateAtStart X86Boot.smallImage 0x200 0x4000000 (fun _ => 0xff) 0xfee00310 =
      some (.ok (some ⟨0xfee00310, true, false⟩)) ∧
    translateAtStart X86Boot.smallImage 0x200 0 (fun a => a) 0xfee00310 =
      some (.ok (some ⟨0xfee00310, true, false⟩)) := by
  obtain ⟨⟨hboot, hvalue⟩, hstart, hvalue'⟩ := boot_paths_interchangeable X86Boot.smallImage 0x200
    (by decide) 0x4000000 0 (fun _ => 0xff) (fun a => a) 0xfee00310 (by decide)
  rw [if_neg (by decide)] at hvalue
  rw [if_pos (by decide)] at hvalue'
  exact ⟨by decide, by decide, hvalue, hboot ▸ hvalue, hvalue', hstart ▸ hvalue'⟩

end Simbench.Analysis.X86BootPaths
