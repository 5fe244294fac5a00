import Simbench.Program.X86BootCode

/-!
# What `build_pagetables` leaves

Every store of the code goes to a word the code has cleared, so the 32-bit stores and the loop
leave the tables `X86Boot` describes word by word. Of these three pages, the first has one entry,
the second has one entry, and the third is full when there are no pages of 1 GiB.
-/

set_option autoImplicit false

namespace Simbench.Analysis.X86BootTables

open Simbench.Library.RadixTree Simbench.Library.PagedMemory Simbench.Library.NarrowStores
open Simbench.Library.Loops
open Simbench.Program
open Simbench.Program.X86Boot (mapHugePages)
open Simbench.Program.X86BootCode

/-! ## Pages -/

/-- INTERNAL: the page of the first table, at `INIT_PGT`. SRC: arch/x86_64/boot.S:120 -/
def pmlPage : Page := 0x8

/-- INTERNAL: the page of the second table. SRC: arch/x86_64/boot.S:170-179 -/
def pdpPage : Page := 0x9

/-- INTERNAL: the page of the third table. SRC: arch/x86_64/boot.S:209-218 -/
def pdPage : Page := 0xa

/-- INTERNAL: a table begins at its first slot. -/
theorem base_eq_slotAddr (p : Page) : base p = slotAddr p 0 := by
  apply BitVec.eq_of_toNat_eq
  rw [toNat_base, toNat_slotAddr, show (0 : Slot).toNat = 0 from rfl, Nat.zero_mul, Nat.add_zero]

/-- INTERNAL: the three tables cleared. SRC: arch/x86_64/boot.S:164-168,175-179,214-218 -/
theorem repStosl_pages (mem : Memory) :
    repStosl 0 0x400 initPgt mem = updateWords (fun _ => 0) (base pmlPage) 0x200 mem ∧
      repStosl 0 0x400 (initPgt + 0x1000) mem =
        updateWords (fun _ => 0) (base pdpPage) 0x200 mem ∧
      repStosl 0 0x400 (initPgt + 0x2000) mem =
        updateWords (fun _ => 0) (base pdPage) 0x200 mem := by
  have hpage : ∀ (table : BitVec 32) (p : Page), table.setWidth 64 = base p →
      table.toNat % 8 = 0 → table.toNat + 4096 ≤ 2 ^ 32 →
      repStosl 0 0x400 table mem = updateWords (fun _ => 0) (base p) 0x200 mem := by
    intro table p hbase halign hfit
    rw [← hbase]
    exact repStosl_eq_updateWords halign 0x200 (by omega) mem
  exact ⟨hpage _ _ (by decide) (by decide) (by decide),
    hpage _ _ (by decide) (by decide) (by decide), hpage _ _ (by decide) (by decide) (by decide)⟩

/-- INTERNAL: a store into a cleared word of a table. -/
theorem mov_slot {n : ℕ} {a : BitVec 32} {p : Page} {i : Slot} {mem : Memory}
    (ha : a.setWidth 64 = slotAddr p i) (hzero : view mem p i = 0) (v : BitVec n) :
    mov a v mem = Function.update mem (slotAddr p i) (v.setWidth 64) := by
  rw [mov, ha]
  refine storePart_of_zero ?_ hzero v
  rw [toNat_slotAddr]
  omega

/-! ## The loop -/

/-- INTERNAL: the address of an entry of the page directory. -/
theorem wordAddr_pd {n : ℕ} (hn : n < 512) :
    wordAddr (X86Boot.initPgt + 0x2000) (BitVec.ofNat 32 n) =
      slotAddr pdPage (BitVec.ofNat 9 n) := by
  have hpage : X86Boot.initPgt + 0x2000 = base pdPage := by decide
  have hindex : (BitVec.ofNat 32 n).toNat = n := by
    rw [BitVec.toNat_ofNat]
    omega
  rw [hpage, wordAddr_base _ _ (by omega)]
  congr 1
  apply BitVec.eq_of_toNat_eq
  rw [BitVec.toNat_setWidth, hindex, BitVec.toNat_ofNat]

/-- INTERNAL: the entries the loop has reached; the rest of memory is unchanged. -/
theorem view_mapHugePages (mem : Memory) {n : ℕ} (hn : n ≤ 512) (p : Page) (i : Slot) :
    view (mapHugePages n mem) p i =
      if p = pdPage ∧ i.toNat < n then 0x83 + 0x200000 * i.setWidth 64 else view mem p i := by
  induction n with
  | zero => simp [mapHugePages]
  | succ n ih =>
    have hslot : (BitVec.ofNat 9 n).toNat = n := by
      rw [BitVec.toNat_ofNat]
      omega
    rw [mapHugePages, wordAddr_pd (by omega), view_update]
    by_cases hnow : p = pdPage ∧ i = BitVec.ofNat 9 n
    · obtain ⟨rfl, rfl⟩ := hnow
      have hvalue : BitVec.ofNat 64 n = (BitVec.ofNat 9 n).setWidth 64 := by
        apply BitVec.eq_of_toNat_eq
        rw [BitVec.toNat_setWidth, hslot, BitVec.toNat_ofNat]
      rw [setEntry_self, if_pos ⟨rfl, by omega⟩, hvalue]
    · rw [setEntry_of_ne _ _ _ _ hnow, ih (by omega)]
      have hiff : (p = pdPage ∧ i.toNat < n) ↔ (p = pdPage ∧ i.toNat < n + 1) := by
        constructor
        · rintro ⟨hp, hi⟩
          exact ⟨hp, by omega⟩
        · rintro ⟨hp, hi⟩
          refine ⟨hp, ?_⟩
          rcases Nat.lt_succ_iff_lt_or_eq.mp hi with hlt | heq
          · exact hlt
          · exact absurd ⟨hp, BitVec.eq_of_toNat_eq (heq.trans hslot.symm)⟩ hnow
      simp only [hiff]

/-- INTERNAL: the registers and the memory behind `n` rounds of the loop over the 2 MiB pages. -/
def roundsDone (mem : Memory) (n : ℕ) : LoopState where
  eax := BitVec.ofNat 32 (0x83 + 0x200000 * n)
  ecx := BitVec.ofNat 32 n
  mem := mapHugePages n mem

/-- INTERNAL: **one round** of the loop on a cleared directory: `%eax` and `%ecx` move in step, and
the high half of the entry is left zero. SRC: arch/x86_64/boot.S:225-228 -/
theorem mapNext_roundsDone {mem : Memory} (hzero : ∀ i, view mem pdPage i = 0) {n : ℕ}
    (hn : n < 512) : mapNext initPgt (roundsDone mem n) = roundsDone mem (n + 1) := by
  have haddr : (initPgt + 8 * BitVec.ofNat 32 n + 0x2000).setWidth 64 =
      slotAddr pdPage (BitVec.ofNat 9 n) := by
    apply BitVec.eq_of_toNat_eq
    rw [toNat_slotAddr, BitVec.toNat_setWidth, BitVec.toNat_add, BitVec.toNat_add, BitVec.toNat_mul,
      BitVec.toNat_ofNat, BitVec.toNat_ofNat, show initPgt.toNat = 0x8000 from rfl,
      show (8 : BitVec 32).toNat = 8 from rfl, show (0x2000 : BitVec 32).toNat = 0x2000 from rfl,
      show pdPage.toNat = 10 from rfl]
    omega
  have hcleared : view (mapHugePages n mem) pdPage (BitVec.ofNat 9 n) = 0 := by
    have hslot : ¬ (BitVec.ofNat 9 n).toNat < n := by
      rw [BitVec.toNat_ofNat]
      omega
    rw [view_mapHugePages mem (by omega), if_neg fun h => hslot h.2, hzero]
  have hvalue : (BitVec.ofNat 32 (0x83 + 0x200000 * n)).setWidth 64 =
      0x83 + 0x200000 * BitVec.ofNat 64 n := by
    apply BitVec.eq_of_toNat_eq
    rw [BitVec.toNat_setWidth, BitVec.toNat_ofNat, BitVec.toNat_add, BitVec.toNat_mul,
      BitVec.toNat_ofNat, show (0x83 : BitVec 64).toNat = 0x83 from rfl,
      show (0x200000 : BitVec 64).toNat = 0x200000 from rfl]
    omega
  simp only [mapNext, roundsDone, LoopState.mk.injEq]
  refine ⟨?_, ?_, ?_⟩
  · rw [Nat.mul_succ, ← Nat.add_assoc, BitVec.ofNat_add (0x83 + 0x200000 * n)]
    rfl
  · rw [BitVec.ofNat_add]
    rfl
  · rw [mov_slot haddr hcleared, hvalue, mapHugePages, wordAddr_pd hn]

/-- INTERNAL: **the loop** returns behind 512 rounds. Induction on the fuel. -/
theorem whileLoop_roundsDone {mem : Memory} (hzero : ∀ i, view mem pdPage i = 0) (fuel : ℕ) {n : ℕ}
    (hn : n < 512) (hfuel : 512 ≤ n + fuel) :
    whileLoop (mapRound initPgt) id fuel (roundsDone mem n) = some (roundsDone mem 512) := by
  induction fuel generalizing n with
  | zero => omega
  | succ fuel ih =>
    have hecx : (roundsDone mem (n + 1)).ecx = 0x200 ↔ n + 1 = 512 := by
      rw [roundsDone, ← BitVec.toNat_inj, BitVec.toNat_ofNat,
        show (0x200 : BitVec 32).toNat = 512 from rfl]
      omega
    simp only [whileLoop, mapRound, mapNext_roundsDone hzero hn, id]
    by_cases hlast : n + 1 = 512
    · have hstop := hecx.mpr hlast
      rw [hlast] at hstop ⊢
      simp [hstop]
    · have hmore : ((roundsDone mem (n + 1)).ecx != 0x200) = true :=
        bne_iff_ne.mpr fun h => hlast (hecx.mp h)
      rw [if_pos hmore]
      exact ih (by omega) (by omega)

/-! ## The whole of it -/

/-- INTERNAL: the tables before the answer of `cpuid` is looked at. -/
def commonTables (mem : Memory) : Memory :=
  updateWords (fun _ => 0) (base pdpPage) 0x200
    (Function.update (updateWords (fun _ => 0) (base pmlPage) 0x200 mem) (slotAddr pmlPage 0)
      0x9003)

/-- INTERNAL: behind the common part the first table has one entry and the second none. -/
theorem view_commonTables (mem : Memory) (i : Slot) :
    view (commonTables mem) pmlPage i = (if i = 0 then 0x9003 else 0) ∧
      view (commonTables mem) pdpPage i = 0 := by
  have hpages : pmlPage ≠ pdpPage := by decide
  rw [commonTables, view_updateWords, rewrite_self, rewrite_of_ne _ _ _ hpages, view_update,
    view_updateWords]
  refine ⟨?_, rfl⟩
  split
  case isTrue h => rw [h, setEntry_self]
  case isFalse h => rw [setEntry_of_ne _ _ _ _ fun hi => h hi.2, rewrite_self]

/-- INTERNAL: the page directory before its loop. -/
def clearedDirectory (mem : Memory) : Memory :=
  updateWords (fun _ => 0) (base pdPage) 0x200
    (Function.update (commonTables mem) (slotAddr pdpPage 0) 0xa003)

/-- INTERNAL: the word-level tables, page by page. -/
theorem buildPagetables_words (gigabytePages : Bool) (mem : Memory) :
    X86Boot.buildPagetables gigabytePages mem =
      if gigabytePages then Function.update (commonTables mem) (slotAddr pdpPage 0) 0x83
      else mapHugePages 0x200 (clearedDirectory mem) := by
  have hpml : X86Boot.initPgt = base pmlPage := by decide
  have hpdp : base pmlPage + 0x1000 = base pdpPage := by decide
  have hpd : base pmlPage + 0x2000 = base pdPage := by decide
  have hentry : base pdpPage ||| 3 = 0x9003 ∧ base pdPage ||| 3 = 0xa003 := by decide
  unfold X86Boot.buildPagetables commonTables clearedDirectory
  simp only [hpml, hpdp, hpd, hentry, ← base_eq_slotAddr]
  rfl

/-- INTERNAL: **the code refines the tables**: with fuel for 512 rounds `build_pagetables` returns
them, whatever was in memory. SRC: arch/x86_64/boot.S:160-232 -/
theorem buildPagetables_eq {fuel : ℕ} (hfuel : 0x200 ≤ fuel) (edx : BitVec 32) (mem : Memory) :
    buildPagetables fuel edx initPgt mem =
      some (X86Boot.buildPagetables (reportsGigabytePages edx) mem) := by
  have hpml : initPgt.setWidth 64 = slotAddr pmlPage 0 := by decide
  have hpdp : (initPgt + 0x1000).setWidth 64 = slotAddr pdpPage 0 := by decide
  have hcommon : repStosl 0 0x400 (initPgt + 0x1000)
      (mov initPgt ((initPgt + 0x1000) ||| 3) (repStosl 0 0x400 initPgt mem)) =
        commonTables mem := by
    have hzero : view (updateWords (fun _ => 0) (base pmlPage) 0x200 mem) pmlPage 0 = 0 := by
      rw [view_updateWords, rewrite_self]
    rw [(repStosl_pages mem).1, (repStosl_pages _).2.1, mov_slot hpml hzero]
    rfl
  have hempty := (view_commonTables mem 0).2
  rw [buildPagetables_words, buildPagetables, hcommon]
  cases reportsGigabytePages edx with
  | true =>
    rw [if_pos rfl, if_pos rfl, mov_slot hpdp hempty]
    rfl
  | false =>
    have hcleared : repStosl 0 0x400 (initPgt + 0x2000)
        (mov (initPgt + 0x1000) ((initPgt + 0x2000) ||| 3) (commonTables mem)) =
          clearedDirectory mem := by
      rw [mov_slot hpdp hempty, (repStosl_pages _).2.2]
      rfl
    have hzero : ∀ i, view (clearedDirectory mem) pdPage i = 0 := by
      intro i
      rw [clearedDirectory, view_updateWords, rewrite_self]
    have hloop := whileLoop_roundsDone hzero fuel (n := 0) (by decide) (by omega)
    rw [if_neg Bool.false_ne_true, if_neg Bool.false_ne_true, pt2mb, hcleared]
    show (whileLoop (mapRound initPgt) id fuel (roundsDone (clearedDirectory mem) 0)).bind _ = _
    rw [hloop]
    rfl

/-! ## The tables, page by page -/

/-- INTERNAL: the tables of the boot code, with `rest` behind the first entry of the second. -/
structure BootTables (gigabytePages : Bool) (rest : Slot → BitVec 64) (mem : Memory) : Prop where
  pml : ∀ i, view mem pmlPage i = if i = 0 then 0x9003 else 0
  pdp : ∀ i, view mem pdpPage i =
    if i = 0 then (if gigabytePages then 0x83 else 0xa003) else rest i
  pd : gigabytePages = false → ∀ i, view mem pdPage i = 0x83 + 0x200000 * i.setWidth 64

/-- INTERNAL: SRC: arch/x86_64/boot.S:160-232 -/
theorem bootTables_buildPagetables (gigabytePages : Bool) (mem : Memory) :
    BootTables gigabytePages (fun _ => 0) (X86Boot.buildPagetables gigabytePages mem) := by
  have hpages : pmlPage ≠ pdpPage ∧ pmlPage ≠ pdPage ∧ pdpPage ≠ pdPage := by decide
  have hpdp : ∀ (w : BitVec 64) (i : Slot),
      setEntry (view (commonTables mem)) pdpPage 0 w pdpPage i = if i = 0 then w else 0 := by
    intro w i
    split
    case isTrue h => rw [h, setEntry_self]
    case isFalse h => rw [setEntry_of_ne _ _ _ _ fun hi => h hi.2, (view_commonTables mem i).2]
  have hpml : ∀ (w : BitVec 64) (i : Slot),
      setEntry (view (commonTables mem)) pdpPage 0 w pmlPage i = if i = 0 then 0x9003 else 0 := by
    intro w i
    rw [setEntry_of_ne _ _ _ _ fun hi => hpages.1 hi.1, (view_commonTables mem i).1]
  rw [buildPagetables_words]
  cases gigabytePages with
  | true =>
    rw [if_pos rfl]
    refine ⟨fun i => ?_, fun i => ?_, fun h => by cases h⟩
    · rw [view_update, hpml]
    · rw [view_update, hpdp]
      rfl
  | false =>
    have hkeep : ∀ (p : Page) (i : Slot), p ≠ pdPage → view (mapHugePages 0x200
        (clearedDirectory mem)) p i = setEntry (view (commonTables mem)) pdpPage 0 0xa003 p i := by
      intro p i hp
      rw [view_mapHugePages _ (by decide), if_neg fun h => hp h.1, clearedDirectory,
        view_updateWords, rewrite_of_ne _ _ _ hp, view_update]
    rw [if_neg Bool.false_ne_true]
    refine ⟨fun i => ?_, fun i => ?_, fun _ i => ?_⟩
    · rw [hkeep _ _ hpages.2.1, hpml]
    · rw [hkeep _ _ hpages.2.2, hpdp]
      rfl
    · rw [view_mapHugePages _ (by decide), if_pos ⟨rfl, i.isLt⟩]

end Simbench.Analysis.X86BootTables
