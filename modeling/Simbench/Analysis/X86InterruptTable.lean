import Simbench.Analysis.BenchmarkOrder
import Simbench.Analysis.X86BootPaths
import Simbench.Analysis.X86IdentityMap
import Simbench.Program.X86Interrupts

/-!
# The interrupt table across benchmarks

The gates are in the third page of the heap, behind the tables of the LAPIC and in front of the
runtime tables, so that a mapping stores to neither. Both sets of tables map addresses to
themselves, so whichever of them is in force in a benchmark, the processor finds the gates where
`irq_init` has put them.
-/

set_option autoImplicit false

namespace Simbench.Analysis.X86InterruptTable

open Simbench.Library.RadixTree Simbench.Library.PagedMemory Simbench.Library.TableWalk
open Simbench.Library.Outcomes
open Simbench.Program Simbench.Program.X86Boot Simbench.Program.X86Kernel
open Simbench.Program.X86PageTables hiding Machine
open Simbench.Program.X86BootCode (cpuWalk large table present writable user finish reserved
  pageAddress)
open Simbench.Program.X86Interrupts
open Simbench.Program.Benchmarks (Op Site Name executeAll)
open Simbench.Analysis.X86PageTableInvariant Simbench.Analysis.X86Refinement
open Simbench.Analysis.X86HeapStack Simbench.Analysis.X86Startup Simbench.Analysis.X86BootTables
open Simbench.Analysis.X86BootPaths Simbench.Analysis.BenchmarkShapes
open Simbench.Analysis.BenchmarkOrder
open Simbench.Analysis.X86Isolation (Any exec_plain)

/-! ## A gate -/

/-- INTERNAL: the gate of a trap entry. SRC: arch/x86_64/irq.c:58-69 -/
def gateFor (fn : BitVec 64) (allowUser : Bool) : Gate :=
  ⟨fn, 8, 0, 0xe, if allowUser then 3 else 0, true⟩

/-- INTERNAL: the selector and the type of an entry. -/
def idtMiddle (allowUser : Bool) : BitVec 64 :=
  0x8#64 <<< 16 ||| (0x8e#64 ||| (if allowUser then 0x60#64 else 0#64)) <<< 40

/-- INTERNAL: the first word of `set_idt`. -/
def idtLow (fn : BitVec 64) (allowUser : Bool) : BitVec 64 :=
  (fn &&& 0xffff#64) ||| 0x8#64 <<< 16 ||| (0x8e#64 ||| (if allowUser then 0x60#64 else 0#64)) <<< 40 |||
    ((fn >>> 16) &&& 0xffff#64) <<< 48

/-- INTERNAL: the low word of a gate: sixteen bits of the routine, the middle, and its next bits.
SRC: arch/x86_64/irq.c:58-69 -/
theorem getLsbD_idtLow (fn : BitVec 64) (allowUser : Bool) {i : ℕ} (hi : i < 64) :
    (idtLow fn allowUser).getLsbD i =
      if i < 16 then fn.getLsbD i else if i < 48 then (idtMiddle allowUser).getLsbD i
      else fn.getLsbD (i - 32) := by
  have hmask : ∀ j : Fin 64, (0xffff#64).getLsbD j = decide (j.val < 16) := by decide
  have hmiddle : ∀ j : Fin 64, (idtMiddle allowUser).getLsbD j =
      (decide (16 ≤ j.val) && decide (j.val < 48) && (idtMiddle allowUser).getLsbD j) := by
    cases allowUser <;> decide
  have hsplit : idtLow fn allowUser =
      (fn &&& 0xffff#64) ||| idtMiddle allowUser ||| ((fn >>> 16) &&& 0xffff#64) <<< 48 := by
    unfold idtLow idtMiddle
    rw [BitVec.or_assoc (fn &&& 0xffff#64)]
  rw [hsplit, BitVec.getLsbD_or, BitVec.getLsbD_or, BitVec.getLsbD_and, BitVec.getLsbD_shiftLeft,
    hmask ⟨i, hi⟩, hmiddle ⟨i, hi⟩]
  by_cases hlow : i < 16
  · simp [hlow, show i < 48 by omega]
  · by_cases hmid : i < 48
    · simp [hlow, hmid, show 16 ≤ i by omega]
    · rw [BitVec.getLsbD_and, BitVec.getLsbD_ushiftRight, hmask ⟨i - 48, by omega⟩]
      simp [hlow, hmid, hi, show i - 48 < 16 by omega, show 16 + (i - 48) = i - 32 by omega]

/-- INTERNAL: **an entry of the table** is the gate it was made for. -/
theorem ofWords_idt (fn : BitVec 64) (allowUser : Bool) :
    Gate.ofWords (idtLow fn allowUser) (fn >>> 32) = gateFor fn allowUser := by
  have hfield : ∀ (start len : ℕ), 16 ≤ start → start + len ≤ 48 →
      (idtLow fn allowUser).extractLsb' start len =
        (idtMiddle allowUser).extractLsb' start len := by
    intro start len hstart hlen
    apply BitVec.eq_of_getLsbD_eq
    intro i hi
    rw [BitVec.getLsbD_extractLsb', BitVec.getLsbD_extractLsb', getLsbD_idtLow _ _ (by omega),
      if_neg (by omega), if_pos (by omega)]
  have hoffset : (fn >>> 32).extractLsb' 0 32 ++
      ((idtLow fn allowUser).extractLsb' 48 16 ++ (idtLow fn allowUser).extractLsb' 0 16) = fn := by
    apply BitVec.eq_of_getLsbD_eq
    intro i hi
    rw [BitVec.getLsbD_append, BitVec.getLsbD_append]
    by_cases hlow : i < 16
    · rw [if_pos (by omega), if_pos hlow, BitVec.getLsbD_extractLsb', getLsbD_idtLow _ _ (by omega)]
      simp [hlow]
    · by_cases hmid : i < 32
      · rw [if_pos hmid, if_neg hlow, BitVec.getLsbD_extractLsb', getLsbD_idtLow _ _ (by omega),
          if_neg (by omega), if_neg (by omega)]
        simp [show i - 16 < 16 by omega, show 48 + (i - 16) - 32 = i by omega]
      · rw [if_neg hmid, BitVec.getLsbD_extractLsb', BitVec.getLsbD_ushiftRight]
        simp [show i - 32 < 32 by omega, show 32 + (i - 32) = i by omega]
  have hpresent : (idtLow fn allowUser).getLsbD 47 = (idtMiddle allowUser).getLsbD 47 :=
    getLsbD_idtLow fn allowUser (by decide)
  unfold Gate.ofWords
  rw [hoffset, hfield 16 16 (by decide) (by decide), hfield 32 3 (by decide) (by decide),
    hfield 40 5 (by decide) (by decide), hfield 45 2 (by decide) (by decide), hpresent]
  cases allowUser <;> rfl

/-! ## The table -/

/-- INTERNAL: the gate of a vector in the table of a page. -/
def gateIn (mem : Memory) (p : Page) (vector : BitVec 8) : Gate :=
  .ofWords (view mem p (BitVec.ofNat 9 (2 * vector.toNat)))
    (view mem p (BitVec.ofNat 9 (2 * vector.toNat + 1)))

/-- INTERNAL: the words of the table are the slots of its page. -/
theorem wordAddr_idt (p : Page) {n : ℕ} (hn : n < 512) :
    wordAddr (base p) (BitVec.ofNat 32 n) = slotAddr p (BitVec.ofNat 9 n) := by
  rw [wordAddr_base _ _ (by rw [BitVec.toNat_ofNat]; omega)]
  congr 1
  apply BitVec.eq_of_toNat_eq
  rw [BitVec.toNat_setWidth, BitVec.toNat_ofNat, BitVec.toNat_ofNat]
  omega

/-- INTERNAL: different words are different slots. -/
theorem slot_ne {m n : ℕ} (hm : m < 512) (hn : n < 512) (h : m ≠ n) :
    BitVec.ofNat 9 m ≠ BitVec.ofNat 9 n := by
  intro he
  have hnat := congrArg BitVec.toNat he
  rw [BitVec.toNat_ofNat, BitVec.toNat_ofNat] at hnat
  omega

/-- INTERNAL: setting a vector writes the two words of its gate. -/
theorem view_setIdt (mem : Memory) (p : Page) (fn : BitVec 64) (allowUser : Bool) {n : ℕ}
    (hn : n < 256) :
    view (setIdt (base p) fn allowUser n mem) =
      setEntry (setEntry (view mem) p (BitVec.ofNat 9 (2 * n)) (idtLow fn allowUser)) p
        (BitVec.ofNat 9 (2 * n + 1)) (fn >>> 32) := by
  have hwords : setIdt (base p) fn allowUser n mem =
      Function.update (Function.update mem (wordAddr (base p) (BitVec.ofNat 32 (2 * n)))
        (idtLow fn allowUser)) (wordAddr (base p) (BitVec.ofNat 32 (2 * n + 1))) (fn >>> 32) := rfl
  rw [hwords, wordAddr_idt p (by omega), wordAddr_idt p (by omega), view_update, view_update]

/-- INTERNAL: **`set_idt`** sets one gate. SRC: arch/x86_64/irq.c:58-69 -/
theorem gateIn_setIdt (mem : Memory) (p : Page) (fn : BitVec 64) (allowUser : Bool) {n : ℕ}
    (hn : n < 256) (vector : BitVec 8) :
    gateIn (setIdt (base p) fn allowUser n mem) p vector =
      if n = vector.toNat then gateFor fn allowUser else gateIn mem p vector := by
  have hvector := vector.isLt
  unfold gateIn
  rw [view_setIdt mem p fn allowUser hn]
  by_cases h : n = vector.toNat
  · rw [if_pos h, ← h, setEntry_self,
      setEntry_of_ne _ _ _ _ fun he => slot_ne (by omega) (by omega) (by omega) he.2, setEntry_self,
      ofWords_idt]
  · have hkept : ∀ m : ℕ, m < 512 → m ≠ 2 * n → m ≠ 2 * n + 1 →
        setEntry (setEntry (view mem) p (BitVec.ofNat 9 (2 * n)) (idtLow fn allowUser)) p
          (BitVec.ofNat 9 (2 * n + 1)) (fn >>> 32) p (BitVec.ofNat 9 m) =
            view mem p (BitVec.ofNat 9 m) := by
      intro m hm hlow hhigh
      rw [setEntry_of_ne _ _ _ _ fun he => slot_ne hm (by omega) hhigh he.2,
        setEntry_of_ne _ _ _ _ fun he => slot_ne hm (by omega) hlow he.2]
    rw [if_neg h, hkept _ (by omega) (by omega) (by omega),
      hkept _ (by omega) (by omega) (by omega)]

/-- INTERNAL: `set_idt` leaves every page but the table's alone. -/
theorem view_setIdt_of_ne (mem : Memory) {p : Page} (fn : BitVec 64) (allowUser : Bool) {n : ℕ}
    (hn : n < 256) {q : Page} (hq : q ≠ p) (i : Slot) :
    view (setIdt (base p) fn allowUser n mem) q i = view mem q i := by
  rw [view_setIdt mem p fn allowUser hn, setEntry_of_ne _ _ _ _ fun he => hq he.1,
    setEntry_of_ne _ _ _ _ fun he => hq he.1]

section Entries

variable {α : Type} (number : α → ℕ) (fn : α → BitVec 64) (allowUser : α → Bool) {entries : List α}

/-- INTERNAL: entries set one after the other: the last one for a vector counts. -/
theorem gateIn_foldl (hentries : ∀ v ∈ entries, number v < 256) (p : Page) (vector : BitVec 8)
    (mem : Memory) :
    gateIn (entries.foldl (fun mem v => setIdt (base p) (fn v) (allowUser v) (number v) mem) mem) p
        vector =
      entries.foldl (fun gate v =>
        if number v = vector.toNat then gateFor (fn v) (allowUser v) else gate)
        (gateIn mem p vector) := by
  induction entries generalizing mem with
  | nil => rfl
  | cons v entries ih =>
    rw [List.foldl_cons, List.foldl_cons, ih fun v' hv' => hentries v' (List.mem_cons_of_mem _ hv'),
      gateIn_setIdt _ _ _ _ (hentries v List.mem_cons_self)]

/-- INTERNAL: setting vectors writes to the table's page only. -/
theorem view_foldl_of_ne (hentries : ∀ v ∈ entries, number v < 256) {p q : Page} (hq : q ≠ p)
    (mem : Memory) :
    view (entries.foldl (fun mem v => setIdt (base p) (fn v) (allowUser v) (number v) mem) mem) q =
      view mem q := by
  induction entries generalizing mem with
  | nil => rfl
  | cons v entries ih =>
    rw [List.foldl_cons, ih fun v' hv' => hentries v' (List.mem_cons_of_mem _ hv')]
    funext i
    exact view_setIdt_of_ne mem _ _ (hentries v List.mem_cons_self) hq i

end Entries

/-- INTERNAL: a loop that sets one value wherever a number comes up. -/
theorem foldl_if {α : Type} (k : ℕ) (value : α) (numbers : List ℕ) (start : α) :
    numbers.foldl (fun last n => if n = k then value else last) start =
      if k ∈ numbers then value else start := by
  induction numbers generalizing start with
  | nil => rfl
  | cons n numbers ih =>
    rw [List.foldl_cons, ih]
    by_cases hk : k ∈ numbers
    · rw [if_pos hk, if_pos (List.mem_cons_of_mem n hk)]
    · rw [if_neg hk]
      by_cases hn : n = k
      · rw [if_pos hn, if_pos (hn ▸ List.mem_cons_self)]
      · rw [if_neg hn, if_neg fun h => (List.mem_cons.mp h).elim (fun he => hn he.symm) hk]

/-- INTERNAL: a loop on images is the image of the loop. -/
theorem foldl_if_map {α β γ : Type} (number : α → ℕ) (k : ℕ) (f : α → β) (g : β → γ)
    (entries : List α) (start : β) :
    entries.foldl (fun last v => if number v = k then g (f v) else last) (g start) =
      g (entries.foldl (fun last v => if number v = k then f v else last) start) := by
  induction entries generalizing start with
  | nil => rfl
  | cons v entries ih => rw [List.foldl_cons, List.foldl_cons, ← ih, apply_ite g]

/-- INTERNAL: the trap entry of a vector. SRC: arch/x86_64/irq.c:150-170 -/
def trapOf (vector : BitVec 8) : Trap :=
  match vector.toNat with
  | 0x06 => .undef
  | 0x08 | 0x0a | 0x0b | 0x0c | 0x11 | 0x1e => .unknownArg
  | 0x0d => .gpf
  | 0x0e => .pageFault
  | 0x20 => .timer
  | 0x30 => .irq
  | 0x80 => .syscall
  | _ => .unknown

/-- INTERNAL: the memory behind the stores of `irq_init`. SRC: arch/x86_64/irq.c:150-170 -/
def idtStored (traps : Trap → BitVec 64) (idt : BitVec 64) (mem : Memory) : Memory :=
  idtVectors.foldl (fun mem v => setIdt idt (traps v.2.1) v.2.2 v.1 mem)
    ((List.range 0x100).foldl (fun mem i => setIdt idt (traps .unknown) false i mem) mem)

/-- INTERNAL: **the table**: each of its gates is the one of its vector, whatever the page held. -/
theorem gateIn_idtStored (traps : Trap → BitVec 64) (p : Page) (mem : Memory)
    (vector : BitVec 8) : gateIn (idtStored traps (base p) mem) p vector =
      gateFor (traps (trapOf vector)) (decide (vector = 0x80)) := by
  have hvectors : ∀ v ∈ idtVectors, v.1 < 256 := by decide
  have hlast : ∀ vector : BitVec 8, idtVectors.foldl (fun last v =>
      if v.1 = vector.toNat then v.2 else last) (.unknown, false) =
        (trapOf vector, decide (vector = 0x80)) := by decide +kernel
  have hunknown : gateIn ((List.range 0x100).foldl
      (fun mem i => setIdt (base p) (traps .unknown) false i mem) mem) p vector =
        gateFor (traps .unknown) false := by
    rw [gateIn_foldl (fun i => i) (fun _ => traps .unknown) (fun _ => false)
      (fun _ hv => List.mem_range.mp hv), foldl_if, if_pos (List.mem_range.mpr vector.isLt)]
  unfold idtStored
  rw [gateIn_foldl (fun v : ℕ × Trap × Bool => v.1) (fun v => traps v.2.1) (fun v => v.2.2) hvectors p
    vector, hunknown]
  exact (foldl_if_map (fun v : ℕ × Trap × Bool => v.1) vector.toNat (fun v => v.2)
    (fun v => gateFor (traps v.1) v.2) idtVectors (.unknown, false)).trans (by rw [hlast])

/-- INTERNAL: setting all vectors writes to the table's page only. -/
theorem view_idtStored_of_ne (traps : Trap → BitVec 64) {p q : Page} (hq : q ≠ p) (mem : Memory) :
    view (idtStored traps (base p) mem) q = view mem q := by
  unfold idtStored
  rw [view_foldl_of_ne (fun v : ℕ × Trap × Bool => v.1) (fun v => traps v.2.1) (fun v => v.2.2)
    (by decide) hq, view_foldl_of_ne (fun i => i) (fun _ => traps .unknown) (fun _ => false)
    (fun _ hv => List.mem_range.mp hv) hq]

/-- INTERNAL: with a page from the heap `irq_init` stores its table there, and resets the
handlers. -/
theorem irqInit_eq (traps : Trap → BitVec 64) {s : Machine} {page : BitVec 64}
    {pages : X86PageTables.Machine} (halloc : heapAllocPage s.pages = some (page, pages))
    (hgoes : onHeap Prod.snd (some (page, pages)) = .ok (page, pages)) :
    irqInit traps s = .ok (irqResetUndefHandler (irqResetIrqHandler (irqResetPageFaultHandler
      (irqResetSyscallHandler { s with
        pages := { pages with mem := idtStored traps page pages.mem } })))) := by
  rw [irqInit, halloc, hgoes]
  rfl

/-! ## `arch_init` -/

/-- INTERNAL: the page of an aligned address begins at that address. -/
theorem toNat_pageOf_mul {a : BitVec 64} (h : a.toNat % 4096 = 0) :
    (pageOf a).toNat * 4096 = a.toNat := by
  rw [toNat_pageOf]
  omega

/-- INTERNAL: the pages below one that can hold tables: the first MiB, where the boot code has its
own, and the heap. SRC: arch/x86_64/boot.S:6 -/
def TablePage (image : Image) (limit q : Page) : Prop :=
  q.toNat < limit.toNat ∧ (q.toNat < 0x100 ∨ image.heapStart.toNat ≤ q.toNat * 4096)

/-- INTERNAL: the tables of the boot code, with the page of the LAPIC in two pages of the heap, all
below a page. -/
def BootMapped (image : Image) (gigabytePages : Bool) (limit : Page) (mem : Memory) : Prop :=
  ∃ p₁ p₂ : Page, TablePage image limit p₁ ∧ TablePage image limit p₂ ∧
    BootTables gigabytePages (lapicRest p₁) mem ∧ LapicTables mem p₁ p₂

/-- INTERNAL: what changes elsewhere makes no difference to them. -/
theorem BootMapped.congr {image : Image} {gigabytePages : Bool} {limit : Page} {mem mem' : Memory}
    (h : BootMapped image gigabytePages limit mem) (hlimit : 0x100 ≤ limit.toNat)
    (hsame : ∀ q, TablePage image limit q → view mem' q = view mem q) :
    BootMapped image gigabytePages limit mem' := by
  obtain ⟨p₁, p₂, hp₁, hp₂, hboot, hlapic⟩ := h
  have hlow : pmlPage.toNat = 8 ∧ pdpPage.toNat = 9 ∧ pdPage.toNat = 10 := ⟨rfl, rfl, rfl⟩
  have hpage : ∀ q : Page, q.toNat < 0x100 → TablePage image limit q :=
    fun q hq => ⟨by omega, Or.inl hq⟩
  refine ⟨p₁, p₂, hp₁, hp₂, ⟨fun i => ?_, fun i => ?_, fun hgigabyte i => ?_⟩,
    ⟨fun i => ?_, fun i => ?_, hlapic.pd_lt, hlapic.pt_lt⟩⟩
  · rw [hsame _ (hpage _ (by omega)), hboot.pml]
  · rw [hsame _ (hpage _ (by omega)), hboot.pdp]
  · rw [hsame _ (hpage _ (by omega)), hboot.pd hgigabyte]
  · rw [hsame _ hp₁, hlapic.pd]
  · rw [hsame _ hp₂, hlapic.pt]

/-- INTERNAL: what the processor needs at any time: these tables, and the gates. -/
structure Installed (image : Image) (gigabytePages : Bool) (traps : Trap → BitVec 64) (idt : Page)
    (mem : Memory) : Prop where
  tables : BootMapped image gigabytePages idt mem
  gates : ∀ vector, gateIn mem idt vector =
    gateFor (traps (trapOf vector)) (decide (vector = 0x80))

/-- INTERNAL: what changes elsewhere makes no difference to that. -/
theorem Installed.congr {image : Image} {gigabytePages : Bool} {traps : Trap → BitVec 64}
    {idt : Page}
    {mem mem' : Memory} (h : Installed image gigabytePages traps idt mem) (hidt : 0x100 ≤ idt.toNat)
    (htables : ∀ q, TablePage image idt q → view mem' q = view mem q)
    (hgates : view mem' idt = view mem idt) : Installed image gigabytePages traps idt mem' := by
  refine ⟨h.tables.congr hidt htables, fun vector => ?_⟩
  rw [← h.gates vector, gateIn, hgates]
  rfl

/-- INTERNAL: pages up to the one the gates are in. -/
theorem Installed.of_below {image : Image} {gigabytePages : Bool} {traps : Trap → BitVec 64}
    {idt : Page} {mem mem' : Memory} (h : Installed image gigabytePages traps idt mem)
    (hidt : 0x100 ≤ idt.toNat)
    (hsame : ∀ q : Page, q.toNat ≤ idt.toNat → view mem' q = view mem q) :
    Installed image gigabytePages traps idt mem' :=
  h.congr hidt (fun q hq => hsame q (Nat.le_of_lt hq.1)) (hsame idt (Nat.le_refl _))

/-- INTERNAL: the state `arch_init` leaves; the gates are in the third page of the heap. -/
structure Served (image : Image) (gigabytePages : Bool) (traps : Trap → BitVec 64) (idt : Page)
    (s : Machine) : Prop where
  installed : Installed image gigabytePages traps idt s.pages.mem
  heap : HeapAt image 3 s.pages
  idt_eq : idt.toNat * 4096 = image.heapStart.toNat + 2 * 4096
  memInited : s.memInited = false
  initialPagetables : s.initialPagetables = initPgt
  cr3 : s.cr3 = initPgt

/-- INTERNAL: **`arch_init`**. SRC: arch/x86_64/arch.c:12-18; arch/x86_64/irq.c:139-180 -/
theorem archInit_served (image : Image) (traps : Trap → BitVec 64) (gigabytePages : Bool)
    (mem : Memory) : ∃ s idt,
      archInit image traps (booted gigabytePages mem) = .ok s ∧
      archInitIdtr image (booted gigabytePages mem) = .ok ⟨0x1000, base idt⟩ ∧
      Served image gigabytePages traps idt s := by
  have hboot := bootTables_buildPagetables gigabytePages mem
  have hbounded := image.bounded
  have haligned := image.heapAligned
  have hbehind := heapStart_ge image
  rw [toNat_heapSize] at hbounded
  obtain ⟨pages, p₁, p₂, hmap, hpages, hp₁, hp₂, hview⟩ :=
    createPageMapping_lapic (heapAt_heapInit image _) hboot
  have hmapped := behindImage_of_heap hp₁ hp₂
  have htables := bootTables_lapicMapped hboot hmapped hview
  have hlapic := lapicTables_lapicMapped hmapped hview
  have hcur := hpages.cur
  have hidt := (toNat_pageOf_mul (a := pages.heapCur) (by omega)).trans hcur
  rcases heapAllocPage_at hpages with ⟨-, hfull⟩ | ⟨pages₁, halloc, -, hpages₁⟩
  · omega
  · obtain ⟨hpage, hpages₁', -, -⟩ := heapAllocPage_spec (by omega)
      (by have hlimit := hpages.limit; omega) halloc
    generalize pageOf pages.heapCur = idt at hpage hidt
    rw [hpage] at halloc
    have hearly := earlyMemInit_of_mapping (s := { booted gigabytePages mem with
      pages := heapInit image.heapStart heapSize (booted gigabytePages mem).pages.mem }) hmap hpages
        (by decide)
    have hgoes : onHeap Prod.snd (some (base idt, pages₁)) = .ok (base idt, pages₁) :=
      onHeap_of_heapAt hpages₁ (by decide)
    have hsame : ∀ q : Page, q ≠ idt →
        view (idtStored traps (base idt) pages₁.mem) q = view pages.mem q := by
      intro q hq
      rw [view_idtStored_of_ne traps hq, hpages₁', hpage, fastZeroPage, view_updateWords,
        rewrite_of_ne _ _ _ hq]
    have hgates := gateIn_idtStored traps idt pages₁.mem
    refine ⟨{ booted gigabytePages mem with
      pages := { pages₁ with mem := idtStored traps (base idt) pages₁.mem },
      initialPagetables := 0x8000 }, idt, ?_, ?_, ?_⟩
    · unfold archInit
      show (earlyMemInit _ >>= irqInit traps) = _
      erw [hearly]
      show irqInit traps _ = _
      rw [irqInit_eq traps halloc hgoes]
      rfl
    · unfold archInitIdtr
      show (earlyMemInit _ >>= irqInitIdtr) = _
      erw [hearly]
      show (onHeap Prod.snd (heapAllocPage pages) >>= _) = _
      rw [halloc, hgoes]
      rfl
    · generalize idtStored traps (base idt) pages₁.mem = stored at hsame hgates ⊢
      have hbootMapped : BootMapped image gigabytePages idt pages.mem :=
        ⟨p₁, p₂, ⟨by omega, Or.inr (by omega)⟩, ⟨by omega, Or.inr (by omega)⟩, htables, hlapic⟩
      have hthree : HeapAt image 3 pages₁ := hpages₁
      refine ⟨⟨hbootMapped.congr (by omega) fun q hq => hsame q (page_ne (by have hlt := hq.1; omega)),
          hgates⟩,
        ⟨hthree.cur, hthree.limit⟩, hidt, rfl, rfl, rfl⟩

/-! ## Walks of the runtime tables -/

section Runtime

variable {gigabytePages : Bool} {s : X86PageTables.Machine} {root : Page} {lvl : Page → Option ℕ}

/-- INTERNAL: an interior word leads on, with all rights, where the tree does. -/
theorem interior_entry (h : Inv s root lvl) {p : Page} {n : ℕ} (i : Slot) (hp : lvl p = some n)
    (hn : n < 3) :
    large (view s.mem p i) = false ∧
      table (view s.mem p i) = (x86Format.next (view s.mem p i)).map base ∧
      ∀ c, x86Format.next (view s.mem p i) = some c →
        writable (view s.mem p i) = true ∧ user (view s.mem p i) = true := by
  rcases h.entry i hp hn with he | ⟨c, he, hc⟩
  · rw [he]
    exact ⟨(walk_zero 12 [] 0).1, (walk_zero 12 [] 0).2.1, fun c hc => by cases hc⟩
  · obtain ⟨-, hwritable, huser, hlarge⟩ := entryWord_flags (base c)
    rw [he]
    refine ⟨hlarge, ?_, fun _ _ => ⟨hwritable, huser⟩⟩
    rw [table_entryWord hc, next_entryWord hc]
    rfl

/-- INTERNAL: entries with all rights do not count. -/
theorem finish_path {shift : ℕ} {path : List (BitVec 64)}
    (hpath : ∀ e ∈ path, writable e = true ∧ user e = true) (entry va : BitVec 64) :
    finish shift path entry va = finish shift [] entry va := by
  have hwritable : path.all writable = true := List.all_eq_true.mpr fun e he => (hpath e he).1
  have huser : path.all user = true := List.all_eq_true.mpr fun e he => (hpath e he).2
  unfold finish
  rw [List.all_cons, List.all_cons, hwritable, huser]
  rfl

/-- INTERNAL: the processor's walk ends where the tree's does. -/
theorem cpuWalk_eq_descend (h : Inv s root lvl) (hroot : root.toNat * 4096 < 2 ^ 52)
    (va : BitVec 64) :
    cpuWalk gigabytePages s.mem (base root) va =
      (descend x86Format (view s.mem) root (vaPath va)).bind fun t =>
        finish 12 [] (view s.mem t (vaSlot 12 va)) va := by
  have hmask : base root &&& frameMask = base root :=
    base_and_mask (n := 52) (by decide) hroot
  simp only [cpuWalk, hmask, vaPath, descend, List.foldlM_cons, List.foldlM_nil,
    Option.bind_eq_bind, Option.pure_def, read_walkIndex s.mem]
  obtain ⟨hlarge₁, htable₁, hrights₁⟩ :=
    interior_entry h (vaSlot 39 va) h.layered.root_level (by decide)
  rw [hlarge₁, htable₁, if_neg Bool.false_ne_true]
  cases h₁ : x86Format.next (view s.mem root (vaSlot 39 va)) with
  | none => rfl
  | some t₁ =>
    have hl₁ := h.layered.child_level h.layered.root_level (by decide) (x86Format.next_child _ _ h₁)
    obtain ⟨hlarge₂, htable₂, hrights₂⟩ := interior_entry h (vaSlot 30 va) hl₁ (by decide)
    simp only [Option.map_some, Option.bind_some, read_walkIndex s.mem]
    rw [hlarge₂, htable₂, if_neg Bool.false_ne_true]
    cases h₂ : x86Format.next (view s.mem t₁ (vaSlot 30 va)) with
    | none => rfl
    | some t₂ =>
      have hl₂ := h.layered.child_level hl₁ (by decide) (x86Format.next_child _ _ h₂)
      obtain ⟨hlarge₃, htable₃, hrights₃⟩ := interior_entry h (vaSlot 21 va) hl₂ (by decide)
      simp only [Option.map_some, Option.bind_some, read_walkIndex s.mem]
      rw [hlarge₃, htable₃, if_neg Bool.false_ne_true]
      cases h₃ : x86Format.next (view s.mem t₂ (vaSlot 21 va)) with
      | none => rfl
      | some t₃ =>
        simp only [Option.map_some, Option.bind_some, read_walkIndex s.mem]
        apply finish_path
        simp only [List.mem_cons, List.not_mem_nil, or_false]
        rintro e (rfl | rfl | rfl)
        · exact hrights₁ _ h₁
        · exact hrights₂ _ h₂
        · exact hrights₃ _ h₃

/-- INTERNAL: an entry that yields nothing has no present bit. -/
theorem finish_absent {w : BitVec 64} (h : leafTranslation w = none) (va : BitVec 64) :
    finish 12 [] w va = none := by
  have habsent : ¬ present w = true := by
    intro hpresent
    have hone : ∀ j : Fin 64, (1#64).getLsbD j = decide (j.val = 0) := by decide
    have hbit : w &&& 1 = 1 := by
      apply BitVec.eq_of_getLsbD_eq
      intro i hi
      rw [BitVec.getLsbD_and]
      show (w.getLsbD i && (1#64).getLsbD i) = (1#64).getLsbD i
      have hlow := hone ⟨i, hi⟩
      by_cases hzero : i = 0
      · subst hzero
        rw [show w.getLsbD 0 = true from hpresent, Bool.true_and]
      · rw [hlow, decide_eq_false hzero, Bool.and_false]
    rw [leafTranslation, if_pos hbit] at h
    cases h
  rw [finish, if_neg fun hboth => habsent hboth.1]

/-- INTERNAL: the entry of a page mapped to itself. -/
theorem finish_installed {w va : BitVec 64} (hva : va.toNat < 2 ^ 48)
    (h : leafTranslation w = some (installed va)) : finish 12 [] w va = some ⟨va, true, true⟩ := by
  have hword : w = entryWord va := by
    unfold leafTranslation at h
    split at h
    · obtain ⟨hframe, hflags⟩ := Translation.mk.inj (Option.some.inj h)
      have hfull : frameMask ||| ~~~frameMask = BitVec.allOnes 64 := by decide
      have hparts : w = (w &&& frameMask) ||| (w &&& ~~~frameMask) := by
        rw [← BitVec.and_or_distrib_left, hfull, BitVec.and_allOnes]
      have hseven : pfPresent ||| pfWritable ||| pfUser = 7 := by decide
      rw [hparts, hframe, hflags, hseven, entryWord, BitVec.or_comm]
      rfl
    · cases h
  obtain ⟨hpresent, hwritable, huser, -⟩ := entryWord_flags va
  have hnumber : (entryWord va).toNat = va.toNat / 4096 * 4096 + 7 := by
    have hor := Nat.shiftLeft_add_eq_or_of_lt (show 7 < 2 ^ 12 by decide) (va.toNat / 4096)
    rw [Nat.shiftLeft_eq] at hor
    rw [entryWord, BitVec.toNat_or, toNat_base, toNat_pageOf, Nat.or_comm]
    exact hor.symm
  have haddr : pageAddress 12 (entryWord va) va = va := by
    apply BitVec.eq_of_toNat_eq
    rw [pageAddress, hnumber, BitVec.toNat_ofNat]
    omega
  have hreserved : reserved 12 (entryWord va) = 0 := by
    unfold reserved
    omega
  rw [hword]
  simp only [finish, hpresent, hwritable, huser, hreserved, haddr, and_self, if_true, List.all_cons,
    List.all_nil, Bool.and_true]

/-- INTERNAL: **pages mapped to themselves**: the processor finds each at itself. -/
theorem cpuWalk_runtime (h : Inv s root lvl) (hroot : root.toNat * 4096 < 2 ^ 52) {va : BitVec 64}
    (hva : va.toNat < 2 ^ 48) (hidentity : ∀ t, walk s va = some t → t = installed va) :
    cpuWalk gigabytePages s.mem (base root) va = (walk s va).map fun _ => ⟨va, true, true⟩ := by
  have hwalk := walk_eq_lookup h va
  rw [cpuWalk_eq_descend h hroot]
  unfold lookup at hwalk
  cases hd : descend x86Format (view s.mem) root (vaPath va) with
  | none =>
    rw [hd] at hwalk
    rw [hwalk]
    rfl
  | some t =>
    rw [hd] at hwalk
    show finish 12 [] (view s.mem t (vaSlot 12 va)) va = _
    have hleaf : walk s va = leafTranslation (view s.mem t (vaSlot 12 va)) := hwalk
    cases hw : leafTranslation (view s.mem t (vaSlot 12 va)) with
    | none =>
      rw [hleaf, hw, finish_absent hw]
      rfl
    | some translation =>
      rw [hleaf, hw]
      have hsame := hidentity translation (hleaf.trans hw)
      rw [finish_installed hva (hw.trans (congrArg some hsame))]
      rfl

end Runtime

/-! ## Operations -/

section Stores

variable {s s' : X86PageTables.Machine} {root : Page} {lvl : Page → Option ℕ}

/-- INTERNAL: a mapping stores to the tables only, and those are the root and pages behind it. -/
theorem createPageMapping_below (h : Inv s root lvl) {pa va : BitVec 64}
    (hcall : createPageMapping (base root) pa va s = some s') :
    (∃ lvl', Inv s' root lvl') ∧
      ∀ q : Page, q.toNat < root.toNat → view s'.mem q = view s.mem q := by
  obtain ⟨lvl', M⟩ := createPageMapping_spec h hcall
  refine ⟨⟨lvl', M.inv⟩, fun q hq => ?_⟩
  funext i
  apply M.frame
  rw [pageOf_slotAddr]
  cases hlvl : lvl' q with
  | none => rfl
  | some n =>
    have howned := M.inv.owned hlvl
    omega

/-- INTERNAL: mappings write nothing below their root table. -/
theorem run_below {calls : List Call} (h : Inv s root lvl)
    (hrun : X86PageTables.run s calls = some s') :
    ∀ q : Page, q.toNat < root.toNat → view s'.mem q = view s.mem q := by
  induction calls generalizing s lvl with
  | nil =>
    obtain rfl := Option.some.inj hrun
    exact fun _ _ => rfl
  | cons c calls ih =>
    simp only [X86PageTables.run, List.foldlM_cons, Option.bind_eq_bind,
      Option.bind_eq_some_iff] at hrun
    obtain ⟨s₁, hstep, hrest⟩ := hrun
    rw [step_eq, h.table] at hstep
    obtain ⟨⟨lvl₁, h₁⟩, hbelow⟩ := createPageMapping_below h hstep
    intro q hq
    rw [ih h₁ hrest q hq, hbelow q hq]

/-- INTERNAL: the root is a new page. SRC: arch/x86_64/mem.c:58 -/
theorem allocRuntimePagetables_below (h : HeapReady s)
    (hcall : allocRuntimePagetables s = some s') :
    s.heapCur.toNat < 2 ^ 52 ∧ ∀ q : Page, q ≠ pageOf s.heapCur → view s'.mem q = view s.mem q := by
  simp only [allocRuntimePagetables, Option.bind_eq_bind, Option.bind_eq_some_iff,
    Option.some.injEq, Prod.exists] at hcall
  obtain ⟨page, s₁, halloc, rfl⟩ := hcall
  obtain ⟨hpage, rfl, -, hend⟩ := heapAllocPage_spec h.aligned h.bounded halloc
  refine ⟨by omega, fun q hq => ?_⟩
  show view (fastZeroPage page s.mem) q = _
  rw [hpage, fastZeroPage, view_updateWords, rewrite_of_ne _ _ _ hq]

end Stores

/-- INTERNAL: what the boot tables map: the first GiB and the page of the LAPIC. -/
def BootCovers (va : BitVec 64) : Prop :=
  va.toNat < 2 ^ 30 ∨ va.toNat / 4096 = lapic.toNat / 4096

/-- INTERNAL: whether the boot tables cover an address is decided by its two ranges. -/
instance (va : BitVec 64) : Decidable (BootCovers va) := inferInstanceAs (Decidable (_ ∨ _))

/-- INTERNAL: what they cover lies below 2^48. -/
theorem BootCovers.bounded {va : BitVec 64} (h : BootCovers va) : va.toNat < 2 ^ 48 := by
  have hlapic : lapic.toNat = 0xfee00000 := rfl
  rcases h with h | h <;> omega

/-- INTERNAL: whatever the layout of an image covers, the boot tables cover. -/
theorem covers_boot {image : Image} {va : BitVec 64} (h : (ofImage image).Covers va) :
    BootCovers va := by
  obtain ⟨region, hregion, hlow, hhigh⟩ := h
  have hbounds := image.bounds
  have hlapic : lapic.toNat = 0xfee00000 := rfl
  unfold BootCovers
  simp only [Layout.regions, ofImage, List.mem_cons, List.not_mem_nil,
    or_false] at hregion
  rcases hregion with rfl | rfl | rfl | rfl | rfl
  all_goals
    dsimp only at hlow hhigh
    omega

/-- INTERNAL: **`mem_init`** maps nothing else. SRC: arch/x86_64/mem.c:29-47 -/
theorem prepare_bootCovers (image : Image) :
    ∀ c ∈ prepareRuntimePagetables image, BootCovers c.virtAddr := by
  have hheap := image.heap_le
  have hdata := image.data_le
  have hdata' := image.data_lt
  have htext := image.text_le
  have hsize := toNat_heapSize
  have hbounds := image.bounds
  have hsection : ∀ {a b : BitVec 64}, a.toNat ≤ b.toNat → b.toNat < 2 ^ 30 →
      ∀ c ∈ mapPageRanges a a (nrPages a b), BootCovers c.virtAddr := by
    intro a b hordered hlow c hc
    have hpages := X86HeapUse.nrPages_le hordered
    obtain ⟨i, hi, haddr⟩ := X86HeapUse.mem_mapPageRanges (by omega) hc
    exact Or.inl (by omega)
  intro c hc
  simp only [prepareRuntimePagetables, List.mem_append, List.mem_singleton] at hc
  rcases hc with (((hc | hc) | hc) | hc) | rfl
  · obtain ⟨i, hi, haddr⟩ := X86HeapUse.mem_mapPageRanges (by decide) hc
    rw [show (0xb8000 : BitVec 64).toNat = 0xb8000 from rfl] at haddr
    exact Or.inl (by omega)
  · exact hsection htext (by omega) c hc
  · exact hsection (Nat.le_of_lt hdata') (by omega) c hc
  · have hcount : heapPageCount heapSize = 64 := by decide
    have hpages : c ∈ mapPageRanges image.heapStart image.heapStart 64 := by rwa [← hcount]
    obtain ⟨i, hi, haddr⟩ := X86HeapUse.mem_mapPageRanges (by omega) hpages
    exact Or.inl (by omega)
  · exact Or.inr rfl

/-- INTERNAL: the states behind `mem_init`, with the runtime tables of these calls. They map
nothing that the boot tables do not. -/
structure Mapped (image : Image) (gigabytePages : Bool) (traps : Trap → BitVec 64) (idt root : Page)
    (calls : List Call) (s : Machine) : Prop where
  installed : Installed image gigabytePages traps idt s.pages.mem
  initialPagetables : s.initialPagetables = initPgt
  memInited : s.memInited = true
  tables : X86IdentityMap.Tables (ofImage image) s.pages root calls
  bootCovers : ∀ c ∈ calls, BootCovers c.virtAddr
  behind : idt.toNat < root.toNat
  root_lt : root.toNat * 4096 < 2 ^ 52
  heapEnd : s.pages.heapEnd = image.heapStart + heapSize
  heapCur : s.pages.heapCur.toNat < s.pages.heapEnd.toNat
  cr3 : s.cr3 = initPgt ∨ s.cr3 = base root

/-- INTERNAL: the states of a kernel with the table at `idt`, before `mem_init` and behind it. -/
inductive Serving (image : Image) (gigabytePages : Bool) (traps : Trap → BitVec 64) (idt : Page)
    (s : Machine) : Prop
  | fresh : Served image gigabytePages traps idt s → Serving image gigabytePages traps idt s
  | mapped (root : Page) (calls : List Call) : Mapped image gigabytePages traps idt root calls s →
      Serving image gigabytePages traps idt s

/-- INTERNAL: the states behind operations: `mem_init` has been called if it is one of them. -/
def ServingAfter (image : Image) (gigabytePages : Bool) (traps : Trap → BitVec 64) (idt : Page)
    (before : List Op) (s : Machine) : Prop :=
  Serving image gigabytePages traps idt s ∧ (.memInit ∈ before → s.memInited = true)

section Operations

variable {image : Image} {site : Site} {gigabytePages : Bool} {traps : Trap → BitVec 64}
  {idt : Page}

/-- INTERNAL: **`mem_init`**. SRC: arch/x86_64/mem.c:49-60 -/
theorem memInit_serving {s : Machine} (hidt : 0x100 ≤ idt.toNat)
    (h : Serving image gigabytePages traps idt s) :
    Outcome (fun s' => Serving image gigabytePages traps idt s' ∧ s'.memInited = true) Any
      (memInit image s) := by
  cases h with
  | mapped root calls h =>
    rw [memInit, if_pos h.memInited]
    exact ⟨.mapped root calls h, h.memInited⟩
  | fresh h =>
    have hbounded := image.bounded
    have haligned := image.heapAligned
    rw [toNat_heapSize] at hbounded
    have hcur := h.heap.cur
    have hidtEq := h.idt_eq
    have hready : HeapReady s.pages :=
      ⟨by omega, by omega, by have hlimit := h.heap.limit; omega⟩
    rw [memInit, if_neg (by rw [h.memInited]; decide)]
    have hlimit : (image.heapStart + heapSize).toNat ≤ 2 ^ 52 := by
      rw [BitVec.toNat_add, toNat_heapSize]
      omega
    have hfrom : X86IdentityMap.HeapFrom 0 (image.heapStart + heapSize) s.pages :=
      ⟨hready.aligned, h.heap.heapEnd_eq, Nat.zero_le _⟩
    apply (X86IdentityMap.onHeap_some _ _).bind
    rintro pages ⟨halloc, -⟩
    obtain ⟨hempty, -⟩ := represents_of_alloc hready halloc
    obtain ⟨hlt, hkept⟩ := allocRuntimePagetables_below hready halloc
    have hroot := toNat_pageOf_mul hready.aligned
    apply (X86IdentityMap.onHeap_some _ _).bind
    rintro pages' ⟨hrun, hroom⟩
    have hfrom' := (hfrom.allocRuntimePagetables hlimit halloc).run hlimit hrun
    have hlow := prepare_bootCovers image
    have hidentity := X86IdentityMap.prepare_identity (ofImage image)
    have hphys : ∀ c ∈ prepareRuntimePagetables (ofImage image),
        c.physAddr.toNat < 2 ^ 52 := by
      intro c hc
      rw [(hidentity c hc).same]
      exact Nat.lt_of_lt_of_le (hidentity c hc).bounded (by decide)
    have htables := Represents.run [] hphys hempty hrun
    obtain ⟨lvl, hinv, -⟩ := hempty
    have hsame : ∀ q : Page, q.toNat ≤ idt.toNat → view pages'.mem q = view s.pages.mem q := by
      intro q hq
      rw [run_below hinv hrun q (by omega), hkept q (page_ne (by omega))]
    exact ⟨.mapped (pageOf s.pages.heapCur) _ ⟨h.installed.of_below hidt hsame, h.initialPagetables,
      rfl, ⟨htables, hidentity, fun c hc => hc⟩, hlow, by omega, by omega, hfrom'.heapEnd, hroom,
      Or.inl h.cr3⟩, rfl⟩

/-- INTERNAL: the runtime tables stay what they are while neither the pages nor the roots change. -/
theorem Mapped.congr {s s' : Machine} {root : Page} {calls : List Call}
    (h : Mapped image gigabytePages traps idt root calls s) (hpages : s'.pages = s.pages)
    (hinited : s'.memInited = s.memInited) (hinitial : s'.initialPagetables = s.initialPagetables)
    (hcr3 : s'.cr3 = s.cr3 ∨ s'.cr3 = initPgt) :
    Mapped image gigabytePages traps idt root calls s' := by
  refine ⟨hpages ▸ h.installed, hinitial.trans h.initialPagetables, hinited.trans h.memInited,
    hpages ▸ h.tables, h.bootCovers, h.behind, h.root_lt, hpages ▸ h.heapEnd, hpages ▸ h.heapCur, ?_⟩
  rcases hcr3 with hsame | hboot
  · rw [hsame]
    exact h.cr3
  · exact Or.inl hboot

/-- INTERNAL: `mem_mmu_enable` keeps the runtime tables and puts them in force.
SRC: arch/x86_64/mem.c:82-85 -/
theorem Mapped.memMmuEnable {s : Machine} {root : Page} {calls : List Call}
    (h : Mapped image gigabytePages traps idt root calls s) :
    Mapped image gigabytePages traps idt root calls (memMmuEnable s) := by
  obtain ⟨lvl, hinv, -⟩ := h.tables.represents
  exact ⟨h.installed, h.initialPagetables, h.memInited, h.tables, h.bootCovers, h.behind, h.root_lt,
    h.heapEnd, h.heapCur, Or.inr hinv.table⟩

/-- INTERNAL: other code leaves the tables alone, and CR3, or puts the boot tables back. -/
theorem Serving.congr {s s' : Machine} (h : Serving image gigabytePages traps idt s)
    (hpages : s'.pages = s.pages) (hinited : s'.memInited = s.memInited)
    (hinitial : s'.initialPagetables = s.initialPagetables)
    (hcr3 : s'.cr3 = s.cr3 ∨ s'.cr3 = initPgt) : Serving image gigabytePages traps idt s' := by
  cases h with
  | fresh h =>
    refine .fresh ⟨hpages ▸ h.installed, hpages ▸ h.heap, h.idt_eq, hinited.trans h.memInited,
      hinitial.trans h.initialPagetables, ?_⟩
    exact hcr3.elim (fun hsame => hsame.trans h.cr3) fun hboot => hboot
  | mapped root calls h => exact .mapped root calls (h.congr hpages hinited hinitial hcr3)

/-- INTERNAL: one more page. SRC: arch/x86_64/mem.c:155-206 -/
theorem Mapped.mapping {s : Machine} {root : Page} {calls : List Call} (hidt : 0x100 ≤ idt.toNat)
    (h : Mapped image gigabytePages traps idt root calls s) {va : BitVec 64} (hva : BootCovers va)
    (e : Env) :
    Outcome (fun s' => Mapped image gigabytePages traps idt root (calls ++ [.data va va]) s' ∧
      s'.cr3 = s.cr3) Any (exec image site e (.memCreatePageMappingData va va) s) := by
  apply (X86IdentityMap.onHeap_some _ _).bind
  rintro pages ⟨hcall, hroom⟩
  have htables := h.tables.mapping hva.bounded hcall
  have hcovers : ∀ c ∈ calls ++ [.data va va], BootCovers c.virtAddr := by
    intro c hc
    rcases List.mem_append.mp hc with hc | hc
    · exact h.bootCovers c hc
    · rwa [List.mem_singleton.mp hc]
  obtain ⟨lvl, hinv, -⟩ := h.tables.represents
  have hheap : X86IdentityMap.HeapFrom 0 (image.heapStart + heapSize) s.pages :=
    ⟨hinv.heapAligned, h.heapEnd, Nat.zero_le _⟩
  have hlimit := hinv.heapEnd_le
  rw [h.heapEnd] at hlimit
  unfold memCreatePageMappingData at hcall
  rw [hinv.table] at hcall
  obtain ⟨-, hbelow⟩ := createPageMapping_below hinv hcall
  have hbehind := h.behind
  exact ⟨⟨h.installed.of_below hidt fun q hq => hbelow q (by omega), h.initialPagetables, h.memInited,
    htables, hcovers, hbehind, h.root_lt, (hheap.createPageMapping hlimit hcall).heapEnd, hroom,
    h.cr3⟩, rfl⟩

/-- INTERNAL: behind `mem_init` there are runtime tables. -/
theorem Serving.exists_mapped {s : Machine} (h : Serving image gigabytePages traps idt s)
    (hinited : s.memInited = true) :
    ∃ root calls, Mapped image gigabytePages traps idt root calls s := by
  cases h with
  | fresh h =>
    rw [h.memInited] at hinited
    cases hinited
  | mapped root calls h => exact ⟨root, calls, h⟩

/-- INTERNAL: mapping a covered page to itself behind `mem_init` keeps the kernel serving its
exceptions. -/
theorem mapping_serving {s : Machine} (hidt : 0x100 ≤ idt.toNat)
    (h : Serving image gigabytePages traps idt s) (hinited : s.memInited = true) {va : BitVec 64}
    (hva : BootCovers va) (e : Env) :
    Outcome (fun s' => Serving image gigabytePages traps idt s' ∧ s'.memInited = true) Any
      (exec image site e (.memCreatePageMappingData va va) s) := by
  obtain ⟨root, calls, h⟩ := h.exists_mapped hinited
  exact (h.mapping hidt hva e).mono (fun s' h' => ⟨.mapped root _ h'.1, h'.1.memInited⟩) fun _ h => h

/-- INTERNAL: switching to the runtime tables keeps the kernel serving its exceptions. -/
theorem memMmuEnable_serving {s : Machine} (h : Serving image gigabytePages traps idt s)
    (hinited : s.memInited = true) : Serving image gigabytePages traps idt (memMmuEnable s) := by
  obtain ⟨root, calls, h⟩ := h.exists_mapped hinited
  exact .mapped root calls h.memMmuEnable

/-- INTERNAL: the pages the benchmarks map lie below 1 GiB, where the boot tables cover them. -/
theorem maps_bootCovers {platform : Platform} (hsite : OnPlatform platform image site)
    {p : BitVec 64} (hp : Maps site p) : BootCovers p := by
  refine Or.inl ?_
  rcases hp with hpage | rfl
  · cases platform with
    | native =>
      rw [(X86HeapUse.pagedRegion_native hsite).physPages_spec.2, hsite.physMemStart] at hpage
      obtain ⟨k, hk, haddr⟩ := hpage
      rw [show (physInfo .native).1.toNat = 0x4000000 from rfl] at haddr
      omega
    | qemu =>
      rw [(X86HeapUse.pagedRegion_qemu hsite).physPages_spec.2, hsite.physMemStart] at hpage
      obtain ⟨k, hk, haddr⟩ := hpage
      rw [show (physInfo .qemu).1.toNat = 0x10000000 from rfl] at haddr
      omega
  · have hsymbol := (hsite.inData .memoryNonprivValue (by decide)).2
    have hbounds := image.bounds
    omega

/-- INTERNAL: **one operation** of a benchmark, in order behind those before it, keeps the kernel
serving its exceptions. -/
theorem exec_serving {platform : Platform} (hsite : OnPlatform platform image site) {s : Machine}
    (hidt : 0x100 ≤ idt.toNat)
    (h : Serving image gigabytePages traps idt s) {before : List Op}
    (hinited : .memInit ∈ before → s.memInited = true) {op : Op} (hop : InOrder site before op)
    (e : Env) :
    Outcome (fun s' => Serving image gigabytePages traps idt s' ∧
      (s.memInited = true ∨ op = .memInit → s'.memInited = true)) Any (exec image site e op s) := by
  by_cases hplain : plain op = true
  · refine (exec_plain image site e hplain s).mono (fun s' hkept => ?_) fun _ _ => trivial
    refine ⟨h.congr hkept.pages hkept.memInited hkept.initialPagetables (Or.inl hkept.cr3), ?_⟩
    rintro (hinited | rfl)
    · exact hkept.memInited.trans hinited
    · cases hplain
  · cases op with
    | memInit =>
      exact (memInit_serving hidt h).mono (fun s' h' => ⟨h'.1, fun _ => h'.2⟩) fun _ h => h
    | memCreatePageMappingData pa va =>
      obtain ⟨hinit, rfl, hva⟩ := hop
      exact (mapping_serving hidt h (hinited hinit) (maps_bootCovers hsite hva) e).mono
        (fun s' h' => ⟨h'.1, fun _ => h'.2⟩) fun _ h => h
    | memMmuEnable => exact ⟨memMmuEnable_serving h (hinited hop), fun _ => hinited hop⟩
    | memMmuDisable =>
      have hboot : (memMmuDisable s).cr3 = initPgt := by
        cases h with
        | fresh h => exact h.initialPagetables
        | mapped root calls h => exact h.initialPagetables
      exact ⟨h.congr rfl rfl rfl (Or.inr hboot), fun hinited => hinited.resolve_right Op.noConfusion⟩
    | memReset | archDfaultInstallSkip | archIfaultInstallReturn =>
      exact ⟨h.congr rfl rfl rfl (Or.inl rfl), fun hinited => hinited.resolve_right Op.noConfusion⟩
    | _ => exact absurd rfl hplain

/-- INTERNAL: every operation in order does, and the operations before it are remembered. -/
theorem exec_servingAfter {platform : Platform} (hsite : OnPlatform platform image site)
    {s : Machine} (hidt : 0x100 ≤ idt.toNat)
    {before : List Op} (h : ServingAfter image gigabytePages traps idt before s) {op : Op}
    (hop : InOrder site before op) (e : Env) :
    Outcome (ServingAfter image gigabytePages traps idt (before ++ [op])) Any
      (exec image site e op s) := by
  obtain ⟨hs, hinited⟩ := h
  refine (exec_serving hsite hidt hs hinited hop e).mono ?_ fun _ h => h
  rintro s' ⟨hs', hinited'⟩
  refine ⟨hs', fun hmem => hinited' ?_⟩
  rcases List.mem_append.mp hmem with hbefore | hmem
  · exact Or.inl (hinited hbefore)
  · exact Or.inr (List.mem_singleton.mp hmem).symm

/-- INTERNAL: before the first operation the kernel serves whatever state it is in. -/
theorem Serving.after_nil {s : Machine} (h : Serving image gigabytePages traps idt s) :
    ServingAfter image gigabytePages traps idt [] s :=
  ⟨h, fun hinit => absurd hinit List.not_mem_nil⟩

end Operations

/-! ## Benchmarks -/

section Benchmarks

variable {platform : Platform} {image : Image} {site : Site}

/-- INTERNAL: **a run in order**: `mem_init` has come where the order says so. -/
theorem run_serving (hsite : OnPlatform platform image site) {gigabytePages : Bool}
    {traps : Trap → BitVec 64} {idt : Page} (hidt : 0x100 ≤ idt.toNat) {env : ℕ → Env} {n : ℕ}
    {ops : List Op} {s : Machine} (h : Serving image gigabytePages traps idt s)
    (hops : Ordered site ops) :
    Outcome (Serving image gigabytePages traps idt) Any (run (exec image site) env n ops s) := by
  have hhistory : Outcome (ServingAfter image gigabytePages traps idt ops) Any
      (run (exec image site) env n ops s) := by
    refine run_history ?_ n h.after_nil
    exact fun e before op after s hsplit hs =>
      exec_servingAfter hsite hidt hs (hops before op after hsplit) e
  exact hhistory.mono (fun _ h => h.1) fun _ h => h

end Benchmarks

/-! ## What the processor finds -/

section Finds

variable {image : Image} {gigabytePages : Bool} {traps : Trap → BitVec 64} {idt : Page} {s : Machine}

/-- INTERNAL: the walk of the boot tables. -/
theorem BootMapped.cpuWalk_eq {limit : Page} {mem : Memory}
    (h : BootMapped image gigabytePages limit mem)
    {va : BitVec 64} (hva : va.toNat < 2 ^ 48) :
    cpuWalk gigabytePages mem initPgt va =
      if BootCovers va then some ⟨va, true, false⟩ else none := by
  obtain ⟨p₁, p₂, -, -, hboot, hlapic⟩ := h
  by_cases hlow : va.toNat < 2 ^ 30
  · rw [if_pos (show BootCovers va from Or.inl hlow)]
    exact cpuWalk_gigabyte hboot hlow
  · simp only [BootCovers, hlow, false_or]
    exact cpuWalk_lapic hboot hlapic hva (by omega)

/-- INTERNAL: some call maps the page of the address. -/
def MapsPage (calls : List Call) (va : BitVec 64) : Prop :=
  ∃ c ∈ calls, c.virtAddr.toNat / 4096 = va.toNat / 4096

/-- INTERNAL: whether calls map a page is decided call by call. -/
instance (calls : List Call) (va : BitVec 64) : Decidable (MapsPage calls va) :=
  inferInstanceAs (Decidable (∃ c ∈ calls, _))

/-- INTERNAL: calls that map addresses to themselves map what one of them maps. -/
theorem walk_mapsPage {s : X86PageTables.Machine} {root : Page} {calls : List Call}
    (h : Represents s root calls) (hcalls : ∀ c ∈ calls, X86IdentityMap.IsIdentity c)
    {va : BitVec 64} (hva : va.toNat < 2 ^ 48) :
    walk s va = if MapsPage calls va then some (installed va) else none := by
  obtain ⟨lvl, hinv, hmap⟩ := h
  rw [walk_eq_lookup hinv, hmap va]
  split
  · rename_i hmapped
    obtain ⟨c, hc, hpage⟩ := hmapped
    exact X86IdentityMap.lastWrite_identity hcalls hva hc hpage
  · rename_i hmapped
    rw [Option.eq_none_iff_forall_ne_some]
    intro t ht
    obtain ⟨before, c, after, rfl, heffect, -⟩ :=
      (Library.LastWrite.lastWrite_eq_some_iff _ _ _).mp ht
    have hc : c ∈ before ++ c :: after := by simp
    unfold effectAt at heffect
    split at heffect
    · rename_i hsame
      exact hmapped ⟨c, hc, (vaPath_eq_iff (hcalls c hc).bounded hva).mp hsame⟩
    · cases heffect

/-- INTERNAL: the walk of the runtime tables. -/
theorem tables_cpuWalk_eq {layout : Layout} {s : X86PageTables.Machine} {root : Page}
    {calls : List Call} (h : X86IdentityMap.Tables layout s root calls)
    (hroot : root.toNat * 4096 < 2 ^ 52) {va : BitVec 64} (hva : va.toNat < 2 ^ 48) :
    cpuWalk gigabytePages s.mem (base root) va =
      if MapsPage calls va then some ⟨va, true, true⟩ else none := by
  have hwalk := walk_mapsPage h.represents h.identity hva
  have hidentity : ∀ t, walk s va = some t → t = installed va := by
    intro t ht
    rw [hwalk] at ht
    split at ht
    · exact (Option.some.inj ht).symm
    · cases ht
  obtain ⟨lvl, hinv, -⟩ := h.represents
  rw [cpuWalk_runtime hinv hroot hva hidentity, hwalk]
  split <;> rfl

/-- INTERNAL: **whichever tables CR3 holds**, an address that is mapped is at itself, and the bytes
of the kernel are. -/
theorem Serving.identity (h : Serving image gigabytePages traps idt s) (va : BitVec 64)
    (hva : va.toNat < 2 ^ 48) :
    (∀ access, cpuWalk gigabytePages s.pages.mem s.cr3 va = some access →
      access.addr = va ∧ access.writable = true) ∧
    ((ofImage image).Covers va →
      ∃ access, cpuWalk gigabytePages s.pages.mem s.cr3 va = some access) := by
  have hboot : s.cr3 = initPgt → BootMapped image gigabytePages idt s.pages.mem →
      (∀ access, cpuWalk gigabytePages s.pages.mem s.cr3 va = some access →
        access.addr = va ∧ access.writable = true) ∧
      ((ofImage image).Covers va →
        ∃ access, cpuWalk gigabytePages s.pages.mem s.cr3 va = some access) := by
    intro hcr3 hmapped
    rw [hcr3, hmapped.cpuWalk_eq hva]
    refine ⟨fun access haccess => ?_, fun hcovers => ⟨_, if_pos (covers_boot hcovers)⟩⟩
    split at haccess
    · obtain rfl := Option.some.inj haccess
      exact ⟨rfl, rfl⟩
    · cases haccess
  cases h with
  | fresh h => exact hboot h.cr3 h.installed.tables
  | mapped root calls h =>
    rcases h.cr3 with hcr3 | hcr3
    · exact hboot hcr3 h.installed.tables
    · rw [hcr3, tables_cpuWalk_eq h.tables h.root_lt hva]
      refine ⟨fun access haccess => ?_, fun hcovers => ?_⟩
      · split at haccess
        · obtain rfl := Option.some.inj haccess
          exact ⟨rfl, rfl⟩
        · cases haccess
      · have hmapped := walk_mapsPage h.tables.represents h.tables.identity hva
        rw [(h.tables.identityMapped hcovers).walk] at hmapped
        split at hmapped
        · rename_i hpage
          exact ⟨_, if_pos hpage⟩
        · cases hmapped

end Finds

/-! ## Every state of every run -/

section Runs

variable {platform : Platform} {image : Image} {site : Site} {gigabytePages : Bool}
  {traps : Trap → BitVec 64} {idt : Page} {s₀ s : Machine}

/-- INTERNAL: the table lies behind the first MiB. -/
theorem Served.idt_ge (h : Served image gigabytePages traps idt s₀) : 0x100 ≤ idt.toNat := by
  have hidt := h.idt_eq
  have hbehind := heapStart_ge image
  omega

/-- INTERNAL: from `arch_init` to anywhere in a benchmark. -/
theorem Served.runOps (h : Served image gigabytePages traps idt s₀)
    (hsite : OnPlatform platform image site) {env : ℕ → Env} {names : List Name} {ops : List Op}
    (hops : ops <+: executeAll site names)
    (hrun : runOps image site env ops s₀ = .ok s) : Serving image gigabytePages traps idt s := by
  exact (run_serving hsite h.idt_ge (.fresh h)
    ((executeAll_ordered site names).of_initial hops)).of_ok hrun

/-- INTERNAL: a word of the page the gates are in. -/
theorem Serving.readWord_idt (hidt : idt.toNat * 4096 = image.heapStart.toNat + 2 * 4096)
    (h : Serving image gigabytePages traps idt s) {n : ℕ} (hn : n < 512) :
    readWord gigabytePages s (wordAddr (base idt) (BitVec.ofNat 32 n)) =
      some (view s.pages.mem idt (BitVec.ofNat 9 n)) := by
  have hbounds := image.bounds
  have hsize := toNat_heapSize
  have haddr := toNat_slotAddr idt (BitVec.ofNat 9 n)
  rw [BitVec.toNat_ofNat] at haddr
  have hcovers : (ofImage image).Covers (slotAddr idt (BitVec.ofNat 9 n)) := by
    refine ⟨(image.heapStart.toNat, image.heapStart.toNat + heapSize.toNat), ?_, ?_, ?_⟩
    · simp [Layout.regions, ofImage]
    · dsimp only
      omega
    · dsimp only
      omega
  obtain ⟨hsame, hmapped⟩ := h.identity (slotAddr idt (BitVec.ofNat 9 n)) (by omega)
  obtain ⟨access, haccess⟩ := hmapped hcovers
  rw [readWord, wordAddr_idt idt hn, haccess]
  show some (s.pages.mem access.addr) = _
  rw [(hsame access haccess).1]
  rfl

/-- INTERNAL: a serving kernel has its gates in the table. -/
theorem Serving.installed (h : Serving image gigabytePages traps idt s) :
    Installed image gigabytePages traps idt s.pages.mem := by
  cases h with
  | fresh h => exact h.installed
  | mapped root calls h => exact h.installed

/-- INTERNAL: **the gate of a vector** is read through the tables in force as `irq_init` has set
it. -/
theorem Serving.readGate_eq (hidt : idt.toNat * 4096 = image.heapStart.toNat + 2 * 4096)
    (h : Serving image gigabytePages traps idt s) (vector : BitVec 8) :
    readGate gigabytePages ⟨0x1000, base idt⟩ s vector =
      some (gateFor (traps (trapOf vector)) (decide (vector = 0x80))) := by
  have hvector := vector.isLt
  have hlimit : ¬ (0x1000 : BitVec 16).toNat < 16 * vector.toNat + 15 := by
    rw [show (0x1000 : BitVec 16).toNat = 4096 from rfl]
    omega
  rw [readGate, if_neg hlimit, h.readWord_idt hidt (by omega),
    h.readWord_idt hidt (by omega), ← h.installed.gates vector]
  rfl

end Runs

/-- SOURCE: arch/x86_64/boot.S:160-232, arch/x86_64/mem.c:14-105,155-214, arch/x86_64/heap.c:10-32,
benchmarks — **virtual addresses are physical**: in every state the benchmarks get to after
`arch_init`, in the middle of one or behind it, whether CR3 holds the boot tables or the runtime
ones, an address of 48 bits that is mapped is at itself and writable, and the framebuffer, text,
data, the heap with stack and tables, and the LAPIC are mapped. -/
theorem runOps_identity (platform : Platform) (image : Image) (site : Site)
    (hsite : OnPlatform platform image site)
    (traps : Trap → BitVec 64) (gigabytePages : Bool) (mem : Memory) :
    ∃ s₀, archInit image traps (booted gigabytePages mem) = .ok s₀ ∧ ∀ env names ops s,
      ops <+: executeAll site names → runOps image site env ops s₀ = .ok s →
        ∀ va : BitVec 64, va.toNat < 2 ^ 48 →
          (∀ access, cpuWalk gigabytePages s.pages.mem s.cr3 va = some access →
            access.addr = va ∧ access.writable = true) ∧
          ((ofImage image).Covers va →
            ∃ access, cpuWalk gigabytePages s.pages.mem s.cr3 va = some access) := by
  obtain ⟨s₀, idt, hinit, -, hserved⟩ := archInit_served image traps gigabytePages mem
  refine ⟨s₀, hinit, fun env names ops s hops hrun va hva => ?_⟩
  exact (hserved.runOps hsite hops hrun).identity va hva

/-! ## A benchmark -/

/-- INTERNAL: `mem_init` and `mem_mmu_enable` begin a benchmark, and behind them the runtime tables
are in force. -/
theorem memInit_enabled (traps : Trap → BitVec 64) (gigabytePages : Bool) (mem : Memory) :
    [Op.memInit, .memMmuEnable] <+: executeAll (X86HeapUse.smallSite .native) [.syscall] ∧
      ∀ s₀, archInit smallImage traps (booted gigabytePages mem) = .ok s₀ → ∀ env, ∃ s,
        runOps smallImage (X86HeapUse.smallSite .native) env [.memInit, .memMmuEnable] s₀ = .ok s ∧
          s.cr3 = s.pages.runtimePagetables := by
  refine ⟨⟨_, rfl⟩, fun s₀ hinit env => ?_⟩
  obtain ⟨s₀', hinit', hstarted⟩ := archInit_started smallImage traps gigabytePages mem
  rw [hinit, Except.ok.injEq] at hinit'
  subst hinit'
  have hready : X86HeapUse.Ready .native smallImage s₀ := X86HeapUse.Started.ready hstarted
  obtain ⟨s, hmemInit, -⟩ := X86HeapUse.memInit_tables (by decide) hready
  refine ⟨memMmuEnable s, ?_, rfl⟩
  show (memInit smallImage s₀ >>= _) = _
  rw [hmemInit]
  rfl

/-- INTERNAL: the page of the LAPIC behind `mem_mmu_enable`. -/
theorem runOps_identity_lapic : ∃ s₀ s, archInit smallImage (fun _ => 0x100200)
    (booted false fun _ => 0xff) = .ok s₀ ∧
    runOps smallImage (X86HeapUse.smallSite .native) (fun _ => ⟨fun _ => false, false⟩)
      [.memInit, .memMmuEnable] s₀ = .ok s ∧ s.cr3 = s.pages.runtimePagetables ∧
    ∃ access, cpuWalk false s.pages.mem s.cr3 0xfee000b0 = some access ∧
      access.addr = 0xfee000b0 := by
  obtain ⟨s₀, hinit, hall⟩ := runOps_identity .native smallImage (X86HeapUse.smallSite .native)
    (X86HeapUse.onPlatform_smallSite .native) (fun _ => 0x100200) false fun _ => 0xff
  obtain ⟨hinitial, hruns⟩ := memInit_enabled (fun _ => 0x100200) false fun _ => 0xff
  obtain ⟨s, hrun, hcr3⟩ := hruns s₀ hinit fun _ => ⟨fun _ => false, false⟩
  obtain ⟨hsame, hmapped⟩ := hall _ _ _ s hinitial hrun 0xfee000b0 (by decide)
  obtain ⟨access, haccess⟩ := hmapped ⟨(0xfee00000, 0xfee01000), by decide, by decide, by decide⟩
  exact ⟨s₀, s, hinit, hrun, hcr3, access, haccess, (hsame access haccess).1⟩

end Simbench.Analysis.X86InterruptTable
