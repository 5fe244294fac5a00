import Simbench.Analysis.Armv8BenchmarkStates

/-!
# The memory operations through system calls

An operation of `mem.h` returns where it finds what it needs. `mem_init`, `mem_reset` and the
mapping routines need address translation off, since no region of `mem_init` holds the tables they
write; `mem_mmu_enable` needs tables that map the program. The cache flush never returns: the
numbers it issues are declared, but `armv8_handle_syscall` has no case for them. `mem_init`
establishes what `mem_mmu_enable` needs, and it stays until a mapping takes the place of a page of
the program.
-/

set_option autoImplicit false

namespace Simbench.Analysis.Armv8MemoryRuns

open Simbench.Library.BitFields Simbench.Library.Outcomes Simbench.Library.PagedMemory
open Simbench.Program Simbench.Program.Armv8Machine
open Simbench.Analysis.Armv8IrqMask Simbench.Analysis.Armv8MemoryCalls
open Simbench.Analysis.Armv8Mappings Simbench.Analysis.Armv8Permissions
open Simbench.Analysis.Armv8Refinement Simbench.Analysis.Armv8BenchmarkStates
open Armv8Tables (Call Kind HeapLayout Translation)

/-! ## One operation -/

section Operation

variable {image : Image} {s s' : Machine}

/-- INTERNAL: what a register call of the interface leaves as it was. -/
structure SameTables (s s' : Machine) : Prop where
  handlers : s'.el0SyncTable = s.el0SyncTable
  tables : s'.tables = s.tables
  ttbr0 : s'.ttbr0 = s.ttbr0
  tcr : s'.tcr = s.tcr

/-- INTERNAL: `mem_mmu_enable` and `mem_mmu_disable` return to where they are called.
SRC: arch/armv8/mem.c:122-142 -/
theorem mmuCall_returns (image : Image) {callNo : Int}
    (hcall : callNo = syscallMmuEnableNo ∨ callNo = syscallMmuDisableNo) (h : Caller s) :
    ∃ s', armv8Syscall image callNo s = .ok s' ∧ Caller s' ∧ SameTables s s' ∧
      s'.pstate = s.pstate ∧ s'.sctlr = sctlrAfter callNo s.sctlr := by
  have hregister : callNo ∈ registerCalls := by rcases hcall with rfl | rfl <;> decide
  have hpstateAfter : pstateAfter callNo s.pstate = s.pstate := by rcases hcall with rfl | rfl <;> rfl
  obtain ⟨s', hreturns, hsctlr, hpstate, hhandlers, htables, httbr0, htcr⟩ :=
    armv8Syscall_register image hregister h
  rw [hpstateAfter] at hpstate
  refine ⟨s', hreturns, ⟨?_, ?_⟩, ⟨hhandlers, htables, httbr0, htcr⟩, hpstate, hsctlr⟩
  · rw [hhandlers]
    exact h.handler
  · rw [hpstate]
    exact h.mode

/-- INTERNAL: a mapping with address translation off is one call of the tables. -/
theorem memCreatePageMapping_off (hmmu : mmuEnabled s = false) (kind : Kind) (pa va : BitVec 64) :
    memCreatePageMapping image kind pa va s =
      Armv8Machine.onHeap (Armv8Tables.memCreatePageMapping image.heap kind pa va s.tables) >>=
        fun r => .ok { s with tables := r.2 } := by
  unfold memCreatePageMapping
  rw [hmmu, if_neg Bool.false_ne_true]

end Operation

/-! ## Runs -/

section Runs

variable {image : Image} {calls : List MemCall} {s : Machine}

end Runs

/-! ## Phases -/

/-- INTERNAL: the addresses of the program and of its tables: the pages the regions of `mem_init`
touch, and the heap. -/
def Owned (image : Image) (va : BitVec 64) : Prop :=
  Touched (ofImage image) va ∨
    image.heap.heapStart.toNat ≤ va.toNat ∧ va.toNat < image.heap.heapEnd.toNat

/-- INTERNAL: whether a page is one of those the image's code and stack use is decided by its
sections. -/
instance (image : Image) (va : BitVec 64) : Decidable (Owned image va) :=
  inferInstanceAs (Decidable (_ ∨ _))

/-- INTERNAL: what the operations so far have established: whether address translation is on, and
whether the tables map the program, and the tables themselves nowhere. -/
structure Phase where
  translated : Bool
  mapped : Bool
  deriving DecidableEq, Repr

/-- INTERNAL: the phase behind an operation, for those that are called in their phase. -/
def Phase.next (image : Image) (p : Phase) : MemCall → Option Phase
  | .memInit => if p.translated then none else some { p with mapped := true }
  | .memReset => if p.translated then none else some { p with mapped := true }
  | .memMmuEnable => if p.mapped then some { p with translated := true } else none
  | .memMmuDisable => some { p with translated := false }
  | .memTlbFlush => some p
  | .memTlbEvict _ => some p
  | .memCacheFlush => none
  | .memCreatePageMapping _ physAddr virtAddr =>
    if p.translated then none
    else if physAddr.toNat < 2 ^ 48 ∧ virtAddr.toNat < 2 ^ 48 then
      some { p with mapped := p.mapped && !decide (Owned image virtAddr) }
    else none

/-- INTERNAL: the phase behind a sequence of operations. -/
def phaseAfter (image : Image) (p : Phase) (calls : List MemCall) : Option Phase :=
  calls.foldlM (Phase.next image) p

/-- INTERNAL: the machine in a phase: translation on or off as it says, and once mapped, the tables
show what `mem_init` maps. -/
structure InPhase (image : Image) (p : Phase) (s : Machine) : Prop where
  caller : Caller s
  handlers : ∀ ec, ec ≠ armv8EcSyscall → s.el0SyncTable ec = none
  translated : mmuEnabled s = p.translated
  tables : ∃ calls, Represents image.heap s.tables calls
  mapped : p.mapped = true → t0sz s = 16 ∧ ∃ f, Shows image.heap s.ttbr0 f s.tables ∧
    ∀ va, Owned image va → f va = memInitMap (ofImage image) va

section Runs

variable {image : Image} {s : Machine} {f : BitVec 64 → Option Translation}

/-- INTERNAL: an address inside a section is its first byte plus the offset. -/
theorem toNat_add_ofNat (first : BitVec 64) {n : ℕ} (h : first.toNat + n < 2 ^ 64) :
    (first + BitVec.ofNat 64 n).toNat = first.toNat + n := by
  rw [BitVec.toNat_add, BitVec.toNat_ofNat]
  omega

/-- INTERNAL: code mappings are executable at both levels. -/
theorem executable_code (pa : BitVec 64) :
    (installed .code pa).attributes.extractLsb' 53 2 = 0 := by
  show (attributes .code).extractLsb' 53 2 = 0
  decide

/-- INTERNAL: device mappings may be read and written at both levels. -/
theorem accessPermissions_device (pa : BitVec 64) :
    accessPermissions (installed .device pa) = 1 := by
  show (attributes .device).extractLsb' 6 2 = 1
  decide

/-- INTERNAL: tables that map the pages of the program as `mem_init` does let it go on. -/
theorem runs_of_shows (hlinked : Linked (ofImage image)) (h48 : t0sz s = 16)
    (h : Shows image.heap s.ttbr0 f s.tables)
    (hagree : ∀ va, Owned image va → f va = memInitMap (ofImage image) va) :
    Runs (ofImage image) s := by
  have hfits := hlinked.fits
  have hself {va : BitVec 64} {kind : Kind} {p : Translation → Prop} (hva : va.toNat < 2 ^ 48)
      (htouched : Touched (ofImage image) va)
      (hmap : memInitMap (ofImage image) va = some (installed kind va))
      (hkind : p (installed kind va)) : SelfMapped s va p :=
    h.selfMapped h48 hva ((hagree va (Or.inl htouched)).trans hmap) hkind
  refine ⟨fun n hn => ?_, fun n hn => ?_, fun device hdevice n hn => ?_⟩
  · have hend := hfits.text
    have hva := toNat_add_ofNat (ofImage image).textStart (show _ + n < _ by omega)
    have hlow : (ofImage image).textStart.toNat ≤
      ((ofImage image).textStart + BitVec.ofNat 64 n).toNat := by
      omega
    have hhigh : ((ofImage image).textStart + BitVec.ofNat 64 n).toNat <
      (ofImage image).textEnd.toNat := by
      omega
    exact hself (by omega) (Or.inl (touches_of_between hlow (Nat.le_of_lt hhigh)))
      (memInitMap_text hlinked hlow hhigh) ⟨accessPermissions_code _, executable_code _⟩
  · have hend := hfits.data
    have hva := toNat_add_ofNat (ofImage image).dataStart (show _ + n < _ by omega)
    have htouches : Touches (ofImage image).dataStart (ofImage image).dataEnd
        ((ofImage image).dataStart + BitVec.ofNat 64 n) :=
      touches_of_between (by omega) (by omega)
    exact hself (by omega) (Or.inr (Or.inl htouches)) (memInitMap_data hlinked htouches)
      (accessPermissions_data _)
  · have hend := hfits.devices device hdevice
    have hva := toNat_add_ofNat device.1 (show _ + n < _ by omega)
    have htouches : Touches device.1 device.2 (device.1 + BitVec.ofNat 64 n) :=
      touches_of_between (by omega) (by omega)
    exact hself (by omega) (Or.inr (Or.inr ⟨device, hdevice, htouches⟩))
      (memInitMap_device hdevice htouches) (accessPermissions_device _)

end Runs

section Steps

variable {image : Image} {p p' : Phase} {s s' : Machine}

/-- INTERNAL: ownership depends on the page of an address only. -/
theorem owned_congr {va va' : BitVec 64} (h : va.toNat / 4096 = va'.toNat / 4096) :
    Owned image va ↔ Owned image va' := by
  have hstart := image.heap.aligned
  have hsize := image.heapSize
  unfold Owned Touched Touches
  rw [h]
  refine or_congr_right ⟨?_, ?_⟩ <;> rintro ⟨hlow, hhigh⟩ <;> omega

/-- INTERNAL: `mem_init` in any phase without address translation. -/
theorem InPhase.init (h : InPhase image p s) (hoff : p.translated = false) :
    OnHeap (InPhase image { p with mapped := true }) (memInit image s) := by
  obtain ⟨calls, hrepresents⟩ := h.tables
  have hmmu := h.translated.trans hoff
  rw [memInit_eq image h.caller hmmu]
  have hinit := (syscallMemInit_mapped image (s := entered syscallMemInitNo s) hrepresents).and
    (syscallMemInit_shows (fits_ofImage image) (s := entered syscallMemInitNo s) hrepresents)
  apply (hinit.mono (fun _ h => h) fun _ h => h.1).bind
  rintro ⟨rc, s'⟩ ⟨⟨hzero, hmapped, hhandlers, hspsr, hkept⟩, -, h48, hshows⟩
  dsimp only at hzero hmapped hhandlers hspsr hkept h48 hshows ⊢
  subst hzero
  refine (outcome_ok _).mpr ⟨⟨?_, ?_⟩, fun ec hec => ?_, ?_, hmapped.represents, fun _ => ?_⟩
  · exact (congrFun hhandlers _).trans h.caller.handler
  · rw [show (eret s').pstate = s.pstate from hspsr]
    exact h.caller.mode
  · exact (congrFun hhandlers ec).trans (h.handlers ec hec)
  · exact hkept.trans (hmmu.trans hoff.symm)
  · exact ⟨h48, _, hshows, fun _ _ => rfl⟩

/-- INTERNAL: `mem_mmu_enable` and `mem_mmu_disable` return and change whether translation is on,
nothing else of the phase. -/
theorem InPhase.mmuCall (h : InPhase image p s) {callNo : Int}
    (hcall : callNo = syscallMmuEnableNo ∨ callNo = syscallMmuDisableNo) (on : Bool)
    (hon : (sctlrAfter callNo s.sctlr).getLsbD 0 = on) :
    ∃ s', armv8Syscall image callNo s = .ok s' ∧ InPhase image { p with translated := on } s' := by
  obtain ⟨s', hreturns, hcaller, hsame, -, hsctlr⟩ := mmuCall_returns image hcall h.caller
  refine ⟨s', hreturns, hcaller, fun ec hec => ?_, ?_, ?_, fun hmapped => ?_⟩
  · rw [hsame.handlers]
    exact h.handlers ec hec
  · rw [mmuEnabled, hsctlr]
    exact hon
  · rw [hsame.tables]
    exact h.tables
  · rw [t0sz, hsame.tcr, hsame.ttbr0, hsame.tables]
    exact h.mapped hmapped

/-- INTERNAL: the enable call sets the MMU bit of SCTLR. -/
theorem getLsbD_enable (sctlr : BitVec 32) :
    (sctlrAfter syscallMmuEnableNo sctlr).getLsbD 0 = true :=
  (getLsbD_or_bit sctlr (by decide) 0).trans (by simp)

/-- INTERNAL: the disable call clears it. -/
theorem getLsbD_disable (sctlr : BitVec 32) :
    (sctlrAfter syscallMmuDisableNo sctlr).getLsbD 0 = false :=
  (getLsbD_and_not_bit sctlr (by decide) 0).trans (by simp)

/-- INTERNAL: a mapping of another page leaves those of the program and of the tables alone. -/
theorem InPhase.mapping (h : InPhase image p s) (hoff : p.translated = false) (kind : Kind)
    {pa va : BitVec 64} (hpa : pa.toNat < 2 ^ 48) (hva : va.toNat < 2 ^ 48) :
    OnHeap (InPhase image { p with mapped := p.mapped && !decide (Owned image va) })
      (memCreatePageMapping image kind pa va s) := by
  rw [memCreatePageMapping_off (h.translated.trans hoff)]
  apply (onHeap_onHeap _).bind
  rintro ⟨rc, tables⟩ hcall
  have hstep : Armv8Tables.step image.heap s.tables (.createPageMapping kind pa va) =
      some tables := by
    rw [Armv8Tables.step, hcall]
    rfl
  have hrange : InRange (.createPageMapping kind pa va) := ⟨hpa, hva⟩
  obtain ⟨calls, hrepresents⟩ := h.tables
  refine (outcome_ok _).mpr ⟨⟨h.caller.handler, h.caller.mode⟩, h.handlers, h.translated,
    ⟨_, hrepresents.step hrange hstep⟩, fun hmapped => ?_⟩
  rw [Bool.and_eq_true, Bool.not_eq_true', decide_eq_false_iff_not] at hmapped
  obtain ⟨h48, f, hshows, hagree⟩ := h.mapped hmapped.1
  have hrun : Armv8Tables.run image.heap s.tables [.createPageMapping kind pa va] =
      some tables := by
    rw [Armv8Tables.run, List.foldlM_cons, hstep]
    rfl
  refine ⟨h48, fun va' => if va.toNat / 4096 = va'.toNat / 4096 then some (installed kind pa) else f va',
    hshows.run (by simpa using hrange) hrun fun earlier va' hearlier => ?_, fun va' howned => ?_⟩
  · rw [lastMapping_concat, effectAt, hearlier]
    split <;> rfl
  · have hother : ¬ va.toNat / 4096 = va'.toNat / 4096 :=
      fun hsame => hmapped.2 ((owned_congr hsame).mpr howned)
    exact (if_neg hother).trans (hagree va' howned)

/-- INTERNAL: the operations that build tables, and so may end the heap. -/
def Builds : MemCall → Bool
  | .memInit => true
  | .memReset => true
  | .memCreatePageMapping _ _ _ => true
  | _ => false

/-- INTERNAL: the other operations, called in their phase, return. -/
theorem InPhase.returns (hlinked : Linked (ofImage image)) (h : InPhase image p s) {call : MemCall}
    (hbuilds : Builds call = false) (hnext : p.next image call = some p') :
    ∃ s', memCall image s call = .ok s' ∧ InPhase image p' s' := by
  cases call with
  | memInit => cases hbuilds
  | memReset => cases hbuilds
  | memMmuEnable =>
    rw [Phase.next, Option.ite_none_right_eq_some, Option.some.injEq] at hnext
    obtain ⟨hmapped, rfl⟩ := hnext
    obtain ⟨s', hreturns, hphase⟩ := h.mmuCall (Or.inl rfl) true (getLsbD_enable s.sctlr)
    obtain ⟨h48, f, hshows, hagree⟩ := hphase.mapped hmapped
    refine ⟨s', ?_, hphase⟩
    show (armv8Syscall image syscallMmuEnableNo s >>= _) = _
    rw [hreturns]
    exact if_pos (runs_of_shows hlinked h48 hshows hagree)
  | memMmuDisable =>
    cases hnext
    exact h.mmuCall (Or.inr rfl) false (getLsbD_disable s.sctlr)
  | memTlbFlush =>
    cases hnext
    exact ⟨s, rfl, h⟩
  | memTlbEvict ptr =>
    cases hnext
    exact ⟨s, rfl, h⟩
  | memCacheFlush => cases hnext
  | memCreatePageMapping kind pa va => cases hbuilds

/-- INTERNAL: **one operation** called in its phase. -/
theorem InPhase.call (hlinked : Linked (ofImage image)) (h : InPhase image p s) {call : MemCall}
    (hnext : p.next image call = some p') : OnHeap (InPhase image p') (memCall image s call) := by
  have hinit (hnext : (if p.translated then none else some { p with mapped := true }) = some p') :
      OnHeap (InPhase image p') (memInit image s) := by
    rw [Option.ite_none_left_eq_some, Option.some.injEq] at hnext
    obtain ⟨hoff, rfl⟩ := hnext
    exact h.init (by simpa using hoff)
  cases hbuilds : Builds call with
  | false =>
    obtain ⟨s', hreturns, hphase⟩ := h.returns hlinked hbuilds hnext
    rw [hreturns]
    exact hphase
  | true =>
    cases call with
    | memInit => exact hinit hnext
    | memReset => exact hinit hnext
    | memCreatePageMapping kind pa va =>
      rw [Phase.next, Option.ite_none_left_eq_some, Option.ite_none_right_eq_some,
        Option.some.injEq] at hnext
      obtain ⟨hoff, ⟨hpa, hva⟩, rfl⟩ := hnext
      exact h.mapping (by simpa using hoff) kind hpa hva
    | _ => cases hbuilds

/-- INTERNAL: a run of operations that build nothing. Induction on the operations. -/
theorem InPhase.run_returns (hlinked : Linked (ofImage image)) {calls : List MemCall}
    (h : InPhase image p s) (hbuilds : ∀ call ∈ calls, Builds call = false)
    (hafter : phaseAfter image p calls = some p') : ∃ s', memCalls image calls s = .ok s' := by
  induction calls generalizing p s with
  | nil => exact ⟨s, rfl⟩
  | cons call calls ih =>
    obtain ⟨hcall, hrest⟩ := List.forall_mem_cons.mp hbuilds
    rw [phaseAfter, List.foldlM_cons, Option.bind_eq_bind, Option.bind_eq_some_iff] at hafter
    obtain ⟨p₁, hnext, hafter⟩ := hafter
    obtain ⟨s₁, hreturns, hphase⟩ := h.returns hlinked hcall hnext
    rw [memCalls, List.foldlM_cons, hreturns]
    exact ih hphase hrest hafter

end Steps

section Lost

variable {image : Image} {p : Phase} {s : Machine}

/-- INTERNAL: the heap shares no page with a region of `mem_init`, as the linker lays it out.
SRC: platform/armv8/virt/sys.ld:71-76 -/
def HeapApart (image : Image) : Prop :=
  ∀ va : BitVec 64, image.heap.heapStart.toNat ≤ va.toNat → va.toNat < image.heap.heapEnd.toNat →
    ¬ Touched (ofImage image) va

/-- INTERNAL: tables that map the program map no page of the heap. -/
theorem InPhase.heap_hidden (h : InPhase image p s) (hmapped : p.mapped = true)
    (hapart : HeapApart image) {va : BitVec 64} (hlow : image.heap.heapStart.toNat ≤ va.toNat)
    (hhigh : va.toNat < image.heap.heapEnd.toNat) : translate s va = none := by
  obtain ⟨-, f, hshows, hagree⟩ := h.mapped hmapped
  have hbound := image.heap.bounded
  rw [Armv8Machine.translate, ← hshows.table]
  exact (hshows.walk (by omega)).trans ((hagree va (Or.inr ⟨hlow, hhigh⟩)).trans
    (memInitMap_untouched (hapart va hlow hhigh)))

/-- INTERNAL: with the MMU on over built tables, no byte of the heap may be read or written: the
tables do not map themselves. -/
theorem InPhase.heap_inaccessible (h : InPhase image p s) (htranslated : p.translated = true)
    (hmapped : p.mapped = true) (hapart : HeapApart image) {va : BitVec 64}
    (hlow : image.heap.heapStart.toNat ≤ va.toNat) (hhigh : va.toNat < image.heap.heapEnd.toNat)
    (unprivileged write : Bool) : accessible unprivileged write va s = false := by
  rw [accessible, h.translated, htranslated, h.heap_hidden hmapped hapart hlow hhigh]
  rfl

/-- INTERNAL: **`mem_init` under its own tables** ends in the abort of a vector: it stores to the
root. SRC: arch/armv8/mem.c:100-102; arch/armv8/vectors.S:151-153 -/
theorem InPhase.memInit_aborts (h : InPhase image p s) (htranslated : p.translated = true)
    (hmapped : p.mapped = true) (hapart : HeapApart image) : memInit image s = .error .abort := by
  obtain ⟨-, f, hshows, -⟩ := h.mapped hmapped
  obtain ⟨page, hroot, hlow, hhigh⟩ := hshows.root_heap
  have hnonzero : s.tables.l0Table ≠ 0 := by
    rw [hshows.table]
    exact hshows.nonzero
  have hget : Armv8Tables.getTxlnTable image.heap s.tables = some (s.tables.l0Table, s.tables) :=
    if_neg hnonzero
  have hstore : accessible false true s.tables.l0Table s = false :=
    h.heap_inaccessible htranslated hmapped hapart (by rw [hroot, toNat_base]; exact hlow)
      (by rw [hroot, toNat_base]; omega) false true
  rw [memInit_translated image h.caller (h.translated.trans htranslated), hget]
  show Except.error (if accessible false true s.tables.l0Table s = true then _ else _) = _
  rw [hstore]
  rfl

/-- INTERNAL: **a mapping under the tables** ends in the abort of the exception vector: it loads
an entry of the root, and no handler is installed for the data abort.
SRC: arch/armv8/txln_table.c:100-104; arch/armv8/vectors.S:296-305 -/
theorem InPhase.mapping_aborts (h : InPhase image p s) (htranslated : p.translated = true)
    (hmapped : p.mapped = true) (hapart : HeapApart image) (kind : Kind) (pa va : BitVec 64) :
    ∃ halt, memCreatePageMapping image kind pa va s = .error halt ∧ MissingHandler halt := by
  obtain ⟨-, f, hshows, -⟩ := h.mapped hmapped
  obtain ⟨page, hroot, hlow, hhigh⟩ := hshows.root_heap
  have hnonzero : s.tables.l0Table ≠ 0 := by
    rw [hshows.table]
    exact hshows.nonzero
  have hget : Armv8Tables.getL0Table image.heap s.tables = some (s.tables.l0Table, s.tables) :=
    if_neg hnonzero
  have hindex : (Armv8Tables.tableIndex 39 Armv8Tables.txltL0Entries va).toNat < 512 := by
    rw [Armv8Tables.tableIndex, BitVec.toNat_and]
    exact Nat.lt_of_le_of_lt Nat.and_le_right (by decide)
  have hentry : (wordAddr s.tables.l0Table
      (Armv8Tables.tableIndex 39 Armv8Tables.txltL0Entries va)).toNat = page.toNat * 4096 +
        (Armv8Tables.tableIndex 39 Armv8Tables.txltL0Entries va).toNat * 8 := by
    rw [hroot, wordAddr_base page _ hindex, toNat_slotAddr, BitVec.toNat_setWidth]
    omega
  have hload (unprivileged : Bool) : accessible unprivileged false (wordAddr s.tables.l0Table
      (Armv8Tables.tableIndex 39 Armv8Tables.txltL0Entries va)) s = false :=
    h.heap_inaccessible htranslated hmapped hapart (by omega) (by omega) unprivileged false
  have hclass : (if modeOf s.pstate = el0t then ecDataAbort else ecDataAbort + 1) ≠ armv8EcSyscall := by
    split <;> decide
  obtain ⟨halt, hhalts, hmissing⟩ := takeSynchronous_missing image 0 h.caller.mode
    (h.handlers _ hclass)
  refine ⟨halt, ?_, hmissing⟩
  unfold memCreatePageMapping access dataAccess
  rw [h.translated, htranslated, if_pos rfl, hget]
  show ((if accessible _ false _ s = true then Except.ok s else takeAbort image ecDataAbort s) >>= _) = _
  rw [hload, if_neg Bool.false_ne_true, takeAbort, hhalts]
  rfl

/-- INTERNAL: **no table is built under the tables**: each of the operations that would, ends the
run in one of these aborts. SRC: arch/armv8/mem.c:69-120,144-147; arch/armv8/txln_table.c:206-246 -/
theorem InPhase.builds_aborts (h : InPhase image p s) (htranslated : p.translated = true)
    (hmapped : p.mapped = true) (hapart : HeapApart image) {call : MemCall}
    (hbuilds : Builds call = true) :
    ∃ halt, memCall image s call = .error halt ∧ (halt = .abort ∨ MissingHandler halt) := by
  have hinit := h.memInit_aborts htranslated hmapped hapart
  cases call with
  | memInit => exact ⟨.abort, hinit, Or.inl rfl⟩
  | memReset => exact ⟨.abort, hinit, Or.inl rfl⟩
  | memCreatePageMapping kind pa va =>
    obtain ⟨halt, hhalts, hmissing⟩ := h.mapping_aborts htranslated hmapped hapart kind pa va
    exact ⟨halt, hhalts, Or.inr hmissing⟩
  | _ => cases hbuilds

end Lost

/-! ## The interface -/

end Simbench.Analysis.Armv8MemoryRuns
