import Mathlib.Algebra.GroupWithZero.Nat
import Mathlib.Algebra.Ring.Int.Defs
import Simbench.Analysis.ArmSectionTable
import Simbench.Analysis.Armv8Provenance

/-!
# What the status of a mapping call says

`mem_create_page_mapping_code`, `_data` and `_device` return a status on both ARM ports. The
ARM port refuses an address that is no section address, so 0 means that the virtual address
leads to the physical one. The ARMv8 port always returns 0 and drops the offsets and the high
bits of both addresses.
-/

set_option autoImplicit false

namespace Simbench.Analysis.MappingStatus

open Simbench.Library.RadixTree Simbench.Library.PagedMemory Simbench.Library.TableWalk
open Simbench.Program Simbench.Program.Armv8Tables Simbench.Analysis.Armv8Descriptors
open Simbench.Analysis.Armv8TableInvariant Simbench.Analysis.Armv8TableCalls
open Simbench.Analysis.Armv8Provenance

/-- INTERNAL: a status of 0 says that `va` leads to `pa`, any other one that no translation has
changed. SRC: include/mem.h:21-25 -/
structure StatusTells {ρ σ α : Type} [Zero ρ] (translate : σ → α → Option α) (pa va : α)
    (before : σ) (status : ρ) (after : σ) : Prop where
  mapped : status = 0 → translate after va = some pa
  unchanged : status ≠ 0 → ∀ a, translate after a = translate before a

/-! ## ARM -/

/-- INTERNAL: the mapping routine of a kind on ARM. SRC: arch/arm/mem.c:346-413 -/
def armMapping : Kind → BitVec 32 → BitVec 32 → ArmSections.State →
    Except ArmSections.Halt (ℕ × ArmSections.State)
  | .code => ArmSections.memCreatePageMappingCode
  | .data => ArmSections.memCreatePageMappingData
  | .device => ArmSections.memCreatePageMappingDevice

/-- INTERNAL: the translation by the section table alone. -/
def armTranslate (s : ArmSections.State) (va : BitVec 32) : Option (BitVec 32) :=
  ArmSections.sectionTranslate s.table va

/-- INTERNAL: a section address has no offset. -/
theorem section_address {a : BitVec 32} (h : ArmSections.misaligned a = false) :
    a &&& 0xfff00000 = a ∧ a &&& 0xfffff = 0 := by
  rw [ArmSections.misaligned, decide_eq_false_iff_not, not_not] at h
  have hoffset : a &&& 0xfffff = 0 := h
  refine ⟨?_, hoffset⟩
  have hsplit : (a &&& 0xfff00000) ||| (a &&& 0xfffff) = a := by
    rw [← BitVec.and_or_distrib_left]
    exact BitVec.and_allOnes
  rw [hoffset] at hsplit
  exact BitVec.or_zero.symm.trans hsplit

/-- INTERNAL: on arm the status of a mapping tells: a misaligned request changes nothing, an aligned
one leads where it says. -/
theorem arm_statusTells (kind : ArmSections.Kind) {pa va : BitVec 32} {s s' : ArmSections.State}
    {rc : ℕ} (h : ArmSections.memCreatePageMapping kind pa va s = .ok (rc, s')) :
    StatusTells armTranslate pa va s rc s' := by
  rw [ArmSections.memCreatePageMapping] at h
  split at h
  · obtain ⟨rfl, rfl⟩ := h
    exact ⟨fun h => absurd h Nat.one_ne_zero, fun _ _ => rfl⟩
  · next haligned =>
    dsimp only at h
    split at h
    · cases h
    · obtain ⟨rfl, rfl⟩ := h
      simp only [Bool.or_eq_true, not_or, Bool.not_eq_true] at haligned
      refine ⟨fun _ => ?_, fun h => absurd rfl h⟩
      have hword := ArmSectionTable.readWord_writeWord s.table (ArmSections.sectionIndex va)
        (kind.descriptor pa) (ArmSections.sectionIndex va)
      rw [if_pos rfl] at hword
      rw [armTranslate, ArmSectionTable.translate_descriptor hword,
        (section_address haligned.1).1, (section_address haligned.2).2]
      exact congrArg some (BitVec.add_zero pa)

/-- INTERNAL: the status of each of the three mapping routines tells what happened. -/
theorem armMapping_statusTells {kind : Kind} {pa va : BitVec 32} {s s' : ArmSections.State}
    {rc : ℕ} (h : armMapping kind pa va s = .ok (rc, s')) :
    StatusTells armTranslate pa va s rc s' := by
  cases kind with
  | code => exact arm_statusTells .data h
  | data => exact arm_statusTells .data h
  | device => exact arm_statusTells .device h

/-! ## ARMv8 -/

/-- INTERNAL: what the processor makes of an address: the page of its walk with its own offset.
TTBR0_EL1 serves the addresses whose upper sixteen bits are clear.
SRC: arch/armv8/mem.c:71-99 -/
def outputAddress (s : Machine) (va : BitVec 64) : Option (BitVec 64) :=
  if va.toNat < 2 ^ 48 then (walk s va).map fun t => t.page ||| (va &&& 0xfff) else none

/-- INTERNAL: both addresses have 48 bits, and the same offset in their pages. -/
structure SameOffset (pa va : BitVec 64) : Prop where
  physical : pa.toNat < 2 ^ 48
  virtual : va.toNat < 2 ^ 48
  offset : pa.toNat % 4096 = va.toNat % 4096

/-- INTERNAL: the address field rounds down to the page, below 2^48. -/
theorem and_addressMask_toNat (a : BitVec 64) :
    (a &&& addressMask).toNat = a.toNat % 2 ^ 48 / 4096 * 4096 := by
  have hmask : addressMask = 0xffffffffffff &&& ~~~0xfff#64 := by decide
  have hlow : (a &&& 0xffffffffffff).toNat = a.toNat % 2 ^ 48 := by
    rw [BitVec.toNat_and]
    exact Nat.and_two_pow_sub_one_eq_mod a.toNat 48
  rw [hmask, ← BitVec.and_assoc, and_not_offset, toNat_base, toNat_pageOf, hlow]

/-- INTERNAL: the page of one address with the offset of another. -/
theorem page_or_offset_toNat (pa va : BitVec 64) :
    ((pa &&& addressMask) ||| (va &&& 0xfff)).toNat =
      pa.toNat % 2 ^ 48 / 4096 * 4096 + va.toNat % 4096 := by
  have hdisjoint : (pa &&& addressMask) &&& (va &&& 0xfff) = 0 := by
    have hzero : addressMask &&& (va &&& 0xfff) = 0 := by
      rw [BitVec.and_comm va, ← BitVec.and_assoc]
      exact BitVec.zero_and
    rw [BitVec.and_assoc, hzero]
    exact BitVec.and_zero
  have hoffset : (va &&& 0xfff).toNat = va.toNat % 4096 := by
    rw [BitVec.toNat_and]
    exact Nat.and_two_pow_sub_one_eq_mod va.toNat 12
  have hpa := Nat.mod_lt pa.toNat (show 0 < 2 ^ 48 by decide)
  rw [← BitVec.add_eq_or_of_and_eq_zero _ _ hdisjoint, BitVec.toNat_add, and_addressMask_toNat,
    hoffset]
  omega

variable {L : HeapLayout} {s s' s₁ : Machine} {root : Page} {lvl : Page → Option ℕ}

/-- INTERNAL: the page a mapping call stores, whatever the address is.
SRC: arch/armv8/txln_table.c:184-204 -/
theorem leaf_page (kind : Kind) (pa : BitVec 64) : ∃ attributes,
    armFormat.leaf (leafWord kind pa) = some ⟨pa &&& addressMask, attributes⟩ := by
  have hmask : (pa &&& ~~~0xfff#64) &&& addressMask = pa &&& addressMask := by
    rw [BitVec.and_assoc]
    rfl
  have hthree : leafWord kind pa &&& 3 = 3 := by
    have hzero : ~~~0xfff#64 &&& 3 = 0 := by decide
    have hnone : pa &&& 0 = 0 := BitVec.and_zero
    rw [Armv8Refinement.leafWord_eq, BitVec.and_or_distrib_right, ← and_not_offset,
      BitVec.and_assoc, hzero, hnone]
    cases kind <;> decide
  have hpage : leafWord kind pa &&& addressMask = pa &&& addressMask := by
    rw [Armv8Refinement.leafWord_eq, BitVec.and_or_distrib_right, ← and_not_offset, hmask]
    cases kind <;> exact BitVec.or_zero
  refine ⟨leafWord kind pa &&& ~~~addressMask, ?_⟩
  simp only [armFormat, leafTranslation, if_pos hthree, hpage]

/-- INTERNAL: a lookup that ends in a leaf is a walk. -/
theorem walk_of_lookup (h : Inv False L s root lvl) {va : BitVec 64} {t : Translation}
    (hlookup : lookup armFormat (view s.mem) root (vaPath va) (vaSlot 12 va) = some t) :
    walk s va = some t := by
  have hread : ∀ p shift, s.mem (wordAddr (base p) (walkIndex shift va)) =
      view s.mem p (vaSlot shift va) := fun p shift => by
    rw [wordAddr_walkIndex]
    rfl
  have hfollow : ∀ w q, armFormat.next w = some q → followTable w = some (base q) := by
    intro w q hnext
    simp only [armFormat] at hnext
    split at hnext
    · next hthree => rw [followTable, if_pos hthree, (remembered_eq_some hnext).1]
    · cases hnext
  simp only [lookup, vaPath, descend, List.foldlM_cons, List.foldlM_nil, Option.bind_eq_bind,
    Option.pure_def, Option.bind_eq_some_iff] at hlookup
  obtain ⟨_, ⟨t₁, h₁, t₂, h₂, t₃, h₃, hlast⟩, hleaf⟩ := hlookup
  obtain rfl := Option.some.inj hlast
  rw [walk, if_neg h.hasTable, h.table, fourLevelWalk]
  simp only [Option.bind_eq_bind, hread, hfollow _ _ h₁, hfollow _ _ h₂, hfollow _ _ h₃,
    Option.bind_some]
  exact hleaf

/-! ## Reachable tables -/

/-- INTERNAL: the machine before its first table, or with its tables. -/
def Reached (L : HeapLayout) (s : Machine) : Prop :=
  Fresh L s ∨ ∃ root lvl, Inv False L s root lvl

/-- INTERNAL: a clean call leads from a reached state to a reached state. -/
theorem Reached.step {c : Call} (h : Reached L s) (hclean : CleanStep L s c)
    (hstep : Armv8Tables.step L s c = some s') : Reached L s' := by
  rcases h with hfresh | ⟨root, lvl, hinv⟩
  · exact .inr ((stepProvenance_of_fresh hfresh hclean).2 s' hstep)
  · have hready : ∀ kind pa va, c = .createPageMapping kind pa va → PathReady L s root va := by
      intro kind pa va hc
      have hpath := hclean.path kind pa va hc _ _ (getL0Table_of_inv hinv)
      rwa [pageOf_base] at hpath
    exact .inr ⟨root, (stepProvenance_of_inv hinv hready).2 s' hstep⟩

/-- INTERNAL: a clean run of calls leads to a reached state from which its last call is clean. -/
theorem Reached.run {calls : List Call} {c : Call} (h : Reached L s)
    (hclean : CleanRun L s (calls ++ [c])) (hrun : Armv8Tables.run L s calls = some s') :
    Reached L s' ∧ CleanStep L s' c := by
  induction calls generalizing s with
  | nil =>
    obtain rfl := Option.some.inj hrun
    exact ⟨h, hclean.1⟩
  | cons call calls ih =>
    rw [Armv8Tables.run, List.foldlM_cons, Option.bind_eq_bind, Option.bind_eq_some_iff] at hrun
    obtain ⟨s₁, hstep, hrest⟩ := hrun
    exact ih (h.step hclean.1 hstep) (hclean.2 s₁ hstep) hrest

/-- INTERNAL: a call with a root table to make does what it does once the table is there. -/
theorem memCreatePageMapping_of_root {a : BitVec 64} {kind : Kind} {pa va : BitVec 64}
    (h : getL0Table L s = some (a, s₁)) (h₁ : getL0Table L s₁ = some (a, s₁)) :
    memCreatePageMapping L kind pa va s = memCreatePageMapping L kind pa va s₁ := by
  rw [memCreatePageMapping_eq, memCreatePageMapping_eq, getL3TableOf, getL3TableOf, h, h₁]

/-- INTERNAL: a mapping call that returns, returns 0, and `va` leads to the page of `pa`.
SRC: arch/armv8/txln_table.c:206-246 -/
theorem walk_of_mapping {kind : Kind} {pa va : BitVec 64} {rc : Int} (h : Reached L s)
    (hclean : CleanStep L s (.createPageMapping kind pa va))
    (hcall : memCreatePageMapping L kind pa va s = some (rc, s')) :
    rc = 0 ∧ ∃ attributes, walk s' va = some ⟨pa &&& addressMask, attributes⟩ := by
  have hmapped : ∀ {s₁ root lvl}, Inv False L s₁ root lvl → PathReady L s₁ root va →
      memCreatePageMapping L kind pa va s₁ = some (rc, s') →
      rc = 0 ∧ ∃ attributes, walk s' va = some ⟨pa &&& addressMask, attributes⟩ := by
    intro s₁ root lvl hinv hready hcall
    obtain ⟨hrc, lvl', M⟩ := mapping_spec hinv hready hcall
    obtain ⟨attributes, hleaf⟩ := leaf_page kind pa
    refine ⟨hrc, attributes, walk_of_lookup M.inv ?_⟩
    rw [M.lookup_eq _ _ rfl, if_pos ⟨rfl, rfl⟩, hleaf]
  rcases h with hfresh | ⟨root, lvl, hinv⟩
  · have hstep : Armv8Tables.step L s (.createPageMapping kind pa va) = some s' := by
      rw [Armv8Tables.step, hcall]
      rfl
    obtain ⟨a, s₁, hroot⟩ := root_of_step hstep
    have hnever : False → s.heapPtr.toNat + 4096 ≤ L.heapEnd.toNat →
        ∀ i, view s.mem (pageOf s.heapPtr) i &&& 3 = 0 := False.elim
    obtain ⟨rfl, -, hinv⟩ :=
      getL0Table_of_fresh hfresh (hclean.rootPage hfresh.noTable) hnever hroot
    have hready := hclean.path kind pa va rfl _ _ hroot
    rw [pageOf_base] at hready
    rw [memCreatePageMapping_of_root hroot (getL0Table_of_inv hinv)] at hcall
    exact hmapped hinv hready hcall
  · have hready := hclean.path kind pa va rfl _ _ (getL0Table_of_inv hinv)
    rw [pageOf_base] at hready
    exact hmapped hinv hready hcall

/-- INTERNAL: on ARMv8 the status tells the truth for addresses with one offset.
SRC: arch/armv8/txln_table.c:206-246 -/
theorem armv8_statusTells_iff {kind : Kind} {pa va : BitVec 64} {rc : Int} (h : Reached L s)
    (hclean : CleanStep L s (.createPageMapping kind pa va))
    (hcall : memCreatePageMapping L kind pa va s = some (rc, s')) :
    StatusTells outputAddress pa va s rc s' ↔ SameOffset pa va := by
  obtain ⟨rfl, attributes, hwalk⟩ := walk_of_mapping h hclean hcall
  have htoNat := page_or_offset_toNat pa va
  constructor
  · rintro ⟨hmapped, -⟩
    have houtput := hmapped rfl
    rw [outputAddress] at houtput
    split at houtput
    · next hva =>
      rw [hwalk, Option.map_some, Option.some.injEq] at houtput
      rw [houtput] at htoNat
      have hpa := pa.isLt
      exact ⟨by omega, hva, by omega⟩
    · cases houtput
  · rintro ⟨hpa, hva, hoffset⟩
    refine ⟨fun _ => ?_, fun h => absurd rfl h⟩
    rw [outputAddress, if_pos hva, hwalk, Option.map_some, Option.some.injEq]
    apply BitVec.eq_of_toNat_eq
    rw [htoNat]
    omega

/-- SOURCE: arch/arm/mem.c:346-413; arch/armv8/txln_table.c:178-246; include/mem.h:21-25 — **the
status of a mapping call**: on ARM it always tells the truth; on ARMv8, behind any run of calls
that take clean pages for their tables, exactly for addresses with one offset. -/
theorem statusTells_iff (kind : Kind) :
    (∀ pa va s rc s', armMapping kind pa va s = .ok (rc, s') →
      StatusTells armTranslate pa va s rc s') ∧
    ∀ (L : HeapLayout) (mem : Memory) (calls : List Call) (s : Machine),
      run L (armv8HeapInit L mem) calls = some s → ∀ pa va : BitVec 64,
      CleanRun L (armv8HeapInit L mem) (calls ++ [.createPageMapping kind pa va]) →
      ∀ rc s', memCreatePageMapping L kind pa va s = some (rc, s') →
        (StatusTells outputAddress pa va s rc s' ↔ SameOffset pa va) := by
  refine ⟨fun pa va s rc s' h => armMapping_statusTells h, ?_⟩
  intro L mem calls s hrun pa va hclean rc s' hcall
  have hstart : Reached L (armv8HeapInit L mem) := .inl ⟨rfl, rfl⟩
  obtain ⟨hreached, hstep⟩ := hstart.run hclean hrun
  exact armv8_statusTells_iff hreached hstep hcall

/-- INTERNAL: a mapping as the first call on a heap of zeros: it returns, and took clean pages. -/
theorem first_mapping (kind : Kind) {pa va : BitVec 64} (hpa : pa.toNat < 2 ^ 48)
    (hva : va.toNat < 2 ^ 48) :
    CleanRun smallHeap (armv8HeapInit smallHeap fun _ => 0) [.createPageMapping kind pa va] ∧
      ∃ rc s', memCreatePageMapping smallHeap kind pa va (armv8HeapInit smallHeap fun _ => 0) =
        some (rc, s') := by
  have hrange : ∀ c ∈ [Call.createPageMapping kind pa va], Armv8Refinement.InRange c := by
    intro c hc
    rw [List.mem_singleton.mp hc]
    exact ⟨hpa, hva⟩
  refine ⟨cleanRun_of_represents [] hrange (.fresh ⟨rfl, rfl⟩ (fun _ _ _ => rfl) fun _ => rfl), ?_⟩
  obtain ⟨s, hrun⟩ := (Armv8Refinement.walk_refines_lastMapping smallHeap (fun _ => 0) _
    (fun _ _ _ => rfl) hrange).1 (show 0x1000 + 4 * 1 * 4096 ≤ 0x10000 by decide)
  rw [run, List.foldlM_cons, Option.bind_eq_bind, Option.bind_eq_some_iff] at hrun
  obtain ⟨s₁, hstep, -⟩ := hrun
  rw [Armv8Tables.step, Option.map_eq_some_iff] at hstep
  obtain ⟨⟨rc, s'⟩, hcall, -⟩ := hstep
  exact ⟨rc, s', hcall⟩

/-- INTERNAL: arm refuses a request off its sections and leaves the table alone; armv8 maps a first
page with equal offsets. -/
theorem statusTells_iff_first :
    (∃ rc s', armMapping .code 0x123 0x100000 (.start ArmSectionTable.zeroTable true) =
        .ok (rc, s') ∧
      StatusTells armTranslate 0x123 0x100000 (.start ArmSectionTable.zeroTable true) rc s') ∧
    ∃ rc s', memCreatePageMapping smallHeap .data 0x5004 0x7004
        (armv8HeapInit smallHeap fun _ => 0) = some (rc, s') ∧
      StatusTells outputAddress 0x5004 0x7004 (armv8HeapInit smallHeap fun _ => 0) rc s' := by
  refine ⟨⟨1, _, rfl, (statusTells_iff .code).1 _ _ _ _ _ rfl⟩, ?_⟩
  obtain ⟨hclean, rc, s', hcall⟩ :=
    first_mapping .data (show (0x5004 : BitVec 64).toNat < 2 ^ 48 by decide)
      (show (0x7004 : BitVec 64).toNat < 2 ^ 48 by decide)
  exact ⟨rc, s', hcall, ((statusTells_iff .data).2 smallHeap (fun _ => 0) [] _ rfl 0x5004 0x7004
    hclean rc s' hcall).mpr ⟨by decide, by decide, by decide⟩⟩

/-- INTERNAL: two offsets: the call returns 0, and the address leads to the physical page with
its own offset. -/
theorem statusTells_fails : ∃ s',
    memCreatePageMapping smallHeap .data 0x5004 0x7008 (armv8HeapInit smallHeap fun _ => 0) =
      some (0, s') ∧
    outputAddress s' 0x7008 = some 0x5008 ∧
    ¬ StatusTells outputAddress 0x5004 0x7008 (armv8HeapInit smallHeap fun _ => 0) (0 : Int)
      s' := by
  obtain ⟨hclean, rc, s', hcall⟩ :=
    first_mapping .data (show (0x5004 : BitVec 64).toNat < 2 ^ 48 by decide)
      (show (0x7008 : BitVec 64).toNat < 2 ^ 48 by decide)
  obtain ⟨rfl, attributes, hwalk⟩ := walk_of_mapping (.inl ⟨rfl, rfl⟩) hclean.1 hcall
  have houtput : outputAddress s' 0x7008 = some 0x5008 := by
    have hvalue : (0x5004 &&& addressMask) ||| (0x7008 &&& 0xfff) = (0x5008 : BitVec 64) := by
      decide
    rw [outputAddress, if_pos (by decide), hwalk, Option.map_some]
    exact congrArg some hvalue
  refine ⟨s', hcall, houtput, fun htells => ?_⟩
  have hmapped := htells.mapped rfl
  rw [houtput] at hmapped
  exact absurd (Option.some.inj hmapped) (by decide)

end Simbench.Analysis.MappingStatus
