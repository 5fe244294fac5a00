import Simbench.Analysis.Armv8MemoryCalls
import Simbench.Analysis.Armv8Refinement

/-!
# What `mem_init` leaves mapped

After the calls of `mem_init` every page of the data and device regions translates, and for
reading and writing at EL0, and further data mappings keep it so. The walk from TTBR0_EL1
reaches these translations once the register holds the root of the tables.
-/

set_option autoImplicit false

namespace Simbench.Analysis.Armv8Mappings

open Simbench.Library.AddressLoops Simbench.Library.BitFields Simbench.Library.LastWrite
open Simbench.Library.Outcomes Simbench.Library.PagedMemory
open Simbench.Program Simbench.Program.Armv8Machine
open Simbench.Analysis.Armv8MemoryCalls Simbench.Analysis.Armv8Refinement
open Armv8Tables (Call Kind HeapLayout)

/-! ## Histories of calls -/

/-- INTERNAL: the last mapping of the page admits EL0 to read and write. -/
def RwMapped (calls : List Call) (va : BitVec 64) : Prop :=
  ∃ kind pa, lastMapping calls va = some (installed kind pa) ∧ kind ≠ .code

/-- INTERNAL: a mapping call of another kind than code. -/
def IsRwMapping (c : Call) : Prop := ∃ kind pa va, c = .createPageMapping kind pa va ∧ kind ≠ .code

/-- INTERNAL: the last mapping of an address is the last call's, where that call maps or unmaps
it. -/
theorem lastMapping_concat (calls : List Call) (c : Call) (va : BitVec 64) :
    lastMapping (calls ++ [c]) va = (effectAt va c).getD (lastMapping calls va) :=
  lastWrite_concat _ calls c

/-- INTERNAL: an address that may be read and written stays so over a mapping of data or devices. -/
theorem RwMapped.concat {calls : List Call} {c : Call} {va : BitVec 64} (h : RwMapped calls va)
    (hc : IsRwMapping c) : RwMapped (calls ++ [c]) va := by
  obtain ⟨kind, pa, va', rfl, hkind⟩ := hc
  unfold RwMapped
  rw [lastMapping_concat, effectAt]
  split
  · exact ⟨kind, pa, rfl, hkind⟩
  · exact h

/-- INTERNAL: an address that may be read and written stays so over any number of mappings of data
or devices. -/
theorem RwMapped.append {calls : List Call} (later : List Call) {va : BitVec 64}
    (h : RwMapped calls va) (hlater : ∀ c ∈ later, IsRwMapping c) :
    RwMapped (calls ++ later) va := by
  induction later using List.reverseRecOn with
  | nil => rwa [List.append_nil]
  | append_singleton later c ih =>
    rw [← List.append_assoc]
    exact (ih fun c' hc' => hlater c' (List.mem_append_left _ hc')).concat (hlater c (by simp))

/-- INTERNAL: a mapping of data or a device makes every address of its page readable and
writable. -/
theorem rwMapped_new (calls : List Call) {kind : Kind} (hkind : kind ≠ .code) (pa : BitVec 64)
    {va va' : BitVec 64} (hpage : va'.toNat / 4096 = va.toNat / 4096) :
    RwMapped (calls ++ [.createPageMapping kind pa va']) va := by
  refine ⟨kind, pa, ?_, hkind⟩
  rw [lastMapping_concat, effectAt, if_pos hpage]
  rfl

/-! ## Regions -/

/-- INTERNAL: the pages of a loop are those at a multiple of the page size from its start, as many
as it has rounds. -/
theorem mem_pagesFrom {rounds : ℕ} {i p : BitVec 64} (hwrap : i.toNat + rounds * 4096 < 2 ^ 64) :
    p ∈ pagesFrom rounds i ↔ ∃ k < rounds, p.toNat = i.toNat + k * 4096 := by
  induction rounds generalizing i with
  | zero => simp [pagesFrom]
  | succ rounds ih =>
    have hnext := toNat_add_pageSize (i := i) (by omega)
    rw [pagesFrom, List.mem_cons, ih (by omega), hnext, strided_cons]

/-- INTERNAL: the page a region starts in. -/
theorem toNat_regionStart (a : BitVec 64) :
    (a &&& ~~~(memGetPageSize - 1)).toNat = a.toNat / 4096 * 4096 := by
  rw [show memGetPageSize - 1 = 0xfff#64 by decide, and_not_offset, toNat_base, toNat_pageOf]

/-- INTERNAL: the base of the page of an address is the address rounded down. -/
theorem toNat_page (a : BitVec 64) : (base (pageOf a)).toNat = a.toNat / 4096 * 4096 := by
  rw [toNat_base, toNat_pageOf]

section Region

variable {regionStart regionEnd : BitVec 64}

/-- INTERNAL: the pages a region touches, by their numbers. -/
theorem mem_regionPages (hordered : regionStart.toNat ≤ regionEnd.toNat)
    (hend : regionEnd.toNat + 4096 < 2 ^ 64) (p : BitVec 64) :
    p ∈ regionPages regionStart regionEnd ↔ p.toNat % 4096 = 0 ∧
      regionStart.toNat / 4096 ≤ p.toNat / 4096 ∧ p.toNat ≤ regionEnd.toNat := by
  have hstart := toNat_regionStart regionStart
  unfold regionPages
  rw [mem_pagesFrom (by omega), hstart]
  constructor
  · rintro ⟨k, hk, hp⟩
    omega
  · rintro ⟨haligned, hle, hp⟩
    exact ⟨p.toNat / 4096 - regionStart.toNat / 4096, by omega, by omega⟩

/-- INTERNAL: an address of the region is mapped by the calls for the region. -/
theorem rwMapped_region (hordered : regionStart.toNat ≤ regionEnd.toNat)
    (hend : regionEnd.toNat + 4096 < 2 ^ 64) {kind : Kind} (hkind : kind ≠ .code)
    (calls : List Call) {va : BitVec 64} (hlow : regionStart.toNat ≤ va.toNat)
    (hhigh : va.toNat ≤ regionEnd.toNat) :
    RwMapped (calls ++ regionCalls kind regionStart regionEnd) va := by
  have hpage : base (pageOf va) ∈ regionPages regionStart regionEnd := by
    rw [mem_regionPages hordered hend, toNat_page]
    omega
  obtain ⟨before, after, hsplit⟩ := List.append_of_mem hpage
  rw [regionCalls, hsplit, List.map_append, List.map_cons, ← List.append_assoc,
    ← List.singleton_append (l := after.map _), ← List.append_assoc]
  apply RwMapped.append
  · apply rwMapped_new _ hkind
    rw [toNat_page]
    omega
  · intro c hc
    rw [List.mem_map] at hc
    obtain ⟨i, -, rfl⟩ := hc
    exact ⟨kind, i, i, rfl, hkind⟩

end Region

/-- INTERNAL: the addresses `mem_init` maps for reading and writing. -/
def SimbenchRw (image : Image) (va : BitVec 64) : Prop :=
  (image.dataStart.toNat ≤ va.toNat ∧ va.toNat ≤ image.dataEnd.toNat) ∨
    ∃ device ∈ memGetDeviceInfo, device.1.toNat ≤ va.toNat ∧ va.toNat ≤ device.2.toNat

/-- INTERNAL: a region loop of data or devices makes only readable and writable mappings. -/
theorem isRwMapping_of_region {kind : Kind} (hkind : kind ≠ .code)
    {regionStart regionEnd : BitVec 64}
    {c : Call} (hc : c ∈ regionCalls kind regionStart regionEnd) : IsRwMapping c := by
  rw [regionCalls, List.mem_map] at hc
  obtain ⟨i, -, rfl⟩ := hc
  exact ⟨kind, i, i, rfl, hkind⟩

/-- INTERNAL: **what `mem_init` maps**: behind its calls every address of the data and device
regions can be read and written. SRC: arch/armv8/mem.c:99-116 -/
theorem rwMapped_simbenchCalls (image : Image) (calls : List Call) {va : BitVec 64}
    (hva : SimbenchRw image va) : RwMapped (calls ++ simbenchCalls image) va := by
  have hbound := image_dataEnd_lt image
  unfold simbenchCalls
  rw [← List.singleton_append, ← List.append_assoc, ← List.append_assoc, ← List.append_assoc]
  rcases hva with ⟨hlow, hhigh⟩ | ⟨device, hdevice, hlow, hhigh⟩
  · apply RwMapped.append
    · exact rwMapped_region image.data (by omega) (by decide) _ hlow hhigh
    · intro c hc
      rw [List.mem_flatMap] at hc
      obtain ⟨device, -, hc⟩ := hc
      exact isRwMapping_of_region (by decide) hc
  · obtain ⟨before, after, hsplit⟩ := List.append_of_mem hdevice
    have hbounds := memGetDeviceInfo_bounds device hdevice
    rw [hsplit, List.flatMap_append, List.flatMap_cons, ← List.append_assoc, ← List.append_assoc]
    apply RwMapped.append
    · exact rwMapped_region hbounds.1 (by omega) (by decide) _ hlow hhigh
    · intro c hc
      rw [List.mem_flatMap] at hc
      obtain ⟨device', -, hc⟩ := hc
      exact isRwMapping_of_region (by decide) hc

/-- INTERNAL: a region loop passes only addresses below 2^48, where its end lies there. -/
theorem inRange_region {kind : Kind} {regionStart regionEnd : BitVec 64}
    (hordered : regionStart.toNat ≤ regionEnd.toNat) (hend : regionEnd.toNat < 2 ^ 48) :
    ∀ c ∈ regionCalls kind regionStart regionEnd, InRange c := by
  intro c hc
  rw [regionCalls, List.mem_map] at hc
  obtain ⟨i, hi, rfl⟩ := hc
  rw [mem_regionPages hordered (by omega)] at hi
  exact ⟨by omega, by omega⟩

/-- INTERNAL: the calls that map SimBench itself are in range for every image. -/
theorem inRange_simbenchCalls (image : Image) : ∀ c ∈ simbenchCalls image, InRange c := by
  have hbound := image_dataEnd_lt image
  have htextData := image.textData
  have hdata := image.data
  intro c hc
  rw [simbenchCalls, List.mem_cons, List.mem_append, List.mem_append, List.mem_flatMap] at hc
  rcases hc with rfl | (hc | hc) | ⟨device, hdevice, hc⟩
  · trivial
  · exact inRange_region image.text (by omega) c hc
  · exact inRange_region hdata hbound c hc
  · have hbounds := memGetDeviceInfo_bounds device hdevice
    exact inRange_region hbounds.1 (by omega) c hc

/-! ## The root -/

section Root

variable {L : HeapLayout} {t t' : Armv8Tables.Machine}

/-- INTERNAL: taking a page leaves the root pointer alone. -/
theorem heapGetPage_l0Table {page : BitVec 64}
    (h : Armv8Tables.armv8HeapGetPage L t = some (page, t')) : t'.l0Table = t.l0Table := by
  unfold Armv8Tables.armv8HeapGetPage at h
  dsimp only at h
  split at h
  · cases h
  · cases h
    rfl

/-- INTERNAL: following or making a link leaves the root pointer alone. -/
theorem tablePage_l0Table {descriptor page : BitVec 64}
    (h : Armv8Tables.tablePage L descriptor t = some (page, t')) : t'.l0Table = t.l0Table := by
  unfold Armv8Tables.tablePage at h
  dsimp only at h
  split at h
  · exact heapGetPage_l0Table h
  · cases h
    rfl

/-- INTERNAL: taking a table for an entry leaves the root alone. -/
theorem tableOf_l0Table {shift entries n : ℕ} {table va a : BitVec 64}
    (h : Armv8Tables.tableOf (Armv8Tables.getDescriptor L shift entries (Armv8Tables.clearTable n))
      table va t = some (a, t')) : t'.l0Table = t.l0Table := by
  unfold Armv8Tables.tableOf Armv8Tables.getDescriptor at h
  dsimp only at h
  split at h
  · simp only [Option.bind_eq_bind, Option.bind_eq_some_iff, Option.some.injEq, Prod.exists,
      Prod.mk.injEq] at h
    obtain ⟨-, -, ⟨page, t₁, hpage, -, rfl⟩, -, rfl⟩ := h
    have hsame := tablePage_l0Table hpage
    exact hsame
  · simp only [Option.bind_eq_bind, Option.bind_some, Option.some.injEq, Prod.mk.injEq] at h
    rw [h.2]

/-- INTERNAL: a call leaves the root of existing tables alone. -/
theorem step_l0Table {c : Call} (htable : t.l0Table ≠ 0)
    (h : Armv8Tables.step L t c = some t') : t'.l0Table = t.l0Table := by
  have hroot : Armv8Tables.getL0Table L t = some (t.l0Table, t) := if_neg htable
  cases c with
  | getTxlnTable =>
    simp only [Armv8Tables.step, Armv8Tables.getTxlnTable, hroot, Option.map_some,
      Option.some.injEq] at h
    rw [← h]
  | clearTxlnTable =>
    simp only [Armv8Tables.step, Armv8Tables.clearTxlnTable, hroot, Option.bind_eq_bind,
      Option.bind_some, Option.some.injEq] at h
    rw [← h]
    rfl
  | createPageMapping kind pa va =>
    simp only [Armv8Tables.step, Armv8TableCalls.memCreatePageMapping_eq, Armv8Tables.getL3TableOf,
      hroot, Option.map_eq_some_iff, Option.bind_eq_bind, Option.bind_some,
      Option.bind_eq_some_iff, Prod.exists, Prod.mk.injEq] at h
    obtain ⟨_, _, ⟨_, t₃, ⟨_, t₁, h₁, _, t₂, h₂, h₃⟩, -, rfl⟩, rfl⟩ := h
    have hsame₁ : t₁.l0Table = t.l0Table := tableOf_l0Table h₁
    have hsame₂ : t₂.l0Table = t₁.l0Table := tableOf_l0Table h₂
    have hsame₃ : t₃.l0Table = t₂.l0Table := tableOf_l0Table h₃
    exact hsame₃.trans (hsame₂.trans hsame₁)

/-- INTERNAL: a run of calls leaves it alone, once there is a root. -/
theorem run_l0Table {calls : List Call} (htable : t.l0Table ≠ 0)
    (h : Armv8Tables.run L t calls = some t') : t'.l0Table = t.l0Table := by
  induction calls generalizing t with
  | nil =>
    cases h
    rfl
  | cons c calls ih =>
    rw [Armv8Tables.run, List.foldlM_cons, Option.bind_eq_bind, Option.bind_eq_some_iff] at h
    obtain ⟨t₁, hstep, hrest⟩ := h
    have hsame := step_l0Table htable hstep
    rw [ih (by rwa [hsame]) hrest, hsame]

end Root

/-- INTERNAL: the root a machine gives out names a table. -/
theorem getTxlnTable_root {L : HeapLayout} {t t' : Armv8Tables.Machine} {calls : List Call}
    {a : BitVec 64} (h : Represents L t calls)
    (hcall : Armv8Tables.getTxlnTable L t = some (a, t')) : a = t'.l0Table ∧ t'.l0Table ≠ 0 := by
  cases h with
  | fresh hfresh hz _ =>
    obtain ⟨root, rfl, hinv, -⟩ := root_of_fresh hfresh hz hcall
    exact ⟨hinv.table.symm, hinv.hasTable⟩
  | tables root lvl hinv _ _ =>
    have hroot := hcall.symm.trans (Armv8TableCalls.getL0Table_of_inv hinv)
    rw [Option.some.injEq, Prod.mk.injEq] at hroot
    obtain ⟨rfl, rfl⟩ := hroot
    exact ⟨hinv.table.symm, hinv.hasTable⟩

/-! ## The machine -/

/-- INTERNAL: the addresses in `rw` translate for reading and writing. -/
structure Mapped (image : Image) (rw : BitVec 64 → Prop) (s : Machine) : Prop where
  root : s.ttbr0 = s.tables.l0Table
  hasTable : s.tables.l0Table ≠ 0
  history : ∃ calls, Represents image.heap s.tables calls ∧
    ∀ va, rw va → va.toNat < 2 ^ 48 ∧ RwMapped calls va

/-- INTERNAL: a mapped state's tables stand for some sequence of calls. -/
theorem Mapped.represents {image : Image} {rw : BitVec 64 → Prop} {s : Machine}
    (h : Mapped image rw s) : ∃ calls, Represents image.heap s.tables calls := by
  obtain ⟨calls, hrepresents, -⟩ := h.history
  exact ⟨calls, hrepresents⟩

/-- INTERNAL: mappings depend on the tables and the base register only. -/
theorem Mapped.congr {image : Image} {rw : BitVec 64 → Prop} {s s' : Machine}
    (h : Mapped image rw s) (htables : s'.tables = s.tables) (httbr0 : s'.ttbr0 = s.ttbr0) :
    Mapped image rw s' := by
  constructor
  · rw [httbr0, htables]
    exact h.root
  · rw [htables]
    exact h.hasTable
  · rw [htables]
    exact h.history

/-- INTERNAL: fewer addresses are mapped where more are. -/
theorem Mapped.mono {image : Image} {rw rw' : BitVec 64 → Prop} {s : Machine}
    (h : Mapped image rw s) (hrw : ∀ va, rw' va → rw va) : Mapped image rw' s := by
  obtain ⟨calls, hrepresents, hmapped⟩ := h.history
  exact ⟨h.root, h.hasTable, calls, hrepresents, fun va hva => hmapped va (hrw va hva)⟩

/-- INTERNAL: a mapping of data or a device permits every access at either level. -/
theorem permits_installed {kind : Kind} (hkind : kind ≠ .code) (pa : BitVec 64)
    (unprivileged write : Bool) : permits unprivileged write (installed kind pa) = true := by
  have hbits : (attributes kind).getLsbD 6 = true ∧ (attributes kind).getLsbD 7 = false := by
    cases kind with
    | code => exact absurd rfl hkind
    | data => decide
    | device => decide
  unfold permits installed
  rw [hbits.1, hbits.2]
  simp

/-- INTERNAL: the walk from TTBR0_EL1 finds them. -/
theorem Mapped.translate {image : Image} {rw : BitVec 64 → Prop} {s : Machine}
    (h : Mapped image rw s) {va : BitVec 64} (hva : rw va) :
    ∃ t, translate s va = some t ∧ ∀ unprivileged write, permits unprivileged write t = true := by
  obtain ⟨calls, hrepresents, hmapped⟩ := h.history
  obtain ⟨h48, kind, pa, hlast, hkind⟩ := hmapped va hva
  refine ⟨installed kind pa, ?_, permits_installed hkind pa⟩
  rw [Armv8Machine.translate, h.root]
  cases hrepresents with
  | fresh hfresh _ _ => exact absurd hfresh.noTable h.hasTable
  | tables root lvl hinv _ hmap =>
    rw [← hlast, ← hmap va h48]
    exact walk_eq_lookup hinv va

/-- INTERNAL: every access to them goes through. -/
theorem Mapped.accessible {image : Image} {rw : BitVec 64 → Prop} {s : Machine}
    (h : Mapped image rw s) {va : BitVec 64} (hva : rw va) (unprivileged write : Bool) :
    accessible unprivileged write va s = true := by
  obtain ⟨t, htranslate, hpermits⟩ := h.translate hva
  rw [Armv8Machine.accessible, htranslate, Option.any_some, hpermits, Bool.or_true]

/-- INTERNAL: one more data mapping, made while address translation is off. -/
theorem Mapped.mapping {image : Image} {rw : BitVec 64 → Prop} {s : Machine}
    (h : Mapped image rw s) (hmmu : mmuEnabled s = false) {pa : BitVec 64}
    (hpa : pa.toNat < 2 ^ 48) :
    OnHeap (fun s' => Mapped image (fun va => rw va ∨ va = pa) s' ∧
        s' = { s with tables := s'.tables })
      (memCreatePageMapping image .data pa pa s) := by
  unfold memCreatePageMapping
  rw [hmmu, if_neg Bool.false_ne_true]
  apply (onHeap_onHeap _).bind
  rintro ⟨rc, tables⟩ hcall
  have hstep : Armv8Tables.step image.heap s.tables (.createPageMapping .data pa pa) =
      some tables := by
    rw [Armv8Tables.step, hcall]
    rfl
  have hsame := step_l0Table h.hasTable hstep
  obtain ⟨calls, hrepresents, hmapped⟩ := h.history
  have hinRange : InRange (.createPageMapping .data pa pa) := ⟨hpa, hpa⟩
  refine (outcome_ok _).mpr ⟨⟨h.root.trans hsame.symm, ?_, _, hrepresents.step hinRange hstep, ?_⟩, rfl⟩
  · rw [hsame]
    exact h.hasTable
  · rintro va (hva | rfl)
    · exact ⟨(hmapped va hva).1, (hmapped va hva).2.concat ⟨.data, pa, pa, rfl, by decide⟩⟩
    · exact ⟨hpa, rwMapped_new calls (by decide) va rfl⟩

/-- INTERNAL: **`syscall_mem_init`**: the tables map what `mem_init` asks for, and TTBR0_EL1
holds their root. SRC: arch/armv8/mem.c:71-120 -/
theorem syscallMemInit_mapped (image : Image) {s : Machine} {calls : List Call}
    (h : Represents image.heap s.tables calls) :
    OnHeap (fun result => result.1 = 0 ∧ Mapped image (SimbenchRw image) result.2 ∧
        result.2.el0SyncTable = s.el0SyncTable ∧ result.2.spsr = s.spsr ∧
        mmuEnabled result.2 = mmuEnabled s)
      (syscallMemInit (ofImage image) s) := by
  refine (syscallMemInit_cases image s).mono ?_ fun _ hhalt => hhalt
  rintro _ ⟨table, tables₁, tables₂, hget, hrun, rfl⟩
  have hstep : Armv8Tables.step image.heap s.tables .getTxlnTable = some tables₁ := by
    rw [Armv8Tables.step, hget]
    rfl
  obtain ⟨htable, hnonzero⟩ := getTxlnTable_root h hget
  have hsame := run_l0Table hnonzero hrun
  have hrepresents := (h.step (c := .getTxlnTable) trivial hstep).run _
    (inRange_simbenchCalls image) hrun
  refine ⟨rfl, ⟨?_, ?_, _, hrepresents, ?_⟩, rfl, rfl, ?_⟩
  · exact htable.trans hsame.symm
  · rw [hsame]
    exact hnonzero
  · intro va hva
    refine ⟨?_, rwMapped_simbenchCalls image _ hva⟩
    have hbound := image_dataEnd_lt image
    rcases hva with ⟨-, hhigh⟩ | ⟨device, hdevice, -, hhigh⟩
    · omega
    · have hbounds := memGetDeviceInfo_bounds device hdevice
      omega
  · show (s.sctlr &&& ~~~(1#32 <<< 19)).getLsbD 0 = s.sctlr.getLsbD 0
    rw [getLsbD_and_not_bit s.sctlr (by decide)]
    simp

end Simbench.Analysis.Armv8Mappings
