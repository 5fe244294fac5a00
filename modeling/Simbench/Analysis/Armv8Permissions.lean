import Simbench.Analysis.Armv8Mappings
import Simbench.Library.AddressLoops

/-!
# The permissions `mem_init` gives

Seen from TTBR0_EL1, each region function overwrites a partial map on the pages its region
touches, so `mem_init` leaves the map of the device regions over the data over the text. The text
region includes the page its end lies in, which is the first data page when the end is aligned:
there the data comes out on top because it is mapped behind the text.
-/

set_option autoImplicit false

namespace Simbench.Analysis.Armv8Permissions

open Simbench.Library.AddressLoops Simbench.Library.LastWrite Simbench.Library.Outcomes
open Simbench.Library.PagedMemory Simbench.Program Simbench.Program.Armv8Machine
open Simbench.Analysis.Armv8MemoryCalls Simbench.Analysis.Armv8Mappings
open Simbench.Analysis.Armv8Refinement
open Armv8Tables (Call Kind HeapLayout Translation)

/-- INTERNAL: the address lies in a page of the region, from the page of its first address through
the page of its last. -/
def Touches (regionStart regionEnd va : BitVec 64) : Prop :=
  regionStart.toNat / 4096 ≤ va.toNat / 4096 ∧ va.toNat / 4096 ≤ regionEnd.toNat / 4096

/-- INTERNAL: whether a region loop touches an address is decided by the pages of its ends. -/
instance (regionStart regionEnd va : BitVec 64) : Decidable (Touches regionStart regionEnd va) :=
  inferInstanceAs (Decidable (_ ∧ _))

/-! ## What the tables show -/

/-- INTERNAL: the tables with this root translate the 48-bit addresses as the map says. -/
structure Shows (L : HeapLayout) (root : BitVec 64) (f : BitVec 64 → Option Translation)
    (t : Armv8Tables.Machine) : Prop where
  table : t.l0Table = root
  nonzero : root ≠ 0
  history : ∃ calls, Represents L t calls ∧ ∀ va, va.toNat < 2 ^ 48 → lastMapping calls va = f va

variable {L : HeapLayout} {root : BitVec 64} {f g : BitVec 64 → Option Translation}
variable {t t' : Armv8Tables.Machine}

/-- INTERNAL: tables that show a mapping show every mapping with the same values. -/
theorem Shows.congr (h : Shows L root f t) (hsame : ∀ va, f va = g va) : Shows L root g t := by
  obtain ⟨calls, hrepresents, hmap⟩ := h.history
  exact ⟨h.table, h.nonzero, calls, hrepresents, fun va hva => (hmap va hva).trans (hsame va)⟩

/-- INTERNAL: a walk of the tables gives what they show, for every address of 48 bits. -/
theorem Shows.walk (h : Shows L root f t) {va : BitVec 64} (hva : va.toNat < 2 ^ 48) :
    Armv8Tables.walk t va = f va := by
  obtain ⟨calls, hrepresents, hmap⟩ := h.history
  cases hrepresents with
  | fresh hfresh _ _ => exact absurd (h.table.symm.trans hfresh.noTable) h.nonzero
  | tables root lvl hinv _ hlookup => rw [walk_eq_lookup hinv, hlookup va hva, hmap va hva]

/-- INTERNAL: the root is a page of the heap. -/
theorem Shows.root_heap (h : Shows L root f t) : ∃ page : Page, t.l0Table = base page ∧
    L.heapStart.toNat ≤ page.toNat * 4096 ∧ page.toNat * 4096 + 4096 ≤ L.heapEnd.toNat := by
  obtain ⟨calls, hrepresents, -⟩ := h.history
  cases hrepresents with
  | fresh hfresh _ _ => exact absurd (h.table.symm.trans hfresh.noTable) h.nonzero
  | tables page lvl hinv _ _ =>
    obtain ⟨hlow, hhigh⟩ := hinv.owned hinv.layered.root_level
    have haligned := hinv.heapAligned
    have hbound := hinv.heapBound
    exact ⟨page, hinv.table, hlow, by omega⟩

/-- INTERNAL: behind a run of calls the tables show what those calls make of the earlier mapping. -/
theorem Shows.run (h : Shows L root f t) {calls : List Call} (hcalls : ∀ c ∈ calls, InRange c)
    (hrun : Armv8Tables.run L t calls = some t')
    (hmap : ∀ earlier va, lastMapping earlier va = f va →
      lastMapping (earlier ++ calls) va = g va) :
    Shows L root g t' := by
  obtain ⟨earlier, hrepresents, hearlier⟩ := h.history
  refine ⟨?_, h.nonzero, earlier ++ calls, hrepresents.run earlier hcalls hrun,
    fun va hva => hmap earlier va (hearlier va hva)⟩
  rw [← h.table]
  exact run_l0Table (by rw [h.table]; exact h.nonzero) hrun

/-! ## Regions -/

/-- INTERNAL: what a call installs depends on the page of the address only. -/
theorem installed_congr (kind : Kind) {pa pa' : BitVec 64}
    (h : pa.toNat / 4096 = pa'.toNat / 4096) :
    installed kind pa = installed kind pa' := by
  have hpage : pageOf pa = pageOf pa' := by
    apply BitVec.eq_of_toNat_eq
    rw [toNat_pageOf, toNat_pageOf, h]
  rw [installed, hpage, installed]

/-- INTERNAL: pages mapped to themselves, seen at an address. Induction on the pages. -/
theorem lastMapping_pages (earlier : List Call) (kind : Kind) (pages : List (BitVec 64))
    (haligned : ∀ p ∈ pages, p.toNat % 4096 = 0) (va : BitVec 64) :
    lastMapping (earlier ++ pages.map fun i => .createPageMapping kind i i) va =
      if base (pageOf va) ∈ pages then some (installed kind va) else lastMapping earlier va := by
  induction pages using List.reverseRecOn with
  | nil => simp
  | append_singleton pages p ih =>
    have hp := haligned p (by simp)
    rw [List.map_append, List.map_singleton, ← List.append_assoc, lastMapping_concat,
      ih fun q hq => haligned q (List.mem_append_left _ hq), effectAt]
    by_cases hsame : p.toNat / 4096 = va.toNat / 4096
    · have hpage : base (pageOf va) = p := by
        apply BitVec.eq_of_toNat_eq
        rw [toNat_page]
        omega
      have hmem : base (pageOf va) ∈ pages ++ [p] := by
        rw [hpage]
        exact List.mem_append_right _ (List.mem_singleton_self p)
      rw [if_pos hsame, if_pos hmem, installed_congr kind hsame]
      rfl
    · have hpage : base (pageOf va) ≠ p := by
        intro heq
        rw [← heq, toNat_page] at hsame
        omega
      rw [if_neg hsame, Option.getD_none]
      simp [hpage]

/-- INTERNAL: the loop of a region with enough rounds: its mapping calls all succeed, or the heap
ends. Induction on the rounds. SRC: arch/armv8/mem.c:33-35 -/
theorem regionLoop_outcome (kind : Kind) {regionEnd : BitVec 64}
    (hroom : regionEnd.toNat + 4096 < 2 ^ 64) (rounds : ℕ) {i : BitVec 64} (t : Armv8Tables.Machine)
    (hrounds : regionEnd.toNat < i.toNat + rounds * 4096) :
    OnHeap (fun r => r.1 = 0 ∧ ∃ visited, Loop memGetPageSize regionEnd
        (fun i t => (Armv8Tables.memCreatePageMapping L kind i i t).map Prod.snd) i t visited r.2)
      (regionLoop (fun i => Armv8Tables.memCreatePageMapping L kind i i) regionEnd rounds i t) := by
  induction rounds generalizing i t with
  | zero =>
    have hdone : ¬ i ≤ regionEnd := by
      rw [BitVec.le_def]
      omega
    rw [regionLoop, if_neg hdone]
    exact ⟨rfl, [], .done hdone⟩
  | succ rounds ih =>
    rw [regionLoop]
    split
    · rename_i hle
      have hnext := toNat_add_pageSize (i := i) (by rw [BitVec.le_def] at hle; omega)
      apply (onHeap_onHeap _).bind
      rintro ⟨rc, t₁⟩ hcall
      obtain rfl := memCreatePageMapping_rc hcall
      apply (ih t₁ (by omega)).mono _ fun _ hhalt => hhalt
      rintro r ⟨hrc, visited, hrest⟩
      exact ⟨hrc, i :: visited, .round hle (by rw [hcall]; rfl) hrest⟩
    · rename_i hgt
      exact ⟨rfl, [], .done hgt⟩

/-- INTERNAL: the calls of a loop, in order. -/
theorem run_of_loop {kind : Kind} {regionEnd i : BitVec 64} {visited : List (BitVec 64)}
    (h : Loop memGetPageSize regionEnd
      (fun i t => (Armv8Tables.memCreatePageMapping L kind i i t).map Prod.snd) i t visited t') :
    Armv8Tables.run L t (visited.map fun i => .createPageMapping kind i i) = some t' := by
  induction h with
  | done => rfl
  | round _ hcall _ ih =>
    rw [List.map_cons, Armv8Tables.run, List.foldlM_cons, Armv8Tables.step, hcall]
    exact ih

/-- INTERNAL: **a region function** overwrites the map on the pages its region touches, or the heap
ends. SRC: arch/armv8/mem.c:26-66 -/
theorem Shows.region (h : Shows L root f t) (kind : Kind) (regionStart : BitVec 64)
    {regionEnd : BitVec 64} (hend : regionEnd.toNat + 4096 < 2 ^ 48) :
    OnHeap (fun r => Shows L root
        (fun va => if Touches regionStart regionEnd va then some (installed kind va) else f va) r.2)
      (createRegion (fun i => Armv8Tables.memCreatePageMapping L kind i i)
        regionStart regionEnd t) := by
  have hstart := toNat_regionStart regionStart
  refine (regionLoop_outcome kind (by omega) _ t (by omega)).mono ?_ fun _ hhalt => hhalt
  rintro r ⟨-, visited, hloop⟩
  have hsize : memGetPageSize.toNat = 4096 := rfl
  have honce : EachOnce memGetPageSize regionStart regionEnd visited :=
    hloop.eachOnce (by omega) (by decide) hstart
  have hmem := honce.mem_iff
  rw [hsize] at hmem
  have haligned : ∀ p ∈ visited, p.toNat % 4096 = 0 := fun p hp => ((hmem p).mp hp).1
  refine h.run ?_ (run_of_loop hloop) fun earlier va hearlier => ?_
  · intro c hc
    obtain ⟨p, hp, rfl⟩ := List.mem_map.mp hc
    obtain ⟨-, -, hhigh⟩ := (hmem p).mp hp
    exact ⟨by omega, by omega⟩
  · have htouches : base (pageOf va) ∈ visited ↔ Touches regionStart regionEnd va := by
      rw [hmem, toNat_page, Touches]
      omega
    rw [lastMapping_pages earlier kind visited haligned, hearlier]
    exact if_congr htouches rfl rfl

/-! ## The calls of `mem_init` -/

/-- INTERNAL: the root a table machine gives out, over its calls so far. -/
theorem shows_of_root {calls : List Call} (h : Represents L t calls)
    (hget : Armv8Tables.getTxlnTable L t = some (root, t')) :
    Shows L root (lastMapping (calls ++ [.getTxlnTable])) t' := by
  have hstep : Armv8Tables.step L t .getTxlnTable = some t' := by
    rw [Armv8Tables.step, hget]
    rfl
  obtain ⟨hroot, hnonzero⟩ := getTxlnTable_root h hget
  rw [← hroot] at hnonzero
  exact ⟨hroot.symm, hnonzero, _, h.step (c := .getTxlnTable) trivial hstep, fun _ _ => rfl⟩

/-- INTERNAL: cleared tables show the empty mapping. -/
theorem Shows.clear (h : Shows L root f t) :
    OnHeap (Shows L root fun _ => none) (onHeap (Armv8Tables.clearTxlnTable L t)) := by
  refine (onHeap_onHeap _).mono (fun t' hclear => ?_) fun _ hhalt => hhalt
  have hrun : Armv8Tables.run L t [.clearTxlnTable] = some t' := by
    rw [Armv8Tables.run, List.foldlM_cons, Armv8Tables.step, hclear]
    rfl
  refine h.run (by simp [InRange]) hrun fun earlier va _ => ?_
  rw [lastMapping_concat]
  rfl

/-- INTERNAL: the device regions, one after the other. SRC: arch/armv8/mem.c:111-116 -/
theorem Shows.devices (h : Shows L root f t) (devices : List (BitVec 64 × BitVec 64))
    (hends : ∀ d ∈ devices, d.2.toNat + 4096 < 2 ^ 48) :
    OnHeap (Shows L root fun va =>
        if ∃ d ∈ devices, Touches d.1 d.2 va then some (installed .device va) else f va)
      (mapDevices L devices t) := by
  induction devices generalizing f t with
  | nil => exact h.congr fun va => by simp
  | cons device devices ih =>
    apply (h.region .device device.1 (hends device List.mem_cons_self)).bind
    rintro ⟨_, t₁⟩ hregion
    apply (ih hregion fun d hd => hends d (List.mem_cons_of_mem _ hd)).mono _ fun _ hhalt => hhalt
    intro t₂ hrest
    refine hrest.congr fun va => ?_
    by_cases hdevice : Touches device.1 device.2 va
    · simp [hdevice]
    · simp only [List.exists_mem_cons_iff, hdevice, false_or, if_false]

/-- INTERNAL: what `mem_init` maps: the devices over the data over the text. -/
def memInitMap (layout : Layout) (va : BitVec 64) : Option Translation :=
  if ∃ d ∈ layout.devices, Touches d.1 d.2 va then some (installed .device va)
  else if Touches layout.dataStart layout.dataEnd va then some (installed .data va)
  else if Touches layout.textStart layout.textEnd va then some (installed .code va)
  else none

/-- INTERNAL: the regions end a page below the end of the address space. -/
structure Fits (layout : Layout) : Prop where
  text : layout.textEnd.toNat < 2 ^ 48 - 4096
  data : layout.dataEnd.toNat < 2 ^ 48 - 4096
  devices : ∀ d ∈ layout.devices, d.2.toNat < 2 ^ 48 - 4096

/-- INTERNAL: **the loops of `mem_init`**, in their order. SRC: arch/armv8/mem.c:97-116 -/
theorem Shows.mapSimbench {layout : Layout} (h : Shows layout.heap root f t) (hfits : Fits layout) :
    OnHeap (Shows layout.heap root (memInitMap layout)) (Armv8Machine.mapSimbench layout t) := by
  apply h.clear.bind
  intro t₁ hclear
  apply (hclear.region .code layout.textStart (by have := hfits.text; omega)).bind
  rintro ⟨_, t₂⟩ htext
  apply (htext.region .data layout.dataStart (by have := hfits.data; omega)).bind
  rintro ⟨_, t₃⟩ hdata
  exact hdata.devices layout.devices fun d hd => by have := hfits.devices d hd; omega

/-- INTERNAL: **`syscall_mem_init`**: TTBR0_EL1 holds the root of tables that show the map, for a
48-bit address space. SRC: arch/armv8/mem.c:74-120 -/
theorem syscallMemInit_shows {layout : Layout} (hfits : Fits layout) {s : Machine}
    {calls : List Call} (h : Represents layout.heap s.tables calls) :
    OnHeap (fun r => r.1 = 0 ∧ t0sz r.2 = 16 ∧
        Shows layout.heap r.2.ttbr0 (memInitMap layout) r.2.tables)
      (syscallMemInit layout s) := by
  apply (onHeap_onHeap _).bind
  rintro ⟨table, t₁⟩ hget
  apply ((shows_of_root h hget).mapSimbench hfits).bind
  intro t₂ hshows
  refine ⟨rfl, ?_, hshows⟩
  dsimp only [t0sz]
  decide

/-! ## Permissions -/

/-- INTERNAL: how a program is linked: the data starts in the first page behind the text, and the
devices share no page with either. SRC: platform/armv8/virt/sys.ld:13-71 -/
structure Linked (layout : Layout) : Prop where
  fits : Fits layout
  text : layout.textStart.toNat ≤ layout.textEnd.toNat
  textData : layout.dataStart.toNat = (layout.textEnd.toNat + 4095) / 4096 * 4096
  data : layout.dataStart.toNat ≤ layout.dataEnd.toNat
  apart : ∀ d ∈ layout.devices, ∀ va, Touches d.1 d.2 va →
    ¬ Touches layout.textStart layout.textEnd va ∧ ¬ Touches layout.dataStart layout.dataEnd va

/-- INTERNAL: some region touches the page of the address. -/
def Touched (layout : Layout) (va : BitVec 64) : Prop :=
  Touches layout.textStart layout.textEnd va ∨ Touches layout.dataStart layout.dataEnd va ∨
    ∃ d ∈ layout.devices, Touches d.1 d.2 va

/-- INTERNAL: whether `mem_init` touches an address is decided section by section. -/
instance (layout : Layout) (va : BitVec 64) : Decidable (Touched layout va) :=
  inferInstanceAs (Decidable (_ ∨ _ ∨ _))

/-- INTERNAL: a region loop touches every address between its ends. -/
theorem touches_of_between {regionStart regionEnd va : BitVec 64}
    (hlow : regionStart.toNat ≤ va.toNat) (hhigh : va.toNat ≤ regionEnd.toNat) :
    Touches regionStart regionEnd va :=
  ⟨Nat.div_le_div_right hlow, Nat.div_le_div_right hhigh⟩

section Map

variable {layout : Layout} {va : BitVec 64}

/-- INTERNAL: the first data page starts behind every text byte. -/
theorem memInitMap_text (h : Linked layout) (hlow : layout.textStart.toNat ≤ va.toNat)
    (hhigh : va.toNat < layout.textEnd.toNat) :
    memInitMap layout va = some (installed .code va) := by
  have htext := touches_of_between hlow (Nat.le_of_lt hhigh)
  have hdevices : ¬ ∃ d ∈ layout.devices, Touches d.1 d.2 va := by
    rintro ⟨d, hd, htouches⟩
    exact (h.apart d hd va htouches).1 htext
  have hdata : ¬ Touches layout.dataStart layout.dataEnd va := by
    have hstart := h.textData
    rw [Touches]
    omega
  rw [memInitMap, if_neg hdevices, if_neg hdata, if_pos htext]

/-- INTERNAL: an address of the data sections is mapped as data. -/
theorem memInitMap_data (h : Linked layout) (hdata : Touches layout.dataStart layout.dataEnd va) :
    memInitMap layout va = some (installed .data va) := by
  have hdevices : ¬ ∃ d ∈ layout.devices, Touches d.1 d.2 va := by
    rintro ⟨d, hd, htouches⟩
    exact (h.apart d hd va htouches).2 hdata
  rw [memInitMap, if_neg hdevices, if_pos hdata]

/-- INTERNAL: an address of a device is mapped as a device. -/
theorem memInitMap_device {d : BitVec 64 × BitVec 64} (hd : d ∈ layout.devices)
    (hdevice : Touches d.1 d.2 va) : memInitMap layout va = some (installed .device va) :=
  if_pos ⟨d, hd, hdevice⟩

/-- INTERNAL: an address outside all sections and devices is mapped by nothing. -/
theorem memInitMap_untouched (h : ¬ Touched layout va) : memInitMap layout va = none := by
  rw [Touched, not_or, not_or] at h
  obtain ⟨htext, hdata, hdevices⟩ := h
  rw [memInitMap, if_neg hdevices, if_neg hdata, if_neg htext]

end Map

/-- INTERNAL: an identity mapping translates every address of its page to itself. -/
theorem outputAddress_installed (kind : Kind) (va : BitVec 64) :
    outputAddress (installed kind va) va = va := by
  rw [outputAddress, installed, ← and_not_offset]
  ext i hi
  simp only [BitVec.getElem_or, BitVec.getElem_and, BitVec.getElem_not]
  cases va[i] <;> simp

/-- INTERNAL: code is read-only at both levels. -/
theorem accessPermissions_code (pa : BitVec 64) : accessPermissions (installed .code pa) = 3 := by
  show (attributes .code).extractLsb' 6 2 = 3
  decide

/-- INTERNAL: data may be read and written at both levels. -/
theorem accessPermissions_data (pa : BitVec 64) : accessPermissions (installed .data pa) = 1 := by
  show (attributes .data).extractLsb' 6 2 = 1
  decide

/-- INTERNAL: devices take the second attribute of MAIR. -/
theorem attributeIndex_device (pa : BitVec 64) : attributeIndex (installed .device pa) = 1 := by
  show (attributes .device).extractLsb' 2 3 = 1
  decide

section Machine

variable {s : Machine} {va : BitVec 64}

/-- INTERNAL: a 48-bit address space is what the tables show. -/
theorem Shows.translateLower (h : Shows L s.ttbr0 f s.tables) (h48 : t0sz s = 16)
    (hva : va.toNat < 2 ^ 48) : translateLower s va = f va := by
  rw [Armv8Machine.translateLower, h48, if_pos hva, Armv8Machine.translate, ← h.table]
  exact h.walk hva

/-- INTERNAL: an address the tables show with its identity mapping is translated to itself, with
that mapping's attributes. -/
theorem Shows.selfMapped (h : Shows L s.ttbr0 f s.tables) (h48 : t0sz s = 16)
    (hva : va.toNat < 2 ^ 48) {kind : Kind} (hmap : f va = some (installed kind va))
    {p : Translation → Prop} (hkind : p (installed kind va)) : SelfMapped s va p :=
  ⟨installed kind va, (h.translateLower h48 hva).trans hmap, outputAddress_installed kind va, hkind⟩

variable {layout : Layout} (hlinked : Linked layout) (h48 : t0sz s = 16)
  (h : Shows layout.heap s.ttbr0 (memInitMap layout) s.tables)

include hlinked h48 h

/-- INTERNAL: every byte of the text is mapped to itself, read-only. -/
theorem text_selfMapped (hlow : layout.textStart ≤ va) (hhigh : va < layout.textEnd) :
    SelfMapped s va fun t => accessPermissions t = 3 := by
  rw [BitVec.le_def] at hlow
  rw [BitVec.lt_def] at hhigh
  have hend := hlinked.fits.text
  exact h.selfMapped h48 (by omega) (memInitMap_text hlinked hlow hhigh) (accessPermissions_code va)

/-- INTERNAL: every byte of the data is mapped to itself, writable. -/
theorem data_selfMapped (hlow : layout.dataStart ≤ va) (hhigh : va < layout.dataEnd) :
    SelfMapped s va fun t => accessPermissions t = 1 := by
  rw [BitVec.le_def] at hlow
  rw [BitVec.lt_def] at hhigh
  have hend := hlinked.fits.data
  have htouches : Touches layout.dataStart layout.dataEnd va := touches_of_between hlow (by omega)
  exact h.selfMapped h48 (by omega) (memInitMap_data hlinked htouches) (accessPermissions_data va)

/-- INTERNAL: every byte of a device is mapped to itself, as a device. -/
theorem device_selfMapped {d : BitVec 64 × BitVec 64} (hd : d ∈ layout.devices) (hlow : d.1 ≤ va)
    (hhigh : va ≤ d.2) : SelfMapped s va fun t => attributeIndex t = 1 := by
  rw [BitVec.le_def] at hlow hhigh
  have hend := hlinked.fits.devices d hd
  have htouches : Touches d.1 d.2 va := touches_of_between hlow hhigh
  exact h.selfMapped h48 (by omega) (memInitMap_device hd htouches) (attributeIndex_device va)

omit hlinked in
/-- INTERNAL: an address that no region touches is translated to nothing. -/
theorem untouched_translateLower (huntouched : ¬ Touched layout va) :
    translateLower s va = none := by
  by_cases hva : va.toNat < 2 ^ 48
  · rw [h.translateLower h48 hva, memInitMap_untouched huntouched]
  · rw [Armv8Machine.translateLower, h48, if_neg hva]

end Machine

/-- SOURCE: arch/armv8/mem.c:26-120, arch/armv8/txln_table.c:184-246,
platform/armv8/virt/sys.ld:9-78 — **the permissions**: for every program linked so, from tables
that any calls built on a zero-filled heap, `syscall_mem_init` returns if the heap suffices, and
every byte of the text then translates to itself for reading only, every byte of the data to
itself for reading and writing at EL0, every byte of a device to itself with the device
attributes, and no address outside the pages of the regions translates. -/
theorem memInit_permissions (layout : Layout) (hlinked : Linked layout)
    (mem : Memory) (hzero : ∀ a : BitVec 64, layout.heap.heapStart.toNat ≤ a.toNat →
      a.toNat < layout.heap.heapEnd.toNat → mem a = 0)
    (earlier : List Call) (hearlier : ∀ c ∈ earlier, InRange c) (s : Machine)
    (htables : Armv8Tables.run layout.heap (Armv8Tables.armv8HeapInit layout.heap mem) earlier =
      some s.tables)
    (hheap : syscallMemInit layout s ≠ .error .outOfHeap) :
    ∃ s', syscallMemInit layout s = .ok (0, s') ∧
      (∀ va, layout.textStart ≤ va → va < layout.textEnd →
        SelfMapped s' va fun t => accessPermissions t = 3) ∧
      (∀ va, layout.dataStart ≤ va → va < layout.dataEnd →
        SelfMapped s' va fun t => accessPermissions t = 1) ∧
      (∀ d ∈ layout.devices, ∀ va, d.1 ≤ va → va ≤ d.2 →
        SelfMapped s' va fun t => attributeIndex t = 1) ∧
      ∀ va, ¬ Touched layout va → translateLower s' va = none := by
  have hstart : Represents layout.heap (Armv8Tables.armv8HeapInit layout.heap mem) [] :=
    .fresh ⟨rfl, rfl⟩ hzero fun _ => rfl
  have hfits := hlinked.fits
  have houtcome := syscallMemInit_shows hfits (hstart.run [] hearlier htables)
  cases hinit : syscallMemInit layout s with
  | error halt =>
    rw [hinit] at houtcome hheap
    exact absurd (congrArg Except.error houtcome) hheap
  | ok r =>
    obtain ⟨hrc, h48, hshows⟩ := houtcome.of_ok hinit
    obtain ⟨rc, s'⟩ := r
    dsimp only at hrc h48 hshows
    subst hrc
    exact ⟨s', rfl, fun _ => text_selfMapped hlinked h48 hshows,
      fun _ => data_selfMapped hlinked h48 hshows,
      fun _ hd _ => device_selfMapped hlinked h48 hshows hd,
      fun _ => untouched_translateLower h48 hshows⟩

/-- INTERNAL: the image of the virt machine is linked in the order the layout asks for. -/
theorem linked_virtImage : Linked (ofImage virtImage) where
  fits := ⟨by decide, by decide, fun d hd => by have := memGetDeviceInfo_bounds d hd; omega⟩
  text := by decide
  textData := by decide
  data := by decide
  apart := by
    have hbounds : ∀ d ∈ Armv8Machine.memGetDeviceInfo,
        d.2.toNat < 0x40000000 ∨ 0x40051000 ≤ d.1.toNat := by
      intro d hd
      rcases List.mem_cons.mp hd with rfl | hd
      · decide
      · obtain rfl := List.mem_singleton.mp hd
        decide
    rintro d hd va ⟨hlow, hhigh⟩
    have htextStart : (ofImage virtImage).textStart.toNat = 0x40000000 := rfl
    have htextEnd : (ofImage virtImage).textEnd.toNat = 0x40008000 := rfl
    have hdataStart : (ofImage virtImage).dataStart.toNat = 0x40008000 := rfl
    have hdataEnd : (ofImage virtImage).dataEnd.toNat = 0x40050000 := rfl
    unfold Touches
    rw [htextStart, htextEnd, hdataStart, hdataEnd]
    rcases hbounds d hd with hbelow | habove <;> constructor <;> omega

/-- INTERNAL: a text that ends on a page boundary: its last byte is read-only, and the byte behind
it, which the text loop maps as well, can be written. -/
theorem memInit_permissions_aligned :
    ∃ s', syscallMemInit (ofImage virtImage)
        { blank with tables := Armv8Tables.armv8HeapInit virtImage.heap fun _ => 0 } = .ok (0, s') ∧
      (SelfMapped s' 0x40007fff fun t => accessPermissions t = 3) ∧
      (SelfMapped s' 0x40008000 fun t => accessPermissions t = 1) ∧
      (SelfMapped s' 0x08010004 fun t => attributeIndex t = 1) ∧
      translateLower s' 0x40100000 = none := by
  have hroom : ∃ s', syscallMemInit (ofImage virtImage)
      { blank with tables := Armv8Tables.armv8HeapInit virtImage.heap fun _ => 0 } =
        .ok (0, s') := by
    apply syscallMemInit_of_room
    have hlength : (simbenchCalls virtImage).length ≤ 200 := by decide
    have hptr : (Armv8Tables.armv8HeapInit virtImage.heap fun _ => 0).heapPtr.toNat = 0x40100000 :=
      rfl
    have hend : virtImage.heap.heapEnd.toNat = 0x80100000 := rfl
    dsimp only
    rw [hend, hptr]
    generalize (simbenchCalls virtImage).length = calls at hlength ⊢
    omega
  obtain ⟨s', hinit, htext, hdata, hdevice, hnone⟩ := memInit_permissions (ofImage virtImage)
    linked_virtImage (fun _ => 0) (fun _ _ _ => rfl) [] (by simp)
    { blank with tables := Armv8Tables.armv8HeapInit virtImage.heap fun _ => 0 } rfl (by
      obtain ⟨s', hok⟩ := hroom
      rw [hok]
      intro hend
      cases hend)
  refine ⟨s', hinit, htext _ (by decide) (by decide), hdata _ (by decide) (by decide), ?_, ?_⟩
  · exact hdevice (0x08000000, 0x08020000) (by decide) _ (by decide) (by decide)
  · exact hnone _ (by decide)

end Simbench.Analysis.Armv8Permissions
