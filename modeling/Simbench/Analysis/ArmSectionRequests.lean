import Simbench.Library.WriteOnce
import Simbench.Analysis.ArmSectionTable

/-!
# The regions `mem_init` asks for

Where nothing reaches the last section, `mem_init` puts a list of descriptors into a table
that is written once: one for every section of the three regions, of the devices and of the
relocated vectors, and one for the vector base. It completes exactly when the vector base and
the vectors agree in their offset and no section is asked for with two descriptors; the table
then holds the descriptors asked for, in whatever order the devices are listed.
-/

set_option autoImplicit false

namespace Simbench.Analysis.ArmSectionRequests

open Simbench.Library.ByteParser Simbench.Library.WriteOnce Simbench.Program.ArmSections
  Simbench.Analysis.ArmSectionTable

/-! ## The table as a store -/

/-- INTERNAL: the descriptors of the sections that are mapped. -/
def sections (t : Table) : Store (BitVec 12) (BitVec 32) := fun i =>
  if readWord t i = 0 then none else some (readWord t i)

/-- INTERNAL: an entry is there where its word is not zero. -/
theorem sections_eq_some_iff {t : Table} {i : BitVec 12} {d : BitVec 32} :
    sections t i = some d ↔ readWord t i = d ∧ d ≠ 0 := by
  rw [sections]
  split
  · next hzero => simp only [hzero, reduceCtorEq, false_iff, not_and, not_not]; exact Eq.symm
  · next hword =>
    rw [Option.some.injEq]
    exact ⟨fun h => ⟨h, h ▸ hword⟩, And.left⟩

/-- INTERNAL: an entry is missing where its word is zero. -/
theorem sections_eq_none_iff {t : Table} {i : BitVec 12} :
    sections t i = none ↔ readWord t i = 0 := by
  rw [sections]
  split
  · next hzero => exact ⟨fun _ => hzero, fun _ => rfl⟩
  · next hword => exact ⟨(nomatch ·), fun h => absurd h hword⟩

/-- INTERNAL: `bzero` leaves no entry. SRC: arch/arm/mem.c:167 -/
theorem sections_zeroTable : sections zeroTable = empty := by
  funext i
  exact sections_eq_none_iff.mpr (readWord_zeroTable i)

/-- INTERNAL: storing a descriptor puts one entry in. -/
theorem sections_writeWord (t : Table) (i : BitVec 12) {d : BitVec 32} (hd : d ≠ 0) :
    sections (writeWord t i d) = Function.update (sections t) i (some d) := by
  funext j
  by_cases hj : j = i
  · subst hj
    rw [Function.update_self, sections, readWord_writeWord, if_pos rfl, if_neg hd]
  · rw [Function.update_of_ne hj, sections, readWord_writeWord, if_neg hj, sections]

/-- INTERNAL: every byte of the table is a byte of a word. -/
theorem exists_byteAddr (p : BitVec 14) : ∃ i k, k < 4 ∧ p = byteAddr i k := by
  have hp := p.isLt
  refine ⟨BitVec.ofNat 12 (p.toNat / 4), p.toNat % 4, Nat.mod_lt _ (by decide), ?_⟩
  apply BitVec.eq_of_toNat_eq
  rw [byteAddr, BitVec.toNat_ofNat, BitVec.toNat_ofNat]
  omega

/-- INTERNAL: the words of a table decide its bytes. -/
theorem table_ext {t t' : Table} (h : ∀ i, readWord t i = readWord t' i) : t = t' := by
  funext p
  obtain ⟨i, k, hk, rfl⟩ := exists_byteAddr p
  have hword := congrArg BitVec.toNat (h i)
  simp only [readWord, littleEndianValue, BitVec.toNat_ofNat] at hword
  have hlt : ∀ (u : Table) (l : ℕ), (u (byteAddr i l)).toNat < 256 := fun u l =>
    (u (byteAddr i l)).isLt
  have h₀ := hlt t 0
  have h₁ := hlt t 1
  have h₂ := hlt t 2
  have h₃ := hlt t 3
  have h₀' := hlt t' 0
  have h₁' := hlt t' 1
  have h₂' := hlt t' 2
  have h₃' := hlt t' 3
  apply BitVec.eq_of_toNat_eq
  obtain rfl | rfl | rfl | rfl : k = 0 ∨ k = 1 ∨ k = 2 ∨ k = 3 := by omega
  all_goals omega

/-- INTERNAL: a table is what its entries are. -/
theorem table_eq_of_sections {t t' : Table} (h : sections t = sections t') : t = t' := by
  refine table_ext fun i => ?_
  have hi := congrFun h i
  cases hs : sections t i with
  | none =>
    rw [hs] at hi
    rw [sections_eq_none_iff.mp hs, sections_eq_none_iff.mp hi.symm]
  | some d =>
    rw [hs] at hi
    rw [(sections_eq_some_iff.mp hs).1, (sections_eq_some_iff.mp hi.symm).1]

/-! ## What a function asks for -/

/-- INTERNAL: a descriptor for a section. -/
abbrev Request := BitVec 12 × BitVec 32

/-- INTERNAL: a store that took all requests is the result; where one was refused the program
stopped. -/
def outcome : Option (Store (BitVec 12) (BitVec 32)) →
    Except Halt (Store (BitVec 12) (BitVec 32))
  | some m => .ok m
  | none => .error .abort

/-- INTERNAL: a function that ends like the store ends with it, or aborts where it refuses. -/
theorem cases_of_outcome {β : Type} {view : β → Store (BitVec 12) (BitVec 32)} {x : Except Halt β}
    {m : Option (Store (BitVec 12) (BitVec 32))} (h : x.map view = outcome m) :
    (∃ b, x = .ok b ∧ m = some (view b)) ∨ (x = .error .abort ∧ m = none) := by
  cases x with
  | error halt =>
    cases m with
    | none => exact .inr ⟨congrArg Except.error (Except.error.inj h), rfl⟩
    | some m => cases h
  | ok b =>
    cases m with
    | none => cases h
    | some m => exact .inl ⟨b, rfl, congrArg some (Except.ok.inj h).symm⟩

/-- INTERNAL: two results with the same view are the same where the view tells them apart. -/
theorem map_injective {β γ : Type} {view : β → γ} (hview : ∀ b b', view b = view b' → b = b')
    {x y : Except Halt β} (h : x.map view = y.map view) : x = y := by
  cases x with
  | error halt =>
    cases y with
    | error halt' => exact congrArg Except.error (Except.error.inj h)
    | ok b' => cases h
  | ok b =>
    cases y with
    | error halt' => cases h
    | ok b' => exact congrArg Except.ok (hview b b' (Except.ok.inj h))

/-- INTERNAL: what `f` does to the table is to put the requests into it; `view` is the table of
its result. -/
def Asks {β : Type} (view : β → Table) (f : State → Except Halt β) (requests : List Request) :
    Prop :=
  ∀ s, (f s).map (fun b => sections (view b)) = outcome (putAll (sections s.table) requests)

/-- INTERNAL: the table of a result with a status. -/
def tableOf (r : ℕ × State) : Table := r.2.table

/-- INTERNAL: requests of one function followed by those of the next. -/
theorem Asks.bind {β γ : Type} {view : β → Table} {view' : γ → Table} {f : State → Except Halt β}
    {g : β → Except Halt γ} {requests later : List Request} (hf : Asks view f requests)
    (hg : ∀ b, (g b).map (fun c => sections (view' c)) =
      outcome (putAll (sections (view b)) later)) :
    Asks view' (fun s => f s >>= g) (requests ++ later) := by
  intro s
  rw [putAll_append]
  dsimp only
  rcases cases_of_outcome (hf s) with ⟨b, hcall, hput⟩ | ⟨hcall, hput⟩
  · rw [hcall, hput]
    exact hg b
  · rw [hcall, hput]
    rfl

/-- INTERNAL: the status of a function may be dropped. -/
theorem Asks.drop {f : State → Except Halt (ℕ × State)} {requests : List Request}
    (hf : Asks tableOf f requests) :
    Asks State.table (fun s => f s >>= fun r => .ok r.2) requests := by
  have hbind : Asks State.table (fun s => f s >>= fun r => .ok r.2) (requests ++ []) :=
    hf.bind fun r => rfl
  rwa [List.append_nil] at hbind

/-- INTERNAL: a function that asks for something returns or aborts. -/
theorem Asks.returns_or_aborts {β : Type} {view : β → Table} {f : State → Except Halt β}
    {requests : List Request} (hf : Asks view f requests) (s : State) :
    (∃ b, f s = .ok b) ∨ f s = .error .abort := by
  rcases cases_of_outcome (hf s) with ⟨b, hcall, -⟩ | ⟨hcall, -⟩
  · exact .inl ⟨b, hcall⟩
  · exact .inr hcall

/-- INTERNAL: a mapping of section addresses asks for one descriptor.
SRC: arch/arm/mem.c:352-413 -/
theorem memCreatePageMapping_asks (kind : Kind) {pa va : BitVec 32} (hpa : misaligned pa = false)
    (hva : misaligned va = false) :
    Asks tableOf (memCreatePageMapping kind pa va) [(sectionIndex va, kind.descriptor pa)] := by
  intro s
  have hne := descriptor_ne_zero kind pa
  have hheld : sections s.table (sectionIndex va) = some (kind.descriptor pa) ↔
      readWord s.table (sectionIndex va) = kind.descriptor pa := by
    rw [sections_eq_some_iff, and_iff_left hne]
  simp only [memCreatePageMapping, hpa, hva, Bool.or_self, Bool.false_eq_true, if_false, putAll,
    put, sections_eq_none_iff, hheld]
  by_cases hfree : readWord s.table (sectionIndex va) = 0 ∨
      readWord s.table (sectionIndex va) = kind.descriptor pa
  · rw [if_pos hfree, if_neg (by tauto)]
    exact congrArg Except.ok (sections_writeWord _ _ hne)
  · rw [if_neg hfree, if_pos (not_or.mp hfree)]
    rfl

/-! ## Regions -/

/-- INTERNAL: the first address of a section. -/
def sectionBase (i : BitVec 12) : BitVec 32 := BitVec.ofNat 32 (i.toNat * 2 ^ 20)

/-- INTERNAL: `count` sections from `first` on, each mapped to itself. -/
def regionRequests (kind : Kind) (first count : ℕ) : List Request :=
  (List.range' first count).map fun n =>
    (BitVec.ofNat 12 n, kind.descriptor (sectionBase (BitVec.ofNat 12 n)))

/-- INTERNAL: the number of a section is the address over 1 MiB. -/
theorem sectionIndex_toNat (a : BitVec 32) : (sectionIndex a).toNat = a.toNat / 2 ^ 20 := by
  have ha := a.isLt
  rw [sectionIndex, BitVec.toNat_setWidth, BitVec.toNat_ushiftRight, Nat.shiftRight_eq_div_pow]
  omega

/-- INTERNAL: a section begins at its number times 1 MiB. -/
theorem sectionBase_toNat (i : BitVec 12) : (sectionBase i).toNat = i.toNat * 2 ^ 20 := by
  have hi := i.isLt
  rw [sectionBase, BitVec.toNat_ofNat]
  omega

/-- INTERNAL: an aligned address begins its section. -/
theorem sectionBase_index {i : BitVec 32} (hi : misaligned i = false) :
    sectionBase (sectionIndex i) = i := by
  have hmod := (not_misaligned_iff i).mp hi
  have hlt := i.isLt
  apply BitVec.eq_of_toNat_eq
  rw [sectionBase_toNat, sectionIndex_toNat]
  omega

/-- INTERNAL: the number of a section in twelve bits. -/
theorem sectionIndex_eq_ofNat (a : BitVec 32) :
    sectionIndex a = BitVec.ofNat 12 (a.toNat / 2 ^ 20) := by
  rw [← sectionIndex_toNat, BitVec.ofNat_toNat, BitVec.setWidth_eq]

/-- INTERNAL: rounding an address down keeps it in its section. SRC: arch/arm/mem.c:49,62 -/
theorem sectionIndex_page (a : BitVec 32) :
    sectionIndex (a &&& ~~~(memGetPageSize - 1)) = sectionIndex a := by
  have hbits : (~~~(memGetPageSize - 1) >>> 20).setWidth 12 = BitVec.allOnes 12 := by decide
  rw [sectionIndex, BitVec.ushiftRight_and_distrib, BitVec.setWidth_and, hbits,
    BitVec.and_allOnes, sectionIndex]

/-- INTERNAL: an address rounded down is the base of its section. -/
theorem page_eq_sectionBase (a : BitVec 32) :
    a &&& ~~~(memGetPageSize - 1) = sectionBase (sectionIndex a) := by
  rw [← sectionIndex_page, sectionBase_index (misaligned_regionStart a)]

/-- INTERNAL: the number of sections of a region, from the section of `first` through that of
`regionEnd`. -/
def sectionCount (first regionEnd : BitVec 32) : ℕ :=
  regionEnd.toNat / 2 ^ 20 + 1 - first.toNat / 2 ^ 20

/-- INTERNAL: the sections of a region. SRC: arch/arm/mem.c:51-53 -/
def Covers (regionStart regionEnd : BitVec 32) (i : BitVec 12) : Prop :=
  sectionIndex regionStart ≤ i ∧ i ≤ sectionIndex regionEnd

/-- INTERNAL: a region asks for its own descriptor in every section it covers, and for nothing
else. -/
theorem mem_regionRequests {kind : Kind} {regionStart regionEnd : BitVec 32} {i : BitVec 12}
    {d : BitVec 32} :
    (i, d) ∈ regionRequests kind (regionStart.toNat / 2 ^ 20) (sectionCount regionStart regionEnd) ↔
      Covers regionStart regionEnd i ∧ d = kind.descriptor (sectionBase i) := by
  have hend := regionEnd.isLt
  simp only [regionRequests, List.mem_map, List.mem_range'_1, Prod.mk.injEq, Covers,
    BitVec.le_def, sectionIndex_toNat, sectionCount]
  constructor
  · rintro ⟨n, hn, rfl, rfl⟩
    rw [BitVec.toNat_ofNat, Nat.mod_eq_of_lt (by omega)]
    exact ⟨by omega, rfl⟩
  · rintro ⟨hi, rfl⟩
    refine ⟨i.toNat, by omega, ?_, ?_⟩
    · rw [BitVec.ofNat_toNat, BitVec.setWidth_eq]
    · rw [BitVec.ofNat_toNat, BitVec.setWidth_eq]

/-- INTERNAL: the loop over a region that ends below the last section asks for its sections.
SRC: arch/arm/mem.c:51-53,64-69 -/
theorem regionLoop_asks (kind : Kind) {regionEnd : BitVec 32} (hend : regionEnd < 0xfff00000)
    (rounds : ℕ) {i : BitVec 32} (hi : misaligned i = false)
    (hrounds : 2 ^ 32 - i.toNat < rounds * 2 ^ 20) :
    Asks tableOf (regionLoop (fun i => memCreatePageMapping kind i i) regionEnd rounds i)
      (regionRequests kind (i.toNat / 2 ^ 20) (sectionCount i regionEnd)) := by
  induction rounds generalizing i with
  | zero => omega
  | succ rounds ih =>
    have hmod := (not_misaligned_iff i).mp hi
    have hlast : regionEnd.toNat < 0xfff00000 := hend
    by_cases hle : i ≤ regionEnd
    · have hle' : i.toNat ≤ regionEnd.toNat := hle
      have hstep : (i + memGetPageSize).toNat = i.toNat + 2 ^ 20 := by
        rw [toNat_next, Nat.mod_eq_of_lt (by omega)]
      have hnext : misaligned (i + memGetPageSize) = false := by
        refine (not_misaligned_iff _).mpr ?_
        rw [hstep]
        omega
      have hcount : sectionCount i regionEnd = sectionCount (i + memGetPageSize) regionEnd + 1 := by
        rw [sectionCount, sectionCount, hstep]
        omega
      have hsplit : regionRequests kind (i.toNat / 2 ^ 20) (sectionCount i regionEnd) =
          [(sectionIndex i, kind.descriptor i)] ++ regionRequests kind
            ((i + memGetPageSize).toNat / 2 ^ 20) (sectionCount (i + memGetPageSize) regionEnd) := by
        rw [hcount, regionRequests, List.range'_succ, List.map_cons, ← sectionIndex_eq_ofNat,
          sectionBase_index hi, regionRequests, hstep]
        simp
      have hrest := ih hnext (by omega)
      intro s
      rw [hsplit]
      have hcall := memCreatePageMapping_asks kind hi hi
      have hgo : ∀ r : ℕ × State, memCreatePageMapping kind i i s = .ok r → r.1 = 0 :=
        fun r hr => memCreatePageMapping_aligned hi hr
      have hloop := hcall.bind (fun r => hrest r.2) s
      rw [regionLoop, if_pos hle, ← hloop]
      dsimp only
      cases hr : memCreatePageMapping kind i i s with
      | error halt => rfl
      | ok r => simp only [ok_bind, hgo r hr, ne_eq, not_true_eq_false, if_false]
    · have hle' : ¬ i.toNat ≤ regionEnd.toNat := hle
      have hcount : sectionCount i regionEnd = 0 := by
        rw [sectionCount]
        omega
      intro s
      rw [regionLoop, if_neg hle, hcount]
      rfl

/-- INTERNAL: a region function asks for the sections of its region.
SRC: arch/arm/mem.c:44-71 -/
theorem createRegion_asks (kind : Kind) (regionStart : BitVec 32) {regionEnd : BitVec 32}
    (hend : regionEnd < 0xfff00000) :
    Asks tableOf (createRegion (fun i => memCreatePageMapping kind i i) regionStart regionEnd)
      (regionRequests kind (regionStart.toNat / 2 ^ 20) (sectionCount regionStart regionEnd)) := by
  have hstart : (regionStart &&& ~~~(memGetPageSize - 1)).toNat / 2 ^ 20 =
      regionStart.toNat / 2 ^ 20 := by
    rw [← sectionIndex_toNat, sectionIndex_page, sectionIndex_toNat]
  have hloop := regionLoop_asks kind hend 4097 (misaligned_regionStart regionStart) (by omega)
  rw [sectionCount, hstart, ← sectionCount] at hloop
  exact hloop

/-- INTERNAL: `mem_create_region_id_mapping` asks for data sections. SRC: arch/arm/mem.c:44-55 -/
theorem idMapping_asks (regionStart : BitVec 32) {regionEnd : BitVec 32}
    (hend : regionEnd < 0xfff00000) :
    Asks tableOf (memCreateRegionIdMapping regionStart regionEnd)
      (regionRequests .data (regionStart.toNat / 2 ^ 20) (sectionCount regionStart regionEnd)) :=
  createRegion_asks .data regionStart hend

/-- INTERNAL: `mem_create_region_device_mapping` asks for device sections.
SRC: arch/arm/mem.c:57-71 -/
theorem deviceMapping_asks (regionStart : BitVec 32) {regionEnd : BitVec 32}
    (hend : regionEnd < 0xfff00000) :
    Asks tableOf (memCreateRegionDeviceMapping regionStart regionEnd)
      (regionRequests .device (regionStart.toNat / 2 ^ 20) (sectionCount regionStart regionEnd)) :=
  createRegion_asks .device regionStart hend

/-! ## Initialisation -/

/-- INTERNAL: what the loop over the device list asks for. SRC: arch/arm/mem.c:181-184 -/
def deviceRequests (info : PhysMemInfo) : List Request :=
  regionRequests .device (info.physMemStart.toNat / 2 ^ 20)
    (sectionCount info.physMemStart info.physMemEnd)

/-- INTERNAL: the loop over the devices asks for the sections of all of them.
SRC: arch/arm/mem.c:181-184 -/
theorem mapDevices_asks {devices : List PhysMemInfo}
    (hend : ∀ info ∈ devices, info.physMemEnd < 0xfff00000) :
    Asks State.table (mapDevices devices) (devices.flatMap deviceRequests) := by
  induction devices with
  | nil => exact fun s => rfl
  | cons info devices ih =>
    have hregion := deviceMapping_asks info.physMemStart (hend info List.mem_cons_self)
    have hrest := ih fun info' hmem => hend info' (List.mem_cons_of_mem info hmem)
    exact hregion.bind fun r => hrest r.2

/-- INTERNAL: the vector base and the vectors have the same offset in their sections.
SRC: arch/arm/mem.c:211 -/
def OffsetsAgree (platform : Platform) (ctrl : BitVec 32) : Prop :=
  (vectorVaddr ctrl).toNat % 2 ^ 20 = platform.vectorsRelocate.toNat % 2 ^ 20

/-- INTERNAL: the offset of an address in its section is its remainder by one MiB. -/
theorem offset_toNat (a : BitVec 32) : (a &&& (memGetPageSize - 1)).toNat = a.toNat % 2 ^ 20 := by
  rw [BitVec.toNat_and]
  exact Nat.and_two_pow_sub_one_eq_mod a.toNat 20

/-- INTERNAL: two addresses at different places in their sections. -/
theorem offset_ne_iff (a b : BitVec 32) :
    a &&& (memGetPageSize - 1) ≠ b &&& (memGetPageSize - 1) ↔
      ¬ a.toNat % 2 ^ 20 = b.toNat % 2 ^ 20 := by
  rw [← offset_toNat, ← offset_toNat, BitVec.toNat_inj]

/-- INTERNAL: what the vectors ask for: a section at the vector base, and their own section and
the next. SRC: arch/arm/mem.c:218-223 -/
def vectorRequests (platform : Platform) (ctrl : BitVec 32) : List Request :=
  (sectionIndex (vectorVaddr ctrl),
    Kind.data.descriptor (sectionBase (sectionIndex platform.vectorsRelocate))) ::
  regionRequests .data (platform.vectorsRelocate.toNat / 2 ^ 20)
    (sectionCount platform.vectorsRelocate (platform.vectorsRelocate + memGetPageSize))

/-- INTERNAL: the region of the relocated vectors, seen from their section's base or from
themselves. -/
theorem sectionCount_relocated (a : BitVec 32) :
    sectionCount (sectionBase (sectionIndex a)) (sectionBase (sectionIndex a) + memGetPageSize) =
      sectionCount a (a + memGetPageSize) := by
  have ha := a.isLt
  rw [sectionCount, sectionCount, toNat_next, toNat_next, sectionBase_toNat, sectionIndex_toNat]
  omega

/-- INTERNAL: the vectors ask for one section, or for two. SRC: arch/arm/mem.c:188-223 -/
theorem mapVectors_asks {platform : Platform} {ctrl : BitVec 32}
    (hagree : OffsetsAgree platform ctrl) (hend : platform.vectorsRelocate < 0xffe00000) :
    Asks State.table (mapVectors platform ctrl) (vectorRequests platform ctrl) := by
  have hlast : platform.vectorsRelocate.toNat < 0xffe00000 := hend
  have hpage := page_eq_sectionBase platform.vectorsRelocate
  have hbelow : sectionBase (sectionIndex platform.vectorsRelocate) + memGetPageSize <
      0xfff00000 := by
    rw [BitVec.lt_def, toNat_next, sectionBase_toNat, sectionIndex_toNat,
      show (0xfff00000 : BitVec 32).toNat = 0xfff00000 from rfl]
    omega
  have hregion := (idMapping_asks (sectionBase (sectionIndex platform.vectorsRelocate))
    hbelow).drop
  rw [sectionCount_relocated, sectionBase_toNat, sectionIndex_toNat,
    Nat.mul_div_cancel _ (by decide)] at hregion
  have halias := memCreatePageMapping_asks .data
    (misaligned_regionStart platform.vectorsRelocate) (misaligned_regionStart (vectorVaddr ctrl))
  rw [hpage, sectionIndex_page] at halias
  intro s
  rw [mapVectors]
  dsimp only
  rw [if_neg (by rw [offset_ne_iff, not_not]; exact hagree), hpage]
  exact (halias.bind fun r => hregion r.2) s

/-- INTERNAL: no region reaches the last section of the address space, and neither does the
section behind the relocated vectors. -/
structure BelowLast (platform : Platform) : Prop where
  vectors : platform.vectorsEnd < 0xfff00000
  text : platform.textEnd < 0xfff00000
  data : platform.dataEnd < 0xfff00000
  devices : ∀ info ∈ platform.devices, info.physMemEnd < 0xfff00000
  relocated : platform.vectorsRelocate < 0xffe00000

/-- INTERNAL: what `mem_init` asks for, in its order. SRC: arch/arm/mem.c:158-234 -/
def requests (platform : Platform) (ctrl : BitVec 32) : List Request :=
  regionRequests .data (platform.vectorsStart.toNat / 2 ^ 20)
      (sectionCount platform.vectorsStart platform.vectorsEnd) ++
    (regionRequests .data (platform.textStart.toNat / 2 ^ 20)
        (sectionCount platform.textStart platform.textEnd) ++
      (regionRequests .data (platform.dataStart.toNat / 2 ^ 20)
          (sectionCount platform.dataStart platform.dataEnd) ++
        (platform.devices.flatMap deviceRequests ++ vectorRequests platform ctrl)))

/-- INTERNAL: with the offsets in agreement, `mem_init` puts its requests into an empty table.
SRC: arch/arm/mem.c:158-234 -/
theorem memInit_outcome {platform : Platform} {ctrl : BitVec 32} (hbelow : BelowLast platform)
    (hagree : OffsetsAgree platform ctrl) (s : State) :
    (memInit platform ctrl s).map (fun s' => sections s'.table) =
      outcome (putAll empty (requests platform ctrl)) := by
  have hvectors : Asks State.table (fun s => mapVectors platform ctrl s >>= fun s' =>
      .ok { s' with memInited := true }) (vectorRequests platform ctrl ++ []) :=
    (mapVectors_asks hagree hbelow.relocated).bind fun _ => rfl
  rw [List.append_nil] at hvectors
  have hdevices := (mapDevices_asks hbelow.devices).bind hvectors
  have hdata := (idMapping_asks platform.dataStart hbelow.data).bind fun r => hdevices r.2
  have htext := (idMapping_asks platform.textStart hbelow.text).bind fun r => hdata r.2
  have hall := (idMapping_asks platform.vectorsStart hbelow.vectors).bind fun r => htext r.2
  have hzeroed := hall { s with table := bzero 0 16384 s.table, trace := s.trace ++ [.zeroed] }
  rw [bzero_table, sections_zeroTable] at hzeroed
  rw [memInit, bzero_table]
  exact hzeroed

/-- INTERNAL: a function that returns or aborts, with an abort behind it, aborts. -/
theorem Asks.bind_abort {β γ : Type} {view : β → Table} {f : State → Except Halt β}
    {g : β → Except Halt γ} {requests : List Request} (hf : Asks view f requests)
    (hg : ∀ b, g b = .error .abort) (s : State) : f s >>= g = .error .abort := by
  rcases hf.returns_or_aborts s with ⟨b, hcall⟩ | hcall
  · rw [hcall, ok_bind, hg]
  · rw [hcall]
    rfl

/-- INTERNAL: with the offsets apart, `mem_init` aborts. SRC: arch/arm/mem.c:211-216 -/
theorem memInit_aborts {platform : Platform} {ctrl : BitVec 32} (hbelow : BelowLast platform)
    (hagree : ¬ OffsetsAgree platform ctrl) (s : State) :
    memInit platform ctrl s = .error .abort := by
  have hvectors : ∀ s', mapVectors platform ctrl s' = .error .abort := by
    intro s'
    rw [mapVectors]
    dsimp only
    rw [if_pos ((offset_ne_iff _ _).mpr hagree)]
  rw [memInit]
  refine (idMapping_asks platform.vectorsStart hbelow.vectors).bind_abort (fun r => ?_) _
  refine (idMapping_asks platform.textStart hbelow.text).bind_abort (fun r => ?_) r.2
  refine (idMapping_asks platform.dataStart hbelow.data).bind_abort (fun r => ?_) r.2
  refine (mapDevices_asks hbelow.devices).bind_abort (fun s' => ?_) r.2
  rw [hvectors]
  rfl

/-! ## The requests -/

/-- INTERNAL: a descriptor that is asked for, with the region it comes from. -/
inductive Requested (platform : Platform) (ctrl : BitVec 32) : BitVec 12 → BitVec 32 → Prop
  | vectors {i : BitVec 12} (hi : Covers platform.vectorsStart platform.vectorsEnd i) :
      Requested platform ctrl i (Kind.data.descriptor (sectionBase i))
  | text {i : BitVec 12} (hi : Covers platform.textStart platform.textEnd i) :
      Requested platform ctrl i (Kind.data.descriptor (sectionBase i))
  | data {i : BitVec 12} (hi : Covers platform.dataStart platform.dataEnd i) :
      Requested platform ctrl i (Kind.data.descriptor (sectionBase i))
  | device {info : PhysMemInfo} (hinfo : info ∈ platform.devices) {i : BitVec 12}
      (hi : Covers info.physMemStart info.physMemEnd i) :
      Requested platform ctrl i (Kind.device.descriptor (sectionBase i))
  | vectorBase :
      Requested platform ctrl (sectionIndex (vectorVaddr ctrl))
        (Kind.data.descriptor (sectionBase (sectionIndex platform.vectorsRelocate)))
  | relocated {i : BitVec 12}
      (hi : Covers platform.vectorsRelocate (platform.vectorsRelocate + memGetPageSize) i) :
      Requested platform ctrl i (Kind.data.descriptor (sectionBase i))

/-- INTERNAL: the requests of `mem_init` are those of the text, the data, the devices and the
vectors. -/
theorem mem_requests {platform : Platform} {ctrl : BitVec 32} {i : BitVec 12} {d : BitVec 32} :
    (i, d) ∈ requests platform ctrl ↔ Requested platform ctrl i d := by
  simp only [requests, vectorRequests, deviceRequests, List.mem_append, List.mem_cons,
    List.mem_flatMap, mem_regionRequests, Prod.mk.injEq]
  constructor
  · rintro (⟨hi, rfl⟩ | ⟨hi, rfl⟩ | ⟨hi, rfl⟩ | ⟨info, hinfo, hi, rfl⟩ | ⟨rfl, rfl⟩ | ⟨hi, rfl⟩)
    · exact .vectors hi
    · exact .text hi
    · exact .data hi
    · exact .device hinfo hi
    · exact .vectorBase
    · exact .relocated hi
  · intro h
    cases h with
    | vectors hi => exact .inl ⟨hi, rfl⟩
    | text hi => exact .inr (.inl ⟨hi, rfl⟩)
    | data hi => exact .inr (.inr (.inl ⟨hi, rfl⟩))
    | device hinfo hi => exact .inr (.inr (.inr (.inl ⟨_, hinfo, hi, rfl⟩)))
    | vectorBase => exact .inr (.inr (.inr (.inr (.inl ⟨rfl, rfl⟩))))
    | relocated hi => exact .inr (.inr (.inr (.inr (.inr ⟨hi, rfl⟩))))

/-- INTERNAL: no section is asked for with two descriptors. -/
def NoConflict (platform : Platform) (ctrl : BitVec 32) : Prop :=
  ∀ i d d', Requested platform ctrl i d → Requested platform ctrl i d' → d = d'

/-- INTERNAL: no two of them are for different descriptors in one section. -/
theorem compatible_requests_iff {platform : Platform} {ctrl : BitVec 32} :
    Compatible empty (requests platform ctrl) ↔ NoConflict platform ctrl := by
  constructor
  · intro hcompat i d d' hd hd'
    exact hcompat i d d' (mem_requests.mpr hd) (.inr (mem_requests.mpr hd'))
  · intro hno i d d' hd hd'
    rcases hd' with hheld | hd'
    · cases hheld
    · exact hno i d d' (mem_requests.mp hd) (mem_requests.mp hd')

/-- INTERNAL: what is requested is a descriptor and not the empty word. -/
theorem requested_ne_zero {platform : Platform} {ctrl : BitVec 32} {i : BitVec 12}
    {d : BitVec 32} (h : Requested platform ctrl i d) : d ≠ 0 := by
  cases h <;> exact descriptor_ne_zero _ _

/-- INTERNAL: a table `mem_init` leaves is the store of its requests. -/
theorem sections_of_memInit {platform : Platform} {ctrl : BitVec 32} {s s' : State}
    (hbelow : BelowLast platform) (h : memInit platform ctrl s = .ok s') :
    OffsetsAgree platform ctrl ∧
      putAll empty (requests platform ctrl) = some (sections s'.table) := by
  by_cases hagree : OffsetsAgree platform ctrl
  · refine ⟨hagree, ?_⟩
    rcases cases_of_outcome (memInit_outcome hbelow hagree s) with ⟨s₁, hcall, hput⟩ | ⟨hcall, -⟩
    · rw [h] at hcall
      rw [hput, Except.ok.inj hcall]
    · rw [h] at hcall
      cases hcall
  · rw [memInit_aborts hbelow hagree] at h
    cases h

/-- INTERNAL: **`mem_init` returns** just where the vectors can be mapped and no two regions ask for
one section in different ways. SRC: arch/arm/mem.c:158-234 -/
theorem memInit_returns_iff {platform : Platform} {ctrl : BitVec 32} (hbelow : BelowLast platform)
    (s : State) :
    (∃ s', memInit platform ctrl s = .ok s') ↔
      OffsetsAgree platform ctrl ∧ NoConflict platform ctrl := by
  constructor
  · rintro ⟨s', h⟩
    obtain ⟨hagree, hput⟩ := sections_of_memInit hbelow h
    exact ⟨hagree, compatible_requests_iff.mp ((putAll_isSome_iff _ _).mp ⟨_, hput⟩)⟩
  · rintro ⟨hagree, hno⟩
    obtain ⟨m, hput⟩ := (putAll_isSome_iff _ _).mpr (compatible_requests_iff.mpr hno)
    rcases cases_of_outcome (memInit_outcome hbelow hagree s) with ⟨s', hcall, -⟩ | ⟨-, hnone⟩
    · exact ⟨s', hcall⟩
    · rw [hput] at hnone
      cases hnone

/-- INTERNAL: behind it a word of the table is a descriptor just where it was asked for. -/
theorem readWord_of_memInit {platform : Platform} {ctrl : BitVec 32} {s s' : State}
    (hbelow : BelowLast platform) (h : memInit platform ctrl s = .ok s') (i : BitVec 12)
    {d : BitVec 32} (hd : d ≠ 0) :
    readWord s'.table i = d ↔ Requested platform ctrl i d := by
  obtain ⟨-, hput⟩ := sections_of_memInit hbelow h
  have hword := putAll_apply hput i d
  rw [sections_eq_some_iff, and_iff_left hd, mem_requests] at hword
  rw [hword]
  exact ⟨fun h => h.resolve_left (nomatch ·), .inr⟩

/-- INTERNAL: the exception vector base leads to the vectors. SRC: arch/arm/mem.c:188-218 -/
theorem translate_vectorBase {platform : Platform} {ctrl : BitVec 32} {s s' : State}
    (hbelow : BelowLast platform) (h : memInit platform ctrl s = .ok s') :
    sectionTranslate s'.table (vectorVaddr ctrl) = some platform.vectorsRelocate := by
  have hagree := (sections_of_memInit hbelow h).1
  have hreq : Requested platform ctrl _ _ := .vectorBase
  have hword := (readWord_of_memInit hbelow h _ (requested_ne_zero hreq)).mpr hreq
  rw [translate_descriptor hword]
  refine congrArg some (BitVec.eq_of_toNat_eq ?_)
  have hoffset : (vectorVaddr ctrl &&& 0xfffff).toNat = platform.vectorsRelocate.toNat % 2 ^ 20 :=
    (offset_toNat (vectorVaddr ctrl)).trans hagree
  have hbase : (sectionBase (sectionIndex platform.vectorsRelocate) &&& 0xfff00000) =
      sectionBase (sectionIndex platform.vectorsRelocate) := by
    rw [← page_eq_sectionBase, BitVec.and_assoc]
    rfl
  have hlt := platform.vectorsRelocate.isLt
  rw [hbase, BitVec.toNat_add, hoffset, sectionBase_toNat, sectionIndex_toNat]
  omega

/-- INTERNAL: the order of the devices does not change how `mem_init` ends.
SRC: arch/arm/mem.c:178-184 -/
theorem memInit_perm {platform : Platform} {ctrl : BitVec 32} (hbelow : BelowLast platform)
    {devices : List PhysMemInfo} (hperm : devices.Perm platform.devices) (s : State) :
    (memInit { platform with devices := devices } ctrl s).map State.table =
      (memInit platform ctrl s).map State.table := by
  have hbelow' : BelowLast { platform with devices := devices } :=
    ⟨hbelow.vectors, hbelow.text, hbelow.data,
      fun info hmem => hbelow.devices info (hperm.mem_iff.mp hmem), hbelow.relocated⟩
  by_cases hagree : OffsetsAgree platform ctrl
  · have hput : putAll empty (requests { platform with devices := devices } ctrl) =
        putAll empty (requests platform ctrl) :=
      putAll_perm empty (((((hperm.flatMap_right deviceRequests).append_right _).append_left
        _).append_left _).append_left _)
    have hout := memInit_outcome hbelow' hagree s
    rw [hput, ← memInit_outcome hbelow hagree s] at hout
    have hview : ∀ x : Except Halt State,
        x.map (fun s => sections s.table) = (x.map State.table).map sections := by
      intro x
      cases x <;> rfl
    rw [hview, hview] at hout
    exact map_injective (fun _ _ => table_eq_of_sections) hout
  · rw [memInit_aborts hbelow hagree, memInit_aborts hbelow' hagree]

/-- SOURCE: arch/arm/mem.c:44-71,158-234,352-413 — **what `mem_init` asks for**: below the last
section it completes exactly when the vector base and the vectors agree in their offset and no
section is asked for with two descriptors; the table then holds what was asked for and zeros,
the vector base leads to the vectors, and the devices may come in any order. -/
theorem memInit_regions (platform : Platform) (ctrl : BitVec 32) (hbelow : BelowLast platform)
    (s : State) :
    ((∃ s', memInit platform ctrl s = .ok s') ↔
      OffsetsAgree platform ctrl ∧ NoConflict platform ctrl) ∧
    (∀ s', memInit platform ctrl s = .ok s' →
      (∀ i d, Requested platform ctrl i d → readWord s'.table i = d) ∧
      (∀ i, (∀ d, ¬ Requested platform ctrl i d) → readWord s'.table i = 0) ∧
      sectionTranslate s'.table (vectorVaddr ctrl) = some platform.vectorsRelocate) ∧
    ∀ devices, devices.Perm platform.devices →
      (memInit { platform with devices := devices } ctrl s).map State.table =
        (memInit platform ctrl s).map State.table := by
  refine ⟨memInit_returns_iff hbelow s, fun s' h => ⟨fun i d hreq => ?_, fun i hnone => ?_, ?_⟩,
    fun devices hperm => memInit_perm hbelow hperm s⟩
  · exact (readWord_of_memInit hbelow h i (requested_ne_zero hreq)).mpr hreq
  · by_contra hword
    exact hnone _ ((readWord_of_memInit hbelow h i hword).mp rfl)
  · exact translate_vectorBase hbelow h

/-- INTERNAL: the device list of the SA1100. SRC: platform/arm/sa1100/mem.c:10-42 -/
def memGetDeviceInfo : List PhysMemInfo :=
  [⟨0x80050000, 0x80050fff⟩, ⟨0x90010000, 0x90010010⟩, ⟨0x90000000, 0x9000001c⟩,
    ⟨0x90050000, 0x9005000c⟩]

/-- INTERNAL: an image on the SA1100: three of its devices share a section, and the vectors
theirs with the text. SRC: platform/arm/sa1100/sys.ld:3-51 -/
def sa1100Platform : Platform :=
  ⟨0x30000, 0x30040, 0x10000, 0x30080, 0xc1000000, 0xc12fffff, 0xf0000, memGetDeviceInfo⟩

/-- INTERNAL: the SA1100 with high vectors: the vectors are mapped to the copy, and the order of its
devices does not matter. -/
theorem memInit_regions_sa1100 : ∃ s', memInit sa1100Platform 0x2000
    (.start (fun _ => 0xff) false) = .ok s' ∧
    sectionTranslate s'.table 0xffff0000 = some 0xf0000 ∧
    (memInit { sa1100Platform with devices := memGetDeviceInfo.reverse } 0x2000
      (.start (fun _ => 0xff) false)).map State.table = .ok s'.table := by
  have hbelow : BelowLast sa1100Platform :=
    ⟨by decide, by decide, by decide, by decide, by decide⟩
  have hok : ∃ s', memInit sa1100Platform 0x2000 (.start (fun _ => 0xff) false) = .ok s' := by
    simp only [memInit, bzero_table]
    exact ⟨_, rfl⟩
  obtain ⟨-, hresult, hperm⟩ :=
    memInit_regions sa1100Platform 0x2000 hbelow (.start (fun _ => 0xff) false)
  obtain ⟨s', hs'⟩ := hok
  have hreverse := hperm memGetDeviceInfo.reverse (List.reverse_perm memGetDeviceInfo)
  rw [hs'] at hreverse
  exact ⟨s', hs', (hresult s' hs').2.2, hreverse⟩

end Simbench.Analysis.ArmSectionRequests
