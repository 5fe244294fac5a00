import Simbench.Analysis.Armv8IrqMask
import Simbench.Analysis.Armv8TableCalls
import Simbench.Library.AddressLoops
import Simbench.Library.Outcomes

/-!
# The calls of `mem_init`

What `mem_init` does to the translation tables is a sequence of calls of their interface, so
while its accesses are not translated it ends early only where the heap does, and with room for
the tables it returns.
-/

set_option autoImplicit false

namespace Simbench.Analysis.Armv8MemoryCalls

open Simbench.Library.AddressLoops Simbench.Library.Outcomes
open Simbench.Program Simbench.Program.Armv8Machine
open Simbench.Analysis.Armv8IrqMask
open Armv8Tables (Call Kind)

/-! ## Regions as calls -/

/-- INTERNAL: the first addresses of consecutive pages. -/
def pagesFrom : ℕ → BitVec 64 → List (BitVec 64)
  | 0, _ => []
  | rounds + 1, i => i :: pagesFrom rounds (i + memGetPageSize)

/-- INTERNAL: the pages a region loop visits: from its start rounded down to its end. -/
def regionPages (regionStart regionEnd : BitVec 64) : List (BitVec 64) :=
  let start := regionStart &&& ~~~(memGetPageSize - 1)
  pagesFrom ((regionEnd.toNat - start.toNat) / 4096 + 1) start

/-- INTERNAL: a region as calls of the table interface, one a page. -/
def regionCalls (kind : Kind) (regionStart regionEnd : BitVec 64) : List Call :=
  (regionPages regionStart regionEnd).map fun i => .createPageMapping kind i i

/-- INTERNAL: the calls `syscall_mem_init` makes for SimBench itself: the clearing of the root, its
code, its data and the devices. -/
def simbenchCalls (image : Image) : List Call :=
  .clearTxlnTable :: (regionCalls .code image.textStart image.textEnd ++
    regionCalls .data image.dataStart image.dataEnd ++
      memGetDeviceInfo.flatMap fun device => regionCalls .device device.1 device.2)

/-- INTERNAL: a mapping call that returns, returns zero. -/
theorem memCreatePageMapping_rc {L : Armv8Tables.HeapLayout} {kind : Kind} {pa va : BitVec 64}
    {t t' : Armv8Tables.Machine} {rc : Int}
    (h : Armv8Tables.memCreatePageMapping L kind pa va t = some (rc, t')) : rc = 0 := by
  rw [Armv8TableCalls.memCreatePageMapping_eq, Option.map_eq_some_iff] at h
  obtain ⟨_, -, h⟩ := h
  exact (Prod.mk.inj h).1.symm

/-- INTERNAL: one page further does not wrap below the end of the address space. -/
theorem toNat_add_pageSize {i : BitVec 64} (h : i.toNat + 4096 < 2 ^ 64) :
    (i + memGetPageSize).toNat = i.toNat + 4096 := toNat_add_step h

/-- INTERNAL: the loop over a region makes its calls in order. Induction on the rounds: `i`
is the first page of those left, and the last of them still meets the region. -/
theorem regionLoop_eq (L : Armv8Tables.HeapLayout) (kind : Kind) {regionEnd : BitVec 64}
    (hend : regionEnd.toNat + 4096 < 2 ^ 64) (rounds : ℕ) {i : BitVec 64}
    (t : Armv8Tables.Machine) (hin : i.toNat + rounds * 4096 ≤ regionEnd.toNat + 4096)
    (hout : regionEnd.toNat < i.toNat + rounds * 4096) :
    regionLoop (fun i => Armv8Tables.memCreatePageMapping L kind i i) regionEnd rounds i t =
      (onHeap (Armv8Tables.run L t ((pagesFrom rounds i).map fun i =>
        Call.createPageMapping kind i i))).map fun t => (0, t) := by
  induction rounds generalizing i t with
  | zero =>
    have hdone : ¬ i ≤ regionEnd := by
      rw [BitVec.le_def]
      omega
    rw [regionLoop, if_neg hdone]
    rfl
  | succ rounds ih =>
    have hmore : i ≤ regionEnd := by
      rw [BitVec.le_def]
      omega
    have hnext := toNat_add_pageSize (i := i) (by omega)
    rw [regionLoop, if_pos hmore, pagesFrom, List.map_cons, Armv8Tables.run, List.foldlM_cons,
      Armv8Tables.step]
    cases hmap : Armv8Tables.memCreatePageMapping L kind i i t with
    | none => rfl
    | some result =>
      obtain ⟨rc, t'⟩ := result
      obtain rfl := memCreatePageMapping_rc hmap
      exact ih t' (by omega) (by omega)

/-- INTERNAL: the page a region starts in. -/
theorem toNat_start_le (a : BitVec 64) : (a &&& ~~~(memGetPageSize - 1)).toNat ≤ a.toNat := by
  rw [BitVec.toNat_and]
  exact Nat.and_le_left

/-- INTERNAL: a region loop below the top page is a run of one mapping for each of its pages. -/
theorem createRegion_eq (L : Armv8Tables.HeapLayout) (kind : Kind)
    {regionStart regionEnd : BitVec 64}
    (hordered : regionStart.toNat ≤ regionEnd.toNat) (hend : regionEnd.toNat + 4096 < 2 ^ 64)
    (t : Armv8Tables.Machine) :
    createRegion (fun i => Armv8Tables.memCreatePageMapping L kind i i) regionStart regionEnd t =
      (onHeap (Armv8Tables.run L t (regionCalls kind regionStart regionEnd))).map
        fun t => (0, t) := by
  have hstart := toNat_start_le regionStart
  exact regionLoop_eq L kind hend _ t (by omega) (by omega)

section Regions

variable (L : Armv8Tables.HeapLayout) {regionStart regionEnd : BitVec 64}
  (hordered : regionStart.toNat ≤ regionEnd.toNat) (hend : regionEnd.toNat + 4096 < 2 ^ 64)
  (t : Armv8Tables.Machine)

include hordered hend

/-- INTERNAL: the loop over a region of code is the run of its code mappings. -/
theorem regionCode_eq : memCreateRegionIdMappingCode L regionStart regionEnd t =
    (onHeap (Armv8Tables.run L t (regionCalls .code regionStart regionEnd))).map
      fun t => (0, t) :=
  createRegion_eq L .code hordered hend t

/-- INTERNAL: the loop over a region of data is the run of its data mappings. -/
theorem regionData_eq : memCreateRegionIdMappingData L regionStart regionEnd t =
    (onHeap (Armv8Tables.run L t (regionCalls .data regionStart regionEnd))).map
      fun t => (0, t) :=
  createRegion_eq L .data hordered hend t

/-- INTERNAL: the loop over a device's region is the run of its device mappings. -/
theorem regionDevice_eq : memCreateRegionDeviceMapping L regionStart regionEnd t =
    (onHeap (Armv8Tables.run L t (regionCalls .device regionStart regionEnd))).map
      fun t => (0, t) :=
  createRegion_eq L .device hordered hend t

end Regions

/-- INTERNAL: mapping a result before the rest of the run is the rest on the mapped result. -/
theorem onHeap_map_bind {α β γ : Type} (x : Option α) (f : α → β) (g : β → Except Halt γ) :
    ((onHeap x).map f >>= g) = onHeap x >>= fun a => g (f a) := by
  cases x <;> rfl

/-- INTERNAL: a run over two lists is the first list's run and then the second's. -/
theorem run_append (L : Armv8Tables.HeapLayout) (t : Armv8Tables.Machine) (xs ys : List Call) :
    onHeap (Armv8Tables.run L t (xs ++ ys)) =
      onHeap (Armv8Tables.run L t xs) >>= fun t => onHeap (Armv8Tables.run L t ys) := by
  unfold Armv8Tables.run
  rw [List.foldlM_append]
  cases List.foldlM (Armv8Tables.step L) t xs <;> rfl

/-- INTERNAL: the data ends below the heap. -/
theorem image_dataEnd_lt (image : Image) : image.dataEnd.toNat < 2 ^ 48 := by
  have h₁ := image.dataHeap
  have h₂ := image.heapSize
  have h₃ := image.heap.bounded
  omega

/-- INTERNAL: the device regions are ordered and end below 2^48. -/
theorem memGetDeviceInfo_bounds : ∀ device ∈ memGetDeviceInfo,
    device.1.toNat ≤ device.2.toNat ∧ device.2.toNat + 4096 < 2 ^ 48 := by
  have hall : memGetDeviceInfo.all (fun device =>
      decide (device.1.toNat ≤ device.2.toNat ∧ device.2.toNat + 4096 < 2 ^ 48)) = true := by decide
  intro device hdevice
  exact of_decide_eq_true (List.all_eq_true.mp hall device hdevice)

/-- INTERNAL: the device regions, one after the other. -/
theorem mapDevices_eq (L : Armv8Tables.HeapLayout) (devices : List (BitVec 64 × BitVec 64))
    (hdevices : ∀ device ∈ devices, device.1.toNat ≤ device.2.toNat ∧
      device.2.toNat + 4096 < 2 ^ 64) (t : Armv8Tables.Machine) :
    mapDevices L devices t = onHeap (Armv8Tables.run L t
      (devices.flatMap fun device => regionCalls .device device.1 device.2)) := by
  induction devices generalizing t with
  | nil => rfl
  | cons device devices ih =>
    obtain ⟨hordered, hend⟩ := hdevices device List.mem_cons_self
    rw [mapDevices, regionDevice_eq L hordered hend, onHeap_map_bind, List.flatMap_cons,
      run_append]
    apply bind_congr
    intro t'
    exact ih (fun d hd => hdevices d (List.mem_cons_of_mem _ hd)) t'

/-- INTERNAL: **`mem_init` on the tables** is its calls. -/
theorem mapSimbench_eq (image : Image) (t : Armv8Tables.Machine) :
    mapSimbench (ofImage image) t =
      onHeap (Armv8Tables.run image.heap t (simbenchCalls image)) := by
  have hbound := image_dataEnd_lt image
  have htextData := image.textData
  have hdata := image.data
  have hdevices := mapDevices_eq image.heap memGetDeviceInfo fun device hdevice =>
    have hbounds := memGetDeviceInfo_bounds device hdevice
    ⟨hbounds.1, by omega⟩
  unfold mapSimbench simbenchCalls ofImage
  dsimp only
  rw [← List.singleton_append, run_append, Armv8Tables.run, List.foldlM_cons, Armv8Tables.step]
  cases Armv8Tables.clearTxlnTable image.heap t with
  | none => rfl
  | some t₁ =>
    show (memCreateRegionIdMappingCode image.heap image.textStart image.textEnd t₁ >>= _) =
      onHeap (Armv8Tables.run image.heap t₁ _)
    rw [regionCode_eq image.heap image.text (by omega), onHeap_map_bind, List.append_assoc,
      run_append]
    apply bind_congr
    intro t₂
    dsimp only
    rw [regionData_eq image.heap hdata (by omega), onHeap_map_bind, run_append]
    apply bind_congr
    intro t₃
    exact hdevices t₃

/-! ## Returning -/

/-- INTERNAL: a result, or the end of the heap. -/
abbrev OnHeap {α : Type} (post : α → Prop) (x : Except Halt α) : Prop :=
  Outcome post (fun halt => halt = .outOfHeap) x

/-- INTERNAL: what a heap step returns is what its option holds. -/
theorem onHeap_onHeap {α : Type} (x : Option α) : OnHeap (fun a => x = some a) (onHeap x) := by
  cases x <;> rfl

/-- INTERNAL: what `syscall_mem_init` leaves, unless the heap ends.
SRC: arch/armv8/mem.c:71-120 -/
theorem syscallMemInit_cases (image : Image) (s : Machine) :
    OnHeap (fun result => ∃ table tables₁ tables₂,
        Armv8Tables.getTxlnTable image.heap s.tables = some (table, tables₁) ∧
        Armv8Tables.run image.heap tables₁ (simbenchCalls image) = some tables₂ ∧
        result = (0, { s with
          sctlr := s.sctlr &&& ~~~(1#32 <<< 19)
          ttbr0 := table
          tcr := ((BitVec.ofNat 32 (64 - Armv8Tables.vaBits) <<< 0) |||
            ((16 : BitVec 32) <<< 16)).setWidth 64
          tables := tables₂ }))
      (syscallMemInit (ofImage image) s) := by
  unfold syscallMemInit
  apply (onHeap_onHeap _).bind
  rintro ⟨table, tables₁⟩ hget
  dsimp only at hget ⊢
  rw [mapSimbench_eq]
  apply (onHeap_onHeap _).bind
  intro tables₂ hrun
  exact ⟨table, tables₁, tables₂, hget, hrun, rfl⟩

/-- INTERNAL: with room for the tables of its calls `syscall_mem_init` returns. -/
theorem syscallMemInit_of_room (image : Image) {s : Machine}
    (hroom : s.tables.heapPtr.toNat + 4 * ((simbenchCalls image).length + 1) * 4096 ≤
      image.heap.heapEnd.toNat) : ∃ s', syscallMemInit (ofImage image) s = .ok (0, s') := by
  obtain ⟨tables, hrun⟩ := Armv8TableCalls.run_returns (.getTxlnTable :: simbenchCalls image) hroom
  rw [Armv8Tables.run, List.foldlM_cons, Armv8Tables.step, Option.bind_eq_bind,
    Option.bind_eq_some_iff] at hrun
  obtain ⟨tables₁, hget, hrest⟩ := hrun
  rw [Option.map_eq_some_iff] at hget
  obtain ⟨⟨table, tables₁'⟩, hget, rfl⟩ := hget
  have hcalls : mapSimbench (ofImage image) tables₁' = .ok tables := by
    rw [mapSimbench_eq, Armv8Tables.run, hrest]
    rfl
  unfold syscallMemInit
  dsimp only
  rw [ofImage_heap, hget]
  show ∃ s', (mapSimbench (ofImage image) tables₁' >>= _) = _
  rw [hcalls]
  exact ⟨_, rfl⟩

/-! ## The system call -/

section SystemCall

variable (image : Image) {s : Machine}

/-- INTERNAL: the handler of the `mem_init` call, by the state of the MMU it is taken in.
SRC: arch/armv8/syscall.c:61-68 -/
theorem armv8HandleSyscall_memInit (hcall : s.globalSyscallNo = syscallMemInitNo) :
    armv8HandleSyscall image s =
      if mmuEnabled s then syscallMemInitTranslated (ofImage image) s
      else syscallMemInit (ofImage image) s := by
  unfold armv8HandleSyscall
  rw [hcall]
  rfl

/-- INTERNAL: while address translation is off, `mem_init` is `syscall_mem_init` between entry and
`eret`. SRC: arch/armv8/mem.c:69-72; arch/armv8/syscall.c:66-67 -/
theorem memInit_eq (h : Caller s) (hmmu : mmuEnabled s = false) :
    memInit image s = (do
      let (rc, s') ← syscallMemInit (ofImage image) (entered syscallMemInitNo s)
      if rc ≠ 0 then .error (.vector s') else .ok (eret s')) := by
  have hentered : mmuEnabled (entered syscallMemInitNo s) = false := hmmu
  unfold memInit
  rw [armv8Syscall_eq image syscallMemInitNo h, armv8HandleSyscall_memInit image rfl, hentered,
    if_neg Bool.false_ne_true]

/-- INTERNAL: while it is on, the run ends at the root of the tables.
SRC: arch/armv8/mem.c:90-104 -/
theorem memInit_translated (h : Caller s) (hmmu : mmuEnabled s = true) :
    memInit image s = (Armv8Machine.onHeap (Armv8Tables.getTxlnTable image.heap s.tables) >>=
      fun root => .error (if accessible false true root.1 s then .undefined else .abort)) := by
  have hentered : mmuEnabled (entered syscallMemInitNo s) = true := hmmu
  unfold memInit
  rw [armv8Syscall_eq image syscallMemInitNo h, armv8HandleSyscall_memInit image rfl, hentered,
    if_pos rfl, syscallMemInitTranslated, bind_assoc]
  rfl

end SystemCall

end Simbench.Analysis.Armv8MemoryCalls
