import Simbench.Library.ByteParser
import Mathlib.Logic.Function.Basic

/-!
# The ARM section table

`arch/arm/mem.c`, with `memset` and `bzero` of `util/memset.c`. The section table is the
16384 bytes of `section_table`; its words are read and written in little-endian order. The
linker symbols and the device list are fixed for a program; the control register is read
anew by every `mem_init`. Every zeroing of the table and every mapping call with its result
is traced.

Messages, the TLB and cache type flags and the other coprocessor registers are left out.
-/

set_option autoImplicit false

namespace Simbench.Program.ArmSections

open Simbench.Library.ByteParser

/-! ## The table in memory -/

/-- INTERNAL: the bytes of `section_table`. SRC: arch/arm/mem.c:23 -/
abbrev Table := BitVec 14 → BitVec 8

/-- INTERNAL: the byte `k` of the word at an index. -/
def byteAddr (i : BitVec 12) (k : ℕ) : BitVec 14 := BitVec.ofNat 14 (4 * i.toNat + k)

/-- INTERNAL: a descriptor as the hardware reads it, from four bytes of the table. -/
def readWord (t : Table) (i : BitVec 12) : BitVec 32 :=
  BitVec.ofNat 32 (littleEndianValue
    [t (byteAddr i 0), t (byteAddr i 1), t (byteAddr i 2), t (byteAddr i 3)])

/-- INTERNAL: bytes stored one after the other. -/
def storeBytes (t : Table) (p : BitVec 14) : List (BitVec 8) → Table
  | [] => t
  | b :: bytes => storeBytes (Function.update t p b) (p + 1) bytes

/-- INTERNAL: a descriptor as a store of the code writes it, in four bytes of the table. -/
def writeWord (t : Table) (i : BitVec 12) (w : BitVec 32) : Table :=
  storeBytes t (byteAddr i 0) (bytesOf32 w)

/-- INTERNAL: the loop of `memset`. SRC: util/memset.c:3-14 -/
def memset (p : BitVec 14) (b : BitVec 8) : (n : ℕ) → Table → Table
  | 0, t => t
  | n + 1, t => memset (p + 1) b n (Function.update t p b)

/-- INTERNAL: `bzero`, as `memset` with zero. SRC: util/memset.c:16-19 -/
def bzero (p : BitVec 14) (n : ℕ) (t : Table) : Table := memset p 0 n t

/-! ## The program's state -/

/-- INTERNAL: the mapping functions that write the table. -/
inductive Kind
  | data
  | device
  deriving DecidableEq, Repr

/-- INTERNAL: what happened to the table: `mem_init` zeroed it, or a mapping call of `va` to
`pa` returned. -/
inductive Event
  | zeroed
  | mapping (kind : Kind) (pa va : BitVec 32) (rc : ℕ)
  deriving DecidableEq, Repr

/-- INTERNAL: the table, `mem_inited`, and what has happened to the table so far. -/
structure State where
  table : Table
  memInited : Bool
  trace : List Event

/-- INTERNAL: why a call does not return: `arch_abort`, or a loop without end. -/
inductive Halt
  | abort
  | endless
  deriving DecidableEq, Repr

/-- INTERNAL: `phys_mem_info_t` without its link. SRC: include/mem.h:28-34 -/
structure PhysMemInfo where
  physMemStart : BitVec 32
  physMemEnd : BitVec 32
  deriving DecidableEq, Repr

/-- INTERNAL: the addresses of the linker symbols, and the list of `mem_get_device_info`. -/
structure Platform where
  vectorsStart : BitVec 32
  vectorsEnd : BitVec 32
  textStart : BitVec 32
  textEnd : BitVec 32
  dataStart : BitVec 32
  dataEnd : BitVec 32
  vectorsRelocate : BitVec 32
  devices : List PhysMemInfo
  deriving DecidableEq, Repr

/-! ## Mappings -/

/-- INTERNAL: `mem_get_page_size`: one MiB, a section. SRC: arch/arm/mem.c:341-344 -/
def memGetPageSize : BitVec 32 := 1 <<< 20

/-- INTERNAL: a section descriptor with full access in domain 0. SRC: arch/arm/mem.c:364-370 -/
def sectionDescriptor (physAddr c b : BitVec 32) : BitVec 32 :=
  let base := physAddr &&& 0xfff00000
  let domain := 0
  let ap := 3
  let tex := 0
  base ||| (tex <<< 12) ||| (ap <<< 10) ||| (domain <<< 5) ||| (c <<< 3) ||| (b <<< 2) ||| 2

/-- INTERNAL: the descriptor of each routine: cacheable and buffered, or neither.
SRC: arch/arm/mem.c:365-366,397-398 -/
def Kind.descriptor (kind : Kind) (physAddr : BitVec 32) : BitVec 32 :=
  match kind with
  | .data => sectionDescriptor physAddr 1 1
  | .device => sectionDescriptor physAddr 0 0

/-- INTERNAL: the index of an address's section: `virt_addr >> 20`. -/
def sectionIndex (virtAddr : BitVec 32) : BitVec 12 := (virtAddr >>> 20).setWidth 12

/-- INTERNAL: one of the page-size bits is set. -/
def misaligned (addr : BitVec 32) : Bool := addr &&& (memGetPageSize - 1) ≠ 0

/-- INTERNAL: the body of both mapping routines, which differ in the descriptor and in
messages. SRC: arch/arm/mem.c:352-383,385-413 -/
def memCreatePageMapping (kind : Kind) (physAddr virtAddr : BitVec 32) (s : State) :
    Except Halt (ℕ × State) :=
  if misaligned physAddr || misaligned virtAddr then
    .ok (1, { s with trace := s.trace ++ [.mapping kind physAddr virtAddr 1] })
  else
    let descriptor := kind.descriptor physAddr
    let entry := readWord s.table (sectionIndex virtAddr)
    if entry ≠ 0 ∧ entry ≠ descriptor then .error .abort
    else .ok (0, { s with
      table := writeWord s.table (sectionIndex virtAddr) descriptor
      trace := s.trace ++ [.mapping kind physAddr virtAddr 0] })

/-- INTERNAL: `mem_create_page_mapping_data`. SRC: arch/arm/mem.c:352-383 -/
def memCreatePageMappingData (physAddr virtAddr : BitVec 32) (s : State) :
    Except Halt (ℕ × State) :=
  memCreatePageMapping .data physAddr virtAddr s

/-- INTERNAL: `mem_create_page_mapping_device`. SRC: arch/arm/mem.c:385-413 -/
def memCreatePageMappingDevice (physAddr virtAddr : BitVec 32) (s : State) :
    Except Halt (ℕ × State) :=
  memCreatePageMapping .device physAddr virtAddr s

/-- INTERNAL: `mem_create_page_mapping_code`, which maps code as data.
SRC: arch/arm/mem.c:346-350 -/
def memCreatePageMappingCode (physAddr virtAddr : BitVec 32) (s : State) :
    Except Halt (ℕ × State) :=
  memCreatePageMappingData physAddr virtAddr s

/-- INTERNAL: the loop over a region. The address wraps around, so that a region into the
last section has no end; 4097 rounds are enough for every other one. -/
def regionLoop (map : BitVec 32 → State → Except Halt (ℕ × State)) (regionEnd : BitVec 32) :
    (rounds : ℕ) → (i : BitVec 32) → State → Except Halt (ℕ × State)
  | 0, _, _ => .error .endless
  | rounds + 1, i, s =>
    if i ≤ regionEnd then do
      let (rc, s) ← map i s
      if rc ≠ 0 then .ok (1, s) else regionLoop map regionEnd rounds (i + memGetPageSize) s
    else .ok (0, s)

/-- INTERNAL: the body of both region functions. SRC: arch/arm/mem.c:44-71 -/
def createRegion (map : BitVec 32 → State → Except Halt (ℕ × State))
    (regionStart regionEnd : BitVec 32) (s : State) : Except Halt (ℕ × State) :=
  regionLoop map regionEnd 4097 (regionStart &&& ~~~(memGetPageSize - 1)) s

/-- INTERNAL: `mem_create_region_id_mapping`. SRC: arch/arm/mem.c:44-55 -/
def memCreateRegionIdMapping (regionStart regionEnd : BitVec 32) (s : State) :
    Except Halt (ℕ × State) :=
  createRegion (fun i => memCreatePageMappingData i i) regionStart regionEnd s

/-- INTERNAL: `mem_create_region_device_mapping`. SRC: arch/arm/mem.c:57-71 -/
def memCreateRegionDeviceMapping (regionStart regionEnd : BitVec 32) (s : State) :
    Except Halt (ℕ × State) :=
  createRegion (fun i => memCreatePageMappingDevice i i) regionStart regionEnd s

/-! ## Initialisation -/

/-- INTERNAL: the loop over the device list. SRC: arch/arm/mem.c:181-184 -/
def mapDevices : List PhysMemInfo → State → Except Halt State
  | [], s => .ok s
  | info :: devices, s => do
    let (_, s) ← memCreateRegionDeviceMapping info.physMemStart info.physMemEnd s
    mapDevices devices s

/-- INTERNAL: where the exception vectors are, by bit 13 of the control register.
SRC: arch/arm/mem.c:197-208 -/
def vectorVaddr (ctrl : BitVec 32) : BitVec 32 :=
  if ctrl &&& (1 <<< 13) ≠ 0 then 0xffff0000 else 0

/-- INTERNAL: the exception vectors, at the vector base and at their physical address.
SRC: arch/arm/mem.c:188-223 -/
def mapVectors (platform : Platform) (ctrl : BitVec 32) (s : State) : Except Halt State := do
  let vectorPaddr := platform.vectorsRelocate
  let vectorPpage := vectorPaddr &&& ~~~(memGetPageSize - 1)
  let vectorVpage := vectorVaddr ctrl &&& ~~~(memGetPageSize - 1)
  if vectorVaddr ctrl &&& (memGetPageSize - 1) ≠ vectorPaddr &&& (memGetPageSize - 1) then
    .error .abort
  else
    let (_, s) ← memCreatePageMappingData vectorPpage vectorVpage s
    let (_, s) ← memCreateRegionIdMapping vectorPpage (vectorPpage + memGetPageSize) s
    .ok s

/-- INTERNAL: `mem_init`; `ctrl` is what the control register holds. SRC: arch/arm/mem.c:158-234 -/
def memInit (platform : Platform) (ctrl : BitVec 32) (s : State) : Except Halt State := do
  let s := { s with table := bzero 0 16384 s.table, trace := s.trace ++ [.zeroed] }
  let (_, s) ← memCreateRegionIdMapping platform.vectorsStart platform.vectorsEnd s
  let (_, s) ← memCreateRegionIdMapping platform.textStart platform.textEnd s
  let (_, s) ← memCreateRegionIdMapping platform.dataStart platform.dataEnd s
  let s ← mapDevices platform.devices s
  let s ← mapVectors platform ctrl s
  .ok { s with memInited := true }

/-- INTERNAL: `mem_reset`: `mem_init` from the start. SRC: arch/arm/mem.c:236-240 -/
def memReset (platform : Platform) (ctrl : BitVec 32) (s : State) : Except Halt State :=
  memInit platform ctrl { s with memInited := false }

/-! ## Runs -/

/-- INTERNAL: the calls a benchmark makes. -/
inductive Call
  | memInit (ctrl : BitVec 32)
  | memReset (ctrl : BitVec 32)
  | data (physAddr virtAddr : BitVec 32)
  | code (physAddr virtAddr : BitVec 32)
  | device (physAddr virtAddr : BitVec 32)
  deriving DecidableEq, Repr

/-- INTERNAL: one of these calls; the status of a mapping is dropped, as its callers do. -/
def runCall (platform : Platform) (call : Call) (s : State) : Except Halt State :=
  match call with
  | .memInit ctrl => memInit platform ctrl s
  | .memReset ctrl => memReset platform ctrl s
  | .data pa va => (memCreatePageMappingData pa va s).map Prod.snd
  | .code pa va => (memCreatePageMappingCode pa va s).map Prod.snd
  | .device pa va => (memCreatePageMappingDevice pa va s).map Prod.snd

/-- INTERNAL: a run of calls that all return. -/
def run (platform : Platform) : List Call → State → Except Halt State
  | [], s => .ok s
  | call :: calls, s => do
    let s ← runCall platform call s
    run platform calls s

/-- INTERNAL: a state to run from, its trace still empty. -/
def State.start (t : Table) (memInited : Bool) : State := ⟨t, memInited, []⟩

/-! ## The hardware's view -/

/-- INTERNAL: a word read as a 1 MB section descriptor. -/
def sectionTranslate (t : Table) (va : BitVec 32) : Option (BitVec 32) :=
  let descriptor := readWord t (sectionIndex va)
  if descriptor &&& 3 = 2 then some ((descriptor &&& 0xfff00000) ||| (va &&& 0xfffff))
  else none

end Simbench.Program.ArmSections
