import Simbench.Library.TableWalk

/-!
# The ARMv8 translation-table routines

`arch/armv8/heap.c` and `arch/armv8/txln_table.c`. Memory is the machine's 64-bit
memory; the statics `heap_ptr` and `l0_table` are fields beside it. Every routine
returns `none` where `arch_abort` is reached, which never returns.
-/

set_option autoImplicit false

namespace Simbench.Program.Armv8Tables

open Simbench.Library.PagedMemory Simbench.Library.TableWalk

/-! ## `heap.c` -/

/-- INTERNAL: the heap the linker script lays out: `_HEAP_START`, `_HEAP_END`.
SRC: platform/armv8/virt/sys.ld:73-76 -/
structure HeapLayout where
  heapStart : BitVec 64
  heapEnd : BitVec 64
  aligned : heapStart.toNat % 4096 = 0
  nonzero : 0 < heapStart.toNat
  ordered : heapStart.toNat ≤ heapEnd.toNat
  bounded : heapEnd.toNat ≤ 2 ^ 48

/-- INTERNAL: a heap of fifteen pages. -/
def smallHeap : HeapLayout where
  heapStart := 0x1000
  heapEnd := 0x10000
  aligned := by decide
  nonzero := by decide
  ordered := by decide
  bounded := by decide

/-- INTERNAL: memory and the two static pointers. -/
structure Machine where
  mem : Memory
  l0Table : BitVec 64
  heapPtr : BitVec 64

/-- INTERNAL: a store of 64 bits to an aligned address. -/
def Machine.store (s : Machine) (a w : BitVec 64) : Machine :=
  { s with mem := Function.update s.mem a w }

/-- INTERNAL: `armv8_heap_init`, with `l0_table` still the null pointer of `.bss`.
SRC: arch/armv8/heap.c:11-13 -/
def armv8HeapInit (L : HeapLayout) (mem : Memory) : Machine :=
  { mem := mem, l0Table := 0, heapPtr := L.heapStart }

/-- INTERNAL: `armv8_heap_get_page`; the page is not cleared.
SRC: arch/armv8/heap.c:15-25 -/
def armv8HeapGetPage (L : HeapLayout) (s : Machine) : Option (BitVec 64 × Machine) :=
  let pagePtr := s.heapPtr
  let s := { s with heapPtr := s.heapPtr + 4096 }
  if L.heapEnd < s.heapPtr then none else some (pagePtr, s)

/-! ## `txln_table.c` -/

/-- INTERNAL: `VA_BITS`. SRC: arch/armv8/txln_table.h:7 -/
def vaBits : ℕ := 48

/-- INTERNAL: `TXLT_T0SZ`. SRC: arch/armv8/txln_table.c:11 -/
def txltT0sz : ℕ := 64 - vaBits

/-- INTERNAL: `TXLT_L0_X`. SRC: arch/armv8/txln_table.c:13 -/
def txltL0X : ℕ := 28 - txltT0sz

/-- INTERNAL: `TXLT_L0_Y`. SRC: arch/armv8/txln_table.c:14 -/
def txltL0Y : ℕ := txltL0X + 35

/-- INTERNAL: `TXLT_L0_ENTRIES`. SRC: arch/armv8/txln_table.c:15 -/
def txltL0Entries : ℕ := 1 <<< (txltL0Y - 38)

/-- INTERNAL: `TXLT_L1_X`. SRC: arch/armv8/txln_table.c:17 -/
def txltL1X : ℕ := 12

/-- INTERNAL: `TXLT_L1_Y`. SRC: arch/armv8/txln_table.c:18 -/
def txltL1Y : ℕ := txltL1X + 26

/-- INTERNAL: `TXLT_L1_ENTRIES`. SRC: arch/armv8/txln_table.c:19 -/
def txltL1Entries : ℕ := 1 <<< (txltL1Y - 29)

/-- INTERNAL: `TXLT_L2_X`. SRC: arch/armv8/txln_table.c:21 -/
def txltL2X : ℕ := 12

/-- INTERNAL: `TXLT_L2_Y`. SRC: arch/armv8/txln_table.c:22 -/
def txltL2Y : ℕ := txltL2X + 17

/-- INTERNAL: `TXLT_L2_ENTRIES`. SRC: arch/armv8/txln_table.c:23 -/
def txltL2Entries : ℕ := 1 <<< (txltL2Y - 20)

/-- INTERNAL: `TXLT_L3_Y`. SRC: arch/armv8/txln_table.c:25 -/
def txltL3Y : ℕ := 20

/-- INTERNAL: `TXLT_L3_ENTRIES`. SRC: arch/armv8/txln_table.c:26 -/
def txltL3Entries : ℕ := 1 <<< (txltL3Y - 11)

/-- INTERNAL: `PRIVS_DATA`. SRC: arch/armv8/txln_table.h:9 -/
def privsData : BitVec 8 := 1

/-- INTERNAL: `PRIVS_CODE`. SRC: arch/armv8/txln_table.h:10 -/
def privsCode : BitVec 8 := 3

/-- INTERNAL: bits 47:12 of a descriptor. -/
def addressMask : BitVec 64 := 0xfffffffff000

/-- INTERNAL: `get_txln_table` and `get_l0_table`, which have one body.
SRC: arch/armv8/txln_table.c:62-70 -/
def getL0Table (L : HeapLayout) (s : Machine) : Option (BitVec 64 × Machine) :=
  if s.l0Table = 0 then do
    let (page, s) ← armv8HeapGetPage L s
    some (page, { s with l0Table := page })
  else some (s.l0Table, s)

/-- INTERNAL: `get_txln_table`. SRC: arch/armv8/txln_table.c:62-65 -/
def getTxlnTable (L : HeapLayout) (s : Machine) : Option (BitVec 64 × Machine) :=
  getL0Table L s

/-- INTERNAL: the loop of the four `clear_lN_table` routines: `entries[i].data &= ~0x3ULL`. -/
def clearTable (entries : ℕ) (table : BitVec 64) (s : Machine) : Machine :=
  { s with mem := updateWords (fun data => data &&& ~~~3#64) table entries s.mem }

/-- INTERNAL: `clear_l0_table`. SRC: arch/armv8/txln_table.c:72-76 -/
def clearL0Table : BitVec 64 → Machine → Machine := clearTable txltL0Entries

/-- INTERNAL: `clear_l1_table`. SRC: arch/armv8/txln_table.c:82-86 -/
def clearL1Table : BitVec 64 → Machine → Machine := clearTable txltL1Entries

/-- INTERNAL: `clear_l2_table`. SRC: arch/armv8/txln_table.c:88-92 -/
def clearL2Table : BitVec 64 → Machine → Machine := clearTable txltL2Entries

/-- INTERNAL: `clear_l3_table`. SRC: arch/armv8/txln_table.c:94-98 -/
def clearL3Table : BitVec 64 → Machine → Machine := clearTable txltL3Entries

/-- INTERNAL: `clear_txln_table`. SRC: arch/armv8/txln_table.c:78-80 -/
def clearTxlnTable (L : HeapLayout) (s : Machine) : Option Machine := do
  let (table, s) ← getL0Table L s
  some (clearL0Table table s)

/-- INTERNAL: the `idx` computation: the shifted address truncated to `uint32_t` and masked. -/
def tableIndex (shift entries : ℕ) (virtAddr : BitVec 64) : BitVec 32 :=
  (virtAddr >>> shift).setWidth 32 &&& BitVec.ofNat 32 (entries - 1)

/-- INTERNAL: the `table_page` of an invalid descriptor: the table it named before it was
cleared, which it still remembers, or a new page. -/
def tablePage (L : HeapLayout) (descriptor : BitVec 64) (s : Machine) :
    Option (BitVec 64 × Machine) :=
  let tablePage := descriptor &&& addressMask
  if tablePage = 0 then armv8HeapGetPage L s else some (tablePage, s)

/-- INTERNAL: the body the three `get_lN_descriptor` routines share; they differ in the
shift, the size of the table and the routine that clears the next level. -/
def getDescriptor (L : HeapLayout) (shift entries : ℕ)
    (clearNext : BitVec 64 → Machine → Machine) (table virtAddr : BitVec 64) (s : Machine) :
    Option (BitVec 64 × Machine) :=
  let idx := tableIndex shift entries virtAddr
  let descriptor := s.mem (wordAddr table idx)
  if descriptor &&& 3 = 0 then do
    let (tablePage, s) ← tablePage L descriptor s
    let s := clearNext tablePage s
    let descriptor := tablePage ||| 3
    some (descriptor, s.store (wordAddr table idx) descriptor)
  else some (descriptor, s)

/-- INTERNAL: `get_l0_descriptor`. SRC: arch/armv8/txln_table.c:100-117 -/
def getL0Descriptor (L : HeapLayout) : BitVec 64 → BitVec 64 → Machine →
    Option (BitVec 64 × Machine) := getDescriptor L 39 txltL0Entries clearL1Table

/-- INTERNAL: `get_l1_descriptor`. SRC: arch/armv8/txln_table.c:126-143 -/
def getL1Descriptor (L : HeapLayout) : BitVec 64 → BitVec 64 → Machine →
    Option (BitVec 64 × Machine) := getDescriptor L 30 txltL1Entries clearL2Table

/-- INTERNAL: `get_l2_descriptor`. SRC: arch/armv8/txln_table.c:152-169 -/
def getL2Descriptor (L : HeapLayout) : BitVec 64 → BitVec 64 → Machine →
    Option (BitVec 64 × Machine) := getDescriptor L 21 txltL2Entries clearL3Table

/-- INTERNAL: the table a descriptor routine's result names. -/
def tableOf (getLevel : BitVec 64 → BitVec 64 → Machine → Option (BitVec 64 × Machine))
    (table virtAddr : BitVec 64) (s : Machine) : Option (BitVec 64 × Machine) := do
  let (descriptor, s) ← getLevel table virtAddr s
  some (descriptor &&& addressMask, s)

/-- INTERNAL: `get_l1_table`. SRC: arch/armv8/txln_table.c:119-124 -/
def getL1Table (L : HeapLayout) : BitVec 64 → BitVec 64 → Machine →
    Option (BitVec 64 × Machine) := tableOf (getL0Descriptor L)

/-- INTERNAL: `get_l2_table`. SRC: arch/armv8/txln_table.c:145-150 -/
def getL2Table (L : HeapLayout) : BitVec 64 → BitVec 64 → Machine →
    Option (BitVec 64 × Machine) := tableOf (getL1Descriptor L)

/-- INTERNAL: `get_l3_table`. SRC: arch/armv8/txln_table.c:171-176 -/
def getL3Table (L : HeapLayout) : BitVec 64 → BitVec 64 → Machine →
    Option (BitVec 64 × Machine) := tableOf (getL2Descriptor L)

/-- INTERNAL: `get_l3_descriptor`, the address of the entry.
SRC: arch/armv8/txln_table.c:178-182 -/
def getL3Descriptor (table virtAddr : BitVec 64) : BitVec 64 :=
  wordAddr table (tableIndex 12 txltL3Entries virtAddr)

/-- INTERNAL: `insert_mapping`; AP[2:1] from `privs`, MAIR index 0, access flag.
SRC: arch/armv8/txln_table.c:184-193 -/
def insertMapping (l3Table virtAddr physAddr : BitVec 64) (privs : BitVec 8) (s : Machine) :
    Machine :=
  let descriptor := getL3Descriptor l3Table virtAddr
  let data := (physAddr &&& ~~~0xfff#64) ||| 3
  let data := data ||| (privs.setWidth 64 <<< 6)
  let data := data ||| (1 <<< 10)
  s.store descriptor data

/-- INTERNAL: `insert_mapping_device`; AP[2:1] = 1, MAIR index 1, access flag.
SRC: arch/armv8/txln_table.c:195-204 -/
def insertMappingDevice (l3Table virtAddr physAddr : BitVec 64) (s : Machine) : Machine :=
  let descriptor := getL3Descriptor l3Table virtAddr
  let data := (physAddr &&& ~~~0xfff#64) ||| 3
  let data := data ||| (1 <<< 6)
  let data := data ||| (1 <<< 2)
  let data := data ||| (1 <<< 10)
  s.store descriptor data

/-- INTERNAL: the four table lookups every mapping routine makes before it inserts. -/
def getL3TableOf (L : HeapLayout) (virtAddr : BitVec 64) (s : Machine) :
    Option (BitVec 64 × Machine) := do
  let (l0Table, s) ← getL0Table L s
  let (l1Table, s) ← getL1Table L l0Table virtAddr s
  let (l2Table, s) ← getL2Table L l1Table virtAddr s
  getL3Table L l2Table virtAddr s

/-- INTERNAL: `mem_create_page_mapping_data`. SRC: arch/armv8/txln_table.c:206-218 -/
def memCreatePageMappingData (L : HeapLayout) (physAddr virtAddr : BitVec 64) (s : Machine) :
    Option (Int × Machine) := do
  let (l3Table, s) ← getL3TableOf L virtAddr s
  some (0, insertMapping l3Table virtAddr physAddr privsData s)

/-- INTERNAL: `mem_create_page_mapping_code`. SRC: arch/armv8/txln_table.c:220-232 -/
def memCreatePageMappingCode (L : HeapLayout) (physAddr virtAddr : BitVec 64) (s : Machine) :
    Option (Int × Machine) := do
  let (l3Table, s) ← getL3TableOf L virtAddr s
  some (0, insertMapping l3Table virtAddr physAddr privsCode s)

/-- INTERNAL: `mem_create_page_mapping_device`. SRC: arch/armv8/txln_table.c:234-246 -/
def memCreatePageMappingDevice (L : HeapLayout) (physAddr virtAddr : BitVec 64)
    (s : Machine) : Option (Int × Machine) := do
  let (l3Table, s) ← getL3TableOf L virtAddr s
  some (0, insertMappingDevice l3Table virtAddr physAddr s)

/-! ## Runs -/

/-- INTERNAL: the three kinds of mapping. -/
inductive Kind
  | code
  | data
  | device
  deriving DecidableEq, Repr

/-- INTERNAL: one call of the interface of `txln_table.c`. -/
inductive Call
  | getTxlnTable
  | clearTxlnTable
  | createPageMapping (kind : Kind) (physAddr virtAddr : BitVec 64)
  deriving DecidableEq, Repr

/-- INTERNAL: the mapping routine of a kind. -/
def memCreatePageMapping (L : HeapLayout) : Kind → BitVec 64 → BitVec 64 → Machine →
    Option (Int × Machine)
  | .code => memCreatePageMappingCode L
  | .data => memCreatePageMappingData L
  | .device => memCreatePageMappingDevice L

/-- INTERNAL: the machine after one call; `none` when it aborts. -/
def step (L : HeapLayout) (s : Machine) : Call → Option Machine
  | .getTxlnTable => (Armv8Tables.getTxlnTable L s).map Prod.snd
  | .clearTxlnTable => Armv8Tables.clearTxlnTable L s
  | .createPageMapping kind pa va => (memCreatePageMapping L kind pa va s).map Prod.snd

/-- INTERNAL: the machine after a sequence of calls. -/
def run (L : HeapLayout) (s : Machine) (calls : List Call) : Option Machine :=
  calls.foldlM (step L) s

/-- INTERNAL: the next-level tables of a mapping call for `virtAddr`, as far as it gets: what
`get_l1_table`, `get_l2_table` and `get_l3_table` return, each with the machine it leaves.
SRC: arch/armv8/txln_table.c:210-213 -/
def tablesUsed (L : HeapLayout) (virtAddr : BitVec 64) (s : Machine) :
    List (BitVec 64 × Machine) :=
  match getL0Table L s with
  | none => []
  | some (l0Table, s) =>
    match getL1Table L l0Table virtAddr s with
    | none => []
    | some (l1Table, s) => (l1Table, s) ::
      match getL2Table L l1Table virtAddr s with
      | none => []
      | some (l2Table, s) => (l2Table, s) :: (getL3Table L l2Table virtAddr s).toList

/-! ## The hardware walk -/

/-- INTERNAL: what a walk yields: the output page and the other bits of the descriptor. -/
structure Translation where
  page : BitVec 64
  attributes : BitVec 64
  deriving DecidableEq, Repr

/-- INTERNAL: the table a walk follows: only from a descriptor whose low two bits are 3. -/
def followTable (descriptor : BitVec 64) : Option (BitVec 64) :=
  if descriptor &&& 3 = 3 then some (descriptor &&& addressMask) else none

/-- INTERNAL: what a last-level descriptor yields. -/
def leafTranslation (descriptor : BitVec 64) : Option Translation :=
  if descriptor &&& 3 = 3 then
    some ⟨descriptor &&& addressMask, descriptor &&& ~~~addressMask⟩
  else none

/-- INTERNAL: the four-level walk of the table at `l0_table`; no table, no translation. -/
def walk (s : Machine) (va : BitVec 64) : Option Translation :=
  if s.l0Table = 0 then none
  else fourLevelWalk followTable leafTranslation s.mem s.l0Table va

end Simbench.Program.Armv8Tables
