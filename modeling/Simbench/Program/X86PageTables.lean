import Simbench.Library.TableWalk

/-!
# The x86-64 page-table routines

`arch/x86_64/heap.c` and the mapping half of `arch/x86_64/mem.c`. The statics `heap_cur`,
`heap_end` and `runtime_pagetables` are fields beside memory; a routine returns `none`
where `arch_abort` is reached. `int` results are left out: no mapping routine returns one.
-/

set_option autoImplicit false

namespace Simbench.Program.X86PageTables

open Simbench.Library.PagedMemory Simbench.Library.TableWalk

/-! ## `heap.c` -/

/-- INTERNAL: memory and the static variables. -/
structure Machine where
  mem : Memory
  heapCur : BitVec 64
  heapEnd : BitVec 64
  runtimePagetables : BitVec 64

/-- INTERNAL: `heap_init`. SRC: arch/x86_64/heap.c:10-15 -/
def heapInit (heapStart heapSize : BitVec 64) (mem : Memory) : Machine :=
  { mem := mem, heapCur := heapStart, heapEnd := heapStart + heapSize, runtimePagetables := 0 }

/-- INTERNAL: `__fast_zero_page`: `rep stosq` of 0x200 quadwords. SRC: arch/x86_64/util.S:1-7 -/
def fastZeroPage (page : BitVec 64) (mem : Memory) : Memory :=
  updateWords (fun _ => 0) page 0x200 mem

/-- INTERNAL: `heap_alloc_page`. SRC: arch/x86_64/heap.c:19-32 -/
def heapAllocPage (s : Machine) : Option (BitVec 64 × Machine) :=
  let page := s.heapCur
  if s.heapEnd ≤ s.heapCur then none
  else some (page, { s with heapCur := s.heapCur + 0x1000, mem := fastZeroPage page s.mem })

/-! ## `mem.c` -/

/-- INTERNAL: `PF_PRESENT`. SRC: arch/x86_64/mem.c:113 -/
def pfPresent : BitVec 64 := 1

/-- INTERNAL: `PF_WRITABLE`. SRC: arch/x86_64/mem.c:114 -/
def pfWritable : BitVec 64 := 2

/-- INTERNAL: `PF_USER`. SRC: arch/x86_64/mem.c:115 -/
def pfUser : BitVec 64 := 4

/-- INTERNAL: `set_base_address`. SRC: arch/x86_64/mem.c:117-120 -/
def setBaseAddress (pte baseAddr : BitVec 64) (mem : Memory) : Memory :=
  Function.update mem pte ((baseAddr &&& ~~~0xfff#64) ||| (mem pte &&& 0xfff#64))

/-- INTERNAL: `get_base_address`. SRC: arch/x86_64/mem.c:122-125 -/
def getBaseAddress (pte : BitVec 64) (mem : Memory) : BitVec 64 := mem pte &&& ~~~0xfff#64

/-- INTERNAL: `set_flags`. SRC: arch/x86_64/mem.c:127-130 -/
def setFlags (pte flags : BitVec 64) (mem : Memory) : Memory :=
  Function.update mem pte ((flags &&& 0xfff#64) ||| (mem pte &&& ~~~0xfff#64))

/-- INTERNAL: `get_flags`. SRC: arch/x86_64/mem.c:132-135 -/
def getFlags (pte : BitVec 64) (mem : Memory) : BitVec 64 := mem pte &&& 0xfff#64

/-- INTERNAL: `is_present`. SRC: arch/x86_64/mem.c:137-140 -/
def isPresent (pte : BitVec 64) (mem : Memory) : Bool := getFlags pte mem &&& pfPresent != 0

/-- INTERNAL: `table_indicies`, four `unsigned int`s. SRC: arch/x86_64/mem.c:107-109 -/
structure TableIndicies where
  pml : BitVec 32
  pdp : BitVec 32
  pd : BitVec 32
  pt : BitVec 32

/-- INTERNAL: one index: shifted, masked to nine bits, stored in an `unsigned int`. -/
def tableIndex (shift : ℕ) (virtAddr : BitVec 64) : BitVec 32 :=
  ((virtAddr >>> shift) &&& 0x1ff).setWidth 32

/-- INTERNAL: `calculate_indicies`. SRC: arch/x86_64/mem.c:142-152 -/
def calculateIndicies (virtAddr : BitVec 64) : TableIndicies :=
  { pt := tableIndex 12 virtAddr
    pd := tableIndex 21 virtAddr
    pdp := tableIndex 30 virtAddr
    pml := tableIndex 39 virtAddr }

/-- INTERNAL: the block `__create_page_mapping` has for each interior level: an entry that is
not present gets a table, unless it has an address, and its flags.
SRC: arch/x86_64/mem.c:162-168,171-177,180-186 -/
def populate (pte : BitVec 64) (s : Machine) : Option Machine :=
  if isPresent pte s.mem then some s
  else do
    let s ← if getBaseAddress pte s.mem = 0 then do
        let (page, s) ← heapAllocPage s
        some { s with mem := setBaseAddress pte page s.mem }
      else some s
    some { s with mem := setFlags pte (pfPresent ||| pfWritable ||| pfUser) s.mem }

/-- INTERNAL: `__create_page_mapping`. SRC: arch/x86_64/mem.c:155-191 -/
def createPageMapping (pml4 physAddr virtAddr : BitVec 64) (s : Machine) : Option Machine := do
  let idx := calculateIndicies virtAddr
  let pml := wordAddr pml4 idx.pml
  let s ← populate pml s
  let pdp := wordAddr (getBaseAddress pml s.mem) idx.pdp
  let s ← populate pdp s
  let pd := wordAddr (getBaseAddress pdp s.mem) idx.pd
  let s ← populate pd s
  let pt := wordAddr (getBaseAddress pd s.mem) idx.pt
  let mem := setBaseAddress pt physAddr s.mem
  some { s with mem := setFlags pt (pfPresent ||| pfWritable ||| pfUser) mem }

/-- INTERNAL: `mem_create_page_mapping_data`. SRC: arch/x86_64/mem.c:193-196 -/
def memCreatePageMappingData (physAddr virtAddr : BitVec 64) (s : Machine) : Option Machine :=
  createPageMapping s.runtimePagetables physAddr virtAddr s

/-- INTERNAL: `mem_create_page_mapping_code`. SRC: arch/x86_64/mem.c:198-201 -/
def memCreatePageMappingCode (physAddr virtAddr : BitVec 64) (s : Machine) : Option Machine :=
  createPageMapping s.runtimePagetables physAddr virtAddr s

/-- INTERNAL: how `mem_init` sets up the root. SRC: arch/x86_64/mem.c:58 -/
def allocRuntimePagetables (s : Machine) : Option Machine := do
  let (page, s) ← heapAllocPage s
  some { s with runtimePagetables := page }

/-! ## Runs -/

/-- INTERNAL: one call of the interface. -/
inductive Call
  | data (physAddr virtAddr : BitVec 64)
  | code (physAddr virtAddr : BitVec 64)
  deriving DecidableEq, Repr

/-- INTERNAL: the address a call maps to. -/
def Call.physAddr : Call → BitVec 64
  | .data pa _ => pa
  | .code pa _ => pa

/-- INTERNAL: the address a call maps. -/
def Call.virtAddr : Call → BitVec 64
  | .data _ va => va
  | .code _ va => va

/-- INTERNAL: the machine after one call; `none` when it aborts. -/
def step (s : Machine) : Call → Option Machine
  | .data pa va => memCreatePageMappingData pa va s
  | .code pa va => memCreatePageMappingCode pa va s

/-- INTERNAL: the machine after a sequence of calls. -/
def run (s : Machine) (calls : List Call) : Option Machine :=
  calls.foldlM step s

/-! ## The hardware walk -/

/-- INTERNAL: what a walk yields: the page frame and the other bits of the entry. -/
structure Translation where
  frame : BitVec 64
  flags : BitVec 64
  deriving DecidableEq, Repr

/-- INTERNAL: the address field of an entry, bits 51:12. -/
def frameMask : BitVec 64 := 0xffffffffff000

/-- INTERNAL: the table a walk follows: only from a present entry. -/
def followTable (entry : BitVec 64) : Option (BitVec 64) :=
  if entry &&& 1 = 1 then some (entry &&& frameMask) else none

/-- INTERNAL: what a last-level entry yields. -/
def leafTranslation (entry : BitVec 64) : Option Translation :=
  if entry &&& 1 = 1 then some ⟨entry &&& frameMask, entry &&& ~~~frameMask⟩ else none

/-- INTERNAL: the four-level walk of the tables at `runtime_pagetables`. -/
def walk (s : Machine) (va : BitVec 64) : Option Translation :=
  fourLevelWalk followTable leafTranslation s.mem s.runtimePagetables va

/-! ## The walk of a store -/

/-- INTERNAL: the table the walk of a store follows: from an entry that is present and writable. -/
def followWritable (entry : BitVec 64) : Option (BitVec 64) :=
  if entry &&& (pfPresent ||| pfWritable) = pfPresent ||| pfWritable then some (entry &&& frameMask)
  else none

/-- INTERNAL: the physical address a store to `va` goes to, when the tables at `cr3` let it. -/
def storeAddress (mem : Memory) (cr3 va : BitVec 64) : Option (BitVec 64) :=
  (fourLevelWalk followWritable leafTranslation mem cr3 va).bind fun t =>
    if t.flags &&& pfWritable = 0 then none else some (t.frame ||| (va &&& 0xfff))

end Simbench.Program.X86PageTables
