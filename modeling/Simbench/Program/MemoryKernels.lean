import Simbench.Library.Loops
import Mathlib.Logic.Function.Basic

/-!
# Memory at any pointer width

The file `util/memcpy.c`, over a byte memory whose addresses are as wide as `size_t`, `w` bits;
`memmove` copies through an array of its own, as long as the copy, and where the stack has it is a
parameter. Then the kernels of `memory-cold.c`, `tlb-flush.c` and `tlb-evict.c`, and the
`kernel_mmu_init` they run behind. The number of iterations is a parameter. A function of a
benchmark is the list of the calls it makes and of its accesses through pointers; the spinner is
left out.
-/

set_option autoImplicit false

namespace Simbench.Program.MemoryKernels

open Simbench.Library.Loops

variable {w : ℕ}

/-! ## `memcpy` and `memmove` -/

/-- INTERNAL: memory by bytes, with addresses of `w` bits. -/
abbrev Memory (w : ℕ) : Type := BitVec w → BitVec 8

/-- INTERNAL: the variables of `memcpy` and the memory. -/
structure Copying (w : ℕ) where
  d : BitVec w
  s : BitVec w
  n : BitVec w
  mem : Memory w

/-- INTERNAL: `n--`, as the condition of the loop. -/
def Copying.more (c : Copying w) : Bool × Copying w := (c.n ≠ 0, { c with n := c.n - 1 })

/-- INTERNAL: a round of the copying loop: `*d++ = *s++`. -/
def Copying.byte (c : Copying w) : Copying w :=
  { c with d := c.d + 1, s := c.s + 1, mem := Function.update c.mem c.d (c.mem c.s) }

/-- INTERNAL: `memcpy`, for at most `fuel` tests of its condition: what it returns and the memory
it leaves. SRC: util/memcpy.c:3-13 -/
def memcpy (fuel : ℕ) (dest src n : BitVec w) (mem : Memory w) : Option (BitVec w × Memory w) := do
  let c ← whileLoop Copying.more Copying.byte fuel ⟨dest, src, n, mem⟩
  some (dest, c.mem)

/-- INTERNAL: `memmove`; it has no return statement. SRC: util/memcpy.c:15-20 -/
def memmove (fuel : ℕ) (temp dest src n : BitVec w) (mem : Memory w) : Option (Memory w) := do
  let (_, mem) ← memcpy fuel temp src n mem
  let (_, mem) ← memcpy fuel dest temp n mem
  some mem

/-! ## The port -/

/-- INTERNAL: what the port decides: `mem_get_phys_info` and `mem_get_page_size`. -/
structure Port (w : ℕ) where
  physMemStart : BitVec w
  physMemEnd : BitVec w
  pageSize : BitVec w
  deriving DecidableEq, Repr

/-- INTERNAL: what the kernels do: a call of `mem.h`, a load or a store. -/
inductive Op (w : ℕ)
  | memInit
  | memMmuEnable
  | memTlbFlush
  | memTlbEvict (ptr : BitVec w)
  | memCreatePageMappingData (physAddr virtAddr : BitVec w)
  | load (ptr : BitVec w)
  | store (ptr : BitVec w)
  deriving DecidableEq, Repr

/-- INTERNAL: the address an access dereferences. -/
def Op.dereferenced : Op w → Option (BitVec w)
  | .load ptr | .store ptr => some ptr
  | _ => none

/-! ## Mapping the region -/

/-- INTERNAL: the pointers of the mapping loops and the calls they have made. `memory-cold.c` has
one pointer for both. -/
structure Mapping (w : ℕ) where
  ptr : BitVec w
  vptr : BitVec w
  ops : List (Op w)
  deriving DecidableEq, Repr

/-- INTERNAL: the condition of the mapping loop: `ptr < phys_mem_end`. -/
def Mapping.more (port : Port w) (m : Mapping w) : Bool × Mapping w := (m.ptr < port.physMemEnd, m)

/-- INTERNAL: a round of the mapping loop. SRC: benchmarks/memory/tlb-flush.c:27-31 -/
def Mapping.page (pageSize : BitVec w) (m : Mapping w) : Mapping w where
  ptr := m.ptr + pageSize
  vptr := m.vptr + pageSize
  ops := m.ops ++ [.memCreatePageMappingData m.ptr m.vptr]

/-- INTERNAL: the `while` loops, for at most `fuel` tests.
SRC: benchmarks/memory/memory-cold.c:61-64; tlb-flush.c:19-31; tlb-evict.c:17-28 -/
def mapPhysMem (fuel : ℕ) (port : Port w) (pageSize : BitVec w) : Option (Mapping w) :=
  whileLoop (Mapping.more port) (Mapping.page pageSize) fuel
    ⟨port.physMemStart, port.physMemStart, []⟩

/-- INTERNAL: what `kernel_mmu_init` does around the loop. -/
def mmuOn (maps : List (Op w)) : List (Op w) := .memInit :: (maps ++ [.memMmuEnable, .memTlbFlush])

/-- INTERNAL: `kernel_mmu_init` of `memory-cold.c`; its `page_size` has 32 bits.
SRC: benchmarks/memory/memory-cold.c:53-68 -/
def memoryColdKernelMmuInit (fuel : ℕ) (port : Port w) : Option (List (Op w)) := do
  let m ← mapPhysMem fuel port ((port.pageSize.setWidth 32).setWidth w)
  some (mmuOn m.ops)

/-- INTERNAL: the statics of the TLB benchmarks. SRC: benchmarks/memory/tlb-flush.c:10;
benchmarks/memory/tlb-evict.c:8 -/
structure Statics (w : ℕ) where
  virtStart : BitVec w
  virtEnd : BitVec w
  deriving DecidableEq, Repr

/-- INTERNAL: the initialisation of the TLB benchmarks. SRC: benchmarks/memory/tlb-flush.c:12-37 -/
def tlbKernelMmuInit (fuel : ℕ) (port : Port w) : Option (Statics w × List (Op w)) := do
  let m ← mapPhysMem fuel port port.pageSize
  some (⟨port.physMemStart, m.vptr⟩, mmuOn m.ops)

/-- INTERNAL: `kernel_mmu_init` of TLB-Flush. SRC: benchmarks/memory/tlb-flush.c:12-37 -/
def tlbFlushKernelMmuInit (fuel : ℕ) (port : Port w) : Option (Statics w × List (Op w)) :=
  tlbKernelMmuInit fuel port

/-- INTERNAL: `kernel_mmu_init` of TLB-Evict. SRC: benchmarks/memory/tlb-evict.c:10-34 -/
def tlbEvictKernelMmuInit (fuel : ℕ) (port : Port w) : Option (Statics w × List (Op w)) :=
  tlbKernelMmuInit fuel port

/-! ## The kernels -/

/-- INTERNAL: the values of `ptr` in the loops of the kernels: `ptr += step`, and back to `first`
from `last` on. -/
def sweep (first last step : BitVec w) : (iterations : ℕ) → (ptr : BitVec w) → List (BitVec w)
  | 0, _ => []
  | iterations + 1, ptr =>
    let next := ptr + step
    ptr :: sweep first last step iterations (if last ≤ next then first else next)

/-- INTERNAL: `kernel` of Memory-Cold. SRC: benchmarks/memory/memory-cold.c:7-27 -/
def memoryColdKernel (port : Port w) (iterations : ℕ) : List (Op w) :=
  (sweep port.physMemStart port.physMemEnd ((4096#32).setWidth w) iterations port.physMemStart).map
    .load

/-- INTERNAL: `kernel_mmu` of TLB-Flush. SRC: benchmarks/memory/tlb-flush.c:38-57 -/
def tlbFlushKernelMmu (port : Port w) (statics : Statics w) (iterations : ℕ) : List (Op w) :=
  (sweep statics.virtStart statics.virtEnd port.pageSize iterations statics.virtStart).flatMap
    fun ptr => [.store ptr, .memTlbFlush]

/-- INTERNAL: `kernel_mmu` of TLB-Evict. SRC: benchmarks/memory/tlb-evict.c:35-54 -/
def tlbEvictKernelMmu (port : Port w) (statics : Statics w) (iterations : ℕ) : List (Op w) :=
  (sweep statics.virtStart statics.virtEnd port.pageSize iterations statics.virtStart).flatMap
    fun ptr => [.store ptr, .memTlbEvict ptr]

end Simbench.Program.MemoryKernels
