import Simbench.Library.TranslationCaches
import Simbench.Program.X86BootCode

/-!
# The accesses of an x86-64 processor

Which accesses of a benchmark fault, decided by the tables at CR3 and by what the TLB has kept of
them, and where its stores go. `mem_mmu_enable`, `mem_mmu_disable` and `mem_tlb_flush` write CR3,
which empties the TLB: no entry of the kernel is global. `mem_tlb_evict` takes one page out. Between
two operations the processor may drop any entry, and load any that the tables in force have.

The kernel runs at the most privileged level with the write protection of CR0 on: an access faults
for want of a translation, and a store for a page that is not writable. What the TLB keeps of the
tables on the way to a page is left out.

`runTables` and `runTlb` leave out what the stores of a benchmark do to the memory; `runStores` has
it, on the memory that holds the tables and the interrupt table too.
-/

set_option autoImplicit false

namespace Simbench.Program.X86Tlb

open Simbench.Library.NarrowStores Simbench.Library.Outcomes Simbench.Library.PagedMemory
open Simbench.Library.TranslationCaches
open Simbench.Program.X86Boot (Image)
open Simbench.Program.X86BootCode (Access cpuWalk)
open Simbench.Program.X86Kernel (Machine Halt Env lapic)
open Simbench.Program.Benchmarks (Op Site Name executeAll)

/-- INTERNAL: the walk of the tables in force, those of CR3. -/
def walk (gigabytePages : Bool) (s : Machine) (va : BitVec 64) : Option Access :=
  cpuWalk gigabytePages s.pages.mem s.cr3 va

/-- INTERNAL: `CR0.WP` is set. SRC: arch/x86_64/boot.S:143-146 -/
def faults (write : Bool) : Option Access → Bool
  | none => true
  | some access => write && !access.writable

/-- INTERNAL: where an operation stores. `platform_trigger_swi` writes both halves of the LAPIC's
command register, and the handler of its interrupt the flag of the benchmark and the end of the
interrupt. SRC: platform/x86_64/qemu/platform.c:45-53; arch/x86_64/irq.c:71-91;
arch/x86_64/arch.c:80-83; benchmarks/exception/swi.c:20-24 -/
def storesTo (site : Site) : Op → List (BitVec 64)
  | .store ptr => [ptr]
  | .platformTriggerSwi => [lapic + 0x310, lapic + 0x300, site.symbol .swiFlag, lapic + 0xb0]
  | _ => []

/-- INTERNAL: what an operation finds, by the translations of its accesses. -/
def envOf (site : Site) (translate : BitVec 64 → Option Access) (decodes : Bool) (op : Op) :
    Env where
  faults ptr := faults (decide (ptr ∈ storesTo site op)) (translate ptr)
  decodes := decodes

/-- INTERNAL: an operation whose accesses translate so. -/
def exec (image : Image) (site : Site) (translate : BitVec 64 → Option Access) (decodes : Bool)
    (op : Op) : Machine → Except Halt Machine :=
  X86Kernel.exec image site (envOf site translate decodes op) op

/-- INTERNAL: the writes of CR3, and `invlpg`. `mem_init` ends in a flush, unless it has run before.
SRC: arch/x86_64/mem.c:46,51-60,69-100 -/
def maintains : Op → Machine → Maintenance (BitVec 64)
  | .memInit, s => if s.memInited then .keep else .flush
  | .memMmuEnable, _ | .memMmuDisable, _ | .memTlbFlush, _ => .flush
  | .memTlbEvict ptr, _ => .evict fun va => decide (va.toNat / 4096 = ptr.toNat / 4096)
  | _, _ => .keep

/-- INTERNAL: operations of a processor that walks the tables for every access. -/
def runTables (image : Image) (site : Site) (gigabytePages : Bool) (decodes : ℕ → Bool)
    (ops : List Op) : Machine → Except Halt Machine :=
  run (execTables (walk gigabytePages) (exec image site)) decodes 0 ops

/-- INTERNAL: operations of a processor with a TLB. -/
def runTlb (image : Image) (site : Site) (gigabytePages : Bool)
    (env : ℕ → Bool × Activity (BitVec 64)) (ops : List Op) :
    Core Machine (BitVec 64) Access → Except Halt (Core Machine (BitVec 64) Access) :=
  run (execCached (walk gigabytePages) (exec image site) maintains) env 0 ops

/-! ## Stores -/

/-- INTERNAL: a store through a translation; one that faults stores nothing. The objects of the
benchmarks are aligned, so a store lies in one word. -/
def storeThrough (word : BitVec 64) : Option Access → Memory → Memory
  | some access, mem =>
    if access.writable then Function.update mem (wordOf access.addr) word else mem
  | none, mem => mem

/-- INTERNAL: the memory behind the stores of an operation; what the words hold then is an input. -/
def stored (site : Site) (translate : BitVec 64 → Option Access) (words : BitVec 64 → BitVec 64)
    (op : Op) (mem : Memory) : Memory :=
  (storesTo site op).foldl (fun mem ptr => storeThrough (words ptr) (translate ptr) mem) mem

/-- INTERNAL: an operation with its stores, made through the translation in force. -/
def execStores (image : Image) (site : Site) (translate : BitVec 64 → Option Access)
    (input : Bool × (BitVec 64 → BitVec 64)) (op : Op) (s : Machine) : Except Halt Machine := do
  let s ← exec image site translate input.1 op s
  .ok { s with pages := { s.pages with mem := stored site translate input.2 op s.pages.mem } }

/-- INTERNAL: operations with their stores, of a processor with a TLB. -/
def runStores (image : Image) (site : Site) (gigabytePages : Bool)
    (env : ℕ → (Bool × (BitVec 64 → BitVec 64)) × Activity (BitVec 64)) (ops : List Op) :
    Core Machine (BitVec 64) Access → Except Halt (Core Machine (BitVec 64) Access) :=
  run (execCached (walk gigabytePages) (execStores image site) maintains) env 0 ops

end Simbench.Program.X86Tlb
