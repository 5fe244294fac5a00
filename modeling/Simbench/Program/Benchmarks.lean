import Simbench.Program.MemoryKernels

/-!
# The benchmarks

`benchmarks/`, and the order `harness_execute` calls their kernels in. A kernel is the list
of what it asks of the layers below it: the calls of `arch.h`, `mem.h` and `platform.h`, and
its accesses through pointers and to volatile variables. What a kernel computes in between
and what it prints are left out; loops are unrolled. Addresses are those of a 64-bit build.
-/

set_option autoImplicit false

namespace Simbench.Program.Benchmarks

open Simbench.Program.MemoryKernels (sweep)

/-! ## Operations -/

/-- INTERNAL: what a benchmark asks for. `platformTriggerSwi` includes the wait for the
handler's flag. SRC: include/arch.h, include/mem.h, include/platform.h -/
inductive Op
  | memInit
  | memReset
  | memMmuEnable
  | memMmuDisable
  | memTlbFlush
  | memTlbEvict (ptr : BitVec 64)
  | memCreatePageMappingData (physAddr virtAddr : BitVec 64)
  | archDfaultInstallSkip
  | archIfaultInstallReturn
  | archUndefInstallSkip
  | archSyscallInstallSkip
  | archIrqInstallHandler
  | archIrqEnable
  | archIrqDisable
  | archSyscall
  | archUndefinedInstruction
  | archCoprocessorAccess
  | archNonpriviligedRead (ptr : BitVec 64)
  | archCodeFlush (address : BitVec 64)
  | archPrivEnter
  | archPrivLeave
  | platformTriggerSwi
  | load (ptr : BitVec 64)
  | store (ptr : BitVec 64)
  | jump (ptr : BitVec 64)
  deriving DecidableEq, Repr

/-- INTERNAL: `benchmark_t` without its texts and count; a null `kernel_init` or
`kernel_cleanup` is an empty list. SRC: include/benchmark.h:55-64 -/
structure Benchmark where
  kernelInit : List Op
  kernel : List Op
  kernelCleanup : List Op
  kernelControl : Option (List Op)
  kernelPriv : Bool
  deriving DecidableEq, Repr

/-- INTERNAL: the volatile variables and functions of the benchmarks that they access. -/
inductive Symbol
  | swiFlag
  | memoryHotValue
  | memoryNonprivValue
  | fnTable
  | block
  | value1
  | value2
  | value3
  deriving DecidableEq, Repr

/-- INTERNAL: what the platform and the linker decide: `mem_get_phys_info`,
`mem_get_page_size`, `platform_get_null_devptr`, the symbols, the functions in `fn_table` and
whether the build is `SIMBENCH_FAST`. -/
structure Site where
  physMemStart : BitVec 64
  physMemEnd : BitVec 64
  pageSize : BitVec 64
  nullDevptr : BitVec 64
  symbol : Symbol → BitVec 64
  fnHeads : List (BitVec 64)
  fast : Bool

/-! ## Iterations -/

/-- INTERNAL: `BENCHMARK_ITERATIONS` times a benchmark's own factor.
SRC: include/benchmark.h:9-51 -/
def Site.iterations (site : Site) (factor : ℕ) : ℕ := if site.fast then 1 * 5 else 1000 * factor

/-- INTERNAL: the loop of a kernel. -/
def loop (iterations : ℕ) (body : List Op) : List Op := (List.replicate iterations body).flatten

/-- INTERNAL: the pages of the physical memory region, as the `while` loops over it meet them;
`rounds` are enough unless the address wraps around. -/
def regionPages (regionEnd pageSize : BitVec 64) : (rounds : ℕ) → (ptr : BitVec 64) →
    List (BitVec 64)
  | 0, _ => []
  | rounds + 1, ptr =>
    if ptr < regionEnd then ptr :: regionPages regionEnd pageSize rounds (ptr + pageSize) else []

/-- INTERNAL: the pages of the region `mem_get_phys_info` names, in the order the benchmarks map
them. -/
def physPages (site : Site) : List (BitVec 64) :=
  regionPages site.physMemEnd site.pageSize
    ((site.physMemEnd.toNat - site.physMemStart.toNat) / site.pageSize.toNat + 1)
    site.physMemStart

/-- INTERNAL: the identity mapping of the physical memory region.
SRC: benchmarks/memory/memory-cold.c:57-64; tlb-evict.c:15-28; tlb-flush.c:17-31 -/
def mapPhysMem (site : Site) : List Op :=
  (physPages site).map fun ptr => .memCreatePageMappingData ptr ptr

/-! ## `exception/` -/

/-- INTERNAL: how most benchmarks turn address translation on. -/
def mmuOn : List Op := [.memInit, .memMmuEnable, .memTlbFlush]

/-- INTERNAL: the cleanup that the benchmarks with address translation share. -/
def mmuOff : List Op := [.memMmuDisable, .memTlbFlush, .memReset]

/-- INTERNAL: the address the fault benchmarks use. SRC: benchmarks/exception/dfault.c:7;
ifault.c:6 -/
def faultPtr : BitVec 64 := 0xc0000000

/-- INTERNAL: Data-Fault: accesses to an address that is not mapped, each skipped by its handler.
SRC: benchmarks/exception/dfault.c:11-45 -/
def dfault (site : Site) : Benchmark where
  kernelInit := mmuOn ++ [.archDfaultInstallSkip]
  kernel := loop (site.iterations 25000) [.load faultPtr]
  kernelCleanup := mmuOff
  kernelControl := none
  kernelPriv := false

/-- INTERNAL: Instruction-Fault: jumps to such an address, each returned from by its handler.
SRC: benchmarks/exception/ifault.c:10-44 -/
def ifault (site : Site) : Benchmark where
  kernelInit := mmuOn ++ [.archIfaultInstallReturn]
  kernel := loop (site.iterations 25000) [.jump faultPtr]
  kernelCleanup := mmuOff
  kernelControl := none
  kernelPriv := false

/-- INTERNAL: Interrupt: software interrupts of the platform, each waited for and cleared.
SRC: benchmarks/exception/swi.c:10-58 -/
def interrupt (site : Site) : Benchmark where
  kernelInit := mmuOn ++ [.archIrqInstallHandler, .archIrqEnable]
  kernel := loop (site.iterations 20000) [.store (site.symbol .swiFlag), .platformTriggerSwi]
  kernelCleanup := .archIrqDisable :: mmuOff
  kernelControl := none
  kernelPriv := false

/-- INTERNAL: Syscall: system calls, each skipped by its handler.
SRC: benchmarks/exception/syscall.c:9-44 -/
def syscall (site : Site) : Benchmark where
  kernelInit := mmuOn ++ [.archSyscallInstallSkip]
  kernel := loop (site.iterations 50000) [.archSyscall]
  kernelCleanup := mmuOff
  kernelControl := none
  kernelPriv := false

/-- INTERNAL: Undef-Instruction: undefined instructions, each skipped by its handler.
SRC: benchmarks/exception/undef.c:10-44 -/
def undef (site : Site) : Benchmark where
  kernelInit := mmuOn ++ [.archUndefInstallSkip]
  kernel := loop (site.iterations 50000) [.archUndefinedInstruction]
  kernelCleanup := mmuOff
  kernelControl := none
  kernelPriv := false

/-! ## `codegen/` and `dispatch/` -/

/-- INTERNAL: Small-Blocks: a chain of small functions, each then written with its own first byte
and flushed. SRC: benchmarks/codegen/small-blocks.c:24-95 -/
def smallBlocks (site : Site) : Benchmark where
  kernelInit := (List.range site.fnHeads.length).flatMap fun i =>
    [.load (site.symbol .fnTable + BitVec.ofNat 64 (8 * i)),
      .store (site.symbol .fnTable + BitVec.ofNat 64 (8 * i))]
  kernel := loop (site.iterations 100)
    (site.fnHeads.flatMap fun fnHead => [.load fnHead, .store fnHead, .archCodeFlush fnHead])
  kernelCleanup := []
  kernelControl := some (loop (site.iterations 100)
    (site.fnHeads.flatMap fun fnHead => [.load fnHead, .archCodeFlush fnHead]))
  kernelPriv := false

/-- INTERNAL: the volatile accesses of `block`. SRC: benchmarks/codegen/large-blocks.c:10-76 -/
def block (site : Site) : List Op :=
  [.load (site.symbol .value1), .load (site.symbol .value2), .load (site.symbol .value2),
    .store (site.symbol .value1), .store (site.symbol .value2), .store (site.symbol .value3)]

/-- INTERNAL: Large-Blocks: the same with one large function.
SRC: benchmarks/codegen/large-blocks.c:78-116 -/
def largeBlocks (site : Site) : Benchmark where
  kernelInit := []
  kernel := loop (site.iterations 500) (block site ++ [.load (site.symbol .block),
    .store (site.symbol .block), .archCodeFlush (site.symbol .block)])
  kernelCleanup := []
  kernelControl := some (loop (site.iterations 500) (block site ++ [.load (site.symbol .block),
    .archCodeFlush (site.symbol .block)]))
  kernelPriv := false

/-- INTERNAL: the dispatch benchmarks only call functions of the program.
SRC: benchmarks/dispatch/same-page-direct.c, same-page-indirect.c, inter-page-direct.c,
inter-page-indirect.c -/
def dispatch : Benchmark where
  kernelInit := []
  kernel := []
  kernelCleanup := []
  kernelControl := none
  kernelPriv := false

/-! ## `memory/` -/

/-- INTERNAL: the loads of Memory-Cold, 4096 bytes apart.
SRC: benchmarks/memory/memory-cold.c:7-27 -/
def memoryColdKernel (site : Site) : List Op :=
  (sweep site.physMemStart site.physMemEnd 4096 (site.iterations 50000) site.physMemStart).map .load

/-- INTERNAL: the control kernels of the memory benchmarks make no accesses.
SRC: benchmarks/memory/memory-cold.c:29-51,76-82 -/
def memoryColdNommu (site : Site) : Benchmark where
  kernelInit := []
  kernel := memoryColdKernel site
  kernelCleanup := []
  kernelControl := some []
  kernelPriv := false

/-- INTERNAL: Memory-Cold-MMU: these loads with address translation.
SRC: benchmarks/memory/memory-cold.c:53-74,84-92 -/
def memoryColdMmu (site : Site) : Benchmark where
  kernelInit := .memInit :: (mapPhysMem site ++ [.memMmuEnable, .memTlbFlush])
  kernel := memoryColdKernel site
  kernelCleanup := mmuOff
  kernelControl := some []
  kernelPriv := false

/-- INTERNAL: ten times `value = value`. SRC: benchmarks/memory/memory-hot.c:9-29 -/
def memoryHotKernel (site : Site) : List Op :=
  loop (site.iterations 500000)
    (loop 10 [.load (site.symbol .memoryHotValue), .store (site.symbol .memoryHotValue)])

/-- INTERNAL: Memory-Hot-NoMMU: a word loaded and stored over and over.
SRC: benchmarks/memory/memory-hot.c:58-64 -/
def memoryHotNommu (site : Site) : Benchmark where
  kernelInit := []
  kernel := memoryHotKernel site
  kernelCleanup := []
  kernelControl := some []
  kernelPriv := false

/-- INTERNAL: Memory-Hot-MMU: the same with address translation.
SRC: benchmarks/memory/memory-hot.c:45-56,66-74 -/
def memoryHotMmu (site : Site) : Benchmark where
  kernelInit := mmuOn
  kernel := memoryHotKernel site
  kernelCleanup := mmuOff
  kernelControl := some []
  kernelPriv := false

/-- INTERNAL: Memory-NonPriv: unprivileged loads of one word from privileged mode.
SRC: benchmarks/memory/memory-nonpriv.c:9-45 -/
def memoryNonpriv (site : Site) : Benchmark where
  kernelInit := [.memInit, .memCreatePageMappingData (site.symbol .memoryNonprivValue)
    (site.symbol .memoryNonprivValue), .memMmuEnable, .memTlbFlush]
  kernel := loop (site.iterations 300000)
    [.archNonpriviligedRead (site.symbol .memoryNonprivValue)]
  kernelCleanup := mmuOff
  kernelControl := none
  kernelPriv := true

/-- INTERNAL: `virt_end`: where the mapping loop stops. -/
def virtEnd (site : Site) : BitVec 64 :=
  site.physMemStart + site.pageSize * BitVec.ofNat 64 (physPages site).length

/-- INTERNAL: the addresses the kernels of the TLB benchmarks write to.
SRC: benchmarks/memory/tlb-evict.c:35-54; tlb-flush.c:38-57 -/
def tlbSweep (site : Site) : List (BitVec 64) :=
  sweep site.physMemStart (virtEnd site) site.pageSize (site.iterations 4000) site.physMemStart

/-- INTERNAL: TLB-Evict: a store to each page, its translation evicted behind it.
SRC: benchmarks/memory/tlb-evict.c:10-69 -/
def tlbEvict (site : Site) : Benchmark where
  kernelInit := .memInit :: (mapPhysMem site ++ [.memMmuEnable, .memTlbFlush])
  kernel := (tlbSweep site).flatMap fun ptr => [.store ptr, .memTlbEvict ptr]
  kernelCleanup := mmuOff
  kernelControl := none
  kernelPriv := false

/-- INTERNAL: TLB-Flush: a store to each page, the whole TLB flushed behind it.
SRC: benchmarks/memory/tlb-flush.c:12-72 -/
def tlbFlush (site : Site) : Benchmark where
  kernelInit := .memInit :: (mapPhysMem site ++ [.memMmuEnable, .memTlbFlush])
  kernel := (tlbSweep site).flatMap fun ptr => [.store ptr, .memTlbFlush]
  kernelCleanup := mmuOff
  kernelControl := none
  kernelPriv := false

/-! ## `io/` -/

/-- INTERNAL: Device-Access: stores to a device's register.
SRC: benchmarks/io/device-access.c:9-28 -/
def deviceAccess (site : Site) : Benchmark where
  kernelInit := []
  kernel := loop (site.iterations 400000) [.store site.nullDevptr]
  kernelCleanup := []
  kernelControl := none
  kernelPriv := false

/-- INTERNAL: Coprocessor: accesses to a coprocessor. SRC: benchmarks/io/coprocessor.c:10-27 -/
def coprocessorAccess (site : Site) : Benchmark where
  kernelInit := []
  kernel := loop (site.iterations 250000) [.archCoprocessorAccess]
  kernelCleanup := []
  kernelControl := none
  kernelPriv := false

/-! ## The image and the harness -/

/-- INTERNAL: the names in `DEFINE_BENCHMARK`. SRC: benchmarks/Makefile:3-37 -/
inductive Name
  | undef
  | interrupt
  | syscall
  | dfault
  | ifault
  | smallBlocks
  | largeBlocks
  | intraPageIndirect
  | interPageIndirect
  | intraPageDirect
  | interPageDirect
  | tlbFlush
  | tlbEvict
  | memoryHotNommu
  | memoryHotMmu
  | memoryColdNommu
  | memoryColdMmu
  | memoryNonpriv
  | deviceAccess
  | coprocessorAccess
  deriving DecidableEq, Repr

/-- INTERNAL: the benchmark of that name. -/
def Name.benchmark (site : Site) : Name → Benchmark
  | .undef => Benchmarks.undef site
  | .interrupt => Benchmarks.interrupt site
  | .syscall => Benchmarks.syscall site
  | .dfault => Benchmarks.dfault site
  | .ifault => Benchmarks.ifault site
  | .smallBlocks => Benchmarks.smallBlocks site
  | .largeBlocks => Benchmarks.largeBlocks site
  | .intraPageIndirect | .interPageIndirect | .intraPageDirect | .interPageDirect => dispatch
  | .tlbFlush => Benchmarks.tlbFlush site
  | .tlbEvict => Benchmarks.tlbEvict site
  | .memoryHotNommu => Benchmarks.memoryHotNommu site
  | .memoryHotMmu => Benchmarks.memoryHotMmu site
  | .memoryColdNommu => Benchmarks.memoryColdNommu site
  | .memoryColdMmu => Benchmarks.memoryColdMmu site
  | .memoryNonpriv => Benchmarks.memoryNonpriv site
  | .deviceAccess => Benchmarks.deviceAccess site
  | .coprocessorAccess => Benchmarks.coprocessorAccess site

/-- INTERNAL: `arch_priv_enter` or `arch_priv_leave` if the benchmark asks for it. -/
def Benchmark.priv (bm : Benchmark) (op : Op) : List Op := if bm.kernelPriv then [op] else []

/-- INTERNAL: what `harness_execute` does before the kernel runs.
SRC: harness/harness.c:15-35 -/
def Benchmark.prologue (bm : Benchmark) : List Op :=
  bm.kernelInit ++
    (match bm.kernelControl with
      | none => []
      | some control => bm.priv .archPrivEnter ++ control ++ bm.priv .archPrivLeave) ++
    bm.priv .archPrivEnter

/-- INTERNAL: what it does behind the kernel. SRC: harness/harness.c:38-47 -/
def Benchmark.epilogue (bm : Benchmark) : List Op :=
  bm.priv .archPrivLeave ++ bm.kernelCleanup ++ bm.priv .archPrivLeave

/-- INTERNAL: `harness_execute`. SRC: harness/harness.c:11-47 -/
def Benchmark.execute (bm : Benchmark) : List Op := bm.prologue ++ bm.kernel ++ bm.epilogue

/-- INTERNAL: benchmarks executed one after the other. -/
def executeAll (site : Site) (names : List Name) : List Op :=
  names.flatMap fun name => (name.benchmark site).execute

end Simbench.Program.Benchmarks
