import Simbench.Library.NarrowStores
import Simbench.Library.Loops
import Simbench.Program.X86Kernel

/-!
# The boot tables, as code and as the processor reads them

`build_pagetables` store by store, in the 32-bit registers of the boot code, and the walk of a
processor that knows large pages. The stack and the messages of `DEBUG_BOOT` are left out: neither
is stored in a table.
-/

set_option autoImplicit false

namespace Simbench.Program.X86BootCode

open Simbench.Library.PagedMemory Simbench.Library.NarrowStores Simbench.Library.Loops
open Simbench.Library.TableWalk (walkIndex)
open Simbench.Program.X86PageTables (frameMask heapInit)
open Simbench.Program.X86Boot (Image heapSize)
open Simbench.Program.X86Kernel (Machine Halt booted earlyMemInit)

/-! ## `build_pagetables` -/

/-- INTERNAL: a store to a 32-bit address. -/
def mov {n : ℕ} (a : BitVec 32) (v : BitVec n) (mem : Memory) : Memory :=
  storePart (a.setWidth 64) v mem

/-- INTERNAL: the registers and the memory of the loop. -/
structure LoopState where
  eax : BitVec 32
  ecx : BitVec 32
  mem : Memory

/-- INTERNAL: one round up to its test. SRC: arch/x86_64/boot.S:225-228 -/
def mapNext (ebx : BitVec 32) (s : LoopState) : LoopState :=
  { eax := s.eax + 0x200000
    ecx := s.ecx + 1
    mem := mov (ebx + 8 * s.ecx + 0x2000) s.eax s.mem }

/-- INTERNAL: `cmp $0x200, %ecx; jne 1b`, the loop's only way round.
SRC: arch/x86_64/boot.S:229-230 -/
def mapRound (ebx : BitVec 32) (s : LoopState) : Bool × LoopState :=
  let s := mapNext ebx s
  (s.ecx != 0x200, s)

/-- INTERNAL: the path without pages of 1 GiB. SRC: arch/x86_64/boot.S:203-232 -/
def pt2mb (fuel : ℕ) (ebx : BitVec 32) (mem : Memory) : Option Memory := do
  let edx := (ebx + 0x2000) ||| 3
  let mem := mov (ebx + 0x1000) edx mem
  let mem := repStosl 0 0x400 (ebx + 0x2000) mem
  let s ← whileLoop (mapRound ebx) id fuel ⟨0x83, 0, mem⟩
  some s.mem

/-- INTERNAL: `andl $(1<<26), %edx`, the answer of `cpuid`. SRC: arch/x86_64/boot.S:181-190 -/
def reportsGigabytePages (edx : BitVec 32) : Bool := edx &&& 1 <<< 26 != 0

/-- INTERNAL: `build_pagetables`; `edx` is the answer of `cpuid` to 0x80000001.
SRC: arch/x86_64/boot.S:160-201 -/
def buildPagetables (fuel : ℕ) (edx edi : BitVec 32) (mem : Memory) : Option Memory :=
  let ebx := edi
  let mem := repStosl 0 0x400 ebx mem
  let mem := mov ebx ((ebx + 0x1000) ||| 3) mem
  let mem := repStosl 0 0x400 (ebx + 0x1000) mem
  if reportsGigabytePages edx then some (mov (ebx + 0x1000) (0x83 : BitVec 8) mem)
  else pt2mb fuel ebx mem

/-- INTERNAL: `INIT_PGT` as the code passes it. SRC: arch/x86_64/boot.S:6,120-123 -/
def initPgt : BitVec 32 := 0x8000

/-! ## The processor's walk -/

/-- INTERNAL: what an address may be used for, and where it leads. -/
structure Access where
  addr : BitVec 64
  writable : Bool
  user : Bool
  deriving DecidableEq, Repr

/-- INTERNAL: an entry is present: bit 0. -/
def present (entry : BitVec 64) : Bool := entry.getLsbD 0

/-- INTERNAL: its page may be written: bit 1. -/
def writable (entry : BitVec 64) : Bool := entry.getLsbD 1

/-- INTERNAL: its page may be used in user mode: bit 2. -/
def user (entry : BitVec 64) : Bool := entry.getLsbD 2

/-- INTERNAL: it maps a large page: bit 7. -/
def large (entry : BitVec 64) : Bool := entry.getLsbD 7

/-- INTERNAL: the address bits of an entry that a page of `2 ^ shift` bytes must leave zero. -/
def reserved (shift : ℕ) (entry : BitVec 64) : ℕ := entry.toNat / 2 ^ 13 % 2 ^ (shift - 13)

/-- INTERNAL: bits 51 and below of the entry down to the page size, the others of the address. -/
def pageAddress (shift : ℕ) (entry va : BitVec 64) : BitVec 64 :=
  BitVec.ofNat 64 (entry.toNat % 2 ^ 52 / 2 ^ shift * 2 ^ shift + va.toNat % 2 ^ shift)

/-- INTERNAL: the last entry of a walk; every entry on the way has to allow an access. -/
def finish (shift : ℕ) (path : List (BitVec 64)) (entry va : BitVec 64) : Option Access :=
  if present entry = true ∧ reserved shift entry = 0 then
    some ⟨pageAddress shift entry va, (entry :: path).all writable, (entry :: path).all user⟩
  else none

/-- INTERNAL: the table an entry names. -/
def table (entry : BitVec 64) : Option (BitVec 64) :=
  if present entry then some (entry &&& frameMask) else none

/-- INTERNAL: the four-level walk with pages of 2 MiB, and of 1 GiB where the processor has them;
a large entry elsewhere has a reserved bit set. -/
def cpuWalk (gigabytePages : Bool) (mem : Memory) (cr3 va : BitVec 64) : Option Access := do
  let pml := mem (wordAddr (cr3 &&& frameMask) (walkIndex 39 va))
  if large pml then none
  else
    let pdps ← table pml
    let pdp := mem (wordAddr pdps (walkIndex 30 va))
    if large pdp then (if gigabytePages then finish 30 [pml] pdp va else none)
    else
      let pds ← table pdp
      let pd := mem (wordAddr pds (walkIndex 21 va))
      if large pd then finish 21 [pml, pdp] pd va
      else
        let pts ← table pd
        let pt := mem (wordAddr pts (walkIndex 12 va))
        finish 12 [pml, pdp, pd] pt va

/-! ## The boot -/

/-- INTERNAL: how an address translates behind `build_pagetables`; `none` when that does not
return. SRC: arch/x86_64/boot.S:120-123 -/
def translateAtBoot (fuel : ℕ) (edx : BitVec 32) (mem : Memory) (va : BitVec 64) :
    Option (Option Access) := do
  let tables ← buildPagetables fuel edx initPgt mem
  some (cpuWalk (reportsGigabytePages edx) tables (initPgt.setWidth 64) va)

/-- INTERNAL: how an address translates behind `heap_init` and `early_mem_init`.
SRC: arch/x86_64/arch.c:12-17 -/
def translateAtStart (image : Image) (fuel : ℕ) (edx : BitVec 32) (mem : Memory)
    (va : BitVec 64) : Option (Except Halt (Option Access)) := do
  let tables ← buildPagetables fuel edx initPgt mem
  let s := { booted (reportsGigabytePages edx) mem with
    pages := heapInit image.heapStart heapSize tables }
  some do
    let s ← earlyMemInit s
    .ok (cpuWalk (reportsGigabytePages edx) s.pages.mem s.cr3 va)

end Simbench.Program.X86BootCode
