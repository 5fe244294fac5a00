import Simbench.Program.X86PageTables

/-!
# The x86-64 image and its boot code

The image the linker scripts lay out, and what `arch/x86_64/boot.S` leaves behind before it
calls `arch_start`: the stack pointer and the initial page tables. Both platforms have the
same linker script. The initial page tables map the first GiB, so the image with its heap and
stack has to lie there; what `mem_init` does depends on the symbols only, which may be any others.
-/

set_option autoImplicit false

namespace Simbench.Program.X86Boot

open Simbench.Library.PagedMemory Simbench.Program.X86PageTables

/-! ## The image -/

/-- INTERNAL: `_TEXT_START`. SRC: platform/x86_64/native/sys.ld:3-5;
platform/x86_64/qemu/sys.ld:3-5 -/
def textStart : BitVec 64 := 0x100000

/-- INTERNAL: `_HEAP_SIZE`. SRC: platform/x86_64/native/sys.ld:51; platform/x86_64/qemu/sys.ld:51 -/
def heapSize : BitVec 64 := 0x40000

/-- INTERNAL: the symbols of an image: `_TEXT_END`, `_DATA_START`, `_DATA_END` and
`_HEAP_START`. SRC: platform/x86_64/native/sys.ld:12-50; platform/x86_64/qemu/sys.ld:12-50 -/
structure Image where
  textEnd : BitVec 64
  dataStart : BitVec 64
  dataEnd : BitVec 64
  heapStart : BitVec 64
  text_le : textStart.toNat ≤ textEnd.toNat
  data_le : textEnd.toNat ≤ dataStart.toNat
  data_lt : dataStart.toNat < dataEnd.toNat
  dataAligned : dataStart.toNat % 4096 = 0
  heap_le : dataEnd.toNat ≤ heapStart.toNat
  heap_lt : heapStart.toNat < dataEnd.toNat + 4096
  heapAligned : heapStart.toNat % 4096 = 0
  bounded : heapStart.toNat + heapSize.toNat ≤ 2 ^ 30

/-- INTERNAL: an image of three pages. -/
def smallImage : Image where
  textEnd := 0x100800
  dataStart := 0x101000
  dataEnd := 0x102800
  heapStart := 0x103000
  text_le := by decide
  data_le := by decide
  data_lt := by decide
  dataAligned := by decide
  heap_le := by decide
  heap_lt := by decide
  heapAligned := by decide
  bounded := by decide

/-! ## Linker symbols -/

/-- INTERNAL: the symbols the kernel reads; the starts and the heap size are whole pages, and a
number of pages is an `int`. SRC: arch/x86_64/mem.c:12-17 -/
structure Layout where
  textStart : BitVec 64
  textEnd : BitVec 64
  dataStart : BitVec 64
  dataEnd : BitVec 64
  heapStart : BitVec 64
  heapSize : BitVec 64
  textAligned : textStart.toNat % 4096 = 0
  dataAligned : dataStart.toNat % 4096 = 0
  heapAligned : heapStart.toNat % 4096 = 0
  sizeAligned : heapSize.toNat % 4096 = 0
  text_le : textStart.toNat ≤ textEnd.toNat
  data_le : dataStart.toNat ≤ dataEnd.toNat
  textBounded : textEnd.toNat ≤ 2 ^ 47
  dataBounded : dataEnd.toNat ≤ 2 ^ 47
  heapBounded : heapStart.toNat + heapSize.toNat ≤ 2 ^ 47
  textPages : (textEnd.toNat - textStart.toNat) / 4096 + 1 < 2 ^ 31
  dataPages : (dataEnd.toNat - dataStart.toNat) / 4096 + 1 < 2 ^ 31
  heapPages : heapSize.toNat / 4096 < 2 ^ 31

/-- INTERNAL: the byte ranges the kernel runs on: the framebuffer page, text, data, the heap with
the stack and the page tables, and the LAPIC page. SRC: arch/x86_64/mem.c:29-47 -/
def Layout.regions (layout : Layout) : List (ℕ × ℕ) :=
  [(0xb8000, 0xb9000), (layout.textStart.toNat, layout.textEnd.toNat),
    (layout.dataStart.toNat, layout.dataEnd.toNat),
    (layout.heapStart.toNat, layout.heapStart.toNat + layout.heapSize.toNat),
    (0xfee00000, 0xfee01000)]

/-- INTERNAL: a byte of one of the ranges. -/
def Layout.Covers (layout : Layout) (va : BitVec 64) : Prop :=
  ∃ region ∈ layout.regions, region.1 ≤ va.toNat ∧ va.toNat < region.2

/-- INTERNAL: all of the image lies in the first GiB. -/
theorem Image.bounds (image : Image) :
    image.textEnd.toNat < 2 ^ 30 ∧ image.dataEnd.toNat < 2 ^ 30 ∧
      image.heapStart.toNat + heapSize.toNat ≤ 2 ^ 30 := by
  have hsize : heapSize.toNat = 0x40000 := rfl
  have hbounded := image.bounded
  have htext := image.data_le
  have hdata := image.data_lt
  have hheap := image.heap_le
  omega

/-- INTERNAL: an image is a layout. SRC: platform/x86_64/native/sys.ld:3-51 -/
def ofImage (image : Image) : Layout where
  textStart := X86Boot.textStart
  textEnd := image.textEnd
  dataStart := image.dataStart
  dataEnd := image.dataEnd
  heapStart := image.heapStart
  heapSize := X86Boot.heapSize
  textAligned := by decide
  dataAligned := image.dataAligned
  heapAligned := image.heapAligned
  sizeAligned := by decide
  text_le := image.text_le
  data_le := Nat.le_of_lt image.data_lt
  textBounded := by have h := image.bounds; omega
  dataBounded := by have h := image.bounds; omega
  heapBounded := by have h := image.bounds; omega
  textPages := by have h := image.bounds; omega
  dataPages := by have h := image.bounds; omega
  heapPages := by decide

/-- INTERNAL: an image is used where a layout is asked for. -/
instance : Coe Image Layout := ⟨ofImage⟩

/-! ## The boot stack -/

/-- INTERNAL: `lea _HEAP_START, %ebp; lea _HEAP_SIZE(%ebp), %ebp; movl %ebp, %esp`.
SRC: arch/x86_64/boot.S:30-32 -/
def start32Esp (image : Image) : BitVec 32 :=
  let ebp := image.heapStart.setWidth 32
  ebp + heapSize.setWidth 32

/-- INTERNAL: the top of the stack in 64-bit mode. -/
def stackTop (image : Image) : BitVec 64 := (start32Esp image).setWidth 64

/-- INTERNAL: a run of `heap_alloc_page`: the pages returned, in order; `none` when one of
the calls reaches the out-of-memory abort. SRC: arch/x86_64/heap.c:19-32 -/
def allocPages : ℕ → Machine → Option (List (BitVec 64) × Machine)
  | 0, s => some ([], s)
  | n + 1, s => do
    let (page, s) ← heapAllocPage s
    let (pages, s) ← allocPages n s
    some (page :: pages, s)

/-! ## The initial page tables -/

/-- INTERNAL: `INIT_PGT`. SRC: arch/x86_64/boot.S:6 -/
def initPgt : BitVec 64 := 0x8000

/-- INTERNAL: the loop that maps 512 pages of 2 MiB. SRC: arch/x86_64/boot.S:220-230 -/
def mapHugePages : ℕ → Memory → Memory
  | 0, mem => mem
  | n + 1, mem =>
    Function.update (mapHugePages n mem) (wordAddr (initPgt + 0x2000) (BitVec.ofNat 32 n))
      (0x83 + 0x200000 * BitVec.ofNat 64 n)

/-- INTERNAL: `build_pagetables`; `gigabytePages` is the answer of `cpuid`.
SRC: arch/x86_64/boot.S:160-232 -/
def buildPagetables (gigabytePages : Bool) (mem : Memory) : Memory :=
  let mem := updateWords (fun _ => 0) initPgt 0x200 mem
  let mem := Function.update mem initPgt ((initPgt + 0x1000) ||| 3)
  let mem := updateWords (fun _ => 0) (initPgt + 0x1000) 0x200 mem
  if gigabytePages then Function.update mem (initPgt + 0x1000) 0x83
  else
    let mem := Function.update mem (initPgt + 0x1000) ((initPgt + 0x2000) ||| 3)
    mapHugePages 0x200 (updateWords (fun _ => 0) (initPgt + 0x2000) 0x200 mem)

end Simbench.Program.X86Boot
