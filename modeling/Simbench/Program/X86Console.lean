import Mathlib.Logic.Function.Basic
import Simbench.Library.Loops
import Simbench.Program.Printf

/-!
# The x86-64 command line and console

`parse_cmdline` of `arch/x86_64/arch.c`, which says whether there is a framebuffer, and `console.c`,
the same file on both x86-64 platforms. The cursor of the command line and the bytes read are
offsets from `cmdline_ptr`; memory has a byte at every offset, those behind the terminator
included. Video memory is a function from offsets in cells; dereferencing a null slot is `none`.
-/

set_option autoImplicit false

namespace Simbench.Program.X86Console

open Simbench.Library.Loops
open Simbench.Program.Printf (Byte ch)

/-! ## The command line -/

/-- INTERNAL: `cmdline`, `use_framebuffer` and the offsets read, latest first.
SRC: arch/x86_64/arch.c:9,39 -/
structure Scan where
  cmdline : ℕ
  useFramebuffer : BitVec 32
  reads : List ℕ

/-- INTERNAL: at the start of the line; `use_framebuffer` is zero. -/
def Scan.start : Scan := ⟨0, 0, []⟩

/-- INTERNAL: the character under the pointer, `*cmdline`. -/
def Scan.peek (mem : ℕ → Byte) (s : Scan) : Byte × Scan :=
  (mem s.cmdline, { s with reads := s.cmdline :: s.reads })

/-- INTERNAL: that character, and the pointer behind it: `*cmdline++`. -/
def Scan.next (mem : ℕ → Byte) (s : Scan) : Byte × Scan :=
  (mem s.cmdline, { s with cmdline := s.cmdline + 1, reads := s.cmdline :: s.reads })

/-- INTERNAL: the test of the loop. SRC: arch/x86_64/arch.c:40 -/
def more (mem : ℕ → Byte) (s : Scan) : Bool × Scan :=
  let (c, s) := s.peek mem
  (c != 0, s)

/-- INTERNAL: the body of the loop, three nested `switch` statements.
SRC: arch/x86_64/arch.c:41-53 -/
def scanOption (mem : ℕ → Byte) (s : Scan) : Scan :=
  let (c, s) := s.next mem
  if c = ch 'f' then
    let (c, s) := s.next mem
    if c = ch 'b' then
      let (c, s) := s.next mem
      if c = ch ' ' ∨ c = 0 then { s with useFramebuffer := 1 } else s
    else s
  else s

/-- INTERNAL: `parse_cmdline`, for at most `fuel` rounds. SRC: arch/x86_64/arch.c:37-55 -/
def parseCmdline (mem : ℕ → Byte) (fuel : ℕ) : Option Scan :=
  whileLoop (more mem) (scanOption mem) fuel .start

/-- INTERNAL: a command line without its terminator. -/
structure CommandLine where
  bytes : List Byte
  noNul : ∀ c ∈ bytes, c ≠ 0

/-- INTERNAL: the line, its terminator, and anything behind it. -/
def CommandLine.memory (line : CommandLine) (rest : ℕ → Byte) (i : ℕ) : Byte :=
  (line.bytes ++ [0]).getD i (rest (i - (line.bytes.length + 1)))

/-- INTERNAL: the words of a line. -/
def CommandLine.words (line : CommandLine) : List (List Byte) := line.bytes.splitOn (ch ' ')

/-! ## The console -/

/-- INTERNAL: `ROWS`. SRC: platform/x86_64/native/console.c:3 -/
def rows : ℕ := 25

/-- INTERNAL: `COLUMNS`. SRC: platform/x86_64/native/console.c:4 -/
def columns : ℕ := 80

/-- INTERNAL: the cells from `vga` on and the cursor. SRC: platform/x86_64/native/console.c:6-7 -/
structure Console where
  vga : ℕ → BitVec 16
  curX : BitVec 32
  curY : BitVec 32

/-- INTERNAL: `slot_from_xy`; `none` is the null pointer.
SRC: platform/x86_64/native/console.c:9-15 -/
def slotFromXY (x y : BitVec 32) : Option ℕ :=
  if columns ≤ x.toNat then none
  else if rows ≤ y.toNat then none
  else some (x + y * BitVec.ofNat 32 columns).toNat

/-- INTERNAL: a cell of the screen is written: `*slot = val`. -/
def Console.store (s : Console) (slot : ℕ) (val : BitVec 16) : Console :=
  { s with vga := Function.update s.vga slot val }

/-- INTERNAL: a store changes one cell. -/
@[simp] theorem Console.store_vga (s : Console) (slot : ℕ) (val : BitVec 16) :
    (s.store slot val).vga = Function.update s.vga slot val := rfl

/-- INTERNAL: a store leaves the cursor's column alone. -/
@[simp] theorem Console.store_curX (s : Console) (slot : ℕ) (val : BitVec 16) :
    (s.store slot val).curX = s.curX := rfl

/-- INTERNAL: `console_clear`. SRC: platform/x86_64/native/console.c:31-41 -/
def consoleClear (s : Console) : Console :=
  let s := (List.range (rows * columns)).foldl (fun s i => s.store i 0) s
  { s with curX := 0, curY := 0 }

/-- INTERNAL: `*slot_from_xy(x, y) = *slot_from_xy(x, y + 1)`.
SRC: platform/x86_64/native/console.c:55 -/
def copySlot (y x : ℕ) (s : Console) : Option Console := do
  let dst ← slotFromXY (BitVec.ofNat 32 x) (BitVec.ofNat 32 y)
  let src ← slotFromXY (BitVec.ofNat 32 x) (BitVec.ofNat 32 y + 1)
  some (s.store dst (s.vga src))

/-- INTERNAL: `*slot_from_xy(x, ROWS - 1) = 0`. SRC: platform/x86_64/native/console.c:60 -/
def blankSlot (x : ℕ) (s : Console) : Option Console := do
  let slot ← slotFromXY (BitVec.ofNat 32 x) (BitVec.ofNat 32 (rows - 1))
  some (s.store slot 0)

/-- INTERNAL: `new_line`. SRC: platform/x86_64/native/console.c:43-63 -/
def newLine (s : Console) : Option Console := do
  let s := { s with curX := 0, curY := s.curY + 1 }
  if rows ≤ s.curY.toNat then
    let s := { s with curY := BitVec.ofNat 32 (rows - 1) }
    let s ← forRange (rows - 1) (fun y => forRange columns (copySlot y)) s
    forRange columns blankSlot s
  else some s

/-- INTERNAL: `0x0700 | ch`, stored in 16 bits; `char` is signed.
SRC: platform/x86_64/native/console.c:73 -/
def glyph (c : Byte) : BitVec 16 := (0x0700#32 ||| c.signExtend 32).setWidth 16

/-- INTERNAL: `console_putc`. SRC: platform/x86_64/native/console.c:65-80 -/
def consolePutc (c : Byte) (s : Console) : Option Console :=
  if c = ch '\n' then newLine s
  else if c = ch '\r' then some { s with curX := 0 }
  else do
    let slot ← slotFromXY s.curX s.curY
    let s := s.store slot (glyph c)
    let s := { s with curX := s.curX + 1 }
    if columns ≤ s.curX.toNat then newLine s else some s

/-- INTERNAL: characters one after the other. -/
def putAll (text : List Byte) (s : Console) : Option Console :=
  text.foldlM (fun s c => consolePutc c s) s

end Simbench.Program.X86Console
