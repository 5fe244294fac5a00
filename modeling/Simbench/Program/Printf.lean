import Mathlib.Algebra.Group.Int.Defs
import Simbench.Library.LoggedBuffer

/-!
# The formatted printer

`util/printf.c`. Format strings and `%s` arguments are lists of
bytes that hold their terminating NUL; reading behind the list, or fetching an argument
that is not there, is `none`. `buffer` is the offset of the source's moving pointer.
The `int`s that stay between 0 and `size` are natural numbers; field widths wrap.
-/

set_option autoImplicit false

namespace Simbench.Program.Printf

open Simbench.Library.LoggedBuffer

/-- INTERNAL: a `char`: eight bits. -/
abbrev Byte := BitVec 8

/-- INTERNAL: a character constant of the source, as its byte. -/
def ch (c : Char) : Byte := BitVec.ofNat 8 c.toNat

/-- INTERNAL: a string literal without its NUL. -/
def str (s : String) : List Byte := s.toList.map ch

/-- INTERNAL: the build: whether `__ARM` is defined, and whether `unsigned long` has 64 bits.
SRC: arch/arm/Make.config:7; arch/armv8/Make.config:7 -/
structure Build where
  arm : Bool
  long64 : Bool
  deriving DecidableEq, Repr

/-- INTERNAL: one value a caller passes behind the format. -/
inductive Arg
  | int (v : BitVec 32)
  | long (v : BitVec 64)
  | str (text : List Byte)
  deriving DecidableEq, Repr

/-- INTERNAL: the memory behind the buffer pointer, every byte stored logged. -/
abbrev TextBuffer := Buffer Byte

/-- INTERNAL: a 32-bit `int` that wraps around. -/
def wrap (x : Int) : Int := x.bmod (2 ^ 32)

/-! ## Helpers -/

/-- INTERNAL: the loop of `prepend_to_buffer`: `buffer[i] = buffer[i - 1]` from `i = size`
down to 1. -/
def shiftRight (buffer : ℕ) : ℕ → TextBuffer → TextBuffer
  | 0, b => b
  | i + 1, b => shiftRight buffer i (b.store (buffer + i + 1) (b.data (buffer + i)))

/-- INTERNAL: `prepend_to_buffer`. SRC: util/printf.c:27-35 -/
def prependToBuffer (c : Byte) (buffer size : ℕ) (b : TextBuffer) : TextBuffer :=
  (shiftRight buffer size b).store buffer c

/-- INTERNAL: the `int` of a quotient, stored back in the 64-bit value.
SRC: util/printf.c:55,58,72 -/
def narrow (v : BitVec 64) : BitVec 64 := (v.setWidth 32).signExtend 64

/-- INTERNAL: the character of a digit value. SRC: util/printf.c:62-70 -/
def digitChar (d : ℕ) : Byte :=
  if d ≤ 9 then BitVec.ofNat 8 ('0'.toNat + d) else BitVec.ofNat 8 ('a'.toNat + d - 10)

/-- INTERNAL: the digit loop of `append_num`, with `room` for `size - n`. An `__ARM` build
returns 0 from `append_num` unless the base is 16: `error` with the buffer as it is.
SRC: util/printf.c:51-73 -/
def digitLoop (build : Build) (buffer base : ℕ) :
    (room n : ℕ) → (value : BitVec 64) → TextBuffer → Except TextBuffer (ℕ × TextBuffer)
  | 0, n, _, b => .ok (n, b)
  | room + 1, n, value, b =>
    if value = 0 then .ok (n, b)
    else if build.arm then
      if base ≠ 16 then .error b
      else digitLoop build buffer base room (n + 1) (narrow (value >>> 4))
        (prependToBuffer (digitChar (value &&& 0xf).toNat) buffer n b)
    else digitLoop build buffer base room (n + 1) (narrow (value / BitVec.ofNat 64 base))
      (prependToBuffer (digitChar (value % BitVec.ofNat 64 base).toNat) buffer n b)

/-- INTERNAL: the padding loop of `append_num`. SRC: util/printf.c:81-84 -/
def padLoop (buffer : ℕ) (padChar : Byte) : (room n : ℕ) → (pad : Int) → TextBuffer → ℕ × TextBuffer
  | 0, n, _, b => (n, b)
  | room + 1, n, pad, b =>
    if 0 < pad then
      padLoop buffer padChar room (n + 1) (pad - 1) (prependToBuffer padChar buffer n b)
    else (n, b)

/-- INTERNAL: the sign of `append_num`: the value left, the characters written.
SRC: util/printf.c:45-48 -/
def appendSign (buffer : ℕ) (value : BitVec 64) (sgn : Bool) (b : TextBuffer) :
    ℕ × BitVec 64 × TextBuffer :=
  if sgn && value.slt 0 then (1, -value, prependToBuffer (ch '-') buffer 0 b) else (0, value, b)

/-- INTERNAL: `append_num`. SRC: util/printf.c:37-86 -/
def appendNum (build : Build) (buffer size : ℕ) (value : BitVec 64) (base : ℕ) (sgn : Bool)
    (pad : Int) (padChar : Byte) (b : TextBuffer) : ℕ × TextBuffer :=
  let pad := if (size : Int) ≤ pad then (size : Int) - 1 else pad
  let (n, value, b) := appendSign buffer value sgn b
  let digits := if value ≠ 0 then digitLoop build buffer base (size - n) n value b
    else if n < size then
      .ok (n + 1, (prependToBuffer (ch '0') buffer n b).store buffer (ch '0'))
    else .ok (n, b)
  match digits with
  | .error b => (0, b)
  | .ok (n, b) => padLoop buffer padChar (size - n) n (wrap (pad - n)) b

/-- INTERNAL: the padding loop of `append_str`. SRC: util/printf.c:101-104 -/
def padStr (padChar : Byte) (pad : Int) :
    (room buffer n : ℕ) → TextBuffer → ℕ × TextBuffer
  | 0, _, n, b => (n, b)
  | room + 1, buffer, n, b =>
    if (n : Int) < pad then padStr padChar pad room (buffer + 1) (n + 1) (b.store buffer padChar)
    else (n, b)

/-- INTERNAL: `append_str`, from the character `n`. SRC: util/printf.c:88-107 -/
def appendStr (size : ℕ) (pad : Int) (padChar : Byte) :
    (text : List Byte) → (buffer n : ℕ) → TextBuffer → Option (ℕ × TextBuffer)
  | [], _, _, _ => none
  | c :: text, buffer, n, b =>
    if c ≠ 0 ∧ n < size then appendStr size pad padChar text (buffer + 1) (n + 1) (b.store buffer c)
    else some (padStr padChar pad (size - n) buffer n b)

/-! ## `vsnprintf` -/

/-- INTERNAL: the labels of the format switch. SRC: util/printf.c:131-218 -/
inductive SwitchCase
  | nul
  | zero
  | digit (d : ℕ)
  | d
  | u
  | b
  | x
  | p
  | l
  | s
  | c
  | other
  deriving DecidableEq, Repr

/-- INTERNAL: the label a character takes. SRC: util/printf.c:131-218 -/
def switchCase (c : Byte) : SwitchCase :=
  if c = 0 then .nul
  else if c = ch '0' then .zero
  else if ch '1' ≤ c ∧ c ≤ ch '9' then .digit (c.toNat - '0'.toNat)
  else if c = ch 'd' then .d
  else if c = ch 'u' then .u
  else if c = ch 'b' then .b
  else if c = ch 'x' then .x
  else if c = ch 'p' then .p
  else if c = ch 'l' then .l
  else if c = ch 's' then .s
  else if c = ch 'c' then .c
  else .other

/-- INTERNAL: `va_arg(args, int)`: the next argument, if it is one. SRC: util/printf.c:157-159 -/
def vaArgInt : List Arg → Option (BitVec 32 × List Arg)
  | .int v :: args => some (v, args)
  | _ => none

/-- INTERNAL: `va_arg(args, long long int)`: the next argument, if it is one.
SRC: util/printf.c:154 -/
def vaArgLong : List Arg → Option (BitVec 64 × List Arg)
  | .long v :: args => some (v, args)
  | _ => none

/-- INTERNAL: `va_arg(args, const char *)`: the next argument, if it is one.
SRC: util/printf.c:200 -/
def vaArgStr : List Arg → Option (List Byte × List Arg)
  | .str text :: args => some (text, args)
  | _ => none

/-- INTERNAL: the value of `d` and `u`: both widen an `int` with its sign.
SRC: util/printf.c:151-161 -/
def fetchDecimal (long : Bool) (args : List Arg) : Option (BitVec 64 × List Arg) :=
  if long then vaArgLong args
  else (vaArgInt args).map fun r => (r.1.signExtend 64, r.2)

/-- INTERNAL: the value of `b` and `x`. SRC: util/printf.c:173-181 -/
def fetchUnsigned (long : Bool) (args : List Arg) : Option (BitVec 64 × List Arg) :=
  if long then vaArgLong args
  else (vaArgInt args).map fun r => (r.1.setWidth 64, r.2)

/-- INTERNAL: the value of `p`, an `unsigned long` unless `l` was given.
SRC: util/printf.c:173-181 -/
def fetchPointer (build : Build) (long : Bool) (args : List Arg) : Option (BitVec 64 × List Arg) :=
  fetchUnsigned (long || build.long64) args

/-- INTERNAL: the cases of the switch that print: the characters appended, the arguments
left and the buffer; `room` is `size - 1 - count`. SRC: util/printf.c:148-218 -/
def convert (build : Build) (c : Byte) (pad : Int) (padChar : Byte) (long : Bool)
    (room : ℕ) (args : List Arg) (buffer : ℕ) (b : TextBuffer) :
    Option (ℕ × List Arg × TextBuffer) :=
  match switchCase c with
  | .d => do
    let (v, args) ← fetchDecimal long args
    let (rc, b) := appendNum build buffer room v 10 true pad padChar b
    some (rc, args, b)
  | .u => do
    let (v, args) ← fetchDecimal long args
    let (rc, b) := appendNum build buffer room v 10 false pad padChar b
    some (rc, args, b)
  | .b => do
    let (v, args) ← fetchUnsigned long args
    let (rc, b) := appendNum build buffer room v 2 false pad padChar b
    some (rc, args, b)
  | .x => do
    let (v, args) ← fetchUnsigned long args
    let (rc, b) := appendNum build buffer room v 16 false pad padChar b
    some (rc, args, b)
  | .p => do
    let (v, args) ← fetchPointer build long args
    let (rc, b) ← appendStr room 0 (ch ' ') [ch '0', ch 'x', 0] buffer 0 b
    let (rc', b) := appendNum build (buffer + rc) (room - rc) v 16 false pad padChar b
    some (rc + rc', args, b)
  | .s => do
    let (text, args) ← vaArgStr args
    let (rc, b) ← appendStr room pad padChar text buffer 0 b
    some (rc, args, b)
  | .c => do
    let (v, args) ← vaArgInt args
    some (1, args, b.store buffer (v.setWidth 8))
  | _ => some (1, args, b.store buffer c)

/-- INTERNAL: where the format loop stands: at the head of the `while`, or at
`retry_format` with the locals of the conversion. -/
inductive Mode
  | text
  | spec (padSize : Int) (padChar : Byte) (long : Bool)
  deriving DecidableEq, Repr

/-- INTERNAL: a conversion begins. SRC: util/printf.c:124-126 -/
def Mode.start : Mode := .spec 0 (ch ' ') false

/-- INTERNAL: the `while` loop of `vsnprintf` with its `goto`; the format list begins at the
character the loop reads next. SRC: util/printf.c:120-232 -/
def vsnprintfLoop (build : Build) (size : ℕ) :
    (fmt : List Byte) → Mode → List Arg → (buffer count : ℕ) → TextBuffer → Option (ℕ × TextBuffer)
  | [], _, _, _, _, _ => none
  | c :: fmt, .text, args, buffer, count, b =>
    if c ≠ 0 ∧ count < size - 1 then
      if c = ch '%' then vsnprintfLoop build size fmt .start args buffer count b
      else vsnprintfLoop build size fmt .text args (buffer + 1) (count + 1) (b.store buffer c)
    else some (count, b.store buffer 0)
  | c :: fmt, .spec pad padChar long, args, buffer, count, b =>
    match switchCase c with
    -- `continue` finds the NUL again and leaves the loop
    | .nul => some (count, b.store buffer 0)
    | .zero =>
      if 0 < pad then
        vsnprintfLoop build size fmt (.spec (wrap (pad * 10)) padChar long) args buffer count b
      else vsnprintfLoop build size fmt (.spec pad (ch '0') long) args buffer count b
    | .digit d =>
      vsnprintfLoop build size fmt (.spec (wrap (wrap (pad * 10) + d)) padChar long) args buffer
        count b
    | .l => vsnprintfLoop build size fmt (.spec pad padChar true) args buffer count b
    | _ => do
      let (rc, args, b) ← convert build c pad padChar long (size - 1 - count) args buffer b
      vsnprintfLoop build size fmt .text args (buffer + rc) (count + rc) b

/-- INTERNAL: `vsnprintf`: the count returned and the buffer. SRC: util/printf.c:109-233 -/
def vsnprintf (build : Build) (b : TextBuffer) (size : ℕ) (fmt : List Byte) (args : List Arg) :
    Option (ℕ × TextBuffer) :=
  if size = 0 then some (0, b) else vsnprintfLoop build size fmt .text args 0 0 b

/-! ## `fprintf` -/

/-- INTERNAL: a stream: whether a `putch` function was registered for it. -/
structure File where
  putchFn : Bool
  deriving DecidableEq, Repr

/-- INTERNAL: the characters put: the bytes of the buffer up to the first NUL.
SRC: util/printf.c:271-277 -/
def putUntilNul (b : TextBuffer) : (left i : ℕ) → List Byte
  | 0, _ => []
  | left + 1, i => if b.data i = 0 then [] else b.data i :: putUntilNul b left (i + 1)

/-- INTERNAL: `fprintf`: the result and the characters put; `frame` is what the local buffer
holds at first. SRC: util/printf.c:258-280 -/
def fprintf (build : Build) (f : Option File) (frame : ℕ → Byte) (fmt : List Byte)
    (args : List Arg) : Option (ℕ × List Byte) :=
  match f with
  | none => some (0, [])
  | some file =>
    if file.putchFn then do
      let (rc, b) ← vsnprintf build ⟨frame, []⟩ 0x1000 fmt args
      some (rc, putUntilNul b 0x1000 0)
    else some (0, [])

end Simbench.Program.Printf
