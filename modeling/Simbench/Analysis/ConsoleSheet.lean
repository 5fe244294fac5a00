import Simbench.Program.X86Console

/-!
# The VGA console shows the end of a sheet

A terminal writes on a sheet without a last row. The console keeps the last 25 rows of it: the
window stands still until the cursor leaves the bottom row, and moves down with it from then on.
Copying every row up in place is one shift of the cells, since each cell is read before it is
written.
-/

set_option autoImplicit false

namespace Simbench.Analysis.ConsoleSheet

open Simbench.Library.Loops Simbench.Program.X86Console
open Simbench.Program.Printf (Byte ch)

/-! ## The sheet -/

/-- INTERNAL: characters by row and column, and the cursor. -/
structure Sheet where
  cells : ℕ × ℕ → Option Byte
  row : ℕ
  col : ℕ

/-- INTERNAL: the sheet before the first character: nothing written, the cursor at its start. -/
def Sheet.blank : Sheet := ⟨fun _ => none, 0, 0⟩

/-- INTERNAL: column 0 of the next row. -/
def Sheet.newLine (sheet : Sheet) : Sheet := { sheet with row := sheet.row + 1, col := 0 }

/-- INTERNAL: a character at the cursor, which advances. -/
def Sheet.write (sheet : Sheet) (c : Byte) : Sheet :=
  { sheet with
    cells := Function.update sheet.cells (sheet.row, sheet.col) (some c)
    col := sheet.col + 1 }

/-- INTERNAL: a new line goes one row down. -/
@[simp] theorem Sheet.newLine_row (sheet : Sheet) : sheet.newLine.row = sheet.row + 1 := rfl

/-- INTERNAL: a new line leaves every cell as it is. -/
@[simp] theorem Sheet.newLine_cells (sheet : Sheet) : sheet.newLine.cells = sheet.cells := rfl

/-- INTERNAL: a character stays in its row. -/
@[simp] theorem Sheet.write_row (sheet : Sheet) (c : Byte) : (sheet.write c).row = sheet.row := rfl

/-- INTERNAL: a character moves the cursor one column on. -/
@[simp] theorem Sheet.write_col (sheet : Sheet) (c : Byte) :
    (sheet.write c).col = sheet.col + 1 := rfl

/-- INTERNAL: it changes the cell under the cursor only. -/
@[simp] theorem Sheet.write_cells (sheet : Sheet) (c : Byte) :
    (sheet.write c).cells = Function.update sheet.cells (sheet.row, sheet.col) (some c) := rfl

/-- INTERNAL: one character; behind column 79 the next row starts. -/
def Sheet.put (sheet : Sheet) (c : Byte) : Sheet :=
  if c = ch '\n' then sheet.newLine
  else if c = ch '\r' then { sheet with col := 0 }
  else
    let sheet := sheet.write c
    if columns ≤ sheet.col then sheet.newLine else sheet

/-- INTERNAL: the sheet with a text on it. -/
def Sheet.typed (text : List Byte) : Sheet := text.foldl Sheet.put .blank

/-- INTERNAL: the first row of the last 25. -/
def Sheet.top (sheet : Sheet) : ℕ := sheet.row - (rows - 1)

/-- INTERNAL: a character leaves the top of the window where it is. -/
theorem Sheet.write_top (sheet : Sheet) (c : Byte) : (sheet.write c).top = sheet.top := rfl

/-- INTERNAL: the window starts so that the new row is its last one or above. -/
theorem Sheet.newLine_top (sheet : Sheet) : sheet.newLine.top = sheet.row + 1 - (rows - 1) := rfl

/-- INTERNAL: the cell of a place of the sheet. -/
def cellOf : Option Byte → BitVec 16
  | none => 0
  | some c => glyph c

/-! ## Slots -/

/-- INTERNAL: the offset of a cell of the screen. -/
def slot (x y : ℕ) : ℕ := x + y * columns

/-- INTERNAL: a position on the screen has a slot. -/
theorem slotFromXY_eq {x y : BitVec 32} (hx : x.toNat < columns) (hy : y.toNat < rows) :
    slotFromXY x y = some (slot x.toNat y.toNat) := by
  unfold columns at hx
  unfold rows at hy
  have hsum : (x + y * BitVec.ofNat 32 columns).toNat = slot x.toNat y.toNat := by
    unfold slot columns
    rw [BitVec.toNat_add, BitVec.toNat_mul, BitVec.toNat_ofNat]
    omega
  rw [slotFromXY, if_neg (by unfold columns; omega), if_neg (by unfold rows; omega), hsum]

/-- INTERNAL: a position on the screen given by numbers has a slot. -/
theorem slotFromXY_ofNat {x y : ℕ} (hx : x < columns) (hy : y < rows) :
    slotFromXY (BitVec.ofNat 32 x) (BitVec.ofNat 32 y) = some (slot x y) := by
  unfold columns at hx
  unfold rows at hy
  have hxNat : (BitVec.ofNat 32 x).toNat = x := by
    rw [BitVec.toNat_ofNat]
    omega
  have hyNat : (BitVec.ofNat 32 y).toNat = y := by
    rw [BitVec.toNat_ofNat]
    omega
  rw [slotFromXY_eq (by rw [hxNat]; exact hx) (by rw [hyNat]; exact hy), hxNat, hyNat]

/-! ## Scrolling -/

/-- INTERNAL: the first `m` cells hold what stood a row below. -/
def shifted (m : ℕ) (vga : ℕ → BitVec 16) : ℕ → BitVec 16 :=
  fun n => if n < m then vga (n + columns) else vga n

/-- INTERNAL: the first `m` cells of the bottom row are zero. -/
def blanked (m : ℕ) (vga : ℕ → BitVec 16) : ℕ → BitVec 16 :=
  fun n => if slot 0 (rows - 1) ≤ n ∧ n < slot m (rows - 1) then 0 else vga n

/-- INTERNAL: a cell is copied before the loop writes over it. -/
theorem update_shifted (m : ℕ) (vga : ℕ → BitVec 16) :
    Function.update (shifted m vga) m (shifted m vga (m + columns)) = shifted (m + 1) vga := by
  funext n
  unfold shifted columns
  by_cases hn : n = m
  · subst hn
    rw [Function.update_self, if_neg (by omega), if_pos (by omega)]
  · rw [Function.update_of_ne hn]
    by_cases hlt : n < m
    · rw [if_pos hlt, if_pos (by omega)]
    · rw [if_neg hlt, if_neg (by omega)]

/-- INTERNAL: blanking one cell more of the bottom row. -/
theorem update_blanked {m : ℕ} (vga : ℕ → BitVec 16) :
    Function.update (blanked m vga) (slot m (rows - 1)) 0 = blanked (m + 1) vga := by
  funext n
  unfold blanked slot columns rows
  by_cases hn : n = m + (25 - 1) * 80
  · subst hn
    rw [Function.update_self, if_pos (by omega)]
  · rw [Function.update_of_ne hn]
    by_cases hlt : 0 + (25 - 1) * 80 ≤ n ∧ n < m + (25 - 1) * 80
    · rw [if_pos hlt, if_pos (by omega)]
    · rw [if_neg hlt, if_neg (by omega)]

variable {s : Console}

/-- INTERNAL: copying a cell one row up extends the shifted part by that cell. -/
theorem copySlot_shifted {x y : ℕ} (hx : x < columns) (hy : y < rows - 1) :
    copySlot y x { s with vga := shifted (slot x y) s.vga } =
      some { s with vga := shifted (slot x y + 1) s.vga } := by
  have hdst := slotFromXY_ofNat hx (show y < rows by omega)
  have hsrc := slotFromXY_ofNat hx (show y + 1 < rows by omega)
  have hsucc : BitVec.ofNat 32 y + 1 = BitVec.ofNat 32 (y + 1) := (BitVec.ofNat_add _ _).symm
  have hbelow : slot x (y + 1) = slot x y + columns := by
    unfold slot columns
    omega
  unfold copySlot Console.store
  rw [hsucc, hdst, hsrc, hbelow]
  simp only [Option.bind_eq_bind, Option.bind_some, update_shifted]

/-- INTERNAL: the inner loop copies a row. SRC: platform/x86_64/native/console.c:54-56 -/
theorem copyRow_shifted {y : ℕ} (hy : y < rows - 1) :
    forRange columns (copySlot y) { s with vga := shifted (slot 0 y) s.vga } =
      some { s with vga := shifted (slot 0 (y + 1)) s.vga } := by
  have hloop := forRange_eq columns (copySlot y)
    (fun x => { s with vga := shifted (slot x y) s.vga }) fun x hx => by
      have hnext : slot (x + 1) y = slot x y + 1 := by
        unfold slot
        omega
      rw [hnext]
      exact copySlot_shifted hx hy
  have hrow : slot columns y = slot 0 (y + 1) := by
    unfold slot columns
    omega
  rw [hrow] at hloop
  exact hloop

/-- INTERNAL: **both loops** shift the screen by a row and blank the last one.
SRC: platform/x86_64/native/console.c:53-61 -/
theorem scroll_eq (s : Console) :
    ((forRange (rows - 1) (fun y => forRange columns (copySlot y)) s).bind
        (forRange columns blankSlot)) =
      some { s with vga := blanked columns (shifted (slot 0 (rows - 1)) s.vga) } := by
  have hcopy := forRange_eq (rows - 1) (fun y => forRange columns (copySlot y))
    (fun y => { s with vga := shifted (slot 0 y) s.vga }) fun y hy => copyRow_shifted hy
  have hblank := forRange_eq columns blankSlot
    (fun x => { s with vga := blanked x (shifted (slot 0 (rows - 1)) s.vga) }) fun x hx => by
      unfold blankSlot Console.store
      rw [slotFromXY_ofNat hx (by decide)]
      simp only [Option.bind_eq_bind, Option.bind_some, update_blanked]
  have hstart : shifted (slot 0 0) s.vga = s.vga := by
    funext n
    unfold shifted slot
    rw [if_neg (by omega)]
  have hnone : ∀ vga, blanked 0 vga = vga := by
    intro vga
    funext n
    unfold blanked
    rw [if_neg (by omega)]
  rw [hstart] at hcopy
  rw [hnone] at hblank
  rw [hcopy, Option.bind_some]
  exact hblank

/-! ## The window -/

/-- INTERNAL: the screen shows the rows of the sheet from `top` on, and no row below the cursor
has been written; the memory behind the screen is `mem`. -/
structure Window (mem : ℕ → BitVec 16) (s : Console) (sheet : Sheet) : Prop where
  curY : s.curY.toNat = sheet.row - sheet.top
  below : ∀ row col, sheet.row < row → sheet.cells (row, col) = none
  cells : ∀ x < columns, ∀ y < rows, s.vga (slot x y) = cellOf (sheet.cells (sheet.top + y, x))
  behind : ∀ n, rows * columns ≤ n → s.vga n = mem n

/-- INTERNAL: the screen is a window on the sheet, and the cursor stands in the sheet's column. -/
structure Shows (mem : ℕ → BitVec 16) (s : Console) (sheet : Sheet) : Prop extends
    Window mem s sheet where
  curX : s.curX.toNat = sheet.col
  col_lt : sheet.col < columns

/-- INTERNAL: clearing zeroes every cell of the screen and no other. -/
theorem consoleClear_vga (s : Console) (n : ℕ) :
    (consoleClear s).vga n = if n < rows * columns then 0 else s.vga n := by
  have hloop : ∀ m, ((List.range m).foldl (fun s i => s.store i 0) s).vga n =
      if n < m then 0 else s.vga n := by
    intro m
    induction m with
    | zero => simp
    | succ m ih =>
      rw [List.range_succ, List.foldl_append, List.foldl_cons, List.foldl_nil, Console.store_vga]
      by_cases hn : n = m
      · subst hn
        rw [Function.update_self, if_pos (Nat.lt_succ_self n)]
      · rw [Function.update_of_ne hn, ih]
        by_cases hlt : n < m
        · rw [if_pos hlt, if_pos (by omega)]
        · rw [if_neg hlt, if_neg (by omega)]
  have hall := hloop (rows * columns)
  dsimp only [consoleClear]
  exact hall

/-- INTERNAL: a row of the screen has a first column. -/
theorem columns_pos : 0 < columns := by decide

/-- INTERNAL: the slots of the screen lie within its memory. -/
theorem slot_lt {x y : ℕ} (hx : x < columns) (hy : y < rows) : slot x y < rows * columns := by
  unfold columns at hx
  unfold rows at hy
  unfold slot columns rows
  omega

/-- INTERNAL: two positions on the screen have different slots. -/
theorem slot_inj {x y x' y' : ℕ} (hx : x < columns) (hx' : x' < columns)
    (h : slot x y = slot x' y') : x = x' ∧ y = y' := by
  unfold columns at hx hx'
  unfold slot columns at h
  omega

/-- INTERNAL: the cleared console shows the empty sheet.
SRC: platform/x86_64/native/console.c:31-41 -/
theorem shows_consoleClear (s : Console) : Shows s.vga (consoleClear s) .blank := by
  refine ⟨⟨rfl, fun _ _ _ => rfl, fun x hx y hy => ?_, fun n hn => ?_⟩, rfl, by decide⟩
  · rw [consoleClear_vga, if_pos (slot_lt hx hy)]
    rfl
  · rw [consoleClear_vga, if_neg (by omega)]

section Step

variable {mem : ℕ → BitVec 16} {sheet : Sheet}

/-- INTERNAL: a screen shifted by a row and blanked at the bottom shows each row one higher. -/
theorem shifted_slot {x y : ℕ} (hx : x < columns) (hy : y < rows) (vga : ℕ → BitVec 16) :
    blanked columns (shifted (slot 0 (rows - 1)) vga) (slot x y) =
      if y = rows - 1 then 0 else vga (slot x (y + 1)) := by
  unfold columns at hx
  unfold rows at hy
  unfold blanked shifted slot columns rows
  by_cases hlast : y = 25 - 1
  · rw [if_pos hlast, if_pos (by omega)]
  · have hbelow : x + y * 80 + 80 = x + (y + 1) * 80 := by omega
    rw [if_neg hlast, if_neg (by omega), if_pos (by omega), hbelow]

/-- INTERNAL: memory behind the screen is left alone. -/
theorem shifted_behind {n : ℕ} (hn : rows * columns ≤ n) (vga : ℕ → BitVec 16) :
    blanked columns (shifted (slot 0 (rows - 1)) vga) n = vga n := by
  unfold rows columns at hn
  unfold blanked shifted slot columns rows
  rw [if_neg (by omega), if_neg (by omega)]

/-- INTERNAL: above the bottom row the window stands still.
SRC: platform/x86_64/native/console.c:47-50 -/
theorem Window.newLine_above (h : Window mem s sheet) (hrow : sheet.row < rows - 1) :
    ∃ s', newLine s = some s' ∧ Shows mem s' sheet.newLine := by
  have htop : sheet.top = 0 := by
    unfold Sheet.top
    omega
  have htop' : sheet.newLine.top = 0 := by
    rw [Sheet.newLine_top]
    omega
  have hcurY := h.curY
  have hbound : rows < 2 ^ 32 := by decide
  have hnext : (s.curY + 1).toNat = sheet.row + 1 := by
    rw [BitVec.toNat_add, show (1 : BitVec 32).toNat = 1 from rfl]
    omega
  refine ⟨{ s with curX := 0, curY := s.curY + 1 }, ?_, ⟨?_, ?_, ?_, h.behind⟩, rfl,
    columns_pos⟩
  · unfold newLine
    dsimp only
    rw [hnext, if_neg (by omega)]
  · rw [htop']
    exact hnext
  · intro row col hlt
    exact h.below row col (Nat.lt_of_succ_lt hlt)
  · intro x hx y hy
    rw [htop']
    have hcell := h.cells x hx y hy
    rwa [htop] at hcell

/-- INTERNAL: on the bottom row it moves down. SRC: platform/x86_64/native/console.c:50-61 -/
theorem Window.newLine_bottom (h : Window mem s sheet) (hrow : rows - 1 ≤ sheet.row) :
    ∃ s', newLine s = some s' ∧ Shows mem s' sheet.newLine := by
  have htop : sheet.newLine.top = sheet.top + 1 := by
    rw [Sheet.newLine_top, Sheet.top]
    omega
  have hcurY : s.curY.toNat = rows - 1 := by
    have hcurY := h.curY
    unfold Sheet.top at hcurY
    omega
  have hlast : (BitVec.ofNat 32 (rows - 1)).toNat = rows - 1 := by decide
  have hnext : rows ≤ (s.curY + 1).toNat := by
    rw [BitVec.toNat_add, hcurY]
    decide
  refine ⟨⟨blanked columns (shifted (slot 0 (rows - 1)) s.vga), 0, BitVec.ofNat 32 (rows - 1)⟩, ?_,
    ⟨?_, ?_, ?_, ?_⟩, rfl, columns_pos⟩
  · unfold newLine
    dsimp only
    rw [if_pos hnext]
    exact scroll_eq { s with curX := 0, curY := BitVec.ofNat 32 (rows - 1) }
  · rw [hlast, Sheet.newLine_top, Sheet.newLine_row]
    omega
  · intro row col hlt
    exact h.below row col (Nat.lt_of_succ_lt hlt)
  · intro x hx y hy
    have hcell := shifted_slot hx hy s.vga
    rw [htop, Sheet.newLine_cells]
    apply hcell.trans
    by_cases hy' : y = rows - 1
    · have hbelow : sheet.row < sheet.top + 1 + y := by
        unfold Sheet.top
        omega
      rw [if_pos hy', h.below _ _ hbelow, cellOf]
    · have hplace : sheet.top + 1 + y = sheet.top + (y + 1) := by omega
      rw [if_neg hy', h.cells x hx (y + 1) (by omega), hplace]
  · intro n hn
    exact (shifted_behind hn s.vga).trans (h.behind n hn)

/-- INTERNAL: a new line from a window that shows the sheet leads to one that shows it with the new
line. -/
theorem Window.newLine (h : Window mem s sheet) :
    ∃ s', newLine s = some s' ∧ Shows mem s' sheet.newLine := by
  by_cases hrow : sheet.row < rows - 1
  · exact h.newLine_above hrow
  · exact h.newLine_bottom (by omega)

/-- INTERNAL: the cursor's row lies on the screen. -/
theorem Window.curY_lt (h : Window mem s sheet) : s.curY.toNat < rows := by
  have hcurY := h.curY
  have hrows : rows = 25 := rfl
  unfold Sheet.top at hcurY
  omega

/-- INTERNAL: a character goes to the slot of the cursor.
SRC: platform/x86_64/native/console.c:72-75 -/
theorem Shows.write (h : Shows mem s sheet) (c : Byte) :
    ∃ n, slotFromXY s.curX s.curY = some n ∧
      Window mem { s.store n (glyph c) with curX := s.curX + 1 } (sheet.write c) ∧
      (s.curX + 1).toNat = sheet.col + 1 := by
  have hcurX := h.curX
  have hcurY := h.curY
  have hcol := h.col_lt
  have hy := h.curY_lt
  have hcolumns : columns = 80 := rfl
  have hle : sheet.top ≤ sheet.row := Nat.sub_le _ _
  refine ⟨slot sheet.col (sheet.row - sheet.top), ?_, ⟨hcurY, ?_, ?_, ?_⟩, ?_⟩
  · rw [slotFromXY_eq (by omega) hy, hcurX, hcurY]
  · intro row col hlt
    have hne : (row, col) ≠ (sheet.row, sheet.col) := by
      intro heq
      have hrow := congrArg Prod.fst heq
      rw [Sheet.write_row] at hlt
      dsimp only at hrow
      omega
    rw [Sheet.write_cells, Function.update_of_ne hne]
    exact h.below row col hlt
  · intro x hx y hy'
    have hcell := h.cells x hx y hy'
    rw [Sheet.write_top, Sheet.write_cells]
    by_cases hplace : slot x y = slot sheet.col (sheet.row - sheet.top)
    · obtain ⟨rfl, rfl⟩ := slot_inj hx hcol hplace
      rw [Nat.add_sub_of_le hle, Console.store_vga, Function.update_self, Function.update_self, cellOf]
    · have hne : (sheet.top + y, x) ≠ (sheet.row, sheet.col) := by
        intro heq
        have hrow := congrArg Prod.fst heq
        have hx' := congrArg Prod.snd heq
        dsimp only at hrow hx'
        apply hplace
        rw [hx', ← hrow, Nat.add_sub_cancel_left]
      rw [Console.store_vga, Function.update_of_ne hplace, Function.update_of_ne hne, hcell]
  · intro n hn
    have hslot := slot_lt hcol (h.curY ▸ hy)
    rw [Console.store_vga, Function.update_of_ne (by omega), h.behind n hn]
  · rw [BitVec.toNat_add, show (1 : BitVec 32).toNat = 1 from rfl]
    omega

/-- INTERNAL: **one character**. SRC: platform/x86_64/native/console.c:65-80 -/
theorem Shows.put (h : Shows mem s sheet) (c : Byte) :
    ∃ s', consolePutc c s = some s' ∧ Shows mem s' (sheet.put c) := by
  unfold consolePutc Sheet.put
  by_cases hnewLine : c = ch '\n'
  · rw [if_pos hnewLine, if_pos hnewLine]
    exact h.newLine
  · rw [if_neg hnewLine, if_neg hnewLine]
    by_cases hreturn : c = ch '\r'
    · rw [if_pos hreturn, if_pos hreturn]
      exact ⟨_, rfl, ⟨h.curY, h.below, h.cells, h.behind⟩, rfl, columns_pos⟩
    · rw [if_neg hreturn, if_neg hreturn]
      obtain ⟨n, hslot, hwindow, hcurX⟩ := h.write c
      simp only [hslot, Option.bind_eq_bind, Option.bind_some, Console.store_curX, hcurX,
        ← sheet.write_col c]
      by_cases hwrap : columns ≤ (sheet.write c).col
      · rw [if_pos hwrap, if_pos hwrap]
        exact hwindow.newLine
      · rw [if_neg hwrap, if_neg hwrap]
        exact ⟨_, rfl, hwindow, hcurX, by omega⟩

/-- INTERNAL: **any text**. Induction on the characters. -/
theorem Shows.putAll (text : List Byte) (h : Shows mem s sheet) :
    ∃ s', putAll text s = some s' ∧ Shows mem s' (text.foldl Sheet.put sheet) := by
  induction text generalizing s sheet with
  | nil => exact ⟨s, rfl, h⟩
  | cons c text ih =>
    obtain ⟨s₁, hput, h₁⟩ := h.put c
    obtain ⟨s', hrest, h'⟩ := ih h₁
    refine ⟨s', ?_, h'⟩
    rw [Program.X86Console.putAll, List.foldlM_cons, hput]
    exact hrest

end Step

/-! ## The console -/

/-- INTERNAL: the low byte of a glyph is its character, the sign extension of `char` or not.
SRC: platform/x86_64/native/console.c:73 -/
theorem glyph_low (c : Byte) : (glyph c).setWidth 8 = c := by
  unfold glyph
  rw [BitVec.setWidth_setWidth_of_le _ (by decide), BitVec.setWidth_or]
  have hhigh : BitVec.setWidth 8 0x0700#32 = 0#8 := by decide
  have hlow : BitVec.setWidth 8 (c.signExtend 32) = c := by
    apply BitVec.eq_of_getLsbD_eq
    intro i hi
    have hwide : i < 32 := by omega
    rw [BitVec.getLsbD_setWidth, BitVec.getLsbD_signExtend]
    simp [hi, hwide]
  rw [hhigh, hlow, BitVec.zero_or]

/-- INTERNAL: what the screen tells of a sheet: the cursor lies on the screen, where the sheet has
it; the low bytes are the characters of the last 25 rows; a cell never written is 0. Memory behind
the screen is `mem`. -/
structure Displays (mem : ℕ → BitVec 16) (s : Console) (sheet : Sheet) : Prop where
  curX_lt : s.curX.toNat < 80
  curY_lt : s.curY.toNat < 25
  curX : s.curX.toNat = sheet.col
  curY : s.curY.toNat = sheet.row - max 0 (sheet.row - 24)
  lowBytes : ∀ x < 80, ∀ y < 25, (s.vga (x + y * 80)).setWidth 8 =
    (sheet.cells (max 0 (sheet.row - 24) + y, x)).getD 0
  unwritten : ∀ x < 80, ∀ y < 25, sheet.cells (max 0 (sheet.row - 24) + y, x) = none →
    s.vga (x + y * 80) = 0
  behind : ∀ n, 2000 ≤ n → s.vga n = mem n

/-- INTERNAL: a window that shows the sheet is a display of it. -/
theorem Shows.displays {mem : ℕ → BitVec 16} {sheet : Sheet} (h : Shows mem s sheet) :
    Displays mem s sheet := by
  have htop : max 0 (sheet.row - 24) = sheet.top := Nat.zero_max _
  refine ⟨h.curX ▸ h.col_lt, h.curY_lt, h.curX, htop ▸ h.curY, ?_, ?_, h.behind⟩
  · intro x hx y hy
    have hcell : s.vga (x + y * 80) = cellOf (sheet.cells (sheet.top + y, x)) := h.cells x hx y hy
    rw [htop, hcell]
    cases sheet.cells (sheet.top + y, x) with
    | none => rfl
    | some c => exact glyph_low c
  · intro x hx y hy hnone
    have hcell : s.vga (x + y * 80) = cellOf (sheet.cells (sheet.top + y, x)) := h.cells x hx y hy
    rw [htop] at hnone
    rw [hcell, hnone, cellOf]

/-- SOURCE: platform/x86_64/native/console.c:9-80, platform/x86_64/qemu/console.c:9-80 — **the
console is a scrolling terminal**: behind `console_clear` every text is written without a null
slot, and the screen shows the last 25 rows of the sheet with the text on it. -/
theorem console_displays (s₀ : Console) (text : List Byte) :
    ∃ s, putAll text (consoleClear s₀) = some s ∧ Displays s₀.vga s (.typed text) := by
  obtain ⟨s, hput, hshows⟩ := (shows_consoleClear s₀).putAll text
  exact ⟨s, hput, hshows.displays⟩

end Simbench.Analysis.ConsoleSheet
