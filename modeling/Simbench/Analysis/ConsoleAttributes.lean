import Simbench.Analysis.ConsoleSheet

/-!
# The attribute bytes on the console

A cell is stored as `0x0700 | ch`, and `char` is signed: the sign of a character reaches the
attribute byte. Scrolling copies cells whole, so on every screen of a text the cells are grey on
black if the characters of the text are, and a character that is not shows on the screen it is
written on.
-/

set_option autoImplicit false

namespace Simbench.Analysis.ConsoleAttributes

open Simbench.Program.X86Console Simbench.Analysis.ConsoleSheet
open Simbench.Program.Printf (Byte ch)

/-- INTERNAL: a cell with a character in grey on black. -/
def greyOnBlack (c : Byte) : BitVec 16 := 0x0700 + c.setWidth 16

/-- INTERNAL: each cell of the screen is 0, or the character the sheet has there in grey on
black. -/
def AllGrey (s : Console) (sheet : Sheet) : Prop :=
  ∀ x < columns, ∀ y < rows, s.vga (slot x y) =
    match sheet.cells (sheet.top + y, x) with
    | none => 0
    | some c => greyOnBlack c

/-- INTERNAL: on every screen while a text is written. -/
def AlwaysGrey (s₀ : Console) (text : List Byte) : Prop :=
  ∀ done, done <+: text → ∃ s, putAll done (consoleClear s₀) = some s ∧ AllGrey s (.typed done)

/-! ## One cell -/

/-- INTERNAL: the bit of the attribute that makes the text blink is the sign of the character. -/
theorem glyph_blink (c : Byte) : (glyph c).getLsbD 15 = c.msb := by
  have hconstant : (0x0700#32).getLsbD 15 = false := by decide
  rw [glyph, BitVec.getLsbD_setWidth, BitVec.getLsbD_or, BitVec.getLsbD_signExtend, hconstant,
    Bool.false_or]
  rfl

/-- INTERNAL: the cell of a character is attribute 7 over the character's byte. -/
theorem greyOnBlack_toNat (c : Byte) : (greyOnBlack c).toNat = 0x0700 + c.toNat := by
  have hc := c.isLt
  rw [greyOnBlack, BitVec.toNat_add, BitVec.toNat_setWidth]
  have hconstant : (0x0700 : BitVec 16).toNat = 0x0700 := rfl
  omega

/-- INTERNAL: a grey character on black does not blink. -/
theorem greyOnBlack_blink (c : Byte) : (greyOnBlack c).getLsbD 15 = false := by
  have hc := c.isLt
  rw [BitVec.getLsbD, greyOnBlack_toNat]
  exact Nat.testBit_lt_two_pow (by omega)

/-- INTERNAL: **the cell of a character**. SRC: platform/x86_64/native/console.c:73 -/
theorem glyph_eq_greyOnBlack (c : Byte) : glyph c = greyOnBlack c ↔ c.toNat < 0x80 := by
  have hsign : c.msb = false ↔ c.toNat < 0x80 := by
    rw [BitVec.msb_eq_false_iff_two_mul_lt]
    omega
  rw [← hsign]
  constructor
  · intro heq
    rw [← glyph_blink, heq, greyOnBlack_blink]
  · intro hpositive
    have hc := c.isLt
    have hor : 0x0700 ||| c.toNat = 0x0700 + c.toNat := (Nat.two_pow_add_eq_or_of_lt hc 7).symm
    have hconstant : (0x0700#32).toNat = 0x0700 := rfl
    apply BitVec.eq_of_toNat_eq
    rw [glyph, BitVec.signExtend_eq_setWidth_of_msb_false hpositive, greyOnBlack_toNat,
      BitVec.toNat_setWidth, BitVec.toNat_or, BitVec.toNat_setWidth, hconstant,
      Nat.mod_eq_of_lt (by omega : c.toNat < 2 ^ 32), hor]
    omega

/-! ## Screens -/

variable {mem : ℕ → BitVec 16} {s : Console} {sheet : Sheet}

/-- INTERNAL: a screen is grey where the characters in its window are. -/
theorem allGrey_iff (h : Shows mem s sheet) :
    AllGrey s sheet ↔ ∀ x < columns, ∀ y < rows, ∀ c,
      sheet.cells (sheet.top + y, x) = some c → c.toNat < 0x80 := by
  constructor
  · intro hgrey x hx y hy c hc
    have hcell := hgrey x hx y hy
    rw [h.cells x hx y hy, hc] at hcell
    exact (glyph_eq_greyOnBlack c).mp hcell
  · intro hchars x hx y hy
    rw [h.cells x hx y hy]
    cases hc : sheet.cells (sheet.top + y, x) with
    | none => rfl
    | some c => exact (glyph_eq_greyOnBlack c).mpr (hchars x hx y hy c hc)

/-- INTERNAL: a character on the sheet is an old one or the one put there. -/
theorem put_cells {c c' : Byte} {place : ℕ × ℕ} (h : (sheet.put c).cells place = some c') :
    c' = c ∨ sheet.cells place = some c' := by
  have hwrite (h : (sheet.write c).cells place = some c') :
      c' = c ∨ sheet.cells place = some c' := by
    rw [Sheet.write_cells] at h
    by_cases hplace : place = (sheet.row, sheet.col)
    · rw [hplace, Function.update_self] at h
      exact .inl (Option.some.inj h).symm
    · rw [Function.update_of_ne hplace] at h
      exact .inr h
  unfold Sheet.put at h
  dsimp only at h
  split at h
  · exact .inr h
  · split at h
    · exact .inr h
    · split at h
      · exact hwrite h
      · exact hwrite h

/-- INTERNAL: **the characters on a sheet** are characters of the text. Induction from the end of
the text. -/
theorem typed_cells (text : List Byte) :
    ∀ {place c}, (Sheet.typed text).cells place = some c → c ∈ text := by
  induction text using List.reverseRecOn with
  | nil =>
    intro place c h
    cases h
  | append_singleton text last ih =>
    intro place c h
    rw [Sheet.typed, List.foldl_append] at h
    rw [List.mem_append, List.mem_singleton]
    obtain hlast | hold := put_cells h
    · exact .inr hlast
    · exact .inl (ih hold)

/-- INTERNAL: a character written last stands in the window, the row it completes scrolled up or
not. -/
theorem put_visible (sheet : Sheet) {c : Byte} (hnewLine : c ≠ ch '\n') (hreturn : c ≠ ch '\r') :
    ∃ y < rows, (sheet.put c).cells ((sheet.put c).top + y, sheet.col) = some c := by
  have hwritten : (sheet.write c).cells (sheet.row, sheet.col) = some c :=
    Function.update_self _ _ _
  have hrows : rows = 25 := rfl
  rw [Sheet.put, if_neg hnewLine, if_neg hreturn]
  dsimp only
  split
  · refine ⟨sheet.row - (sheet.write c).newLine.top, ?_, ?_⟩
    · rw [Sheet.newLine_top, Sheet.write_row]
      omega
    · rw [Sheet.newLine_cells, Nat.add_sub_of_le]
      · exact hwritten
      · rw [Sheet.newLine_top, Sheet.write_row]
        omega
  · refine ⟨sheet.row - (sheet.write c).top, ?_, ?_⟩
    · rw [Sheet.write_top, Sheet.top]
      omega
    · have htop : (sheet.write c).top ≤ sheet.row := Nat.sub_le _ _
      rw [Nat.add_sub_of_le htop]
      exact hwritten

/-! ## Texts -/

/-- INTERNAL: a character that is not 7-bit shows on the screen it is written on. -/
theorem AlwaysGrey.lt_of_mem {s₀ : Console} {text : List Byte} (h : AlwaysGrey s₀ text) {c : Byte}
    (hc : c ∈ text) : c.toNat < 0x80 := by
  by_cases hnewLine : c = ch '\n'
  · rw [hnewLine]
    decide
  by_cases hreturn : c = ch '\r'
  · rw [hreturn]
    decide
  obtain ⟨before, after, rfl⟩ := List.append_of_mem hc
  have hprefix : before ++ [c] <+: before ++ c :: after := ⟨after, by
    rw [List.append_assoc, List.singleton_append]⟩
  obtain ⟨s, hput, hgrey⟩ := h _ hprefix
  obtain ⟨s', hput', hshows⟩ := (shows_consoleClear s₀).putAll (before ++ [c])
  obtain rfl : s = s' := Option.some.inj (hput.symm.trans hput')
  obtain ⟨_, -, hbefore⟩ := (shows_consoleClear s₀).putAll before
  have htyped : Sheet.typed (before ++ [c]) = (Sheet.typed before).put c := List.foldl_append
  obtain ⟨y, hy, hcell⟩ := put_visible (.typed before) hnewLine hreturn
  rw [htyped] at hgrey
  rw [← Sheet.typed, htyped] at hshows
  exact (allGrey_iff hshows).mp hgrey _ hbefore.col_lt y hy c hcell

/-- INTERNAL: text of ASCII characters is grey on black throughout. -/
theorem alwaysGrey_of_lt (s₀ : Console) {text : List Byte} (h : ∀ c ∈ text, c.toNat < 0x80) :
    AlwaysGrey s₀ text := by
  intro done hdone
  obtain ⟨s, hput, hshows⟩ := (shows_consoleClear s₀).putAll done
  refine ⟨s, hput, (allGrey_iff hshows).mpr fun x _ y _ c hc => h c ?_⟩
  exact hdone.subset (typed_cells done hc)

/-- SOURCE: platform/x86_64/native/console.c:43-80, platform/x86_64/qemu/console.c:43-80 — **grey
on black**: behind `console_clear`, every screen of a text shows its characters in grey on black
exactly when they are all 7-bit. -/
theorem alwaysGrey_iff (s₀ : Console) (text : List Byte) :
    AlwaysGrey s₀ text ↔ ∀ c ∈ text, c.toNat < 0x80 :=
  ⟨fun h _ => h.lt_of_mem, alwaysGrey_of_lt s₀⟩

/-- SOURCE: platform/x86_64/native/console.c:73 — 0xe9 is stored as 0xffe9, not as 0x07e9. -/
theorem not_alwaysGrey_e9 :
    ¬ AlwaysGrey ⟨fun _ => 0, 0, 0⟩ [0xe9] ∧ glyph 0xe9 = 0xffe9 ∧ greyOnBlack 0xe9 = 0x07e9 := by
  refine ⟨fun h => ?_, by decide, by decide⟩
  have hlt : (0xe9 : Byte).toNat < 0x80 := h.lt_of_mem (List.mem_singleton_self _)
  revert hlt
  decide

end Simbench.Analysis.ConsoleAttributes
