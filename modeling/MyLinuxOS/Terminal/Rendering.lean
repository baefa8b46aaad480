import MyLinuxOS.Foundation.TextGrid
import MyLinuxOS.Terminal.Scroll

/-! Printing against a terminal of 80 columns and 25 rows that stores every character. `putc` moves
the cursor as that terminal does, but the character that meets the last column is not stored. -/

namespace MyLinuxOS
open Foundation

def IsBreak (c : UInt8) : Prop := c = 10 ∨ c = 13

instance : DecidablePred IsBreak := fun c => inferInstanceAs (Decidable (c = 10 ∨ c = 13))

def referenceTerminal (text : List UInt8) (g : TextGrid UInt8) : TextGrid UInt8 :=
  g.display 80 25 32 IsBreak (fun _ => True) text

namespace Console

def grid (s : Console) : TextGrid UInt8 where
  cell := fun x y => s.vram (cell x y)
  col := s.screenX.toNat
  row := s.screenY.toNat

structure Draws (s : Console) (g : TextGrid UInt8) : Prop where
  x : s.screenX = g.col
  y : s.screenY = g.row
  col_lt : g.col < 80
  row_lt : g.row < 25
  cell : ∀ x < 80, ∀ y < 25, s.vram (Console.cell (x : Nat) (y : Nat)) = g.cell x y

theorem Within.draws_grid {s : Console} (h : s.Within 0) : s.Draws s.grid := by
  obtain ⟨hx, hx', hy, hy'⟩ := h
  unfold numCols at hx'
  unfold numRows at hy'
  unfold grid
  exact ⟨by dsimp only; omega, by dsimp only; omega, by dsimp only; omega, by dsimp only; omega,
    fun _ _ _ _ => rfl⟩

section putCell
variable (term : Nat) (c : UInt8) {s : Console}

theorem putCell_vram_self :
    (putCell term c s).vram (Console.cell s.screenX s.screenY) = c := by
  have hne := cell_ne_colour s.screenX s.screenY s.screenX s.screenY
  unfold putCell
  split
  · exact (poke_vram_of_ne hne _).trans (Function.update_self ..)
  · exact Function.update_self ..

theorem Draws.putCell_cell {g : TextGrid UInt8} (h : s.Draws g) {x y : Nat} (hx : x < 80)
    (hy : y < 25) : (putCell term c s).vram (Console.cell x y) =
      if x = g.col ∧ y = g.row then c else g.cell x y := by
  by_cases hat : x = g.col ∧ y = g.row
  · obtain ⟨rfl, rfl⟩ := hat
    rw [if_pos ⟨rfl, rfl⟩, ← h.x, ← h.y, putCell_vram_self]
  · rw [if_neg hat, ← h.cell x hx y hy, putCell_vram]
    · rw [h.x, h.y]
      exact fun he => hat (cell_inj hx h.col_lt he)
    · exact cell_ne_colour _ _ _ _

end putCell

theorem Draws.within {s : Console} {g : TextGrid UInt8} (h : s.Draws g) : s.Within 0 where
  lo_le := by
    rw [h.x]
    exact Int.natCast_nonneg _
  x_lt := by
    rw [h.x]
    exact Int.ofNat_lt.mpr h.col_lt
  y_nonneg := by
    rw [h.y]
    exact Int.natCast_nonneg _
  y_lt := by
    rw [h.y]
    exact Int.ofNat_lt.mpr h.row_lt

theorem Draws.newLine {s : Console} {g : TextGrid UInt8} (h : s.Draws g) :
    s.newLine.Draws ((TextGrid.mk g.cell 0 (g.row + 1)).scrolled 25 32) := by
  let s' : Console := { s with screenY := s.screenY + 1, screenX := 0 }
  have hrow : s'.screenY = (g.row + 1 : Nat) := by
    rw [Int.natCast_succ, ← h.y]
  have hrows : numRows = 25 := rfl
  change Draws (if s'.screenY ≥ numRows then s'.scroll else s') _
  by_cases hroom : g.row + 1 < 25
  · rw [TextGrid.scrolled_of_lt hroom, if_neg (by omega)]
    exact ⟨rfl, hrow, (by decide : 0 < 80), hroom, h.cell⟩
  · rw [TextGrid.scrolled_of_ge hroom, if_pos (by omega)]
    refine ⟨rfl, rfl, (by decide : 0 < 80), (by decide : 24 < 25), fun x hx y hy => ?_⟩
    change s'.scroll.vram (Console.cell x y) = if y + 1 < 25 then g.cell x (y + 1) else 32
    by_cases hlast : y + 1 < 25
    · rw [if_pos hlast, scroll_char s' hx (by omega), ← h.cell x hx (y + 1) hlast,
        Int.natCast_succ]
    · obtain rfl : y = 24 := by omega
      rw [if_neg hlast]
      exact scroll_bottom s' hx

theorem type_line {c : UInt8} {g : TextGrid UInt8} (hc : IsBreak c ∨ g.col + 1 = 80) :
    g.type 80 IsBreak (· ≠ 79) c = ⟨g.cell, 0, g.row + 1⟩ := by
  have hnext : TextGrid.next 80 IsBreak c g.col g.row = (0, g.row + 1) := if_pos hc
  unfold TextGrid.type
  rw [hnext]
  congr
  funext x y
  apply if_neg
  rintro ⟨hnot, hkeep, -⟩
  rcases hc with hbreak | hedge
  · exact hnot hbreak
  · omega

theorem type_inside {c : UInt8} {g : TextGrid UInt8} (hc : ¬(IsBreak c ∨ g.col + 1 = 80)) :
    g.type 80 IsBreak (· ≠ 79) c =
      ⟨fun x y => if x = g.col ∧ y = g.row then c else g.cell x y, g.col + 1, g.row⟩ := by
  have hnext : TextGrid.next 80 IsBreak c g.col g.row = (g.col + 1, g.row) := if_neg hc
  obtain ⟨hnot, hedge⟩ := not_or.mp hc
  unfold TextGrid.type
  rw [hnext]
  congr
  funext x y
  have hstored : (¬IsBreak c ∧ g.col ≠ 79 ∧ x = g.col ∧ y = g.row) ↔ x = g.col ∧ y = g.row := by
    constructor
    · exact fun hs => hs.2.2
    · exact fun hs => ⟨hnot, by omega, hs⟩
  simp only [hstored]

theorem Draws.putc (term : Nat) (c : UInt8) {s : Console} {g : TextGrid UInt8} (h : s.Draws g) :
    (Console.putc term c s).Draws ((g.type 80 IsBreak (· ≠ 79) c).scrolled 25 32) := by
  have hcols : numCols = 80 := rfl
  have hx := h.x
  have hcol := h.col_lt
  have hkept {g' : TextGrid UInt8} {s' : Console} (hs : s'.Draws g') : s'.updateCursor.Draws g' :=
    ⟨hs.x, hs.y, hs.col_lt, hs.row_lt, hs.cell⟩
  have hiff : (c = 10 ∨ c = 13) ∨ s.screenX = numCols - 1 ↔ IsBreak c ∨ g.col + 1 = 80 := by
    apply or_congr_right
    omega
  rw [putc_eq]
  apply hkept
  by_cases hc : IsBreak c ∨ g.col + 1 = 80
  · rw [type_line hc, if_pos (hiff.mpr hc)]
    exact h.newLine
  · have hedge : g.col + 1 ≠ 80 := fun he => hc (.inr he)
    have hcell : (putCell term c s).Within 0 := (within_putCell term).mpr h.within
    have hne : (putCell term c s).screenX ≠ numCols - 1 := by
      rw [putCell_screenX]
      omega
    rw [type_inside hc, if_neg (mt hiff.mp hc), hcell.advance_eq (by decide) hne]
    rw [TextGrid.scrolled, if_pos h.row_lt]
    refine ⟨?_, ?_, ?_, h.row_lt, fun x hx y hy => h.putCell_cell term c hx hy⟩
    · change (putCell term c s).screenX + 1 = (g.col + 1 : Nat)
      rw [putCell_screenX]
      omega
    · exact (putCell_screenY term c s).trans h.y
    · change g.col + 1 < 80
      omega

theorem Draws.puts (term : Nat) (text : List UInt8) {s : Console} {g : TextGrid UInt8}
    (h : s.Draws g) :
    (Console.puts term text s).Draws (g.display 80 25 32 IsBreak (· ≠ 79) text) := by
  induction text generalizing s g with
  | nil => exact h
  | cons c text ih => exact ih (h.putc term c)

/-! ### The characters that are lost -/

section rendering
variable (term : Nat) (text : List UInt8) (s : Console)

/-- The characters of the text with the columns and lines they are meant for, lines counted on from
the row of the cursor. -/
def placedAt : List (Nat × Nat × UInt8) :=
  TextGrid.placed 80 IsBreak text s.screenX.toNat s.screenY.toNat

def topLine : Nat := TextGrid.lastLine 80 IsBreak text s.screenX.toNat s.screenY.toNat - 24

/-- The screen ends up as that of the reference terminal, and all characters that have not scrolled
off can be read back. -/
structure RendersWithoutLoss : Prop where
  grid : ∀ x < 80, ∀ y < 25, (s.puts term text).vram (Console.cell (x : Nat) (y : Nat)) =
    (referenceTerminal text s.grid).cell x y
  cursor : (s.puts term text).screenX = (referenceTerminal text s.grid).col ∧
    (s.puts term text).screenY = (referenceTerminal text s.grid).row
  readBack : ∀ x line c, (x, line, c) ∈ placedAt text s → topLine text s ≤ line →
    (s.puts term text).vram (Console.cell x (line - topLine text s : Nat)) = c

/-- Each character meant for the last column has scrolled off or is the one that is there anyway:
that of the screen before, or a blank in a line that has come up from below. -/
def LastColumnShown : Prop := ∀ line c, (79, line, c) ∈ placedAt text s → topLine text s ≤ line →
  c = if line < 25 then s.vram (Console.cell 79 line) else 32

end rendering

/-- Nothing is lost if and only if no character is missed in the last column. -/
theorem renders_without_loss_iff {term : Nat} {text : List UInt8} {s : Console}
    (h : s.Within 0) : RendersWithoutLoss term text s ↔ LastColumnShown text s := by
  have hstart : s.Draws s.grid := h.draws_grid
  have hdraws := hstart.puts term text
  have hcell : ∀ x < 80, ∀ y < 25, (s.puts term text).vram (Console.cell (x : Nat) (y : Nat)) =
      (s.grid.display 80 25 32 IsBreak (· ≠ 79) text).cell x y := hdraws.cell
  -- the console is a screen that keeps every column but the last
  have hagree : (∀ x < 80, ∀ y < 25, (s.grid.display 80 25 32 IsBreak (· ≠ 79) text).cell x y =
      (referenceTerminal text s.grid).cell x y) ↔
        ∀ x line c, (x, line, c) ∈ placedAt text s → ¬x ≠ 79 →
          TextGrid.lastLine 80 IsBreak text s.screenX.toNat s.screenY.toNat ≤ line + (25 - 1) →
            c = (s.grid.page 25 32).cell x line :=
    TextGrid.display_agrees_iff hstart.row_lt hstart.col_lt
  have htop : ∀ line, topLine text s ≤ line ↔
      TextGrid.lastLine 80 IsBreak text s.screenX.toNat s.screenY.toNat ≤ line + (25 - 1) := by
    intro line
    unfold topLine
    omega
  have hpage : ∀ line, (s.grid.page 25 32).cell 79 line =
      if line < 25 then s.vram (Console.cell 79 line) else 32 := fun _ => rfl
  have hgrid : (∀ x < 80, ∀ y < 25, (s.puts term text).vram (Console.cell (x : Nat) (y : Nat)) =
      (referenceTerminal text s.grid).cell x y) ↔ LastColumnShown text s := by
    constructor
    · intro hsame line c hc hline
      rw [← hpage]
      refine hagree.mp (fun x hx y hy => ?_) 79 line c hc (not_not.mpr rfl) ((htop line).mp hline)
      rw [← hcell x hx y hy, hsame x hx y hy]
    · intro hshown x hx y hy
      rw [hcell x hx y hy]
      refine hagree.mpr (fun x line c hc hx hline => ?_) x hx y hy
      obtain rfl := not_not.mp hx
      rw [hpage]
      exact hshown line c hc ((htop line).mpr hline)
  rw [← hgrid]
  refine ⟨RendersWithoutLoss.grid, fun hsame => ⟨hsame, ?_, fun x line c hc hline => ?_⟩⟩
  · have hsame : (s.grid.display 80 25 32 IsBreak (· ≠ 79) text).col =
        (referenceTerminal text s.grid).col ∧ (s.grid.display 80 25 32 IsBreak (· ≠ 79) text).row =
          (referenceTerminal text s.grid).row := TextGrid.display_cursor text rfl rfl
    rw [hdraws.x, hdraws.y, hsame.1, hsame.2]
    exact ⟨rfl, rfl⟩
  · have hx : x < 80 := TextGrid.placed_col_lt hstart.col_lt hc
    have hle : line ≤ TextGrid.lastLine 80 IsBreak text s.screenX.toNat s.screenY.toNat :=
      TextGrid.placed_le_lastLine hc
    rw [hsame x hx _ (by have := htop line; unfold topLine at hline ⊢; omega)]
    exact TextGrid.display_reads_back hstart.row_lt hc trivial ((htop line).mp hline)

def blankScreen (x : Int) : Console := ⟨fun _ => 32, x, 0, 0⟩

theorem short_text_is_rendered : RendersWithoutLoss 0 [111, 107] (blankScreen 0) := by
  have hwithin : (blankScreen 0).Within 0 := ⟨by decide, by decide, by decide, by decide⟩
  refine (renders_without_loss_iff hwithin).mpr fun line c hc _ => ?_
  have hplaced : placedAt [111, 107] (blankScreen 0) = [(0, 0, 111), (1, 0, 107)] := rfl
  rw [hplaced] at hc
  simp at hc

/-- A character printed in the last column is not there. -/
theorem last_column_is_lost : (putc 0 97 (blankScreen 79)).vram (cell 79 0) = 32 ∧
    (referenceTerminal [97] (blankScreen 79).grid).cell 79 0 = 97 ∧
    ¬RendersWithoutLoss 0 [97] (blankScreen 79) := by
  have hlost : (putc 0 97 (blankScreen 79)).vram (cell 79 0) = 32 := by decide
  have hmeant : (referenceTerminal [97] (blankScreen 79).grid).cell 79 0 = 97 := by decide
  refine ⟨hlost, hmeant, fun h => ?_⟩
  have hshown : (32 : UInt8) = 97 :=
    hlost.symm.trans ((h.grid 79 (by decide) 0 (by decide)).trans hmeant)
  exact absurd hshown (by decide)

end Console
end MyLinuxOS
