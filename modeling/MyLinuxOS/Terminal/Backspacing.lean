import Mathlib.Logic.Function.Iterate
import MyLinuxOS.Terminal.Rendering

/-! Backspace as the inverse of printing. It takes back characters within a row; from the first
column it leaves the screen instead of going back to the row before. -/

namespace MyLinuxOS
open Foundation

namespace Console

def backspaces (term n : Nat) (s : Console) : Console := (backspace term)^[n] s

section
variable (term : Nat) (text : List UInt8) (s : Console)

structure Undone : Prop where
  x : ((s.puts term text).backspaces term text.length).screenX = s.screenX
  y : ((s.puts term text).backspaces term text.length).screenY = s.screenY
  cell : ∀ x < 80, ∀ y < 25,
    ((s.puts term text).backspaces term text.length).vram (Console.cell (x : Nat) (y : Nat)) =
      s.vram (Console.cell x y)

def BlankRun (n : Nat) : Prop :=
  ∀ i < n, s.vram (Console.cell (s.screenX + (i : Nat)) s.screenY) = 32

end

def PrintsWithoutScroll (term : Nat) : List UInt8 → Console → Prop
  | [], _ => True
  | c :: text, s =>
    (s.screenX = numCols - 1 → s.screenY + 1 < numRows) ∧
      PrintsWithoutScroll term text (putc term c s)

section
variable {term : Nat} {c : UInt8} {s : Console}

/-! ### Within a row -/

theorem Draws.backspace {g : TextGrid UInt8} (h : s.Draws g) (hx : 1 ≤ g.col) :
    (Console.backspace term s).Draws
      ⟨fun x y => if x = g.col - 1 ∧ y = g.row then 32 else g.cell x y, g.col - 1, g.row⟩ := by
  have hwithin := h.within
  have hcol := h.x
  have hwide : s.Within (-79) := ⟨by omega, hwithin.x_lt, hwithin.y_nonneg, hwithin.y_lt⟩
  have hlt := h.col_lt
  rw [backspace_eq, hwide.retreat_eq (by omega)]
  let s' : Console := { s with screenX := s.screenX - 1 }
  have hback : s'.Draws { g with col := g.col - 1 } := by
    refine ⟨?_, h.y, ?_, h.row_lt, h.cell⟩
    · change s.screenX - 1 = (g.col - 1 : Nat)
      omega
    · dsimp only
      omega
  refine ⟨?_, ?_, hback.col_lt, hback.row_lt, fun x hx y hy => hback.putCell_cell term 32 hx hy⟩
  · exact (putCell_screenX term 32 s').trans hback.x
  · exact (putCell_screenY term 32 s').trans hback.y

theorem Draws.putc_plain {g : TextGrid UInt8} (h : s.Draws g) (hc : ¬IsBreak c)
    (hx : g.col + 1 < 80) : (Console.putc term c s).Draws
      ⟨fun x y => if x = g.col ∧ y = g.row then c else g.cell x y, g.col + 1, g.row⟩ := by
  have hput := h.putc term c
  rw [type_inside (not_or.mpr ⟨hc, by omega⟩), TextGrid.scrolled, if_pos h.row_lt] at hput
  exact hput

theorem Draws.undone {text : List UInt8} {g : TextGrid UInt8} (h : s.Draws g)
    (hplain : ∀ c ∈ text, ¬IsBreak c) (hfit : g.col + text.length < 80)
    (hblank : ∀ i < text.length, g.cell (g.col + i) g.row = 32) :
    ((s.puts term text).backspaces term text.length).Draws g := by
  induction text generalizing s g with
  | nil => exact h
  | cons c text ih =>
    rw [List.length_cons] at hfit hblank
    have hput : (Console.putc term c s).Draws _ :=
      h.putc_plain (hplain c (List.mem_cons_self ..)) (by omega)
    have hrest := ih hput (fun d hd => hplain d (List.mem_cons_of_mem _ hd))
      (by dsimp only; omega) fun i hi => by
        dsimp only
        rw [if_neg (by omega), Nat.add_assoc, Nat.add_comm 1 i]
        exact hblank (i + 1) (by omega)
    have hundone : (Console.backspace term _).Draws _ :=
      hrest.backspace (Nat.le_add_left 1 g.col)
    -- the blank that comes back is what the character had replaced
    have hsame : TextGrid.mk (fun x y => if x = g.col + 1 - 1 ∧ y = g.row then 32
        else if x = g.col ∧ y = g.row then c else g.cell x y) (g.col + 1 - 1) g.row = g := by
      have hfirst := hblank 0 (by omega)
      rw [Nat.add_zero] at hfirst
      rw [Nat.add_sub_cancel]
      congr
      funext x y
      by_cases hat : x = g.col ∧ y = g.row
      · obtain ⟨rfl, rfl⟩ := hat
        rw [if_pos ⟨rfl, rfl⟩, hfirst]
      · rw [if_neg hat, if_neg hat]
    rw [hsame] at hundone
    rw [backspaces, List.length_cons, Function.iterate_succ_apply']
    exact hundone

/-! ### Across rows -/

theorem putc_position (h : s.Within 0) (hc : ¬IsBreak c)
    (hroom : s.screenX = numCols - 1 → s.screenY + 1 < numRows) :
    80 * (putc term c s).screenY + (putc term c s).screenX = 80 * s.screenY + s.screenX + 1 := by
  have hstart : s.Draws s.grid := h.draws_grid
  have hx := hstart.x
  have hy := hstart.y
  have hput := hstart.putc term c
  have hcols : numCols = 80 := rfl
  have hrows : numRows = 25 := rfl
  by_cases hedge : s.grid.col + 1 = 80
  · have hroom' := hroom (by omega)
    rw [type_line (.inr hedge), TextGrid.scrolled_of_lt (by dsimp only; omega)] at hput
    rw [hput.x, hput.y]
    dsimp only
    omega
  · have hlt := hstart.row_lt
    rw [type_inside (not_or.mpr ⟨hc, hedge⟩), TextGrid.scrolled, if_pos hlt] at hput
    rw [hput.x, hput.y]
    dsimp only
    omega

theorem puts_position {text : List UInt8} (h : s.Within 0) (hplain : ∀ c ∈ text, ¬IsBreak c)
    (hroom : PrintsWithoutScroll term text s) :
    80 * (s.puts term text).screenY + (s.puts term text).screenX =
      80 * s.screenY + s.screenX + text.length := by
  induction text generalizing s with
  | nil => exact (Int.add_zero _).symm
  | cons c text ih =>
    have hstep : 80 * (putc term c s).screenY + (putc term c s).screenX = _ :=
      putc_position h (hplain c (List.mem_cons_self ..)) hroom.1
    have hrest := ih (h.putc term (by decide) (by decide) c)
      (fun d hd => hplain d (List.mem_cons_of_mem _ hd)) hroom.2
    change 80 * ((putc term c s).puts term text).screenY +
      ((putc term c s).puts term text).screenX = _
    rw [List.length_cons]
    omega

/-- C's remainder never takes the row back. -/
theorem backspace_screenY (h : s.Within (-79)) : (backspace term s).screenY = s.screenY := by
  rw [backspace_eq]
  apply (putCell_screenY term 32 s.retreat).trans
  by_cases hx : s.screenX = -79
  · rw [h.retreat_eq_zero hx]
  · rw [h.retreat_eq hx]

theorem backspaces_screenY (h : s.Within (-79)) (n : Nat) :
    (s.backspaces term n).screenY = s.screenY ∧ (s.backspaces term n).Within (-79) := by
  induction n with
  | zero => exact ⟨rfl, h⟩
  | succ n ih =>
    obtain ⟨hrow, hwithin⟩ := ih
    rw [backspaces, Function.iterate_succ_apply']
    exact ⟨(backspace_screenY hwithin).trans hrow, hwithin.backspace term⟩

/-- Backspace undoes typing if and only if the text ends in the row it began in. -/
theorem backspace_undoes_iff {text : List UInt8} (h : s.Within 0)
    (hplain : ∀ c ∈ text, ¬IsBreak c) (hblank : s.BlankRun text.length)
    (hroom : PrintsWithoutScroll term text s) :
    Undone term text s ↔ s.screenX + text.length < numCols := by
  have hcols : numCols = 80 := rfl
  have hstart : s.Draws s.grid := h.draws_grid
  constructor
  · intro hundone
    have hprinted := h.puts term (by decide) (by decide) text
    have hwide : (s.puts term text).Within (-79) :=
      ⟨by have := hprinted.lo_le; omega, hprinted.x_lt, hprinted.y_nonneg, hprinted.y_lt⟩
    have hrow : (s.puts term text).screenY = s.screenY :=
      (backspaces_screenY hwide text.length).1.symm.trans hundone.y
    have hposition := puts_position h hplain hroom
    have hlt := hprinted.x_lt
    omega
  · intro hfit
    have hx := hstart.x
    have hundone : ((s.puts term text).backspaces term text.length).Draws s.grid := by
      refine hstart.undone hplain (by omega) fun i hi => ?_
      have hat := hblank i hi
      rw [hstart.x, hstart.y] at hat
      rw [← hat]
      rfl
    exact ⟨hundone.x.trans hstart.x.symm, hundone.y.trans hstart.y.symm, hundone.cell⟩

end

theorem blankScreen_printsWithoutScroll : PrintsWithoutScroll 0 [97, 98] (blankScreen 79) := by
  refine ⟨fun _ => by decide, fun h => ?_, trivial⟩
  exact absurd h (by decide)

theorem short_text_is_undone : Undone 0 [97, 98] (blankScreen 0) := by
  have hwithin : (blankScreen 0).Within 0 := ⟨by decide, by decide, by decide, by decide⟩
  have hroom : PrintsWithoutScroll 0 [97, 98] (blankScreen 0) := by
    refine ⟨fun h => ?_, fun h => ?_, trivial⟩
    · exact absurd h (by decide)
    · exact absurd h (by decide)
  have hplain : ∀ c ∈ [(97 : UInt8), 98], ¬IsBreak c :=
    List.forall_mem_cons.mpr ⟨by decide, List.forall_mem_singleton.mpr (by decide)⟩
  exact (backspace_undoes_iff hwithin hplain (fun _ _ => rfl) hroom).mpr (by decide)

/-- A text that wraps is not taken back: the cursor ends to the left of the second row. -/
theorem wrapped_text_is_not_undone : (blankScreen 79).BlankRun 2 ∧
    PrintsWithoutScroll 0 [97, 98] (blankScreen 79) ∧
    (((blankScreen 79).puts 0 [97, 98]).backspaces 0 2).screenX = -1 ∧
    (((blankScreen 79).puts 0 [97, 98]).backspaces 0 2).screenY = 1 ∧
    ¬Undone 0 [97, 98] (blankScreen 79) := by
  refine ⟨fun _ _ => rfl, blankScreen_printsWithoutScroll, rfl, rfl, fun h => ?_⟩
  have hrow : (1 : Int) = 0 := h.y
  exact absurd hrow (by decide)

end Console
end MyLinuxOS
