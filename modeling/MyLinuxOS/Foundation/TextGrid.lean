import Mathlib.Logic.Function.Basic
import Mathlib.Tactic.Common

/-! Text on a screen of `w` columns and `h` rows. The screen shows the last `h` lines of a page
without end on which nothing ever moves, so what scrolling does is settled once. -/

namespace Foundation

structure TextGrid (β : Type*) where
  cell : Nat → Nat → β
  col : Nat
  row : Nat

namespace TextGrid
variable {β : Type*} (w h : Nat) (blank : β) (isBreak : β → Prop) [DecidablePred isBreak]
  (keeps : Nat → Prop) [DecidablePred keeps]

def next (c : β) (x y : Nat) : Nat × Nat :=
  if isBreak c ∨ x + 1 = w then (0, y + 1) else (x + 1, y)

/-- One character on the page. Only the columns in `keeps` take it. -/
def type (c : β) (g : TextGrid β) : TextGrid β where
  cell := fun x y =>
    if ¬isBreak c ∧ keeps g.col ∧ x = g.col ∧ y = g.row then c else g.cell x y
  col := (next w isBreak c g.col g.row).1
  row := (next w isBreak c g.col g.row).2

def scrolled (g : TextGrid β) : TextGrid β :=
  if g.row < h then g
  else ⟨fun x y => if y + 1 < h then g.cell x (y + 1) else blank, g.col, h - 1⟩

def typeAll (text : List β) (g : TextGrid β) : TextGrid β :=
  text.foldl (fun g c => g.type w isBreak keeps c) g

def display (text : List β) (g : TextGrid β) : TextGrid β :=
  text.foldl (fun g c => (g.type w isBreak keeps c).scrolled h blank) g

/-- The characters of a text with the positions they are meant for, lines counted on. -/
def placed : List β → Nat → Nat → List (Nat × Nat × β)
  | [], _, _ => []
  | c :: text, x, y =>
    let rest := placed text (next w isBreak c x y).1 (next w isBreak c x y).2
    if isBreak c then rest else (x, y, c) :: rest

def lastLine : List β → Nat → Nat → Nat
  | [], _, y => y
  | c :: text, x, y => lastLine text (next w isBreak c x y).1 (next w isBreak c x y).2

def page (g : TextGrid β) : TextGrid β :=
  { g with cell := fun x y => if y < h then g.cell x y else blank }

/-- The screen shows the page from line `p.row - (h - 1)` on. -/
structure Shows (g p : TextGrid β) : Prop where
  col : g.col = p.col
  row : g.row + (p.row - (h - 1)) = p.row
  row_lt : g.row < h
  cell : ∀ x, ∀ y < h, g.cell x y = p.cell x (y + (p.row - (h - 1)))
  below : ∀ x y, p.row < y → h ≤ y → p.cell x y = blank

variable {w h blank isBreak keeps}

theorem shows_page {g : TextGrid β} (hrow : g.row < h) : g.Shows h blank (g.page h blank) where
  col := rfl
  row := by
    change g.row + (g.row - (h - 1)) = g.row
    omega
  row_lt := hrow
  cell := by
    intro x y hy
    have hzero : (g.page h blank).row - (h - 1) = 0 := by
      change g.row - (h - 1) = 0
      omega
    rw [hzero]
    exact (if_pos hy).symm
  below := fun _ _ _ hy => if_neg (Nat.not_lt.mpr hy)

theorem next_eq (w : Nat) (isBreak : β → Prop) [DecidablePred isBreak] (c : β) (x y : Nat) :
    (isBreak c ∨ x + 1 = w) ∧ next w isBreak c x y = (0, y + 1) ∨
      ¬(isBreak c ∨ x + 1 = w) ∧ next w isBreak c x y = (x + 1, y) := by
  unfold next
  split
  · exact .inl ⟨‹_›, rfl⟩
  · exact .inr ⟨‹_›, rfl⟩

theorem type_cell_of_ne {g : TextGrid β} {c : β} {x y : Nat} (hy : y ≠ g.row) :
    (g.type w isBreak keeps c).cell x y = g.cell x y := if_neg fun hc => hy hc.2.2.2

theorem Shows.type_cell {g p : TextGrid β} (hs : g.Shows h blank p) (c : β) (x : Nat) {y : Nat}
    (hy : y < h) : (g.type w isBreak keeps c).cell x y =
      (p.type w isBreak keeps c).cell x (y + (p.row - (h - 1))) := by
  have hrow := hs.row
  have hiff : y = g.row ↔ y + (p.row - (h - 1)) = p.row := by omega
  unfold TextGrid.type
  dsimp only
  rw [hs.col, hs.cell x y hy]
  simp only [hiff]

theorem scrolled_of_lt {g : TextGrid β} (hrow : g.row < h) : g.scrolled h blank = g := if_pos hrow

theorem scrolled_of_ge {g : TextGrid β} (hrow : ¬g.row < h) : g.scrolled h blank =
    ⟨fun x y => if y + 1 < h then g.cell x (y + 1) else blank, g.col, h - 1⟩ := if_neg hrow

theorem Shows.type {g p : TextGrid β} (hs : g.Shows h blank p) (c : β) :
    ((g.type w isBreak keeps c).scrolled h blank).Shows h blank (p.type w isBreak keeps c) := by
  have hrow := hs.row
  have hlt := hs.row_lt
  have hpcol : (p.type w isBreak keeps c).col = (next w isBreak c p.col p.row).1 := rfl
  have hprow : (p.type w isBreak keeps c).row = (next w isBreak c p.col p.row).2 := rfl
  have hgcol : (g.type w isBreak keeps c).col = (next w isBreak c p.col g.row).1 := by
    rw [← hs.col]
    rfl
  have hgrow : (g.type w isBreak keeps c).row = (next w isBreak c p.col g.row).2 := by
    rw [← hs.col]
    rfl
  have hbelow : ∀ x y, p.row < y → h ≤ y → (p.type w isBreak keeps c).cell x y = blank := by
    intro x y hy hhy
    rw [type_cell_of_ne (by omega), hs.below x y hy hhy]
  -- only a break or a full row can reach the bottom, and then the screen scrolls by one row
  rcases next_eq w isBreak c p.col p.row with ⟨hc, hnext⟩ | ⟨hc, hnext⟩
  · have hnext' : next w isBreak c p.col g.row = (0, g.row + 1) := if_pos hc
    rw [hnext] at hpcol hprow
    rw [hnext'] at hgcol hgrow
    by_cases hroom : g.row + 1 < h
    · rw [scrolled_of_lt (by omega)]
      have hsame : p.row + 1 - (h - 1) = p.row - (h - 1) := by omega
      refine ⟨by rw [hgcol, hpcol], by omega, by omega, fun x y hy => ?_, fun x y hy hhy => ?_⟩
      · rw [hprow, hsame, hs.type_cell c x hy]
      · exact hbelow x y (by omega) hhy
    · rw [scrolled_of_ge (by omega)]
      have hup : p.row + 1 - (h - 1) = p.row - (h - 1) + 1 := by omega
      refine ⟨by rw [hgcol, hpcol], ?_, by dsimp only; omega, fun x y hy => ?_,
        fun x y hy hhy => hbelow x y (by omega) hhy⟩
      · dsimp only
        omega
      · dsimp only
        rw [hprow, hup, ← Nat.add_assoc, Nat.add_right_comm]
        by_cases hin : y + 1 < h
        · rw [if_pos hin, hs.type_cell c x hin]
        · rw [if_neg hin, hbelow x _ (by omega) (by omega)]
  · have hnext' : next w isBreak c p.col g.row = (p.col + 1, g.row) := if_neg hc
    rw [hnext] at hpcol hprow
    rw [hnext'] at hgcol hgrow
    rw [scrolled_of_lt (by omega)]
    refine ⟨by rw [hgcol, hpcol], by omega, by omega, fun x y hy => ?_, fun x y hy hhy => ?_⟩
    · rw [hprow, hs.type_cell c x hy]
    · exact hbelow x y (by omega) hhy

theorem Shows.display {g p : TextGrid β} (hs : g.Shows h blank p) (text : List β) :
    (g.display w h blank isBreak keeps text).Shows h blank (p.typeAll w isBreak keeps text) := by
  induction text generalizing g p with
  | nil => exact hs
  | cons c text ih => exact ih (hs.type c)

theorem scrolled_col (g : TextGrid β) : (g.scrolled h blank).col = g.col := by
  unfold scrolled
  split <;> rfl

theorem scrolled_row (g : TextGrid β) :
    (g.scrolled h blank).row = if g.row < h then g.row else h - 1 := by
  unfold scrolled
  split <;> rfl

theorem display_cursor {kept : Nat → Prop} [DecidablePred kept] (text : List β) {g g' : TextGrid β}
    (hcol : g.col = g'.col) (hrow : g.row = g'.row) :
    (g.display w h blank isBreak keeps text).col = (g'.display w h blank isBreak kept text).col ∧
      (g.display w h blank isBreak keeps text).row =
        (g'.display w h blank isBreak kept text).row := by
  induction text generalizing g g' with
  | nil => exact ⟨hcol, hrow⟩
  | cons c text ih =>
    apply ih
    · rw [scrolled_col, scrolled_col]
      unfold TextGrid.type
      rw [hcol, hrow]
    · rw [scrolled_row, scrolled_row]
      unfold TextGrid.type
      rw [hcol, hrow]

/-! ### What is on the page -/

theorem typeAll_row (text : List β) (g : TextGrid β) :
    (g.typeAll w isBreak keeps text).row = lastLine w isBreak text g.col g.row := by
  induction text generalizing g with
  | nil => rfl
  | cons c text ih => exact ih (g.type w isBreak keeps c)

theorem next_after (w : Nat) (isBreak : β → Prop) [DecidablePred isBreak] (c : β) (x y : Nat) :
    y ≤ (next w isBreak c x y).2 ∧
    (y < (next w isBreak c x y).2 ∨ x < (next w isBreak c x y).1) := by
  rcases next_eq w isBreak c x y with ⟨-, hnext⟩ | ⟨-, hnext⟩
  · rw [hnext]
    exact ⟨Nat.le_succ y, .inl (Nat.lt_succ_self y)⟩
  · rw [hnext]
    exact ⟨Nat.le_refl y, .inr (Nat.lt_succ_self x)⟩

theorem le_lastLine (text : List β) (x y : Nat) : y ≤ lastLine w isBreak text x y := by
  induction text generalizing x y with
  | nil => exact Nat.le_refl y
  | cons c text ih => exact Nat.le_trans (next_after w isBreak c x y).1 (ih _ _)

theorem mem_placed_cons {c d : β} {text : List β} {x y x' y' : Nat} :
    (x', y', d) ∈ placed w isBreak (c :: text) x y ↔ (¬isBreak c ∧ x' = x ∧ y' = y ∧ d = c) ∨
      (x', y', d) ∈ placed w isBreak text (next w isBreak c x y).1 (next w isBreak c x y).2 := by
  rw [placed]
  by_cases hc : isBreak c
  · rw [if_pos hc]
    tauto
  · rw [if_neg hc, List.mem_cons, Prod.mk.injEq, Prod.mk.injEq]
    tauto

theorem placed_after {c : β} {text : List β} {x y x' y' : Nat}
    (hc : (x', y', c) ∈ placed w isBreak text x y) : y < y' ∨ y = y' ∧ x ≤ x' := by
  induction text generalizing x y with
  | nil => cases hc
  | cons d text ih =>
    rcases mem_placed_cons.mp hc with ⟨-, rfl, rfl, -⟩ | hrest
    · exact .inr ⟨rfl, Nat.le_refl _⟩
    · have hnext := next_after w isBreak d x y
      have hlater := ih hrest
      omega

theorem placed_le_lastLine {c : β} {text : List β} {x y x' y' : Nat}
    (hc : (x', y', c) ∈ placed w isBreak text x y) : y' ≤ lastLine w isBreak text x y := by
  induction text generalizing x y with
  | nil => cases hc
  | cons d text ih =>
    rcases mem_placed_cons.mp hc with ⟨-, -, rfl, -⟩ | hrest
    · exact Nat.le_trans (next_after w isBreak d x y').1 (le_lastLine text _ _)
    · exact ih hrest

theorem typeAll_cell_of_not {text : List β} {g : TextGrid β} {x y : Nat}
    (hnot : ∀ c, (x, y, c) ∈ placed w isBreak text g.col g.row → ¬keeps x) :
    (g.typeAll w isBreak keeps text).cell x y = g.cell x y := by
  induction text generalizing g with
  | nil => rfl
  | cons c text ih =>
    refine (ih fun d hd => hnot d (mem_placed_cons.mpr (.inr hd))).trans (if_neg ?_)
    rintro ⟨hc, hkeep, rfl, rfl⟩
    exact hnot c (mem_placed_cons.mpr (.inl ⟨hc, rfl, rfl, rfl⟩)) hkeep

theorem typeAll_cell_of_mem {c : β} {text : List β} {g : TextGrid β} {x y : Nat}
    (hc : (x, y, c) ∈ placed w isBreak text g.col g.row) (hkeep : keeps x) :
    (g.typeAll w isBreak keeps text).cell x y = c := by
  induction text generalizing g with
  | nil => cases hc
  | cons d text ih =>
    rcases mem_placed_cons.mp hc with ⟨hd, rfl, rfl, rfl⟩ | hrest
    · let g' := g.type w isBreak keeps c
      have hput : g'.cell g.col g.row = c := if_pos ⟨hd, hkeep, rfl, rfl⟩
      have hrest : (g'.typeAll w isBreak keeps text).cell g.col g.row = g'.cell g.col g.row := by
        refine typeAll_cell_of_not fun d hlater => ?_
        -- what comes after it is put behind it
        have hafter := placed_after hlater
        have hnext := next_after w isBreak c g.col g.row
        have hcol : g'.col = (next w isBreak c g.col g.row).1 := rfl
        have hrow : g'.row = (next w isBreak c g.col g.row).2 := rfl
        omega
      exact hrest.trans hput
    · exact ih hrest

theorem placed_col_lt {c : β} {text : List β} {x y x' y' : Nat} (hx : x < w)
    (hc : (x', y', c) ∈ placed w isBreak text x y) : x' < w := by
  induction text generalizing x y with
  | nil => cases hc
  | cons d text ih =>
    rcases mem_placed_cons.mp hc with ⟨-, rfl, -, -⟩ | hrest
    · exact hx
    · refine ih ?_ hrest
      rcases next_eq w isBreak d x y with ⟨-, hnext⟩ | ⟨hnot, hnext⟩
      · rw [hnext]
        exact Nat.zero_lt_of_lt hx
      · rw [hnext]
        have hne : x + 1 ≠ w := fun he => hnot (.inr he)
        dsimp only
        omega

/-! ### What is on the screen -/

section screen
variable {g : TextGrid β} {text : List β} (hrow : g.row < h)
include hrow

theorem display_cell (x : Nat) {y : Nat} (hy : y < h) :
    (g.display w h blank isBreak keeps text).cell x y =
      ((g.page h blank).typeAll w isBreak keeps text).cell x
        (y + (lastLine w isBreak text g.col g.row - (h - 1))) := by
  have hshows : (g.display w h blank isBreak keeps text).Shows h blank
      ((g.page h blank).typeAll w isBreak keeps text) := (shows_page hrow).display text
  rw [hshows.cell x y hy, typeAll_row]
  rfl

/-- A character in a kept column can be read back until it has scrolled off. -/
theorem display_reads_back {c : β} {x y : Nat}
    (hc : (x, y, c) ∈ placed w isBreak text g.col g.row) (hkeep : keeps x)
    (hy : lastLine w isBreak text g.col g.row ≤ y + (h - 1)) :
    (g.display w h blank isBreak keeps text).cell x
      (y - (lastLine w isBreak text g.col g.row - (h - 1))) = c := by
  have hle := placed_le_lastLine hc
  have hline : y - (lastLine w isBreak text g.col g.row - (h - 1)) +
      (lastLine w isBreak text g.col g.row - (h - 1)) = y := by omega
  rw [display_cell hrow x (by omega), hline]
  exact typeAll_cell_of_mem hc hkeep

/-- A screen that leaves out some columns shows the same as one that keeps them all if and only if
each character left out is either off the screen again or the one that was there before. -/
theorem display_agrees_iff (hcol : g.col < w) :
    (∀ x < w, ∀ y < h, (g.display w h blank isBreak keeps text).cell x y =
        (g.display w h blank isBreak (fun _ => True) text).cell x y) ↔
      ∀ x y c, (x, y, c) ∈ placed w isBreak text g.col g.row → ¬keeps x →
        lastLine w isBreak text g.col g.row ≤ y + (h - 1) → c = (g.page h blank).cell x y := by
  constructor
  · intro hsame x y c hc hkeep hy
    have hle := placed_le_lastLine hc
    have hline : y - (lastLine w isBreak text g.col g.row - (h - 1)) +
        (lastLine w isBreak text g.col g.row - (h - 1)) = y := by omega
    have hcell := hsame x (placed_col_lt hcol hc)
      (y - (lastLine w isBreak text g.col g.row - (h - 1))) (by omega)
    have hfull : (g.display w h blank isBreak (fun _ => True) text).cell x
        (y - (lastLine w isBreak text g.col g.row - (h - 1))) = c :=
      display_reads_back hrow hc trivial hy
    rw [hfull, display_cell hrow x (by omega), hline, typeAll_cell_of_not fun _ _ => hkeep] at hcell
    exact hcell.symm
  · intro hsame x hx y hy
    rw [display_cell hrow x hy, display_cell hrow x hy]
    by_cases hput : ∃ c, (x, y + (lastLine w isBreak text g.col g.row - (h - 1)), c) ∈
        placed w isBreak text g.col g.row
    · obtain ⟨c, hc⟩ := hput
      have hall : ((g.page h blank).typeAll w isBreak (fun _ => True) text).cell x _ = c :=
        typeAll_cell_of_mem hc trivial
      rw [hall]
      by_cases hkeep : keeps x
      · exact typeAll_cell_of_mem hc hkeep
      · rw [typeAll_cell_of_not fun _ _ => hkeep]
        exact (hsame x _ c hc hkeep (by omega)).symm
    · have hnone (kept : Nat → Prop) [DecidablePred kept] :
          ((g.page h blank).typeAll w isBreak kept text).cell x _ = (g.page h blank).cell x _ :=
        typeAll_cell_of_not fun c hc => absurd ⟨c, hc⟩ hput
      rw [hnone, hnone]

end screen

end TextGrid
end Foundation
