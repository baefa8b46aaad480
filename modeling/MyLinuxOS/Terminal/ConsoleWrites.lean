import MyLinuxOS.Kernel.Console
import Mathlib.Tactic.Common

/-! Which bytes of memory the console writes to, and where its operations leave the cursor. -/

namespace MyLinuxOS
namespace Console

def InText (a : Int) : Prop := video ≤ a ∧ a < video + 4000

/-- The cursor is in a row of the screen and at most `-lo` columns to the left of it. -/
structure Within (lo : Int) (s : Console) : Prop where
  lo_le : lo ≤ s.screenX
  x_lt : s.screenX < numCols
  y_nonneg : 0 ≤ s.screenY
  y_lt : s.screenY < numRows

def newLine (s : Console) : Console :=
  let s := { s with screenY := s.screenY + 1, screenX := 0 }
  if s.screenY ≥ numRows then scroll s else s

def advance (s : Console) : Console :=
  let x := (s.screenX + 1).tmod numCols
  { s with screenX := x, screenY := (s.screenY + x.tdiv numCols).tmod numRows }

def retreat (s : Console) : Console :=
  let x := (s.screenX - 1).tmod numCols
  { s with screenX := x, screenY := (s.screenY + x.tdiv numCols).tmod numRows }

section
variable (term : Nat) (c : UInt8) (s : Console)

theorem putCell_screenX : (putCell term c s).screenX = s.screenX := by
  unfold putCell
  split <;> rfl

theorem putCell_screenY : (putCell term c s).screenY = s.screenY := by
  unfold putCell
  split <;> rfl

theorem putc_eq : putc term c s = updateCursor
    (if (c = 10 ∨ c = 13) ∨ s.screenX = numCols - 1 then newLine s
      else advance (putCell term c s)) := by
  change updateCursor (if c = 10 ∨ c = 13 then newLine s
    else if s.screenX = numCols - 1 then newLine s else advance (putCell term c s)) = _
  by_cases hnl : c = 10 ∨ c = 13
  · rw [if_pos hnl, if_pos (.inl hnl)]
  · rw [if_neg hnl]
    by_cases hx : s.screenX = numCols - 1
    · rw [if_pos hx, if_pos (.inr hx)]
    · rw [if_neg hx, if_neg (not_or.mpr ⟨hnl, hx⟩)]

theorem backspace_eq : backspace term s = updateCursor (putCell term 32 s.retreat) := rfl

end

/-! ### The cursor -/

section
variable {lo : Int} {s : Console} (term : Nat)

theorem within_of_eq {s : Console} (hlo : lo ≤ 0) (hx : s.screenX = 0) (hy : 0 ≤ s.screenY)
    (hy' : s.screenY < numRows) : s.Within lo where
  lo_le := by omega
  x_lt := by
    rw [hx]
    decide
  y_nonneg := hy
  y_lt := hy'

theorem Within.newLine (hlo : lo ≤ 0) (h : s.Within lo) : s.newLine.Within lo := by
  have hy := h.y_nonneg
  unfold Console.newLine
  by_cases hrow : s.screenY + 1 ≥ numRows
  · have hlast : (0 : Int) ≤ numRows - 1 ∧ numRows - 1 < numRows := by decide
    simp only [if_pos hrow]
    exact within_of_eq hlo rfl hlast.1 hlast.2
  · simp only [if_neg hrow]
    refine within_of_eq hlo rfl ?_ ?_
    · change 0 ≤ s.screenY + 1
      omega
    · change s.screenY + 1 < numRows
      omega

theorem newLine_screenX : s.newLine.screenX = 0 := by
  unfold newLine
  dsimp only
  split <;> rfl

theorem tmod_eq_self {a b : Int} (h : -b < a) (h' : a < b) : a.tmod b = a := by
  rcases Int.le_total 0 a with ha | ha
  · exact Int.tmod_eq_of_lt ha h'
  · have hneg := Int.tmod_eq_of_lt (Int.neg_nonneg_of_nonpos ha) (Int.neg_lt_of_neg_lt h)
    rw [Int.neg_tmod] at hneg
    exact Int.neg_inj.mp hneg

theorem tdiv_eq_zero {a b : Int} (h : -b < a) (h' : a < b) : a.tdiv b = 0 := by
  rcases Int.le_total 0 a with ha | ha
  · exact Int.tdiv_eq_zero_of_lt ha h'
  · have hneg := Int.tdiv_eq_zero_of_lt (Int.neg_nonneg_of_nonpos ha) (Int.neg_lt_of_neg_lt h)
    rw [Int.neg_tdiv] at hneg
    exact Int.neg_eq_zero.mp hneg

theorem moved_eq {x y : Int} (hx : -numCols < x) (hx' : x < numCols) (hy : 0 ≤ y)
    (hy' : y < numRows) :
    x.tmod numCols = x ∧ (y + (x.tmod numCols).tdiv numCols).tmod numRows = y := by
  have hmod := tmod_eq_self hx hx'
  refine ⟨hmod, ?_⟩
  rw [hmod, tdiv_eq_zero hx hx', Int.add_zero]
  exact Int.tmod_eq_of_lt hy hy'

theorem Within.advance_eq (hlo : -79 ≤ lo) (h : s.Within lo) (hx : s.screenX ≠ numCols - 1) :
    s.advance = { s with screenX := s.screenX + 1 } := by
  have hcols : numCols = 80 := rfl
  have hlo' := h.lo_le
  have hx' := h.x_lt
  obtain ⟨hmod, hrow⟩ := moved_eq (x := s.screenX + 1) (y := s.screenY) (by omega) (by omega)
    h.y_nonneg h.y_lt
  rw [advance, hrow, hmod]

theorem Within.retreat_eq (h : s.Within (-79)) (hx : s.screenX ≠ -79) :
    s.retreat = { s with screenX := s.screenX - 1 } := by
  have hcols : numCols = 80 := rfl
  have hlo' := h.lo_le
  have hx' := h.x_lt
  obtain ⟨hmod, hrow⟩ := moved_eq (x := s.screenX - 1) (y := s.screenY) (by omega) (by omega)
    h.y_nonneg h.y_lt
  rw [retreat, hrow, hmod]

theorem Within.retreat_eq_zero (h : s.Within (-79)) (hx : s.screenX = -79) :
    s.retreat = { s with screenX := 0 } := by
  have hmod : (s.screenX - 1).tmod numCols = 0 := by
    rw [hx]
    rfl
  have hdiv : (0 : Int).tdiv numCols = 0 := rfl
  rw [retreat, hmod, hdiv, Int.add_zero, Int.tmod_eq_of_lt h.y_nonneg h.y_lt]

theorem Within.of_screenX {x : Int} (h : s.Within lo) (hx : lo ≤ x) (hx' : x < numCols) :
    Within lo { s with screenX := x } := ⟨hx, hx', h.y_nonneg, h.y_lt⟩

theorem within_putCell {c : UInt8} : (putCell term c s).Within lo ↔ s.Within lo := by
  have hx := putCell_screenX term c s
  have hy := putCell_screenY term c s
  constructor
  · rintro ⟨h₁, h₂, h₃, h₄⟩
    rw [hx] at h₁ h₂
    rw [hy] at h₃ h₄
    exact ⟨h₁, h₂, h₃, h₄⟩
  · rintro ⟨h₁, h₂, h₃, h₄⟩
    rw [← hx] at h₁ h₂
    rw [← hy] at h₃ h₄
    exact ⟨h₁, h₂, h₃, h₄⟩

theorem updateCursor_screenX : s.updateCursor.screenX = s.screenX := rfl

theorem within_updateCursor : s.updateCursor.Within lo ↔ s.Within lo :=
  ⟨fun h => ⟨h.lo_le, h.x_lt, h.y_nonneg, h.y_lt⟩,
    fun h => ⟨h.lo_le, h.x_lt, h.y_nonneg, h.y_lt⟩⟩

theorem Within.putc (hlo : -79 ≤ lo) (hlo' : lo ≤ 0) (h : s.Within lo) (c : UInt8) :
    (Console.putc term c s).Within lo := by
  rw [putc_eq, within_updateCursor]
  split
  · exact h.newLine hlo'
  · rename_i hc
    have hcell := (within_putCell term (c := c)).mpr h
    have hx : (putCell term c s).screenX ≠ numCols - 1 := by
      rw [putCell_screenX]
      exact fun he => hc (.inr he)
    have hcols := hcell.x_lt
    have hlo₂ := hcell.lo_le
    rw [hcell.advance_eq hlo hx]
    exact hcell.of_screenX (by omega) (by omega)

theorem Within.puts (hlo : -79 ≤ lo) (hlo' : lo ≤ 0) (h : s.Within lo) (text : List UInt8) :
    (Console.puts term text s).Within lo := by
  induction text generalizing s with
  | nil => exact h
  | cons c text ih => exact ih (h.putc term hlo hlo' c)

theorem within_clear (hlo : lo ≤ 0) : (clear term s).Within lo := by
  have hrows : (0 : Int) < numRows := by decide
  exact within_of_eq hlo rfl (Int.le_refl 0) hrows

theorem Within.backspace (h : s.Within (-79)) : (Console.backspace term s).Within (-79) := by
  rw [backspace_eq, within_updateCursor, within_putCell]
  have hlo := h.lo_le
  have hx' := h.x_lt
  by_cases hx : s.screenX = -79
  · rw [h.retreat_eq_zero hx]
    exact h.of_screenX (by decide) (by decide)
  · rw [h.retreat_eq hx]
    exact h.of_screenX (by omega) (by omega)

theorem Within.backspace_iff (h : s.Within 0) :
    (Console.backspace term s).Within 0 ↔ 1 ≤ s.screenX := by
  have hlo := h.lo_le
  have hx' := h.x_lt
  have hwide : s.Within (-79) := ⟨by omega, h.x_lt, h.y_nonneg, h.y_lt⟩
  rw [backspace_eq, within_updateCursor, within_putCell, hwide.retreat_eq (by omega)]
  constructor
  · intro hb
    have hb' : 0 ≤ s.screenX - 1 := hb.lo_le
    omega
  · intro hx
    exact h.of_screenX (by omega) (by omega)

end

/-! ### The bytes -/

section
variable {s : Console} {a : Int} (term : Nat)

theorem poke_vram_of_ne {b : Int} (h : a ≠ b) (c : UInt8) : (s.poke b c).vram a = s.vram a :=
  Function.update_of_ne h ..

theorem putCell_vram {c : UInt8} (h : a ≠ cell s.screenX s.screenY)
    (h' : a ≠ cell s.screenX s.screenY + 1) : (putCell term c s).vram a = s.vram a := by
  unfold putCell
  split
  · exact (poke_vram_of_ne h' _).trans (poke_vram_of_ne h c)
  · exact poke_vram_of_ne h c

theorem foldl_vram {ι : Type} {f : Console → ι → Console} {l : List ι}
    (h : ∀ s, ∀ i ∈ l, (f s i).vram a = s.vram a) : (l.foldl f s).vram a = s.vram a := by
  induction l generalizing s with
  | nil => rfl
  | cons i l ih =>
    have hrest := ih (s := f s i) fun s j hj => h s j (List.mem_cons_of_mem _ hj)
    exact hrest.trans (h s i (List.mem_cons_self ..))

theorem inText_cell {x y : Int} (hx : 0 ≤ x) (hx' : x < numCols) (hy : 0 ≤ y) (hy' : y < numRows) :
    InText (cell x y) ∧ InText (cell x y + 1) := by
  have hcols : numCols = 80 := rfl
  have hrows : numRows = 25 := rfl
  have hcell : cell x y = video + 2 * (80 * y + x) := rfl
  unfold InText
  omega

theorem scroll_vram (h : ¬ InText a) : (scroll s).vram a = s.vram a := by
  have hne : ∀ x y : Int, 0 ≤ x → x < numCols → 0 ≤ y → y < numRows → a ≠ cell x y := by
    rintro x y hx hx' hy hy' rfl
    exact h (inText_cell hx hx' hy hy').1
  have hcols : numCols = 80 := rfl
  have hrows : numRows = 25 := rfl
  unfold scroll
  dsimp only
  refine Eq.trans (foldl_vram fun s x hx => ?_)
    (foldl_vram fun s y hy => foldl_vram fun s x hx => ?_)
  · have hx := List.mem_range.mp hx
    exact poke_vram_of_ne (hne _ _ (by omega) (by omega) (by decide) (by decide)) _
  · have hx := List.mem_range.mp hx
    have hy := List.mem_range.mp hy
    exact poke_vram_of_ne (hne _ _ (by omega) (by omega) (by omega) (by omega)) _

theorem clear_vram (h : ¬ InText a) : (clear term s).vram a = s.vram a := by
  unfold clear updateCursor
  dsimp only
  refine foldl_vram fun s i hi => ?_
  simp only [List.pure_def, List.bind_eq_flatMap, List.mem_flatMap, List.mem_range,
    List.mem_singleton] at hi
  obtain ⟨n, hn, rfl⟩ := hi
  have hchar : a ≠ video + 2 * (n : Int) := by
    rintro rfl
    exact h ⟨by omega, by omega⟩
  have hcolour : a ≠ video + 2 * (n : Int) + 1 := by
    rintro rfl
    exact h ⟨by omega, by omega⟩
  split
  · exact (poke_vram_of_ne hcolour _).trans (poke_vram_of_ne hchar _)
  · exact poke_vram_of_ne hchar _

theorem newLine_vram (h : ¬ InText a) : s.newLine.vram a = s.vram a := by
  unfold newLine
  dsimp only
  split
  · exact scroll_vram h
  · rfl

theorem putc_vram {c : UInt8} (h : ¬ InText a) (h₁ : a ≠ cell s.screenX s.screenY)
    (h₂ : a ≠ cell s.screenX s.screenY + 1) : (putc term c s).vram a = s.vram a := by
  rw [putc_eq]
  change Console.vram (if _ then _ else _) a = _
  split
  · exact newLine_vram h
  · exact putCell_vram term h₁ h₂

theorem backspace_vram (h₁ : a ≠ cell s.retreat.screenX s.retreat.screenY)
    (h₂ : a ≠ cell s.retreat.screenX s.retreat.screenY + 1) :
    (backspace term s).vram a = s.vram a := by
  rw [backspace_eq]
  exact putCell_vram term h₁ h₂

/-- Even to the left of the screen, the cursor stays below the pages behind it. -/
theorem cell_lt {x y : Int} (hx : x < numCols) (hy : y < numRows) :
    cell x y + 1 < video + 4000 := by
  have hcols : numCols = 80 := rfl
  have hrows : numRows = 25 := rfl
  have hcell : cell x y = video + 2 * (80 * y + x) := rfl
  omega

end

end Console
end MyLinuxOS
