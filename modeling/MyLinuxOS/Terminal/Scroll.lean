import MyLinuxOS.Terminal.ConsoleWrites

/-! What `scroll` leaves in the text area. The loop goes from the top row down, so each row is read
before it is overwritten, but it moves the characters without their colours. -/

namespace MyLinuxOS
namespace Console

theorem cell_inj {x y x' y' : Nat} (hx : x < 80) (hx' : x' < 80) (h : cell x y = cell x' y') :
    x = x' ∧ y = y' := by
  unfold cell numCols at h
  omega

theorem cell_ne_colour (x y x' y' : Int) : cell x y ≠ cell x' y' + 1 := by
  unfold cell numCols
  omega

def scrollRow (y n : Nat) (s : Console) : Console :=
  (List.range n).foldl (fun s (x : Nat) => s.poke (cell x y) (s.vram (cell x (y + 1)))) s

def scrollRows (m n : Nat) (s : Console) : Console :=
  (List.range m).foldl (fun s y => scrollRow y n s) s

def blankRow (y : Int) (n : Nat) (s : Console) : Console :=
  (List.range n).foldl (fun s (x : Nat) => s.poke (cell x y) 32) s

theorem scroll_vram_eq (s : Console) :
    s.scroll.vram = ((s.scrollRows 24 80).blankRow (numRows - 1) 80).vram := rfl

theorem scrollRow_succ (y n : Nat) (s : Console) : s.scrollRow y (n + 1) =
    (s.scrollRow y n).poke (cell n y) ((s.scrollRow y n).vram (cell n (y + 1))) := by
  rw [scrollRow, List.range_succ, List.foldl_append]
  rfl

theorem scrollRows_succ (m n : Nat) (s : Console) :
    s.scrollRows (m + 1) n = (s.scrollRows m n).scrollRow m n := by
  rw [scrollRows, List.range_succ, List.foldl_append]
  rfl

theorem blankRow_succ (y : Int) (n : Nat) (s : Console) :
    s.blankRow y (n + 1) = (s.blankRow y n).poke (cell n y) 32 := by
  rw [blankRow, List.range_succ, List.foldl_append]
  rfl

section loops
variable (s : Console)

theorem scrollRow_vram (y : Nat) {n : Nat} (hn : n ≤ 80) :
    (∀ x < n, (s.scrollRow y n).vram (cell (x : Nat) y) = s.vram (cell (x : Nat) (y + 1))) ∧
      ∀ a, (∀ x < n, a ≠ cell (x : Nat) y) → (s.scrollRow y n).vram a = s.vram a := by
  induction n with
  | zero => exact ⟨fun x hx => absurd hx (Nat.not_lt_zero x), fun _ _ => rfl⟩
  | succ n ih =>
    obtain ⟨hmoved, hkept⟩ := ih (by omega)
    rw [scrollRow_succ]
    refine ⟨fun x hx => ?_, fun a ha => ?_⟩
    · by_cases hlast : x = n
      · subst hlast
        refine (Function.update_self ..).trans (hkept _ fun x' hx' he => ?_)
        have hrow := (cell_inj (y := y + 1) (by omega) (by omega) he).2
        omega
      · have hne : cell x y ≠ cell n y := fun he =>
          hlast (cell_inj (by omega) (by omega) he).1
        exact (poke_vram_of_ne hne _).trans (hmoved x (by omega))
    · exact (poke_vram_of_ne (ha n (by omega)) _).trans
        (hkept a fun x hx => ha x (by omega))

/-- The rows are handled from the top, so each is still as it was when it is moved. -/
theorem scrollRows_vram (m : Nat) :
    (∀ y < m, ∀ x < 80, (s.scrollRows m 80).vram (cell (x : Nat) (y : Nat)) =
        s.vram (cell (x : Nat) (y + 1))) ∧
      ∀ a, (∀ y < m, ∀ x < 80, a ≠ cell (x : Nat) (y : Nat)) →
        (s.scrollRows m 80).vram a = s.vram a := by
  induction m with
  | zero => exact ⟨fun y hy => absurd hy (Nat.not_lt_zero y), fun _ _ => rfl⟩
  | succ m ih =>
    obtain ⟨hmoved, hkept⟩ := ih
    obtain ⟨hrow, hrest⟩ := (s.scrollRows m 80).scrollRow_vram m (Nat.le_refl 80)
    rw [scrollRows_succ]
    refine ⟨fun y hy x hx => ?_, fun a ha => ?_⟩
    · by_cases hlast : y = m
      · subst hlast
        refine (hrow x hx).trans (hkept _ fun y' hy' x' hx' he => ?_)
        have hsame := (cell_inj (y := y + 1) hx hx' he).2
        omega
      · refine (hrest _ fun x' hx' he => hlast (cell_inj hx hx' he).2).trans ?_
        exact hmoved y (by omega) x hx
    · exact (hrest a fun x hx => ha m (by omega) x hx).trans
        (hkept a fun y hy x hx => ha y (by omega) x hx)

theorem blankRow_vram (y : Int) (n : Nat) :
    (∀ x < n, (s.blankRow y n).vram (cell (x : Nat) y) = 32) ∧
      ∀ a, (∀ x < n, a ≠ cell (x : Nat) y) → (s.blankRow y n).vram a = s.vram a := by
  induction n with
  | zero => exact ⟨fun x hx => absurd hx (Nat.not_lt_zero x), fun _ _ => rfl⟩
  | succ n ih =>
    obtain ⟨hblank, hkept⟩ := ih
    rw [blankRow_succ]
    refine ⟨fun x hx => ?_, fun a ha => ?_⟩
    · by_cases hlast : x = n
      · subst hlast
        exact Function.update_self ..
      · have hne : cell (x : Nat) y ≠ cell (n : Nat) y := fun he => by
          unfold cell numCols at he
          omega
        exact (poke_vram_of_ne hne _).trans (hblank x (by omega))
    · exact (poke_vram_of_ne (ha n (by omega)) _).trans
        (hkept a fun x hx => ha x (by omega))

end loops

section scroll
variable (s : Console) {x y : Nat}

theorem scroll_char (hx : x < 80) (hy : y < 24) :
    s.scroll.vram (cell x y) = s.vram (cell x (y + 1)) := by
  obtain ⟨-, hkept⟩ := (s.scrollRows 24 80).blankRow_vram (numRows - 1) 80
  rw [scroll_vram_eq, hkept _ fun x' hx' he => ?_, (s.scrollRows_vram 24).1 y hy x hx]
  have hrow : y = 24 := (cell_inj hx hx' he).2
  omega

theorem scroll_bottom (hx : x < 80) : s.scroll.vram (cell x 24) = 32 := by
  rw [scroll_vram_eq]
  exact ((s.scrollRows 24 80).blankRow_vram (numRows - 1) 80).1 x hx

theorem scroll_colour (x y : Int) : s.scroll.vram (cell x y + 1) = s.vram (cell x y + 1) := by
  obtain ⟨-, hkept⟩ := (s.scrollRows 24 80).blankRow_vram (numRows - 1) 80
  rw [scroll_vram_eq, hkept _ fun x' _ he => cell_ne_colour x' _ x y he.symm,
    (s.scrollRows_vram 24).2 _ fun y' _ x' _ he => cell_ne_colour x' y' x y he.symm]

end scroll

/-- A scroll moves the characters and the colours up by one row, blanks the bottom row, puts the
cursor there and keeps to the text area. -/
structure MovesWholeCells (s : Console) : Prop where
  chars : ∀ x < 80, ∀ y < 24,
    s.scroll.vram (cell (x : Nat) (y : Nat)) = s.vram (cell (x : Nat) (y + 1 : Nat))
  colours : ∀ x < 80, ∀ y < 24,
    s.scroll.vram (cell (x : Nat) (y : Nat) + 1) = s.vram (cell (x : Nat) (y + 1 : Nat) + 1)
  bottom : ∀ x < 80, s.scroll.vram (cell (x : Nat) 24) = 32
  cursor : s.scroll.screenX = 0 ∧ s.scroll.screenY = 24
  outside : ∀ a, ¬InText a → s.scroll.vram a = s.vram a

/-- Whole cells are moved if and only if every cell has the colour of the cell below it. -/
theorem moves_whole_cells_iff (s : Console) : MovesWholeCells s ↔ ∀ x < 80, ∀ y < 24,
    s.vram (cell (x : Nat) (y : Nat) + 1) = s.vram (cell (x : Nat) (y + 1 : Nat) + 1) := by
  constructor
  · intro h x hx y hy
    rw [← h.colours x hx y hy, scroll_colour]
  · intro h
    refine ⟨fun x hx y hy => ?_, fun x hx y hy => ?_, fun x hx => scroll_bottom s hx, ⟨rfl, rfl⟩,
      fun a ha => scroll_vram ha⟩
    · rw [scroll_char s hx hy, Int.natCast_succ]
    · rw [scroll_colour, h x hx y hy]

/-- A screen whose second row alone is red: the row moves up, and its colour stays behind. -/
theorem colours_stay_behind : ∃ s : Console, ¬MovesWholeCells s ∧
    s.vram (cell 0 1 + 1) = 0x4 ∧ s.scroll.vram (cell 0 0 + 1) = 0x2 := by
  let s : Console := ⟨fun a => if a = cell 0 1 + 1 then 0x4 else 0x2, 0, 24, 0⟩
  have hred : s.vram (cell 0 1 + 1) = 0x4 := by decide
  have hgreen : s.vram (cell 0 0 + 1) = 0x2 := by decide
  refine ⟨s, fun h => ?_, hred, (scroll_colour s 0 0).trans hgreen⟩
  have hmoved : s.scroll.vram (cell 0 0 + 1) = s.vram (cell 0 1 + 1) :=
    h.colours 0 (by decide) 0 (by decide)
  rw [scroll_colour, hgreen, hred] at hmoved
  exact absurd hmoved (by decide)

end Console
end MyLinuxOS
