import Mathlib.Order.Basic

/-! Least-index search: the value of a C loop that scans a range of indices upward and stops at
the first one that satisfies a test. -/

namespace Foundation

def firstFrom (p : Nat → Prop) [DecidablePred p] : Nat → Nat → Option Nat
  | 0, _ => none
  | n + 1, lo => if p lo then some lo else firstFrom p n (lo + 1)

variable {p : Nat → Prop} [DecidablePred p]

theorem firstFrom_eq_none_iff {n lo : Nat} :
    firstFrom p n lo = none ↔ ∀ j, lo ≤ j → j < lo + n → ¬ p j := by
  induction n generalizing lo with
  | zero => simp only [firstFrom, true_iff]; intro j h₁ h₂; omega
  | succ n ih =>
    rw [firstFrom]
    by_cases h : p lo
    · rw [if_pos h]
      constructor
      · intro he; exact absurd he (by simp)
      · intro hall; exact absurd h (hall lo (Nat.le_refl _) (by omega))
    · rw [if_neg h, ih]
      constructor
      · intro hall j h₁ h₂
        rcases Nat.eq_or_lt_of_le h₁ with rfl | hlt
        · exact h
        · exact hall j hlt (by omega)
      · intro hall j h₁ h₂
        exact hall j (by omega) (by omega)

theorem firstFrom_eq_some_iff {n lo i : Nat} :
    firstFrom p n lo = some i ↔ lo ≤ i ∧ i < lo + n ∧ p i ∧ ∀ j, lo ≤ j → j < i → ¬ p j := by
  induction n generalizing lo with
  | zero =>
    simp only [firstFrom]
    constructor
    · intro h; exact absurd h (by simp)
    · rintro ⟨h₁, h₂, -, -⟩; omega
  | succ n ih =>
    rw [firstFrom]
    by_cases h : p lo
    · rw [if_pos h]
      constructor
      · intro he
        obtain rfl := Option.some.inj he
        exact ⟨Nat.le_refl _, by omega, h, fun j h₁ h₂ => by omega⟩
      · rintro ⟨h₁, -, -, hmin⟩
        rcases Nat.eq_or_lt_of_le h₁ with rfl | hlt
        · rfl
        · exact absurd h (hmin lo (Nat.le_refl _) hlt)
    · rw [if_neg h, ih]
      constructor
      · rintro ⟨h₁, h₂, hi, hmin⟩
        refine ⟨by omega, by omega, hi, fun j hj₁ hj₂ => ?_⟩
        rcases Nat.eq_or_lt_of_le hj₁ with rfl | hlt
        · exact h
        · exact hmin j hlt hj₂
      · rintro ⟨h₁, h₂, hi, hmin⟩
        have hne : lo ≠ i := fun he => h (he ▸ hi)
        exact ⟨by omega, by omega, hi, fun j hj₁ hj₂ => hmin j (by omega) hj₂⟩

end Foundation
