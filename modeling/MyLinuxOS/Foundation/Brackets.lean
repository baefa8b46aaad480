import MyLinuxOS.Foundation.Runs

/-! Well-bracketed runs of a machine with opening and closing inputs, such as calls and returns:
either the description of the state is back where it was, or the nesting has been lost and the
height has gone down for good. -/

namespace Foundation
variable {σ ι ο β : Type*}

inductive Balanced (opens closes : ι → Prop) : List ι → Prop
  | nil : Balanced opens closes []
  | bracket {o c : ι} {u v : List ι} : opens o → Balanced opens closes u → closes c →
      Balanced opens closes v → Balanced opens closes (o :: (u ++ c :: v))

/-- A description of the states that closing inputs shrink by one level. An opening input either
adds a level that a matching closing input takes off again, or adds none. -/
structure Nesting (M : Machine σ ι ο) (opens closes : ι → Prop) (R : σ → β → Prop)
    (height : β → Nat) : Prop where
  opening : ∀ s b i o s', R s b → opens i → M s i = some (o, s') → ∃ b', R s' b' ∧
    (height b' ≤ height b ∨ height b' = height b + 1 ∧
      ∀ t j o' t', R t b' → closes j → M t j = some (o', t') → R t' b)
  closing : ∀ s b i o s', R s b → closes i → M s i = some (o, s') →
    ∃ b', R s' b' ∧ height b' + 1 = height b

variable {M : Machine σ ι ο} {opens closes : ι → Prop} {R : σ → β → Prop} {height : β → Nat}

/-- A balanced run restores the description, or ends at a strictly smaller height. -/
theorem Nesting.balanced (N : Nesting M opens closes R height) {w : List ι}
    (hw : Balanced opens closes w) {s t : σ} {b : β} {os : List ο} (hs : R s b)
    (hrun : M.run s w = some (os, t)) : R t b ∨ ∃ b', R t b' ∧ height b' < height b := by
  induction hw generalizing s b os t with
  | nil => cases hrun; exact .inl hs
  | bracket ho _ hc _ ihu ihv =>
    obtain ⟨_, s₁, _, hopen, hrest, -⟩ := Machine.run_cons_eq_some.mp hrun
    obtain ⟨s₂, _, _, hu, hrest', -⟩ := Machine.run_append_eq_some.mp hrest
    obtain ⟨_, s₃, _, hclose, hv, -⟩ := Machine.run_cons_eq_some.mp hrest'
    obtain ⟨b₁, hs₁, hpush⟩ := N.opening _ _ _ _ _ hs ho hopen
    -- a level lost inside the bracket, or never added by its opening input, stays lost
    have lower : ∀ b₂, R s₂ b₂ → height b₂ ≤ height b → ∃ b', R t b' ∧ height b' < height b := by
      intro b₂ hs₂ hle
      obtain ⟨b₃, hs₃, hh⟩ := N.closing _ _ _ _ _ hs₂ hc hclose
      rcases ihv hs₃ hv with ht | ⟨b', ht, hlt⟩
      · exact ⟨b₃, ht, by omega⟩
      · exact ⟨b', ht, by omega⟩
    rcases ihu hs₁ hu with hs₂ | ⟨b₂, hs₂, hlt⟩
    · rcases hpush with hle | ⟨-, hpop⟩
      · exact .inr (lower b₁ hs₂ hle)
      · exact ihv (hpop _ _ _ _ hs₂ hc hclose) hv
    · exact .inr (lower b₂ hs₂ (by omega))

end Foundation
