import Mathlib.Data.List.Basic

/-! Partial deterministic machines that answer each input, and what holds along their runs. -/

namespace Foundation

abbrev Machine (σ ι ο : Type*) := σ → ι → Option (ο × σ)

namespace Machine
variable {σ ι ο τ : Type*} (M : Machine σ ι ο)

def run : σ → List ι → Option (List ο × σ)
  | s, [] => some ([], s)
  | s, i :: is => (M s i).bind fun (o, s') => (run s' is).map fun (os, t) => (o :: os, t)

def Always (P : σ → ι → ο → σ → Prop) : σ → List ι → Prop
  | _, [] => True
  | s, i :: is => ∀ o s', M s i = some (o, s') → P s i o s' ∧ Always P s' is

variable {M}

theorem run_cons_eq_some {s t : σ} {i : ι} {is : List ι} {os : List ο} :
    M.run s (i :: is) = some (os, t) ↔
      ∃ o s' os', M s i = some (o, s') ∧ M.run s' is = some (os', t) ∧ os = o :: os' := by
  simp only [run, Option.bind_eq_some_iff, Option.map_eq_some_iff, Prod.exists, Prod.mk.injEq]
  constructor
  · rintro ⟨o, s', h, os', t', hrun, rfl, rfl⟩
    exact ⟨o, s', os', h, hrun, rfl⟩
  · rintro ⟨o, s', os', h, hrun, rfl⟩
    exact ⟨o, s', h, os', t, hrun, rfl, rfl⟩

theorem run_append_eq_some {s t : σ} {is js : List ι} {os : List ο} :
    M.run s (is ++ js) = some (os, t) ↔
      ∃ u os₁ os₂, M.run s is = some (os₁, u) ∧ M.run u js = some (os₂, t) ∧ os = os₁ ++ os₂ := by
  induction is generalizing s os with
  | nil =>
    constructor
    · intro h; exact ⟨s, [], os, rfl, h, rfl⟩
    · rintro ⟨u, os₁, os₂, h₁, h₂, rfl⟩
      cases h₁
      exact h₂
  | cons i is ih =>
    rw [List.cons_append, run_cons_eq_some]
    constructor
    · rintro ⟨o, s', os', hstep, hrun, rfl⟩
      obtain ⟨u, os₁, os₂, h₁, h₂, rfl⟩ := ih.mp hrun
      exact ⟨u, o :: os₁, os₂, run_cons_eq_some.mpr ⟨o, s', os₁, hstep, h₁, rfl⟩, h₂, rfl⟩
    · rintro ⟨u, os₁, os₂, h₁, h₂, rfl⟩
      obtain ⟨o, s', os', hstep, hrun, rfl⟩ := run_cons_eq_some.mp h₁
      exact ⟨o, s', os' ++ os₂, hstep, ih.mpr ⟨u, os', os₂, hrun, h₂, rfl⟩, rfl⟩

theorem run_invariant (Inv : σ → Prop)
    (hstep : ∀ s i o s', Inv s → M s i = some (o, s') → Inv s') {s t : σ} {is : List ι}
    {os : List ο} (hs : Inv s) (hrun : M.run s is = some (os, t)) : Inv t := by
  induction is generalizing s os with
  | nil => cases hrun; exact hs
  | cons i is ih =>
    obtain ⟨o, s', os', hi, hrest, -⟩ := run_cons_eq_some.mp hrun
    exact ih (hstep s i o s' hs hi) hrest

/-- Two properties of the steps agree along every run as soon as they agree at the states of an
invariant that the second one maintains. -/
theorem always_iff {P Q : σ → ι → ο → σ → Prop} (Inv : σ → Prop)
    (hstep : ∀ s i o s', Inv s → M s i = some (o, s') →
      (P s i o s' ↔ Q s i o s') ∧ (Q s i o s' → Inv s'))
    {s : σ} {is : List ι} (hs : Inv s) : M.Always P s is ↔ M.Always Q s is := by
  induction is generalizing s with
  | nil => exact Iff.rfl
  | cons i is ih =>
    simp only [Always]
    constructor
    · intro h o s' hi
      obtain ⟨hP, hrest⟩ := h o s' hi
      obtain ⟨hiff, hinv⟩ := hstep s i o s' hs hi
      exact ⟨hiff.mp hP, (ih (hinv (hiff.mp hP))).mp hrest⟩
    · intro h o s' hi
      obtain ⟨hQ, hrest⟩ := h o s' hi
      obtain ⟨hiff, hinv⟩ := hstep s i o s' hs hi
      exact ⟨hiff.mpr hQ, (ih (hinv hQ)).mpr hrest⟩

theorem always_of_forall {P : σ → ι → ο → σ → Prop} {is : List ι}
    (h : ∀ i ∈ is, ∀ s o s', P s i o s') (s : σ) : M.Always P s is := by
  induction is generalizing s with
  | nil => trivial
  | cons i is ih =>
    intro o s' _
    exact ⟨h i (List.mem_cons_self ..) s o s',
      ih (fun j hj => h j (List.mem_cons_of_mem _ hj)) s'⟩

theorem always_iff_on {P Q R : σ → ι → ο → σ → Prop} (Inv : σ → Prop)
    (hstep : ∀ s i o s', Inv s → M s i = some (o, s') → R s i o s' →
      (P s i o s' ↔ Q s i o s') ∧ (Q s i o s' → Inv s'))
    {s : σ} {is : List ι} (hs : Inv s) (hR : M.Always R s is) :
    M.Always P s is ↔ M.Always Q s is := by
  induction is generalizing s with
  | nil => exact Iff.rfl
  | cons i is ih =>
    simp only [Always] at hR ⊢
    constructor
    · intro h o s' hi
      obtain ⟨hP, hrest⟩ := h o s' hi
      obtain ⟨hr, hRrest⟩ := hR o s' hi
      obtain ⟨hiff, hinv⟩ := hstep s i o s' hs hi hr
      exact ⟨hiff.mp hP, (ih (hinv (hiff.mp hP)) hRrest).mp hrest⟩
    · intro h o s' hi
      obtain ⟨hQ, hrest⟩ := h o s' hi
      obtain ⟨hr, hRrest⟩ := hR o s' hi
      obtain ⟨hiff, hinv⟩ := hstep s i o s' hs hi hr
      exact ⟨hiff.mpr hQ, (ih (hinv hQ) hRrest).mpr hrest⟩

theorem always_of_invariant {P : σ → ι → ο → σ → Prop} (Inv : σ → Prop)
    (hstep : ∀ s i o s', Inv s → M s i = some (o, s') → P s i o s' ∧ Inv s') {s : σ} {is : List ι}
    (hs : Inv s) : M.Always P s is := by
  induction is generalizing s with
  | nil => trivial
  | cons i is ih =>
    intro o s' hi
    obtain ⟨hp, hinv⟩ := hstep s i o s' hs hi
    exact ⟨hp, ih hinv⟩

theorem always_mono {P Q : σ → ι → ο → σ → Prop} (Inv : σ → Prop)
    (hstep : ∀ s i o s', Inv s → M s i = some (o, s') → Q s i o s' → P s i o s' ∧ Inv s')
    {s : σ} {is : List ι} (hs : Inv s) (hQ : M.Always Q s is) : M.Always P s is := by
  induction is generalizing s with
  | nil => trivial
  | cons i is ih =>
    intro o s' hi
    obtain ⟨hq, hrest⟩ := hQ o s' hi
    obtain ⟨hp, hinv⟩ := hstep s i o s' hs hi hq
    exact ⟨hp, ih hinv hrest⟩

inductive SpecRun (Spec : τ → ι → ο → τ → Prop) : τ → List ι → List ο → τ → Prop
  | nil (a : τ) : SpecRun Spec a [] [] a
  | cons {a b c : τ} {i : ι} {o : ο} {is : List ι} {os : List ο} :
      Spec a i o b → SpecRun Spec b is os c → SpecRun Spec a (i :: is) (o :: os) c

/-- Forward simulation: a machine whose steps the specification matches through `abs`, under an
invariant the steps keep, refines it along whole runs. -/
theorem run_refines {Spec : τ → ι → ο → τ → Prop} (Inv : σ → Prop) (abs : σ → τ)
    (hstep : ∀ s i o s', Inv s → M s i = some (o, s') → Inv s' ∧ Spec (abs s) i o (abs s'))
    {s t : σ} {is : List ι} {os : List ο} (hs : Inv s) (hrun : M.run s is = some (os, t)) :
    Inv t ∧ SpecRun Spec (abs s) is os (abs t) := by
  induction is generalizing s os with
  | nil => cases hrun; exact ⟨hs, .nil _⟩
  | cons i is ih =>
    obtain ⟨o, s', os', hi, hrest, rfl⟩ := run_cons_eq_some.mp hrun
    obtain ⟨hinv, hspec⟩ := hstep s i o s' hs hi
    obtain ⟨ht, hruns⟩ := ih hinv hrest
    exact ⟨ht, .cons hspec hruns⟩

end Machine
end Foundation
