import Mathlib.Data.List.Basic

/-! Programs as the calls they make, and total correctness over a world that answers the calls,
possibly in several ways. -/

namespace Foundation

/-- A program is done, or makes a call and goes on with the answer; `spent` is a loop that has used
up the turns it was given. -/
inductive Program (C A α : Type)
  | ret (value : α)
  | call (c : C) (next : A → Program C A α)
  | spent

/-- How calls may be answered: the state before, the call, the answer and the state after. -/
abbrev World (σ C A : Type) := σ → C → A → σ → Prop

namespace Program
variable {σ C A α β : Type}

def bind : Program C A α → (α → Program C A β) → Program C A β
  | ret value, f => f value
  | call c next, f => call c fun a => (next a).bind f
  | spent, _ => spent

def through {D : Type} (f : C → D) : Program C A α → Program D A α
  | ret value => ret value
  | call c next => call (f c) fun a => (next a).through f
  | spent => spent

/-- `while (1)` for at most `turns` turns: the body goes on with `.inl` or leaves with `.inr`. -/
def loop (body : β → Program C A (β ⊕ α)) : (turns : Nat) → β → Program C A α
  | 0, _ => spent
  | turns + 1, b => (body b).bind fun
    | .inl b' => loop body turns b'
    | .inr value => ret value

def iterate (body : β → Program C A (β ⊕ α)) : (turns : Nat) → β → Program C A (β ⊕ α)
  | 0, b => ret (.inl b)
  | turns + 1, b => (body b).bind fun
    | .inl b' => iterate body turns b'
    | .inr value => ret (.inr value)

inductive Runs (W : World σ C A) : σ → Program C A α → List (C × A) → α → σ → Prop
  | ret (s : σ) (value : α) : Runs W s (ret value) [] value s
  | call {s t u : σ} {c : C} {a : A} {next : A → Program C A α} {trace : List (C × A)}
      {value : α} : W s c a t → Runs W t (next a) trace value u →
      Runs W s (call c next) ((c, a) :: trace) value u

/-- Each call is answered, and whatever the answers are, the program ends with `Q`. -/
def Ensures (W : World σ C A) : Program C A α → (List (C × A) → α → σ → Prop) → σ → Prop
  | ret value, Q, s => Q [] value s
  | call c next, Q, s => (∃ a t, W s c a t) ∧
      ∀ a t, W s c a t → (next a).Ensures W (fun trace => Q ((c, a) :: trace)) t
  | spent, _, _ => False

def Answers (W : World σ C A) (s : σ) (c : C) (P : A → σ → Prop) : Prop :=
  (∃ a t, W s c a t) ∧ ∀ a t, W s c a t → P a t

variable {W : World σ C A} {s : σ}

/-! ### What the predicate says about executions -/

theorem Ensures.mono {p : Program C A α} {Q R : List (C × A) → α → σ → Prop}
    (h : p.Ensures W Q s) (himp : ∀ trace value t, Q trace value t → R trace value t) :
    p.Ensures W R s := by
  induction p generalizing Q R s with
  | ret value => exact himp _ _ _ h
  | call c next ih =>
    refine ⟨h.1, fun a t hstep => ?_⟩
    exact ih a (h.2 a t hstep) fun trace value u hq => himp _ _ _ hq
  | spent => exact h

theorem ensures_bind_iff {p : Program C A α} {f : α → Program C A β}
    {Q : List (C × A) → β → σ → Prop} : (p.bind f).Ensures W Q s ↔
      p.Ensures W (fun trace value t =>
        (f value).Ensures W (fun trace' => Q (trace ++ trace')) t) s := by
  induction p generalizing Q s with
  | ret value => exact Iff.rfl
  | call c next ih =>
    exact and_congr_right fun _ => forall_congr' fun a => forall_congr' fun t =>
      forall_congr' fun _ => ih a
  | spent => exact Iff.rfl

theorem Ensures.bind {p : Program C A α} {f : α → Program C A β}
    {Q : List (C × A) → β → σ → Prop}
    (h : p.Ensures W (fun trace value t =>
      (f value).Ensures W (fun trace' => Q (trace ++ trace')) t) s) :
    (p.bind f).Ensures W Q s := ensures_bind_iff.mpr h

theorem Answers.mono {c : C} {P R : A → σ → Prop} (h : Answers W s c P)
    (himp : ∀ a t, P a t → R a t) : Answers W s c R :=
  ⟨h.1, fun a t hstep => himp a t (h.2 a t hstep)⟩

theorem Answers.call {c : C} {next : A → Program C A α} {P : A → σ → Prop}
    {Q : List (C × A) → α → σ → Prop} (h : Answers W s c P)
    (hnext : ∀ a t, P a t → (next a).Ensures W (fun trace => Q ((c, a) :: trace)) t) :
    (call c next).Ensures W Q s :=
  ⟨h.1, fun a t hstep => hnext a t (h.2 a t hstep)⟩

section loop
variable {body : β → Program C A (β ⊕ α)} (Inv : Nat → List (C × A) → β → σ → Prop)
  (Q : List (C × A) → α → σ → Prop)

/-- One turn, behind the calls of the past: it takes the invariant's counter down or leaves the
loop. -/
def Turns (W : World σ C A) (body : β → Program C A (β ⊕ α)) : Prop :=
  ∀ n past b s, Inv n past b s → (body b).Ensures W (fun trace r t =>
    match r with
    | .inl b' => ∃ m < n, Inv m (past ++ trace) b' t
    | .inr value => Q (past ++ trace) value t) s

theorem ensures_loop_behind (hbody : Turns Inv Q W body) {n turns : Nat} {past : List (C × A)}
    {b : β} (hinv : Inv n past b s) (hturns : n < turns) :
    (loop body turns b).Ensures W (fun trace => Q (past ++ trace)) s := by
  induction turns generalizing n past b s with
  | zero => omega
  | succ turns ih =>
    rw [loop]
    refine Ensures.bind ((hbody n past b s hinv).mono fun trace r t hr => ?_)
    cases r with
    | inl b' =>
      obtain ⟨m, hm, hnext⟩ := hr
      simp only [← List.append_assoc]
      exact ih hnext (by omega)
    | inr value =>
      have hq : Q (past ++ (trace ++ [])) value t := by
        rw [List.append_nil]
        exact hr
      exact hq

theorem ensures_loop (hbody : Turns Inv Q W body) {n turns : Nat} {b : β} (hinv : Inv n [] b s)
    (hturns : n < turns) : (loop body turns b).Ensures W Q s :=
  ensures_loop_behind Inv Q hbody hinv hturns

end loop

end Program
end Foundation
