import Mathlib.Data.List.Nodup
import Mathlib.Data.Fintype.Card
import Mathlib.Logic.Function.Basic

/-! Singly linked lists threaded through nodes: what a pointer reaches by following `next` to the
null pointer, and how linking in and unlinking a node change it. -/

namespace Foundation
variable {α : Type*}

/-- `Linked next p l`: from `p` the links lead through the nodes `l`, in order, to null. -/
inductive Linked (next : α → Option α) : Option α → List α → Prop
  | nil : Linked next none []
  | cons {a : α} {l : List α} : Linked next (next a) l → Linked next (some a) (a :: l)

namespace Linked
variable {next next' : α → Option α} {p : Option α} {a b : α} {l l' front back : List α}

theorem unique (h : Linked next p l) (h' : Linked next p l') : l = l' := by
  induction h generalizing l' with
  | nil => cases h'; rfl
  | cons _ ih =>
    cases h' with
    | cons h' => rw [ih h']

theorem from_node (h : Linked next p (front ++ a :: back)) : Linked next (some a) (a :: back) := by
  induction front generalizing p with
  | nil => cases h with | cons h => exact .cons h
  | cons b front ih => cases h with | cons h => exact ih h

/-- A node that came twice would have to be followed by lists of two lengths. -/
theorem nodup (h : Linked next p l) : l.Nodup := by
  induction h with
  | nil => exact List.nodup_nil
  | @cons a l h ih =>
    refine List.nodup_cons.mpr ⟨fun hmem => ?_, ih⟩
    obtain ⟨front, back, rfl⟩ := List.append_of_mem hmem
    have hsame := h.from_node.unique (.cons h)
    have hlen := congrArg List.length hsame
    simp only [List.length_cons, List.length_append] at hlen
    omega

theorem length_le_card [Fintype α] (h : Linked next p l) : l.length ≤ Fintype.card α :=
  h.nodup.length_le_card

theorem congr (h : Linked next p l) (hn : ∀ b ∈ l, next' b = next b) : Linked next' p l := by
  induction h with
  | nil => exact .nil
  | @cons a l _ ih =>
    have htail := ih fun b hb => hn b (List.mem_cons_of_mem _ hb)
    refine .cons ?_
    rwa [hn a (List.mem_cons_self ..)]

variable [DecidableEq α]

theorem update (h : Linked next p l) (ha : a ∉ l) (q : Option α) :
    Linked (Function.update next a q) p l := by
  have hsame : ∀ b ∈ l, Function.update next a q b = next b := by
    intro b hb
    rw [Function.update_of_ne]
    rintro rfl
    exact ha hb
  exact h.congr hsame

theorem push (h : Linked next p l) (ha : a ∉ l) :
    Linked (Function.update next a p) (some a) (a :: l) := by
  refine .cons ?_
  rw [Function.update_self]
  exact h.update ha p

theorem unlink (h : Linked next p (front ++ b :: a :: back)) :
    Linked (Function.update next b (next a)) p (front ++ b :: back) := by
  induction front generalizing p with
  | nil =>
    have hb : b ∉ back := fun hmem =>
      (List.nodup_cons.mp h.nodup).1 (List.mem_cons_of_mem _ hmem)
    cases h with
    | cons h =>
      refine .cons ?_
      rw [Function.update_self]
      generalize next b = q at h
      cases h with
      | cons h => exact h.update hb _
  | cons c front ih =>
    have hc : c ≠ b := by
      rintro rfl
      exact (List.nodup_cons.mp h.nodup).1 (by simp)
    cases h with
    | cons h =>
      refine .cons ?_
      rw [Function.update_of_ne hc]
      exact ih h

end Linked

def follow (next : α → Option α) : Nat → Option α → Option (List α)
  | _, none => some []
  | 0, some _ => none
  | fuel + 1, some a => (follow next fuel (next a)).map (a :: ·)

theorem follow_eq_some_iff {next : α → Option α} {fuel : Nat} {p : Option α} {l : List α} :
    follow next fuel p = some l ↔ Linked next p l ∧ l.length ≤ fuel := by
  induction fuel generalizing p l with
  | zero =>
    cases p with
    | none =>
      simp only [follow, Option.some.injEq]
      constructor
      · rintro rfl
        exact ⟨.nil, Nat.le_refl _⟩
      · rintro ⟨h, -⟩
        cases h
        rfl
    | some a =>
      simp only [follow, reduceCtorEq, false_iff]
      rintro ⟨h, hlen⟩
      cases h
      simp at hlen
  | succ fuel ih =>
    cases p with
    | none =>
      simp only [follow, Option.some.injEq]
      constructor
      · rintro rfl
        exact ⟨.nil, Nat.zero_le _⟩
      · rintro ⟨h, -⟩
        cases h
        rfl
    | some a =>
      simp only [follow, Option.map_eq_some_iff, ih]
      constructor
      · rintro ⟨rest, ⟨h, hlen⟩, rfl⟩
        exact ⟨.cons h, Nat.succ_le_succ hlen⟩
      · rintro ⟨h, hlen⟩
        cases h with
        | cons h => exact ⟨_, ⟨h, Nat.le_of_succ_le_succ hlen⟩, rfl⟩

/-- A walk that ever reaches null does so within as many steps as there are nodes. -/
theorem follow_card [Fintype α] {next : α → Option α} {fuel : Nat} {p : Option α} {l : List α}
    (h : follow next fuel p = some l) : follow next (Fintype.card α) p = some l := by
  obtain ⟨hlinked, -⟩ := follow_eq_some_iff.mp h
  exact follow_eq_some_iff.mpr ⟨hlinked, hlinked.length_le_card⟩

end Foundation
