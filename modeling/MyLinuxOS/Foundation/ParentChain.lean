import Mathlib.Data.List.Nodup

/-! Chains of parent links that lead from a node to a root without repeating a node. -/

namespace Foundation
variable {α : Type*}

/-- `ParentChain parent root a l`: the list `l` is `a`, its parent, and so on up to `root`. -/
inductive ParentChain (parent : α → α) (root : α) : α → List α → Prop
  | root : ParentChain parent root root [root]
  | child {a : α} {l : List α} : a ≠ root → a ∉ l → ParentChain parent root (parent a) l →
      ParentChain parent root a (a :: l)

namespace ParentChain
variable {parent parent' : α → α} {root a : α} {l : List α}

theorem mem_self (h : ParentChain parent root a l) : a ∈ l := by
  cases h <;> exact List.mem_cons_self ..

theorem root_mem (h : ParentChain parent root a l) : root ∈ l := by
  induction h with
  | root => exact List.mem_cons_self ..
  | child _ _ _ ih => exact List.mem_cons_of_mem _ ih

theorem eq_root_of_length (h : ParentChain parent root a l) (hl : l.length ≤ 1) : a = root := by
  cases h with
  | root => rfl
  | child _ _ h' =>
    have hpos := List.length_pos_of_mem h'.mem_self
    simp only [List.length_cons] at hl
    omega

theorem parent_ne (h : ParentChain parent root a l) (ha : a ≠ root) : parent a ≠ a := by
  cases h with
  | root => exact absurd rfl ha
  | child _ hnot h' => exact fun he => hnot (he ▸ h'.mem_self)

theorem congr (h : ParentChain parent root a l) (hp : ∀ b ∈ l, parent' b = parent b) :
    ParentChain parent' root a l := by
  induction h with
  | root => exact .root
  | @child a l ha hnot _ ih =>
    have htail := ih fun b hb => hp b (List.mem_cons_of_mem _ hb)
    refine .child ha hnot ?_
    rwa [hp a (List.mem_cons_self ..)]

end ParentChain
end Foundation
