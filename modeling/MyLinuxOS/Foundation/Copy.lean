import Mathlib.Tactic.Common

/-! Copies from one range of memory to another and stores of one value over a range, in one piece or
unit by unit. -/

namespace Foundation
variable {β : Type*} (mem : Int → β) (dest src : Int)

/-- Memory after the `n` bytes at `src` have been stored at `dest`, all of them read first. -/
def copyRange (n : Nat) : Int → β := fun a =>
  if dest ≤ a ∧ a < dest + n then mem (src + (a - dest)) else mem a

def copyUnits (w : Nat) : (count : Nat) → (mem : Int → β) → (dest src : Int) → Int → β
  | 0, mem, _, _ => mem
  | count + 1, mem, dest, src =>
    copyUnits w count (copyRange mem dest src w) (dest + w) (src + w)

def fillRange (n : Nat) (b : β) : Int → β := fun a => if dest ≤ a ∧ a < dest + n then b else mem a

def storeUnit (unit : List β) : Int → β := fun a =>
  if dest ≤ a then unit.getD (a - dest).toNat (mem a) else mem a

def storeUnits (unit : List β) : (count : Nat) → (mem : Int → β) → (dest : Int) → Int → β
  | 0, mem, _ => mem
  | count + 1, mem, dest =>
    storeUnits unit count (storeUnit mem dest unit) (dest + unit.length)

def Apart (n : Nat) : Prop := src + n ≤ dest ∨ dest + n ≤ src

variable {mem dest src} {m n w : Nat} {a : Int}

theorem copyRange_of_mem (h : dest ≤ a) (h' : a < dest + n) :
    copyRange mem dest src n a = mem (src + (a - dest)) := if_pos ⟨h, h'⟩

theorem copyRange_of_not_mem (h : a < dest ∨ dest + n ≤ a) : copyRange mem dest src n a = mem a :=
  if_neg (by omega)

theorem copyRange_zero : copyRange mem dest src 0 = mem := by
  funext a
  exact copyRange_of_not_mem (by omega)

theorem copyRange_copyRange (h : Apart dest src (m + n)) :
    copyRange (copyRange mem dest src m) (dest + m) (src + m) n =
      copyRange mem dest src (m + n) := by
  have hsum : ((m + n : Nat) : Int) = m + n := Int.natCast_add m n
  unfold Apart at h
  funext a
  by_cases hlow : a < dest
  · rw [copyRange_of_not_mem (by omega), copyRange_of_not_mem (by omega),
      copyRange_of_not_mem (by omega)]
  by_cases hfirst : a < dest + m
  · rw [copyRange_of_not_mem (by omega), copyRange_of_mem (by omega) hfirst,
      copyRange_of_mem (by omega) (by omega)]
  by_cases hsecond : a < dest + m + n
  · -- the second piece is read behind what the first one has stored
    rw [copyRange_of_mem (by omega) hsecond, copyRange_of_not_mem (by omega),
      copyRange_of_mem (by omega) (by omega)]
    congr 1
    omega
  · rw [copyRange_of_not_mem (by omega), copyRange_of_not_mem (by omega),
      copyRange_of_not_mem (by omega)]

theorem Apart.le (h : Apart dest src n) (hle : m ≤ n) : Apart dest src m := by
  unfold Apart at h ⊢
  omega

theorem Apart.drop (h : Apart dest src (m + n)) : Apart (dest + m) (src + m) n := by
  unfold Apart at h ⊢
  omega

theorem copyUnits_eq (count : Nat) (h : Apart dest src (w * count)) :
    copyUnits w count mem dest src = copyRange mem dest src (w * count) := by
  induction count generalizing mem dest src with
  | zero => exact copyRange_zero.symm
  | succ count ih =>
    have hsplit : w * (count + 1) = w + w * count := by
      rw [Nat.mul_succ, Nat.add_comm]
    rw [hsplit] at h ⊢
    rw [copyUnits, ih h.drop]
    exact copyRange_copyRange h

/-! ### One value -/

section fill
variable {b : β}

theorem fillRange_of_mem (h : dest ≤ a) (h' : a < dest + n) : fillRange mem dest n b a = b :=
  if_pos ⟨h, h'⟩

theorem fillRange_of_not_mem (h : a < dest ∨ dest + n ≤ a) : fillRange mem dest n b a = mem a :=
  if_neg (by omega)

theorem fillRange_zero : fillRange mem dest 0 b = mem := by
  funext a
  exact fillRange_of_not_mem (by omega)

theorem fillRange_fillRange :
    fillRange (fillRange mem dest m b) (dest + m) n b = fillRange mem dest (m + n) b := by
  have hsum : ((m + n : Nat) : Int) = m + n := Int.natCast_add m n
  funext a
  by_cases hlow : a < dest
  · rw [fillRange_of_not_mem (by omega), fillRange_of_not_mem (by omega),
      fillRange_of_not_mem (by omega)]
  by_cases hfirst : a < dest + m
  · rw [fillRange_of_not_mem (by omega), fillRange_of_mem (by omega) hfirst,
      fillRange_of_mem (by omega) (by omega)]
  by_cases hsecond : a < dest + m + n
  · rw [fillRange_of_mem (by omega) hsecond, fillRange_of_mem (by omega) (by omega)]
  · rw [fillRange_of_not_mem (by omega), fillRange_of_not_mem (by omega),
      fillRange_of_not_mem (by omega)]

theorem storeUnit_replicate : storeUnit mem dest (List.replicate w b) = fillRange mem dest w b := by
  funext a
  unfold storeUnit fillRange
  rw [List.getD_eq_getElem?_getD, List.getElem?_replicate]
  by_cases hlow : dest ≤ a
  · rw [if_pos hlow]
    by_cases hin : a < dest + w
    · rw [if_pos (by omega), if_pos ⟨hlow, hin⟩, Option.getD_some]
    · rw [if_neg (by omega), if_neg fun h => hin h.2, Option.getD_none]
  · rw [if_neg hlow, if_neg fun h => hlow h.1]

theorem storeUnits_replicate (count : Nat) :
    storeUnits (List.replicate w b) count mem dest = fillRange mem dest (w * count) b := by
  induction count generalizing mem dest with
  | zero => exact fillRange_zero.symm
  | succ count ih =>
    have hsplit : w * (count + 1) = w + w * count := by
      rw [Nat.mul_succ, Nat.add_comm]
    rw [storeUnits, ih, storeUnit_replicate, List.length_replicate, fillRange_fillRange, hsplit]

end fill

end Foundation
