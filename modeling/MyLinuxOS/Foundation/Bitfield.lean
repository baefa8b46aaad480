import Mathlib.Algebra.Group.Nat.Defs
import Mathlib.Tactic.Common

/-! Bit-fields of a machine word, assignments to some entries of an array, and what both leave as it
was. -/

namespace Foundation

structure BitField (n : Nat) where
  start : Nat
  len : Nat
  inWord : start + len ≤ n

namespace BitField
variable {n : Nat} (f g : BitField n) (value : Nat) (word : BitVec n)

def get : Nat := (word.extractLsb' f.start f.len).toNat

def set : BitVec n :=
  word &&& ~~~ ((BitVec.allOnes f.len).setWidth n <<< f.start) |||
    (BitVec.ofNat f.len value).setWidth n <<< f.start

def Apart : Prop := f.start + f.len ≤ g.start ∨ g.start + g.len ≤ f.start

instance : Decidable (f.Apart g) := inferInstanceAs (Decidable (_ ∨ _))

variable {f g value word}

theorem get_eq : f.get word = word.toNat / 2 ^ f.start % 2 ^ f.len := by
  rw [get, BitVec.extractLsb'_toNat, Nat.shiftRight_eq_div_pow]

theorem testBit_get {i : Nat} :
    (f.get word).testBit i = (decide (i < f.len) && word.getLsbD (f.start + i)) := by
  rw [get, BitVec.testBit_toNat, BitVec.getLsbD_extractLsb']

theorem getLsbD_set {i : Nat} (hi : i < n) : (f.set value word).getLsbD i =
    if f.start ≤ i ∧ i < f.start + f.len then value.testBit (i - f.start)
    else word.getLsbD i := by
  by_cases hstart : i < f.start
  · simp [set, hi, hstart, Nat.not_le_of_lt hstart]
  · have hle : f.start ≤ i := Nat.le_of_not_lt hstart
    by_cases hlen : i < f.start + f.len
    · have hoff : i - f.start < f.len := by omega
      have hbit : (BitVec.ofNat f.len value)[i - f.start] = value.testBit (i - f.start) := by
        rw [← BitVec.getLsbD_eq_getElem, BitVec.getLsbD_ofNat, decide_eq_true hoff, Bool.true_and]
      simp [set, hi, hstart, hle, hlen, hoff, hbit]
    · have hoff : ¬ i - f.start < f.len := by omega
      simp [set, hi, hstart, hlen, hoff, BitVec.getLsbD_ofNat]

theorem get_set : f.get (f.set value word) = value % 2 ^ f.len := by
  apply Nat.eq_of_testBit_eq
  intro i
  rw [testBit_get, Nat.testBit_mod_two_pow]
  by_cases hi : i < f.len
  · have hin := f.inWord
    rw [getLsbD_set (by omega), if_pos (by omega), Nat.add_sub_cancel_left]
  · rw [decide_eq_false hi, Bool.false_and, Bool.false_and]

theorem get_set_of_apart (h : g.Apart f) : g.get (f.set value word) = g.get word := by
  apply Nat.eq_of_testBit_eq
  intro i
  rw [testBit_get, testBit_get]
  by_cases hi : i < g.len
  · have hin := g.inWord
    unfold Apart at h
    rw [getLsbD_set (by omega), if_neg (by omega)]
  · rw [decide_eq_false hi, Bool.false_and, Bool.false_and]

theorem get_split {lo hi : BitField n} (hlo : lo.start = f.start)
    (hhi : hi.start = f.start + lo.len) (hlen : f.len = lo.len + hi.len) :
    f.get word = lo.get word + 2 ^ lo.len * hi.get word := by
  rw [get_eq, get_eq, get_eq, hlo, hhi, hlen, Nat.pow_add, Nat.pow_add, Nat.mod_mul,
    Nat.div_div_eq_div_mul]

end BitField

section
variable {α β ι : Type} [DecidableEq ι] (key : β → ι) (assign : β → α → α)

def assignAll (t : ι → α) (bs : List β) : ι → α :=
  bs.foldl (fun t b => Function.update t (key b) (assign b (t (key b)))) t

theorem assignAll_of_notMem {t : ι → α} {bs : List β} {i : ι} (h : ∀ b ∈ bs, key b ≠ i) :
    assignAll key assign t bs i = t i := by
  induction bs generalizing t with
  | nil => rfl
  | cons b bs ih =>
    have hne := h b (List.mem_cons_self ..)
    calc assignAll key assign t (b :: bs) i
        = Function.update t (key b) (assign b (t (key b))) i :=
          ih fun b' hb' => h b' (List.mem_cons_of_mem _ hb')
      _ = t i := Function.update_of_ne hne.symm ..

theorem assignAll_of_mem {t : ι → α} {bs : List β} (hkeys : (bs.map key).Nodup) {b : β}
    (hb : b ∈ bs) : assignAll key assign t bs (key b) = assign b (t (key b)) := by
  induction bs generalizing t with
  | nil => exact absurd hb (List.not_mem_nil)
  | cons c bs ih =>
    rw [List.map_cons, List.nodup_cons] at hkeys
    obtain rfl | hmem := List.mem_cons.mp hb
    · have hrest : ∀ b' ∈ bs, key b' ≠ key b := fun b' hb' hsame =>
        hkeys.1 (hsame ▸ List.mem_map_of_mem hb')
      calc assignAll key assign t (b :: bs) (key b)
          = Function.update t (key b) (assign b (t (key b))) (key b) :=
            assignAll_of_notMem key assign hrest
        _ = assign b (t (key b)) := Function.update_self ..
    · have hne : key b ≠ key c := fun hsame => hkeys.1 (hsame ▸ List.mem_map_of_mem hmem)
      calc assignAll key assign t (c :: bs) (key b)
          = assign b (Function.update t (key c) (assign c (t (key c))) (key b)) :=
            ih hkeys.2 hmem
        _ = assign b (t (key b)) := by rw [Function.update_of_ne hne]

end

end Foundation
