import Mathlib.Data.Nat.Digits.Lemmas

/-! Numerals: the digits of a number from the highest down, with one digit for 0, and how they are
read. -/

namespace Foundation
variable {β : Type*} (digit : Nat → β) {b n k : Nat}

def numeral (b n : Nat) : List β :=
  if n = 0 then [digit 0] else ((Nat.digits b n).map digit).reverse

theorem numeral_zero : numeral digit b 0 = [digit 0] := if_pos rfl

theorem numeral_of_pos (hn : 0 < n) :
    numeral digit b n = ((Nat.digits b n).map digit).reverse := if_neg (Nat.pos_iff_ne_zero.mp hn)

theorem numeral_length_le (hb : 1 < b) (hk : 0 < k) (hn : n < b ^ k) :
    (numeral digit b n).length ≤ k := by
  rcases Nat.eq_zero_or_pos n with rfl | hpos
  · rw [numeral_zero]
    exact hk
  · rw [numeral_of_pos _ hpos, List.length_reverse, List.length_map]
    exact (Nat.digits_length_le_iff hb n).mpr hn

/-! ### Reading -/

variable (digitOf : β → Option Nat)

def readDigits (b : Nat) : (n : Nat) → List β → Option Nat
  | n, [] => some n
  | n, c :: text =>
    (digitOf c).bind fun d => if d < b then readDigits b (b * n + d) text else none

def readNumeral (b : Nat) : List β → Option Nat
  | [] => none
  | c :: text => readDigits digitOf b 0 (c :: text)

structure IsNumeral (zero : β) (b n : Nat) (text : List β) : Prop where
  reads : readNumeral digitOf b text = some n
  noLeadingZero : text.head? = some zero → text = [zero]

variable {digit digitOf} {text : List β}

theorem readDigits_concat {d : Nat} (hd : digitOf (digit d) = some d) (hlt : d < b) :
    readDigits digitOf b k (text ++ [digit d]) =
      (readDigits digitOf b k text).map (b * · + d) := by
  induction text generalizing k with
  | nil =>
    simp only [List.nil_append, readDigits, hd, Option.bind_some, if_pos hlt, Option.map_some]
  | cons c text ih =>
    rw [List.cons_append, readDigits, readDigits]
    cases digitOf c with
    | none => rfl
    | some e =>
      rw [Option.bind_some, Option.bind_some]
      by_cases he : e < b
      · rw [if_pos he, if_pos he, ih]
      · rw [if_neg he, if_neg he, Option.map_none]

theorem readDigits_reverse (hdigit : ∀ d < b, digitOf (digit d) = some d) {digits : List Nat}
    (hlt : ∀ d ∈ digits, d < b) :
    readDigits digitOf b 0 (digits.map digit).reverse = some (Nat.ofDigits b digits) := by
  induction digits with
  | nil => rfl
  | cons d digits ih =>
    have hd : d < b := hlt d (List.mem_cons_self ..)
    have hrest : ∀ e ∈ digits, e < b := fun e he => hlt e (List.mem_cons_of_mem d he)
    rw [List.map_cons, List.reverse_cons, readDigits_concat (hdigit d hd) hd, ih hrest,
      Option.map_some, Nat.ofDigits_cons, Nat.add_comm]

theorem readDigits_zeros (hdigit : ∀ d < b, digitOf (digit d) = some d) (hb : 0 < b) (k : Nat) :
    readDigits digitOf b 0 (List.replicate k (digit 0) ++ text) = readDigits digitOf b 0 text := by
  induction k with
  | zero => rfl
  | succ k ih =>
    rw [List.replicate_succ, List.cons_append, readDigits, hdigit 0 hb, Option.bind_some, if_pos hb]
    exact ih

theorem numeral_ne_nil : numeral digit b n ≠ [] := by
  rcases Nat.eq_zero_or_pos n with rfl | hpos
  · rw [numeral_zero]
    exact List.cons_ne_nil _ _
  · rw [numeral_of_pos _ hpos]
    intro hnil
    rw [List.reverse_eq_nil_iff, List.map_eq_nil_iff] at hnil
    exact Nat.digits_ne_nil_iff_ne_zero.mpr hpos.ne' hnil

theorem readNumeral_of_ne_nil (h : text ≠ []) :
    readNumeral digitOf b text = readDigits digitOf b 0 text := by
  cases text with
  | nil => exact absurd rfl h
  | cons c text => rfl

theorem readDigits_numeral (hdigit : ∀ d < b, digitOf (digit d) = some d) (hb : 1 < b) (n : Nat) :
    readDigits digitOf b 0 (numeral digit b n) = some n := by
  rcases Nat.eq_zero_or_pos n with rfl | hpos
  · have hzero : 0 < b := Nat.zero_lt_of_lt hb
    rw [numeral_zero, readDigits, hdigit 0 hzero, Option.bind_some, if_pos hzero]
    rfl
  · rw [numeral_of_pos _ hpos, readDigits_reverse hdigit fun d hd => Nat.digits_lt_base hb hd,
      Nat.ofDigits_digits]

theorem numeral_head_ne (hdigit : ∀ d < b, digitOf (digit d) = some d) (hb : 1 < b) (hn : 0 < n) :
    (numeral digit b n).head? ≠ some (digit 0) := by
  have hne : Nat.digits b n ≠ [] := Nat.digits_ne_nil_iff_ne_zero.mpr hn.ne'
  have hlast : (Nat.digits b n).getLast hne ≠ 0 := Nat.getLast_digit_ne_zero b hn.ne'
  rw [numeral_of_pos _ hn, List.head?_reverse, List.getLast?_map,
    List.getLast?_eq_some_getLast hne, Option.map_some]
  intro hhead
  have hsame := congrArg digitOf (Option.some.inj hhead)
  rw [hdigit _ (Nat.digits_lt_base hb (List.getLast_mem hne)),
    hdigit 0 (Nat.zero_lt_of_lt hb)] at hsame
  exact hlast (Option.some.inj hsame)

theorem numeral_isNumeral (hdigit : ∀ d < b, digitOf (digit d) = some d) (hb : 1 < b) (n : Nat) :
    IsNumeral digitOf (digit 0) b n (numeral digit b n) := by
  constructor
  · rw [readNumeral_of_ne_nil numeral_ne_nil]
    exact readDigits_numeral hdigit hb n
  · intro hhead
    rcases Nat.eq_zero_or_pos n with rfl | hpos
    · exact numeral_zero digit
    · exact absurd hhead (numeral_head_ne hdigit hb hpos)

end Foundation
