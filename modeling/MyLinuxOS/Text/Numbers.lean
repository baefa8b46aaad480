import MyLinuxOS.Foundation.Numerals
import MyLinuxOS.Kernel.Itoa

/-! `itoa` writes the numeral of its value: the digits are stored from the lowest up and the string
is then reversed in place. -/

namespace MyLinuxOS
open Foundation

structure HoldsString (mem : Buffer) (s : Nat) (text : List UInt8) : Prop where
  chars : ∀ i (h : i < text.length), mem (s + i) = text[i]
  terminated : mem (s + text.length) = 0

theorem HoldsString.cons {mem : Buffer} {s : Nat} {c : UInt8} {text : List UInt8} (hc : mem s = c)
    (h : HoldsString mem (s + 1) text) : HoldsString mem s (c :: text) := by
  refine ⟨fun i hi => ?_, ?_⟩
  · cases i with
    | zero => exact hc
    | succ i =>
      have hnext : s + (i + 1) = s + 1 + i := by omega
      rw [hnext, h.chars i (Nat.lt_of_succ_lt_succ hi), List.getElem_cons_succ]
  · have hnext : s + (text.length + 1) = s + 1 + text.length := by omega
    rw [List.length_cons, hnext]
    exact h.terminated

def ChangesOnly (s n : Nat) (mem mem' : Buffer) : Prop := ∀ a, a < s ∨ s + n ≤ a → mem' a = mem a

theorem strlen_eq {mem : Buffer} {s : Nat} {text : List UInt8} (h : HoldsString mem s text)
    (hplain : ∀ c ∈ text, c ≠ 0) {fuel len : Nat} (hlen : len ≤ text.length)
    (hfuel : text.length < len + fuel) : strlen mem s fuel len = some text.length := by
  induction fuel generalizing len with
  | zero => omega
  | succ fuel ih =>
    rw [strlen]
    rcases Nat.lt_or_eq_of_le hlen with hlt | rfl
    · have hchar : mem (s + len) ≠ 0 := by
        rw [h.chars len hlt]
        exact hplain _ (List.getElem_mem hlt)
      rw [if_pos hchar]
      exact ih hlt (by omega)
    · rw [if_neg (not_not.mpr h.terminated)]

/-! ### The reversal -/

/-- Every index between the two ends is swapped with its mirror image. -/
theorem strrevLoop_eq (s fin beg : Nat) (mem : Buffer) :
    (∀ i, beg ≤ i → i ≤ fin → strrevLoop s fin beg mem (s + i) = mem (s + (beg + fin - i))) ∧
      ∀ a, a < s + beg ∨ s + fin < a → strrevLoop s fin beg mem a = mem a := by
  induction fin generalizing beg mem with
  | zero =>
    refine ⟨fun i hi hi' => ?_, fun a _ => rfl⟩
    obtain ⟨rfl, rfl⟩ : i = 0 ∧ beg = 0 := by omega
    rfl
  | succ fin ih =>
    rw [strrevLoop]
    by_cases hlt : beg < fin + 1
    · rw [if_pos hlt]
      obtain ⟨hinner, houter⟩ := ih (beg + 1) (Function.update
        (Function.update mem (s + (fin + 1)) (mem (s + beg))) (s + beg) (mem (s + (fin + 1))))
      refine ⟨fun i hi hi' => ?_, fun a ha => ?_⟩
      · rcases Nat.eq_or_lt_of_le hi with rfl | hlo
        · rw [houter _ (by omega), Function.update_self]
          congr 1
          omega
        · rcases Nat.eq_or_lt_of_le hi' with rfl | hhi
          · rw [houter _ (by omega), Function.update_of_ne (by omega), Function.update_self]
            congr 1
            omega
          · rw [hinner i hlo (by omega), Function.update_of_ne (by omega),
              Function.update_of_ne (by omega)]
            congr 1
            omega
      · rw [houter a (by omega), Function.update_of_ne (by omega), Function.update_of_ne (by omega)]
    · rw [if_neg hlt]
      refine ⟨fun i hi hi' => ?_, fun a _ => rfl⟩
      congr 1
      omega

theorem strrev_eq {mem : Buffer} {s : Nat} {text : List UInt8} (h : HoldsString mem s text)
    (hplain : ∀ c ∈ text, c ≠ 0) (hlen : text.length < maxTurns) :
    ∃ mem', strrev s mem = some mem' ∧ HoldsString mem' s text.reverse ∧
      ChangesOnly s text.length mem mem' := by
  have hstrlen : strlen mem s maxTurns 0 = some text.length :=
    strlen_eq h hplain (Nat.zero_le _) (by omega)
  obtain ⟨hinner, houter⟩ := strrevLoop_eq s (text.length - 1) 0 mem
  have hkept : ChangesOnly s text.length mem (strrevLoop s (text.length - 1) 0 mem) := by
    intro a ha
    rcases Nat.eq_zero_or_pos text.length with h0 | hpos
    · rw [h0]
      rfl
    · exact houter a (by omega)
  refine ⟨strrevLoop s (text.length - 1) 0 mem, ?_, ⟨fun i hi => ?_, ?_⟩, hkept⟩
  · rw [strrev, hstrlen, Option.map_some]
  · rw [List.length_reverse] at hi
    rw [hinner i (Nat.zero_le i) (by omega), List.getElem_reverse, ← h.chars _ (by omega)]
    congr 1
    omega
  · rw [List.length_reverse, hkept _ (.inr (Nat.le_refl _))]
    exact h.terminated

/-! ### The digits -/

def digitChar (d : Nat) : UInt8 := lookup.getD d 0

theorem itoaLoop_eq {radix : UInt32} (hradix : 2 ≤ radix.toNat) {digits : List Nat} {fuel : Nat}
    {v : UInt32} (hdigits : Nat.digits radix.toNat v.toNat = digits) (hfuel : digits.length < fuel)
    (newbuf : Nat) (mem : Buffer) : ∃ mem',
      itoaLoop radix fuel v newbuf mem = some (newbuf + digits.length, mem') ∧
        (∀ i (h : i < digits.length), mem' (newbuf + i) = digitChar digits[i]) ∧
        ChangesOnly newbuf digits.length mem mem' := by
  induction digits generalizing fuel v newbuf mem with
  | nil =>
    obtain ⟨fuel, rfl⟩ := Nat.exists_eq_add_one.mpr (Nat.zero_lt_of_lt hfuel)
    have hzero : v = 0 := UInt32.toNat_inj.mp (Nat.digits_eq_nil_iff_eq_zero.mp hdigits)
    subst hzero
    rw [itoaLoop, if_neg (by decide)]
    exact ⟨mem, rfl, fun i hi => absurd hi (Nat.not_lt_zero i), fun a _ => rfl⟩
  | cons d digits ih =>
    obtain ⟨fuel, rfl⟩ := Nat.exists_eq_add_one.mpr (Nat.zero_lt_of_lt hfuel)
    have hlength : (d :: digits).length = digits.length + 1 := List.length_cons
    rw [hlength] at hfuel
    have hpos : 0 < v.toNat := by
      refine Nat.pos_of_ne_zero fun h0 => ?_
      rw [h0, Nat.digits_zero] at hdigits
      cases hdigits
    have hne : radix ≠ 0 := by
      rintro rfl
      exact absurd hradix (by decide)
    rw [Nat.digits_def' hradix hpos, ← UInt32.toNat_mod, ← UInt32.toNat_div] at hdigits
    obtain ⟨hd, hrest⟩ := List.cons.inj hdigits
    have hshort : digits.length < fuel := by omega
    have hv : v > 0 := UInt32.lt_iff_toNat_lt.mpr hpos
    obtain ⟨mem', hloop, hchars, hkept⟩ := ih hrest hshort (newbuf + 1)
      (Function.update mem newbuf (lookup.getD (v % radix).toNat 0))
    refine ⟨mem', ?_, fun i hi => ?_, fun a ha => ?_⟩
    · rw [itoaLoop, if_pos hv, if_neg hne, hloop, hlength, Nat.add_assoc, Nat.add_comm 1]
    · cases i with
      | zero =>
        rw [hkept _ (by omega), ← hd]
        exact Function.update_self ..
      | succ i =>
        rw [List.getElem_cons_succ, ← hchars i (by omega), Nat.add_assoc, Nat.add_comm 1]
    · rw [hlength] at ha
      rw [hkept a (by omega), Function.update_of_ne (by omega)]

/-! ### The string -/

theorem digitChar_ne_zero {d : Nat} (hd : d < 36) : digitChar d ≠ 0 := by
  have hall : ∀ d < 36, digitChar d ≠ 0 := by decide
  exact hall d hd

def numberString (radix n : Nat) : List UInt8 := numeral digitChar radix n

theorem numberString_plain {radix : Nat} (hradix : 2 ≤ radix) (hmax : radix ≤ 36) (n : Nat) :
    ∀ c ∈ numberString radix n, c ≠ 0 := by
  intro c hc
  rcases Nat.eq_zero_or_pos n with rfl | hpos
  · rw [numberString, numeral_zero, List.mem_singleton] at hc
    subst hc
    decide
  · rw [numberString, numeral_of_pos _ hpos, List.mem_reverse, List.mem_map] at hc
    obtain ⟨d, hd, rfl⟩ := hc
    exact digitChar_ne_zero (Nat.lt_of_lt_of_le (Nat.digits_lt_base hradix hd) hmax)

theorem numberString_length_lt {radix : Nat} (hradix : 2 ≤ radix) (v : UInt32) :
    (numberString radix v.toNat).length < maxTurns := by
  refine Nat.lt_succ_of_le
    (numeral_length_le _ hradix (by decide) (Nat.lt_of_lt_of_le v.toNat_lt ?_))
  exact Nat.pow_le_pow_left hradix 32

theorem hex_length_le (arg : UInt32) : (numberString 16 arg.toNat).length ≤ 8 :=
  numeral_length_le _ (by decide) (by decide) arg.toNat_lt

theorem decimal_length_le (v : UInt32) : (numberString 10 v.toNat).length ≤ 10 :=
  numeral_length_le _ (by decide) (by decide) (Nat.lt_of_lt_of_le v.toNat_lt (by decide))

/-- What is in the buffer before the reversal: the digits from the lowest up, and a terminator. -/
theorem itoaLoop_holds {radix : UInt32} (hradix : 2 ≤ radix.toNat) (v : UInt32) (buf : Nat)
    (mem : Buffer) : ∃ mem₁,
      itoaLoop radix maxTurns v buf mem =
        some (buf + (Nat.digits radix.toNat v.toNat).length, mem₁) ∧
      HoldsString (Function.update mem₁ (buf + (Nat.digits radix.toNat v.toNat).length) 0) buf
        ((Nat.digits radix.toNat v.toNat).map digitChar) ∧
      ChangesOnly buf (Nat.digits radix.toNat v.toNat).length mem mem₁ := by
  have hshort : (Nat.digits radix.toNat v.toNat).length < maxTurns := by
    refine Nat.lt_succ_of_le ((Nat.digits_length_le_iff hradix v.toNat).mpr ?_)
    exact Nat.lt_of_lt_of_le v.toNat_lt (Nat.pow_le_pow_left hradix 32)
  have hlength : ((Nat.digits radix.toNat v.toNat).map digitChar).length =
      (Nat.digits radix.toNat v.toNat).length := List.length_map ..
  obtain ⟨mem₁, hloop, hchars, hkept⟩ := itoaLoop_eq hradix rfl hshort buf mem
  refine ⟨mem₁, hloop, ⟨fun i hi => ?_, ?_⟩, hkept⟩
  · rw [hlength] at hi
    rw [Function.update_of_ne (by omega), hchars i hi, List.getElem_map]
  · rw [hlength, Function.update_self]

/-- For every radix from 2 to 36 the buffer holds the numeral of the value afterwards, and nothing
else of it has changed. -/
theorem itoa_eq {radix : Int32} (hradix : 2 ≤ radix.toUInt32.toNat)
    (hmax : radix.toUInt32.toNat ≤ 36) (v : UInt32) (buf : Nat) (mem : Buffer) :
    ∃ mem', itoa v buf radix mem = some mem' ∧
      HoldsString mem' buf (numberString radix.toUInt32.toNat v.toNat) ∧
      ChangesOnly buf ((numberString radix.toUInt32.toNat v.toNat).length + 1) mem mem' := by
  by_cases hv : v = 0
  · subst hv
    have hstring : numberString radix.toUInt32.toNat (0 : UInt32).toNat = [48] := rfl
    rw [itoa, if_pos rfl, hstring]
    refine ⟨_, rfl, ⟨fun i hi => ?_, ?_⟩, fun a ha => ?_⟩
    · obtain rfl : i = 0 := Nat.lt_one_iff.mp hi
      rw [Function.update_of_ne (by omega), Nat.add_zero, Function.update_self]
      rfl
    · exact Function.update_self ..
    · change a < buf ∨ buf + 2 ≤ a at ha
      rw [Function.update_of_ne (by omega), Function.update_of_ne (by omega)]
  · have hpos : 0 < v.toNat := toNat_pos hv
    have hreversed : numberString radix.toUInt32.toNat v.toNat =
        ((Nat.digits radix.toUInt32.toNat v.toNat).map digitChar).reverse :=
      numeral_of_pos digitChar hpos
    have hplain := numberString_plain hradix hmax v.toNat
    have hshort := numberString_length_lt hradix v
    rw [hreversed] at hplain hshort ⊢
    rw [List.length_reverse] at hshort
    have hlength : ((Nat.digits radix.toUInt32.toNat v.toNat).map digitChar).length =
        (Nat.digits radix.toUInt32.toNat v.toNat).length := List.length_map ..
    obtain ⟨mem₁, hloop, hholds, hkept⟩ := itoaLoop_holds hradix v buf mem
    obtain ⟨mem', hstrrev, hstring, hkept'⟩ := strrev_eq hholds
      (fun c hc => hplain c (List.mem_reverse.mpr hc)) hshort
    refine ⟨mem', ?_, hstring, fun a ha => ?_⟩
    · rw [itoa, if_neg hv, hloop]
      exact hstrrev
    · rw [List.length_reverse, hlength] at ha
      rw [hkept' a (by omega), Function.update_of_ne (by omega), hkept a (by omega)]

end MyLinuxOS
