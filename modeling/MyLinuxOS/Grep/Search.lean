import MyLinuxOS.Grep.Program
import MyLinuxOS.Text.Numbers

/-! The search of one line in the buffer: where it ends, whether it contains the string, and what is
written for it. -/

namespace MyLinuxOS
open Foundation

def HoldsBytes (mem : Buffer) (s : Nat) (bytes : List UInt8) : Prop :=
  ∀ i (h : i < bytes.length), mem (s + i) = bytes[i]

section bytes
variable {mem : Buffer} {s : Nat}

theorem HoldsBytes.cons {c : UInt8} {bytes : List UInt8} (h : HoldsBytes mem s (c :: bytes)) :
    mem s = c ∧ HoldsBytes mem (s + 1) bytes := by
  refine ⟨h 0 (Nat.zero_lt_succ _), fun i hi => ?_⟩
  have hat := h (i + 1) (Nat.succ_lt_succ hi)
  rw [List.getElem_cons_succ] at hat
  rw [← hat, Nat.add_assoc, Nat.add_comm 1]

theorem HoldsBytes.append {a b : List UInt8} (h : HoldsBytes mem s (a ++ b)) :
    HoldsBytes mem s a ∧ HoldsBytes mem (s + a.length) b := by
  constructor
  · intro i hi
    rw [h i (by rw [List.length_append]; omega), List.getElem_append_left hi]
  · intro i hi
    rw [Nat.add_assoc, h (a.length + i) (by rw [List.length_append]; omega),
      List.getElem_append_right (Nat.le_add_right ..)]
    simp only [Nat.add_sub_cancel_left]

theorem HoldsBytes.update {bytes : List UInt8} (h : HoldsBytes mem s bytes) {a : Nat} {c : UInt8}
    (ha : a < s ∨ s + bytes.length ≤ a) : HoldsBytes (Function.update mem a c) s bytes := by
  intro i hi
  rw [Function.update_of_ne (by omega), h i hi]

end bytes

/-! ### The end of the line -/

theorem scanLine_sep {data : Buffer} {l t : List UInt8} {start n : Nat}
    (h : HoldsBytes data start (l ++ 10 :: t)) (hplain : 10 ∉ l) (hn : l.length < n) :
    scanLine data n start = start + l.length := by
  induction l generalizing start n with
  | nil =>
    obtain ⟨n, rfl⟩ := Nat.exists_eq_add_one.mpr (Nat.zero_lt_of_lt hn)
    rw [scanLine, if_neg (not_not.mpr h.cons.1)]
    rfl
  | cons c l ih =>
    obtain ⟨hc, hrest⟩ := not_or.mp (mt List.mem_cons.mpr hplain)
    rw [List.length_cons] at hn ⊢
    obtain ⟨n, rfl⟩ := Nat.exists_eq_add_one.mpr (Nat.zero_lt_of_lt hn)
    obtain ⟨hhead, htail⟩ := HoldsBytes.cons h
    have hne : data start ≠ 10 := hhead ▸ Ne.symm hc
    rw [scanLine, if_pos hne, ih htail hrest (by omega)]
    omega

theorem scanLine_plain {data : Buffer} {l : List UInt8} {start : Nat}
    (h : HoldsBytes data start l) (hplain : 10 ∉ l) :
    scanLine data l.length start = start + l.length := by
  induction l generalizing start with
  | nil => rfl
  | cons c l ih =>
    obtain ⟨hc, hrest⟩ := not_or.mp (mt List.mem_cons.mpr hplain)
    have hne : data start ≠ 10 := h.cons.1 ▸ Ne.symm hc
    rw [List.length_cons, scanLine, if_pos hne, ih h.cons.2 hrest]
    omega

/-! ### The comparison -/

theorem ece391Strncmp_eq_zero {s₁ s₂ : Nat → UInt8} {n i : Nat} (hplain : ∀ j < n, s₂ (i + j) ≠ 0) :
    ece391Strncmp s₁ s₂ n i = 0 ↔ ∀ j < n, s₁ (i + j) = s₂ (i + j) := by
  induction n generalizing i with
  | zero => exact iff_of_true rfl fun j hj => absurd hj (Nat.not_lt_zero j)
  | succ n ih =>
    have hfirst : s₂ i ≠ 0 := hplain 0 (Nat.zero_lt_succ n)
    have hnext : ∀ j, i + 1 + j = i + (j + 1) := by omega
    rw [ece391Strncmp]
    by_cases heq : s₁ i = s₂ i
    · rw [if_pos heq]
      have hrest : (∀ j < n + 1, s₁ (i + j) = s₂ (i + j)) ↔
          ∀ j < n, s₁ (i + 1 + j) = s₂ (i + 1 + j) := by
        constructor
        · intro h j hj
          rw [hnext]
          exact h (j + 1) (Nat.succ_lt_succ hj)
        · intro h j hj
          cases j with
          | zero => exact heq
          | succ j =>
            rw [← hnext]
            exact h j (Nat.lt_of_succ_lt_succ hj)
      -- equal characters end the loop only at the last of the `n`: the terminator is not among them
      by_cases hlast : n = 0
      · rw [if_pos (.inr hlast), hrest, hlast]
        exact iff_of_true rfl fun j hj => absurd hj (Nat.not_lt_zero j)
      · rw [if_neg (not_or.mpr ⟨heq ▸ hfirst, hlast⟩), hrest]
        refine ih fun j hj => ?_
        rw [hnext]
        exact hplain (j + 1) (Nat.succ_lt_succ hj)
    · rw [if_neg heq]
      refine iff_of_false (fun hdiff => heq ?_) fun h => heq (h 0 (Nat.zero_lt_succ n))
      exact UInt8.toNat_inj.mp (by omega)

theorem compare_iff {data : Buffer} {start : Nat} {line : List UInt8}
    (h : HoldsString data start line) (s : CString) {j : Nat} (hj : j ≤ line.length) :
    ece391Strncmp (fun i => data (start + j + i)) s.charAt s.strlen 0 = 0 ↔
      s.bytes <+: line.drop j := by
  have hchar : ∀ i (hi : i < s.bytes.length), s.charAt i = s.bytes[i] := fun i hi =>
    List.getD_eq_getElem _ _ hi
  have hne : ∀ i (hi : i < s.bytes.length), s.bytes[i] ≠ 0 := fun i hi =>
    s.noNul _ (List.getElem_mem hi)
  have hlength : s.strlen = s.bytes.length := rfl
  rw [ece391Strncmp_eq_zero fun i hi => by rw [Nat.zero_add, hchar i hi]; exact hne i hi]
  simp only [Nat.zero_add, hlength]
  constructor
  · intro hsame
    -- the terminator of the line is not in the string
    have hfits : s.bytes.length ≤ line.length - j := by
      by_contra hlt
      have hend := hsame (line.length - j) (by omega)
      have hat : start + j + (line.length - j) = start + line.length := by omega
      rw [hat, h.terminated, hchar _ (by omega)] at hend
      exact hne _ (by omega) hend.symm
    rw [List.prefix_iff_eq_take]
    refine List.ext_getElem ?_ fun i h₁ h₂ => ?_
    · rw [List.length_take, List.length_drop]
      omega
    · have hat := hsame i h₁
      rw [hchar i h₁, Nat.add_assoc, h.chars (j + i) (by omega)] at hat
      rw [List.getElem_take, List.getElem_drop, hat]
  · intro hprefix i hi
    have hle := hprefix.length_le
    rw [List.length_drop] at hle
    rw [hchar i hi, Nat.add_assoc, h.chars (j + i) (by omega), hprefix.getElem hi,
      List.getElem_drop]

def StartsPlain (s : CString) : Prop := (s.charAt 0).toNat < 128

instance (s : CString) : Decidable (StartsPlain s) := inferInstanceAs (Decidable (_ < _))

theorem signed_eq_iff (a b : UInt8) : a.toInt8.toInt = b.toNat ↔ a = b ∧ a.toNat < 128 := by
  have hint : a.toInt8.toInt = a.toBitVec.toInt := rfl
  have hnat : a.toBitVec.toNat = a.toNat := rfl
  have ha := a.toNat_lt
  have hb := b.toNat_lt
  rw [hint, BitVec.toInt_eq_toNat_cond, hnat]
  constructor
  · intro h
    have hsame : a.toNat = b.toNat ∧ a.toNat < 128 := by
      split at h <;> omega
    exact ⟨UInt8.toNat_inj.mp hsame.1, hsame.2⟩
  · rintro ⟨rfl, hlt⟩
    rw [if_pos (by omega)]

theorem infix_iff_drop {s line : List UInt8} (hs : s ≠ []) :
    s <:+: line ↔ ∃ j < line.length, s <+: line.drop j := by
  constructor
  · rintro ⟨a, b, rfl⟩
    have hpos := List.length_pos_of_ne_nil hs
    refine ⟨a.length, ?_, ?_⟩
    · rw [List.length_append, List.length_append]
      omega
    · rw [List.append_assoc, List.drop_left]
      exact List.prefix_append s b
  · rintro ⟨j, -, hprefix⟩
    exact hprefix.isInfix.trans (List.drop_suffix j line).isInfix

theorem searchLine_iff_exists (data : Buffer) (s : CString) (n check : Nat) :
    searchLine data s n check = true ↔ ∃ j < n,
      (s.charAt 0).toInt8.toInt = (data (check + j)).toNat ∧
        ece391Strncmp (fun i => data (check + j + i)) s.charAt s.strlen 0 = 0 := by
  induction n generalizing check with
  | zero => exact iff_of_false Bool.false_ne_true fun ⟨j, hj, _⟩ => Nat.not_lt_zero j hj
  | succ n ih =>
    rw [searchLine]
    by_cases hfound : (s.charAt 0).toInt8.toInt = (data check).toNat ∧
        ece391Strncmp (fun i => data (check + i)) s.charAt s.strlen 0 = 0
    · rw [if_pos hfound]
      exact iff_of_true rfl ⟨0, Nat.zero_lt_succ n, hfound⟩
    · rw [if_neg hfound, ih]
      constructor
      · rintro ⟨j, hj, hat⟩
        refine ⟨j + 1, Nat.succ_lt_succ hj, ?_⟩
        have hnext : check + (j + 1) = check + 1 + j := by omega
        rw [hnext]
        exact hat
      · rintro ⟨j, hj, hat⟩
        cases j with
        | zero => exact absurd hat hfound
        | succ j =>
          refine ⟨j, Nat.lt_of_succ_lt_succ hj, ?_⟩
          have hnext : check + 1 + j = check + (j + 1) := by omega
          rw [hnext]
          exact hat

/-- A line is found if it contains the string, unless the string starts with a byte that is negative
as a signed character. -/
theorem searchLine_iff {data : Buffer} {start : Nat} {line : List UInt8}
    (h : HoldsString data start line) {s : CString} (hs : s.bytes ≠ []) :
    searchLine data s line.length start = true ↔ StartsPlain s ∧ s.bytes <:+: line := by
  have hpos : 0 < s.bytes.length := List.length_pos_of_ne_nil hs
  have hfirst : s.charAt 0 = s.bytes[0] := List.getD_eq_getElem _ _ hpos
  rw [searchLine_iff_exists, infix_iff_drop hs]
  constructor
  · rintro ⟨j, hj, hsigned, hcompare⟩
    exact ⟨((signed_eq_iff _ _).mp hsigned).2, j, hj, (compare_iff h s hj.le).mp hcompare⟩
  · rintro ⟨hplain, j, hj, hprefix⟩
    refine ⟨j, hj, (signed_eq_iff _ _).mpr ⟨?_, hplain⟩, (compare_iff h s hj.le).mpr hprefix⟩
    rw [hfirst, h.chars j hj, hprefix.getElem hpos, List.getElem_drop]
    rfl

/-! ### What is written, and what is moved -/

theorem stringAt_eq {data : Buffer} {start : Nat} {line : List UInt8}
    (h : HoldsString data start line) (hplain : ∀ c ∈ line, c ≠ 0)
    (hfits : start + line.length ≤ bufsize) : stringAt data start = line := by
  obtain ⟨m, hm⟩ : ∃ m, bufsize + 1 - start = line.length + (m + 1) :=
    ⟨bufsize - start - line.length, by omega⟩
  have hline : (List.range line.length).map (fun i => data (start + i)) = line := by
    refine List.ext_getElem (by simp) fun i h₁ h₂ => ?_
    rw [List.getElem_map, List.getElem_range, h.chars i h₂]
  rw [stringAt, hm, List.range_add, List.map_append, hline,
    List.takeWhile_append_of_pos fun c hc => by simpa using hplain c hc, List.range_succ_eq_map,
    List.map_cons, List.map_cons, Nat.add_zero, h.terminated, List.takeWhile_cons_of_neg (by simp),
    List.append_nil]

/-- The copy runs up, and so reads each byte before it is overwritten. -/
theorem ece391Strcpy_eq {data : Buffer} {start i fuel : Nat} {rest : List UInt8}
    (hstart : 1 ≤ start) (h : HoldsString data (start + i) rest) (hplain : ∀ c ∈ rest, c ≠ 0)
    (hfuel : rest.length < fuel) : ∃ data', ece391Strcpy start fuel i data = some data' ∧
      HoldsBytes data' i rest ∧ ∀ a, a < i ∨ i + rest.length < a → data' a = data a := by
  induction rest generalizing data i fuel with
  | nil =>
    obtain ⟨fuel, rfl⟩ := Nat.exists_eq_add_one.mpr (Nat.zero_lt_of_lt hfuel)
    have hend : data (start + i) = 0 := h.terminated
    refine ⟨Function.update data i 0, ?_, fun j hj => absurd hj (Nat.not_lt_zero j), fun a ha => ?_⟩
    · simp only [ece391Strcpy, hend, ne_eq, not_true_eq_false, if_false]
    · rw [List.length_nil] at ha
      rw [Function.update_of_ne (by omega)]
  | cons c rest ih =>
    obtain ⟨fuel, rfl⟩ := Nat.exists_eq_add_one.mpr (Nat.zero_lt_of_lt hfuel)
    have hlength : (c :: rest).length = rest.length + 1 := rfl
    have hc : data (start + i) = c := h.chars 0 (Nat.zero_lt_succ _)
    have hne : c ≠ 0 := hplain c (List.mem_cons_self ..)
    have hrest : HoldsString (Function.update data i c) (start + (i + 1)) rest := by
      refine ⟨fun j hj => ?_, ?_⟩
      · have hat := h.chars (j + 1) (Nat.succ_lt_succ hj)
        rw [List.getElem_cons_succ] at hat
        rw [Function.update_of_ne (by omega), ← hat]
        congr 1
        omega
      · have hend := h.terminated
        rw [hlength] at hend
        rw [Function.update_of_ne (by omega), ← hend]
        congr 1
        omega
    obtain ⟨data', hcopy, hmoved, hkept⟩ := ih hrest
      (fun d hd => hplain d (List.mem_cons_of_mem _ hd)) (Nat.lt_of_succ_lt_succ hfuel)
    refine ⟨data', ?_, fun j hj => ?_, fun a ha => ?_⟩
    · simp only [ece391Strcpy, hc, ne_eq, hne, not_false_eq_true, if_true]
      exact hcopy
    · cases j with
      | zero => rw [hkept _ (.inl (by omega)), Nat.add_zero, Function.update_self]; rfl
      | succ j =>
        rw [List.getElem_cons_succ, ← hmoved j (Nat.lt_of_succ_lt_succ hj)]
        congr 1
        omega
    · rw [hkept a (by omega), Function.update_of_ne (by omega)]

end MyLinuxOS
