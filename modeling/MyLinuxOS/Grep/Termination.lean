import MyLinuxOS.Grep.Search

/-! `do_one_file` comes back on every file, whatever its bytes and its lines are. -/

namespace MyLinuxOS
open Foundation

/-- The copy ends at the first NUL from its source on: it runs up, and so meets it before it can
overwrite it. -/
theorem ece391Strcpy_returns {start fuel i j : Nat} {data : Buffer} (hstart : 1 ≤ start)
    (hnul : data (start + (i + j)) = 0) (hfuel : j < fuel) :
    ∃ data', ece391Strcpy start fuel i data = some data' := by
  induction fuel generalizing i j data with
  | zero => omega
  | succ fuel ih =>
    rw [ece391Strcpy]
    by_cases hend : data (start + i) = 0
    · exact ⟨_, if_neg (not_not.mpr hend)⟩
    · obtain ⟨j, rfl⟩ : ∃ m, j = m + 1 := by
        refine Nat.exists_eq_add_one.mpr (Nat.pos_of_ne_zero ?_)
        rintro rfl
        exact hend hnul
      have hnext : start + (i + 1 + j) = start + (i + (j + 1)) := by omega
      have hkept : Function.update data i (data (start + i)) (start + (i + 1 + j)) = 0 := by
        rw [hnext, Function.update_of_ne (by omega)]
        exact hnul
      obtain ⟨data', h⟩ := ih hkept (by omega)
      exact ⟨data', (if_pos hend).trans h⟩

theorem scanLine_bounds (data : Buffer) (n lineEnd : Nat) :
    lineEnd ≤ scanLine data n lineEnd ∧ scanLine data n lineEnd ≤ lineEnd + n := by
  induction n generalizing lineEnd with
  | zero => exact ⟨Nat.le_refl _, Nat.le_refl _⟩
  | succ n ih =>
    rw [scanLine]
    split
    · have h := ih (lineEnd + 1)
      omega
    · omega

theorem lineLoop_returns (s fname : CString) (cnt last fuel lineStart : Nat) (data : Buffer)
    (hlast : last ≤ bufsize) (hfuel : last - lineStart < fuel) :
    ∃ text data' last', lineLoop s fname cnt last fuel lineStart data =
      some (text, data', last') ∧ last' < bufsize := by
  induction fuel generalizing lineStart data with
  | zero => omega
  | succ fuel ih =>
    obtain ⟨hlo, hhi⟩ := scanLine_bounds data (last - lineStart) lineStart
    rw [lineLoop]
    simp only
    generalize scanLine data (last - lineStart) lineStart = lineEnd at hlo hhi ⊢
    split
    · rename_i hgoes
      obtain ⟨-, -, hstart⟩ := hgoes
      have hnul : Function.update data lineEnd 0 (lineStart + (0 + (lineEnd - lineStart))) = 0 := by
        have hat : lineStart + (0 + (lineEnd - lineStart)) = lineEnd := by omega
        rw [hat, Function.update_self]
      have hcopies : ∃ data', ece391Strcpy lineStart (bufsize + 1) 0
          (Function.update data lineEnd 0) = some data' :=
        ece391Strcpy_returns (by omega) hnul (by omega)
      obtain ⟨data', hcopy⟩ := hcopies
      refine ⟨[], data', last - lineStart, by rw [hcopy]; rfl, ?_⟩
      have hsize : 0 < bufsize := Nat.zero_lt_succ _
      omega
    · split
      · exact ⟨_, _, _, rfl, Nat.zero_lt_succ _⟩
      · obtain ⟨text, data', last', hrest, hroom⟩ :=
          ih (lineEnd + 1) (Function.update data lineEnd 0) (by omega)
        exact ⟨_, data', last', by rw [hrest]; rfl, hroom⟩

section
variable {calls : GrepSyscalls} {file : List UInt8}

theorem grepLoop_returns (s fname : CString)
    (hreads : ∀ position nbytes, calls.read position nbytes =
      some ((file.drop position).take nbytes))
    {n position last : Nat} (hn : (file.drop position).length = n) (hlast : last < bufsize)
    (data : Buffer) : ∃ r, ∀ fuel, n < fuel →
      grepLoop calls s fname fuel position last data = some r := by
  induction n using Nat.strong_induction_on generalizing position last data with
  | _ n ih =>
    have hbytes : ((file.drop position).take (bufsize - last)).length = min (bufsize - last) n := by
      rw [List.length_take, hn]
    obtain ⟨text, data', last', hline, hroom⟩ := lineLoop_returns s fname
      ((file.drop position).take (bufsize - last)).length
      (last + ((file.drop position).take (bufsize - last)).length)
      (last + ((file.drop position).take (bufsize - last)).length + 1) 0
      (storeChunk data last ((file.drop position).take (bufsize - last))) (by omega) (by omega)
    by_cases hend : ((file.drop position).take (bufsize - last)).length = 0
    · refine ⟨if calls.closeFile = -1 then (text ++ message "file close failed\n", -1)
        else (text, 0), fun fuel hfuel => ?_⟩
      obtain ⟨fuel, rfl⟩ := Nat.exists_eq_add_one.mpr (Nat.zero_lt_of_lt hfuel)
      simp only [grepLoop, hreads, hline, bind, Option.bind, if_pos hend]
      split <;> rfl
    · have hdrop : (file.drop (position +
          ((file.drop position).take (bufsize - last)).length)).length =
          n - ((file.drop position).take (bufsize - last)).length := by
        rw [List.length_drop] at hn ⊢
        omega
      obtain ⟨r, hr⟩ := ih _ (by omega) hdrop hroom data'
      refine ⟨(text ++ r.1, r.2), fun fuel hfuel => ?_⟩
      obtain ⟨fuel, rfl⟩ := Nat.exists_eq_add_one.mpr (Nat.zero_lt_of_lt hfuel)
      simp only [grepLoop, hreads, hline, bind, Option.bind, if_neg hend, hr fuel (by omega)]
      rfl

end
end MyLinuxOS
