import MyLinuxOS.Process.Arguments

/-! The parsing step of `execute` on every command: which word becomes the name, where the arguments
begin, and which commands fit the two buffers. -/

namespace MyLinuxOS
open Foundation

instance (c : UInt8) : Decidable (Plain c) := inferInstanceAs (Decidable (c ≠ 32 ∧ c ≠ 0 ∧ c ≠ 10))

/-! ### The parts of a command -/

section parts
variable (command : CString)

def leadingSpaces : List UInt8 := command.bytes.takeWhile (· = 32)

def firstWord : List UInt8 := (command.bytes.dropWhile (· = 32)).takeWhile fun c => Plain c

def behindWord : List UInt8 := (command.bytes.dropWhile (· = 32)).dropWhile fun c => Plain c

def argText : List UInt8 := (behindWord command).dropWhile (· = 32)

def NewlineEndsName : Prop := (behindWord command).head? = some 10

instance : Decidable (NewlineEndsName command) :=
  inferInstanceAs (Decidable ((behindWord command).head? = some 10))

def storedText : List UInt8 := if NewlineEndsName command then command.bytes else argText command

theorem bytes_eq_parts :
    command.bytes = leadingSpaces command ++ (firstWord command ++ behindWord command) := by
  rw [leadingSpaces, firstWord, behindWord, List.takeWhile_append_dropWhile,
    List.takeWhile_append_dropWhile]

theorem strlen_eq_parts : command.strlen =
    (leadingSpaces command).length +
      ((firstWord command).length + (behindWord command).length) := by
  rw [CString.strlen, bytes_eq_parts command, List.length_append, List.length_append]

theorem behindWord_eq : behindWord command =
    (behindWord command).takeWhile (· = 32) ++ argText command :=
  List.takeWhile_append_dropWhile.symm

theorem firstWord_plain {c : UInt8} (h : c ∈ firstWord command) : Plain c := by
  simpa using List.mem_takeWhile_imp h

theorem dropWhile_getD_zero {p : UInt8 → Bool} {d : UInt8} (hd : p d = false) (l : List UInt8) :
    p ((l.dropWhile p).getD 0 d) = false := by
  induction l with
  | nil => exact hd
  | cons c l ih =>
    cases hc : p c with
    | true => rwa [List.dropWhile_cons_of_pos hc]
    | false =>
      rw [List.dropWhile_cons_of_neg (by simp [hc])]
      exact hc

theorem charAt_leadingSpaces {n : Nat} (h : n < (leadingSpaces command).length) :
    command.charAt n = 32 := by
  rw [CString.charAt, bytes_eq_parts command, getD_append_left h, List.getD_eq_getElem _ _ h]
  simpa using List.mem_takeWhile_imp (List.getElem_mem h)

theorem charAt_behind_spaces (n : Nat) :
    command.charAt ((leadingSpaces command).length + n) =
      (firstWord command ++ behindWord command).getD n 0 := by
  rw [CString.charAt, bytes_eq_parts command]
  exact getD_append_add ..

theorem charAt_firstWord {n : Nat} (h : n < (firstWord command).length) :
    command.charAt ((leadingSpaces command).length + n) = (firstWord command).getD n 0 := by
  rw [charAt_behind_spaces, getD_append_left h]

theorem charAt_behindWord (n : Nat) :
    command.charAt ((leadingSpaces command).length + ((firstWord command).length + n)) =
      (behindWord command).getD n 0 := by
  rw [charAt_behind_spaces, getD_append_add]

theorem charAt_plain {n : Nat} (h₁ : (leadingSpaces command).length ≤ n)
    (h₂ : n < (leadingSpaces command).length + (firstWord command).length) :
    Plain (command.charAt n) := by
  obtain ⟨m, rfl⟩ := Nat.exists_eq_add_of_le h₁
  have hm : m < (firstWord command).length := by omega
  rw [charAt_firstWord command hm, List.getD_eq_getElem _ _ hm]
  exact firstWord_plain command (List.getElem_mem hm)

theorem charAt_wordEnd_not_plain :
    ¬Plain (command.charAt ((leadingSpaces command).length + (firstWord command).length)) := by
  have h := charAt_behindWord command 0
  rw [Nat.add_zero] at h
  have hnot := dropWhile_getD_zero (p := fun c => Plain c) (d := 0) (by decide)
    (command.bytes.dropWhile (· = 32))
  rw [h]
  exact of_decide_eq_false hnot

theorem charAt_wordEnd_eq_newline_iff :
    command.charAt ((leadingSpaces command).length + (firstWord command).length) = 10 ↔
      NewlineEndsName command := by
  have h := charAt_behindWord command 0
  rw [Nat.add_zero] at h
  rw [h, NewlineEndsName]
  cases behindWord command with
  | nil => exact iff_of_false (by decide) (by simp)
  | cons c l => simp

theorem charAt_lead_ne :
    command.charAt (leadingSpaces command).length ≠ 32 := by
  have hnot := dropWhile_getD_zero (p := fun c => c = 32) (d := 0) (by decide) command.bytes
  have hrest : firstWord command ++ behindWord command = command.bytes.dropWhile (· = 32) :=
    List.takeWhile_append_dropWhile
  have h := charAt_behind_spaces command 0
  rw [Nat.add_zero, hrest] at h
  rw [h]
  exact of_decide_eq_false hnot

def argStart : Nat := command.strlen - (argText command).length

theorem argStart_eq : argStart command =
    (leadingSpaces command).length +
      ((firstWord command).length + ((behindWord command).takeWhile (· = 32)).length) := by
  have hsplit := congrArg List.length (behindWord_eq command)
  have hlen := strlen_eq_parts command
  rw [List.length_append] at hsplit
  rw [argStart]
  omega

theorem charAt_gap {n : Nat}
    (h₁ : (leadingSpaces command).length + (firstWord command).length ≤ n)
    (h₂ : n < argStart command) : command.charAt n = 32 := by
  rw [argStart_eq] at h₂
  obtain ⟨m, rfl⟩ := Nat.exists_eq_add_of_le h₁
  have hm : m < ((behindWord command).takeWhile (· = 32)).length := by omega
  rw [Nat.add_assoc, charAt_behindWord, behindWord_eq command, getD_append_left hm,
    List.getD_eq_getElem _ _ hm]
  simpa using List.mem_takeWhile_imp (List.getElem_mem hm)

theorem charAt_argText (n : Nat) :
    command.charAt (argStart command + n) = (argText command).getD n 0 := by
  have hindex : argStart command + n =
      (leadingSpaces command).length + ((firstWord command).length +
        (((behindWord command).takeWhile (· = 32)).length + n)) := by
    rw [argStart_eq]
    omega
  have hbehind := getD_append_add ((behindWord command).takeWhile (· = 32)) (argText command) n
  rw [← behindWord_eq] at hbehind
  rw [hindex, charAt_behindWord, hbehind]

theorem charAt_argStart_ne : command.charAt (argStart command) ≠ 32 := by
  have h := charAt_argText command 0
  rw [Nat.add_zero] at h
  rw [h]
  exact of_decide_eq_false
    (dropWhile_getD_zero (p := fun c => c = 32) (d := 0) (by decide) (behindWord command))

theorem storedText_length_le : (storedText command).length ≤ command.strlen := by
  rw [storedText]
  split
  · exact Nat.le_refl _
  · have hsplit := congrArg List.length (behindWord_eq command)
    have hlen := strlen_eq_parts command
    rw [List.length_append] at hsplit
    omega

theorem charAt_storedText (n : Nat) :
    command.charAt (command.strlen - (storedText command).length + n) =
      (storedText command).getD n 0 := by
  rw [storedText]
  split
  · have hzero : command.strlen - command.bytes.length = 0 := Nat.sub_self _
    rw [hzero, Nat.zero_add]
    rfl
  · exact charAt_argText command n

end parts

/-! ### The loops -/

section loops
variable {command : CString}

theorem counter_succ_ne_zero {i : UInt8} (h : i.toNat < 255) : i + 1 ≠ 0 := by
  intro h0
  have hsucc := counter_succ h
  rw [h0] at hsucc
  exact absurd hsucc.symm (Nat.succ_ne_zero _)

def LooksAt (command : CString) (i i' : UInt8) : Prop :=
  if i = 0 then skipSpaces command 256 0 = .ok i' else i' = i

theorem looksAt_self {i : UInt8} (h : i = 0 → command.charAt 0 ≠ 32) : LooksAt command i i := by
  by_cases h0 : i = 0
  · subst h0
    rw [LooksAt, if_pos rfl, skipSpaces]
    exact if_neg (h rfl)
  · exact (if_neg h0).mpr rfl

theorem parseName_round {i i' k : UInt8} {name : Fin 32 → UInt8} {fuel : Nat}
    (hlt : i.toNat < command.strlen + 1) (hlook : LooksAt command i i') :
    parseName command (fuel + 1) i k name =
      if Plain (command.charAt i'.toNat) then
        if h : k.toNat < 32 then
          parseName command fuel (i' + 1) (k + 1)
            (Function.update name ⟨k.toNat, h⟩ (command.charAt i'.toNat))
        else .error .nameOverflow
      else if command.charAt i'.toNat = 10 then .ok (name, 0)
      else (skipSeparators command 256 i').map fun j => (name, j) := by
  have hround : parseName command (fuel + 1) i k name =
      if command.charAt i'.toNat ≠ 32 ∧ command.charAt i'.toNat ≠ 0 ∧
          command.charAt i'.toNat ≠ 10 then
        if h : k.toNat < 32 then
          parseName command fuel (i' + 1) (k + 1)
            (Function.update name ⟨k.toNat, h⟩ (command.charAt i'.toNat))
        else .error .nameOverflow
      else if command.charAt i'.toNat = 32 ∨ command.charAt i'.toNat = 0 then
        (skipSeparators command 256 i').bind fun j => .ok (name, j)
      else .ok (name, 0) := by
    rw [parseName, if_pos hlt]
    -- only the first round skips spaces
    by_cases h0 : i = 0
    · subst h0
      rw [LooksAt, if_pos rfl] at hlook
      simp only [bind, hlook]
      rfl
    · rw [LooksAt, if_neg h0] at hlook
      subst hlook
      simp only [if_neg h0, bind]
      rfl
  rw [hround]
  by_cases hplain : Plain (command.charAt i'.toNat)
  · have hplain' : command.charAt i'.toNat ≠ 32 ∧ command.charAt i'.toNat ≠ 0 ∧
        command.charAt i'.toNat ≠ 10 := hplain
    rw [if_pos hplain, if_pos hplain']
  · have hplain' : ¬(command.charAt i'.toNat ≠ 32 ∧ command.charAt i'.toNat ≠ 0 ∧
        command.charAt i'.toNat ≠ 10) := hplain
    rw [if_neg hplain, if_neg hplain']
    by_cases hnl : command.charAt i'.toNat = 10
    · rw [if_pos hnl, if_neg]
      rw [hnl]
      decide
    · have hcases : command.charAt i'.toNat = 32 ∨ command.charAt i'.toNat = 0 := by
        by_contra hnot
        obtain ⟨h32, h0⟩ := not_or.mp hnot
        exact hplain ⟨h32, h0, hnl⟩
      rw [if_neg hnl, if_pos hcases]
      cases skipSeparators command 256 i' <;> rfl

theorem parseName_word {p : UInt8} {fuel : Nat} {i k : UInt8} {name : Fin 32 → UInt8}
    (hi : LooksAt command i i) (hle : i.toNat ≤ p.toNat)
    (hplain : ∀ n, i.toNat ≤ n → n < p.toNat → Plain (command.charAt n))
    (hend : ¬Plain (command.charAt p.toNat)) (hlen : p.toNat ≤ command.strlen)
    (hfuel : p.toNat - i.toNat < fuel) (hk : k.toNat + (p.toNat - i.toNat) ≤ 32) :
    parseName command fuel i k name =
      (if command.charAt p.toNat = 10 then .ok 0 else skipSeparators command 256 p).map fun j =>
        (fun n : Fin 32 => if k.toNat ≤ n ∧ n < k.toNat + (p.toNat - i.toNat) then
          command.charAt (i.toNat + (n - k.toNat)) else name n, j) := by
  induction fuel generalizing i k name with
  | zero => omega
  | succ fuel ih =>
    have hp := p.toNat_lt
    rw [parseName_round (by omega) hi]
    by_cases he : i.toNat = p.toNat
    · obtain rfl := UInt8.toNat_inj.mp he
      have hname : (fun n : Fin 32 => if k.toNat ≤ n ∧ n < k.toNat + (i.toNat - i.toNat) then
          command.charAt (i.toNat + (n - k.toNat)) else name n) = name := by
        funext n
        exact if_neg (by omega)
      rw [if_neg hend, hname]
      by_cases hnl : command.charAt i.toNat = 10
      · rw [if_pos hnl, if_pos hnl]
        rfl
      · rw [if_neg hnl, if_neg hnl]
    · have hsucc := counter_succ (i := i) (by omega)
      have hksucc := counter_succ (i := k) (by omega)
      have hnext : i + 1 ≠ 0 := counter_succ_ne_zero (by omega)
      rw [if_pos (hplain _ (Nat.le_refl _) (by omega)), dif_pos (by omega),
        ih (looksAt_self fun h0 => absurd h0 hnext) (by omega)
          (fun n h₁ h₂ => hplain n (by omega) h₂) (by omega) (by omega)]
      refine congrArg (Except.map · _) ?_
      funext j
      refine congrArg (·, j) ?_
      funext n
      -- the byte stored in this round, and those of the rounds behind it
      by_cases hn : (n : Nat) = k.toNat
      · have hfin : n = ⟨k.toNat, by omega⟩ := Fin.ext hn
        rw [if_neg (by omega), if_pos (by omega), hfin, Function.update_self]
        simp
      · have hfin : n ≠ ⟨k.toNat, by omega⟩ := fun h => hn (congrArg Fin.val h)
        rw [Function.update_of_ne hfin, hsucc, hksucc]
        by_cases hin : k.toNat + 1 ≤ n ∧ n < k.toNat + 1 + (p.toNat - (i.toNat + 1))
        · have hindex : i.toNat + 1 + (n - (k.toNat + 1)) = i.toNat + (n - k.toNat) := by omega
          rw [if_pos hin, if_pos (by omega), hindex]
        · rw [if_neg hin, if_neg (by omega)]

theorem parseName_overflow {p : UInt8} {fuel : Nat} {i k : UInt8} {name : Fin 32 → UInt8}
    (hi : LooksAt command i i) (hle : i.toNat ≤ p.toNat)
    (hplain : ∀ n, i.toNat ≤ n → n < p.toNat → Plain (command.charAt n))
    (hlen : p.toNat ≤ command.strlen) (hfuel : p.toNat - i.toNat < fuel) (hk : k.toNat ≤ 32)
    (hlong : 32 < k.toNat + (p.toNat - i.toNat)) :
    parseName command fuel i k name = .error .nameOverflow := by
  induction fuel generalizing i k name with
  | zero => omega
  | succ fuel ih =>
    have hp := p.toNat_lt
    rw [parseName_round (by omega) hi, if_pos (hplain _ (Nat.le_refl _) (by omega))]
    by_cases hfull : k.toNat < 32
    · have hsucc := counter_succ (i := i) (by omega)
      have hksucc := counter_succ (i := k) (by omega)
      have hnext : i + 1 ≠ 0 := counter_succ_ne_zero (by omega)
      rw [dif_pos hfull]
      exact ih (looksAt_self fun h0 => absurd h0 hnext) (by omega)
        (fun n h₁ h₂ => hplain n (by omega) h₂) (by omega) (by omega) (by omega)
    · rw [dif_neg hfull]

theorem copyArguments_ends (hlen : command.strlen ≤ 255) {fuel : Nat} {k : UInt8} (c : Nat)
    (args : Nat → UInt8) (hfuel : command.strlen - k.toNat < fuel) :
    ∃ args', copyArguments command fuel k c args = .ok args' := by
  induction fuel generalizing k c args with
  | zero => omega
  | succ fuel ih =>
    rw [copyArguments]
    by_cases hk : k.toNat < command.strlen
    · have hsucc := counter_succ (i := k) (by omega)
      rw [if_pos hk]
      exact ih _ _ (by omega)
    · exact ⟨args, if_neg hk⟩

theorem copyArguments_endless (hlen : 256 ≤ command.strlen) (fuel : Nat) (k : UInt8) (c : Nat)
    (args : Nat → UInt8) : copyArguments command fuel k c args = .error .endless := by
  induction fuel generalizing k c args with
  | zero => rfl
  | succ fuel ih =>
    have hk := k.toNat_lt
    rw [copyArguments, if_pos (by omega)]
    exact ih ..

/-- Where the loop finds the name: at most 255 bytes behind the start for a command that fits its
counters. -/
def wordStart (command : CString) : UInt8 := UInt8.ofNat (leadingSpaces command).length

def wordEnd (command : CString) : UInt8 :=
  UInt8.ofNat ((leadingSpaces command).length + (firstWord command).length)

theorem wordStart_toNat (hlen : command.strlen ≤ 255) :
    (wordStart command).toNat = (leadingSpaces command).length := by
  have hparts := strlen_eq_parts command
  exact UInt8.toNat_ofNat_of_lt' (show _ < 256 by omega)

theorem wordEnd_toNat (hlen : command.strlen ≤ 255) : (wordEnd command).toNat =
    (leadingSpaces command).length + (firstWord command).length := by
  have hparts := strlen_eq_parts command
  exact UInt8.toNat_ofNat_of_lt' (show _ < 256 by omega)

theorem wordEnd_le (hlen : command.strlen ≤ 255) : (wordEnd command).toNat ≤ command.strlen := by
  have hparts := strlen_eq_parts command
  rw [wordEnd_toNat hlen]
  omega

theorem looksAt_wordStart (hlen : command.strlen ≤ 255) :
    LooksAt command (wordStart command) (wordStart command) := by
  have hstart := wordStart_toNat hlen
  have hzero : (0 : UInt8).toNat = 0 := rfl
  refine looksAt_self fun h0 => ?_
  rw [h0, hzero] at hstart
  rw [hstart]
  exact charAt_lead_ne command

theorem plain_in_word (hlen : command.strlen ≤ 255) (n : Nat) (h₁ : (wordStart command).toNat ≤ n)
    (h₂ : n < (wordEnd command).toNat) : Plain (command.charAt n) := by
  rw [wordStart_toNat hlen] at h₁
  rw [wordEnd_toNat hlen] at h₂
  exact charAt_plain command h₁ h₂

theorem parseName_lead (hlen : command.strlen ≤ 255) (fuel : Nat) (k : UInt8)
    (name : Fin 32 → UInt8) :
    parseName command (fuel + 1) 0 k name =
      parseName command (fuel + 1) (wordStart command) k name := by
  have hparts := strlen_eq_parts command
  have hstart := wordStart_toNat hlen
  have hzero : (0 : UInt8).toNat = 0 := rfl
  have hskip : LooksAt command 0 (wordStart command) := by
    rw [LooksAt, if_pos rfl]
    apply skipSpaces_eq
    · exact Nat.zero_le _
    · intro n _ hn
      exact charAt_leadingSpaces command (by omega)
    · rw [hstart]
      exact charAt_lead_ne command
    · omega
  rw [parseName_round (by omega) hskip, parseName_round (by omega) (looksAt_wordStart hlen)]

theorem stored_name_eq (hlen : command.strlen ≤ 255) :
    (fun n : Fin 32 => if (0 : UInt8).toNat ≤ n ∧
        n < (0 : UInt8).toNat + ((wordEnd command).toNat - (wordStart command).toNat) then
      command.charAt ((wordStart command).toNat + (n - (0 : UInt8).toNat)) else 0) =
    fun n : Fin 32 => (firstWord command).getD n 0 := by
  have hzero : (0 : UInt8).toNat = 0 := rfl
  funext n
  rw [hzero, wordStart_toNat hlen, wordEnd_toNat hlen, Nat.sub_zero, Nat.zero_add,
    Nat.add_sub_cancel_left]
  by_cases hn : (n : Nat) < (firstWord command).length
  · rw [if_pos ⟨Nat.zero_le _, hn⟩, charAt_firstWord command hn]
  · rw [if_neg (fun h => hn h.2), List.getD_eq_default _ _ (Nat.not_lt.mp hn)]

theorem skipSeparators_wordEnd (hlen : command.strlen ≤ 255) :
    ∃ j : UInt8, skipSeparators command 256 (wordEnd command) = .ok j ∧
      j.toNat = argStart command := by
  have hend := wordEnd_toNat hlen
  have hstart := argStart_eq command
  have hle : argStart command ≤ command.strlen := Nat.sub_le ..
  have hj : (UInt8.ofNat (argStart command)).toNat = argStart command :=
    UInt8.toNat_ofNat_of_lt' (show _ < 256 by omega)
  refine ⟨UInt8.ofNat (argStart command), ?_, hj⟩
  apply skipSeparators_eq
  · omega
  · intro n h₁ h₂
    exact charAt_gap command (by omega) (by omega)
  · rw [hj]
    exact charAt_argStart_ne command
  · omega
  · omega

theorem parseName_eq (hlen : command.strlen ≤ 255) (hword : (firstWord command).length ≤ 32) :
    ∃ j : UInt8, parseName command 256 0 0 (fun _ => 0) =
        .ok (fun n : Fin 32 => (firstWord command).getD n 0, j) ∧
      j.toNat = command.strlen - (storedText command).length := by
  have hstart := wordStart_toNat hlen
  have hend := wordEnd_toNat hlen
  have hle := wordEnd_le hlen
  have hzero : (0 : UInt8).toNat = 0 := rfl
  have hnot : ¬Plain (command.charAt (wordEnd command).toNat) := by
    rw [hend]
    exact charAt_wordEnd_not_plain command
  rw [parseName_lead hlen, parseName_word (looksAt_wordStart hlen) (by omega)
    (plain_in_word hlen) hnot hle (by omega) (by omega), stored_name_eq hlen, storedText, hend]
  by_cases hnl : NewlineEndsName command
  · rw [if_pos ((charAt_wordEnd_eq_newline_iff command).mpr hnl), if_pos hnl]
    exact ⟨0, rfl, (Nat.sub_self _).symm⟩
  · obtain ⟨j, hskip, hj⟩ := skipSeparators_wordEnd hlen
    rw [if_neg (mt (charAt_wordEnd_eq_newline_iff command).mp hnl), if_neg hnl, hskip]
    exact ⟨j, rfl, hj⟩

/-- What the parsing step stores, for every command whose length fits the 8-bit counters and whose
name does not run over. -/
theorem parseCommand_eq (hlen : command.strlen ≤ 255) (hword : (firstWord command).length ≤ 32)
    (args : Nat → UInt8) : ∃ parsed, parseCommand command args = .ok parsed ∧
      (∀ n : Fin 32, parsed.exeName n = (firstWord command).getD n 0) ∧
      ∀ i, parsed.args i = if i < (storedText command).length then (storedText command).getD i 0
        else if i < argLength then 0 else args i := by
  obtain ⟨j, hname, hj⟩ := parseName_eq hlen hword
  obtain ⟨args', hcopy⟩ := copyArguments_ends hlen (k := j) 0
    (fun i => if i < argLength then 0 else args i) (show _ < 257 by omega)
  have hle := storedText_length_le command
  refine ⟨⟨fun n : Fin 32 => (firstWord command).getD n 0, args'⟩, ?_, fun _ => rfl,
    fun i => ?_⟩
  · unfold parseCommand
    simp only [bind, Except.bind, hname, hcopy]
  · change args' i = _
    rw [copyArguments_args (by omega) hcopy, hj, Nat.sub_zero, Nat.zero_add, charAt_storedText]
    have hcount : command.strlen - (command.strlen - (storedText command).length) =
        (storedText command).length := by omega
    rw [hcount]
    by_cases hi : i < (storedText command).length
    · rw [if_pos ⟨Nat.zero_le _, hi⟩, if_pos hi]
    · rw [if_neg (fun h => hi h.2), if_neg hi]

theorem parseCommand_overflow (hlen : command.strlen ≤ 255)
    (hword : 32 < (firstWord command).length) (args : Nat → UInt8) :
    parseCommand command args = .error .nameOverflow := by
  have hstart := wordStart_toNat hlen
  have hend := wordEnd_toNat hlen
  have hle := wordEnd_le hlen
  have hzero : (0 : UInt8).toNat = 0 := rfl
  have hparse : parseName command 256 0 0 (fun _ => 0) = .error .nameOverflow := by
    rw [parseName_lead hlen]
    exact parseName_overflow (looksAt_wordStart hlen) (by omega) (plain_in_word hlen) hle
      (by omega) (by omega) (by omega)
  unfold parseCommand
  simp only [bind, Except.bind, hparse]

theorem parseCommand_long (hlen : 256 ≤ command.strlen) (args : Nat → UInt8) (parsed : Parsed) :
    parseCommand command args ≠ .ok parsed := by
  intro h
  unfold parseCommand at h
  simp only [bind, Except.bind] at h
  split at h
  · exact absurd h (by simp)
  · rw [copyArguments_endless hlen] at h
    exact absurd h (by simp)

end loops

/-! ### The split -/

section split
variable {command : CString}

/-- The name is the first word, and the arguments are what stands behind it without the spaces in
front. -/
def Splits (command : CString) (parsed : Parsed) : Prop :=
  (∀ n : Fin 32, parsed.exeName n = (firstWord command).getD n 0) ∧
    ∀ i < argLength, parsed.args i = (argText command).getD i 0

theorem behindWord_noNul : ∀ b ∈ behindWord command, b ≠ 0 := by
  intro b hb
  apply command.noNul
  rw [bytes_eq_parts command]
  exact List.mem_append_right _ (List.mem_append_right _ hb)

theorem storedText_noNul : ∀ b ∈ storedText command, b ≠ 0 := by
  intro b hb
  rw [storedText] at hb
  split at hb
  · exact command.noNul b hb
  · exact behindWord_noNul b ((List.dropWhile_suffix _).mem hb)

theorem argText_noNul : ∀ b ∈ argText command, b ≠ 0 :=
  fun b hb => behindWord_noNul b ((List.dropWhile_suffix _).mem hb)

theorem argText_length_le : (argText command).length ≤ command.strlen := by
  have hparts := strlen_eq_parts command
  have hsuffix := (List.dropWhile_suffix (l := behindWord command) (· = 32)).length_le
  rw [argText]
  omega

theorem argText_of_newline (hnl : NewlineEndsName command) :
    argText command = behindWord command := by
  obtain ⟨l, hl⟩ : ∃ l, behindWord command = 10 :: l := List.head?_eq_some_iff.mp hnl
  rw [argText, hl]
  exact List.dropWhile_cons_of_neg (by decide)

theorem parts_of_newline (hhead : command.bytes.head? = some 10) :
    behindWord command = command.bytes := by
  obtain ⟨l, hl⟩ := List.head?_eq_some_iff.mp hhead
  rw [behindWord, hl, List.dropWhile_cons_of_neg (by decide),
    List.dropWhile_cons_of_neg (by decide)]

theorem storedText_eq_argText_iff : storedText command = argText command ↔
    (NewlineEndsName command → command.bytes.head? = some 10) := by
  constructor
  · intro h hnl
    rw [storedText, if_pos hnl, argText_of_newline hnl] at h
    rw [h]
    exact hnl
  · intro h
    rw [storedText]
    split
    · rename_i hnl
      rw [argText_of_newline hnl, parts_of_newline (h hnl)]
    · rfl

theorem eq_of_getD_zero {l l' : List UInt8} {n : Nat} (hl : ∀ b ∈ l, b ≠ 0)
    (hl' : ∀ b ∈ l', b ≠ 0) (hn : l.length ≤ n) (hn' : l'.length ≤ n)
    (h : ∀ i < n, l.getD i 0 = l'.getD i 0) : l = l' := by
  have hlonger : ∀ m m' : List UInt8, (∀ b ∈ m, b ≠ 0) → m.length ≤ n →
      (∀ i < n, m.getD i 0 = m'.getD i 0) → m.length ≤ m'.length := by
    intro m m' hm hlen he
    by_contra hlt
    -- the string that ends first reads as zero where the other has a byte
    have hat := he m'.length (by omega)
    rw [List.getD_eq_default _ _ (Nat.le_refl _), List.getD_eq_getElem _ _ (by omega)] at hat
    exact hm _ (List.getElem_mem _) hat
  refine List.ext_getElem (Nat.le_antisymm (hlonger l l' hl hn h)
    (hlonger l' l hl' hn' fun i hi => (h i hi).symm)) fun i h₁ h₂ => ?_
  have hat := h i (by omega)
  rwa [List.getD_eq_getElem _ _ h₁, List.getD_eq_getElem _ _ h₂] at hat

/-- The parsing step splits a command as its comments say, unless a newline ends the name: then the
whole command is kept as the arguments. -/
theorem parse_splits_iff (hlen : command.strlen ≤ 127) (hword : (firstWord command).length ≤ 31)
    (args : Nat → UInt8) :
    (∃ parsed, parseCommand command args = .ok parsed ∧ Splits command parsed) ↔
      (NewlineEndsName command → command.bytes.head? = some 10) := by
  obtain ⟨parsed, hparse, hname, hargs⟩ :=
    parseCommand_eq (Nat.le_trans hlen (by decide)) (Nat.le_succ_of_le hword) args
  have hstored := storedText_length_le command
  have hargText : (argText command).length ≤ command.strlen := argText_length_le
  have hargs' : ∀ i < argLength, parsed.args i = (storedText command).getD i 0 := by
    intro i hi
    rw [hargs i]
    by_cases hin : i < (storedText command).length
    · rw [if_pos hin]
    · rw [if_neg hin, if_pos hi, List.getD_eq_default _ _ (Nat.not_lt.mp hin)]
  rw [← storedText_eq_argText_iff]
  constructor
  · rintro ⟨parsed', hparse', -, hsplit⟩
    obtain rfl : parsed = parsed' := Except.ok.inj (hparse.symm.trans hparse')
    refine eq_of_getD_zero (n := argLength) storedText_noNul argText_noNul ?_ ?_ fun i hi => ?_
    · unfold argLength
      omega
    · unfold argLength
      omega
    · rw [← hargs' i hi, hsplit i hi]
  · intro h
    refine ⟨parsed, hparse, hname, fun i hi => ?_⟩
    rw [hargs' i hi, h]

theorem shell_a_splits : ∃ parsed,
    parseCommand (.ofBuffer [115, 104, 101, 108, 108, 32, 97]) (fun _ => 255) = .ok parsed ∧
      Splits (.ofBuffer [115, 104, 101, 108, 108, 32, 97]) parsed :=
  (parse_splits_iff (by decide) (by decide) _).mpr fun h => absurd h (by decide)

/-- `ls` and a newline: the arguments are the command itself. -/
theorem newline_keeps_the_command : ∃ parsed,
    parseCommand (.ofBuffer [108, 115, 10]) (fun _ => 255) = .ok parsed ∧
      (List.range 4).map parsed.args = [108, 115, 10, 0] ∧
      argText (.ofBuffer [108, 115, 10]) = [10] ∧ ¬Splits (.ofBuffer [108, 115, 10]) parsed := by
  have hlen : (CString.ofBuffer [108, 115, 10]).strlen ≤ 255 := by decide
  obtain ⟨parsed, hparse, -, hargs⟩ := parseCommand_eq hlen (by decide) fun _ => 255
  have hstored : storedText (.ofBuffer [108, 115, 10]) = [108, 115, 10] := by decide
  have hkept : (List.range 4).map parsed.args = [108, 115, 10, 0] := by
    rw [List.map_congr_left fun i _ => hargs i, hstored]
    rfl
  refine ⟨parsed, hparse, hkept, by decide, fun hsplit => ?_⟩
  have hfirst : parsed.args 0 = 108 := (List.cons.inj hkept).1
  rw [hsplit.2 0 (by decide)] at hfirst
  exact absurd hfirst (by decide)

end split

end MyLinuxOS
