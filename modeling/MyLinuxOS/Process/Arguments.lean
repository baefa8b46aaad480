import Mathlib.Data.List.GetD
import MyLinuxOS.Files.Descriptors
import MyLinuxOS.Process.FailedExecute

/-! From the command line to the argument string of the program: `execute` cuts the arguments off
behind the name, `getargs` squeezes the spaces out of them. -/

namespace MyLinuxOS
open Foundation

/-! ### The arguments that `execute` stores -/

section parse
variable {command : CString}

theorem counter_succ {i : UInt8} (h : i.toNat < 255) : (i + 1).toNat = i.toNat + 1 := by
  have hone : (1 : UInt8).toNat = 1 := rfl
  rw [UInt8.toNat_add, hone]
  omega

theorem skipSpaces_eq {i q : UInt8} {fuel : Nat} (hle : i.toNat ≤ q.toNat)
    (hspaces : ∀ n, i.toNat ≤ n → n < q.toNat → command.charAt n = 32)
    (hstop : command.charAt q.toNat ≠ 32) (hfuel : q.toNat - i.toNat < fuel) :
    skipSpaces command fuel i = .ok q := by
  induction fuel generalizing i with
  | zero => omega
  | succ fuel ih =>
    have hq := q.toNat_lt
    rw [skipSpaces]
    by_cases he : i.toNat = q.toNat
    · rw [he, if_neg hstop, UInt8.toNat_inj.mp he]
    · have hsucc := counter_succ (i := i) (by omega)
      rw [if_pos (hspaces _ (Nat.le_refl _) (by omega))]
      exact ih (by omega) (fun n h₁ h₂ => hspaces n (by omega) h₂) (by omega)

theorem skipSeparators_eq {i q : UInt8} {fuel : Nat} (hle : i.toNat ≤ q.toNat)
    (hspaces : ∀ n, i.toNat ≤ n → n < q.toNat → command.charAt n = 32)
    (hstop : command.charAt q.toNat ≠ 32) (hlen : q.toNat ≤ command.strlen)
    (hfuel : q.toNat - i.toNat < fuel) : skipSeparators command fuel i = .ok q := by
  induction fuel generalizing i with
  | zero => omega
  | succ fuel ih =>
    have hq := q.toNat_lt
    rw [skipSeparators]
    by_cases he : i.toNat = q.toNat
    · rw [he, if_pos hstop, UInt8.toNat_inj.mp he, ite_self]
    · have hsucc := counter_succ (i := i) (by omega)
      rw [if_pos (by omega), if_neg (not_not.mpr (hspaces _ (Nat.le_refl _) (by omega)))]
      exact ih (by omega) (fun n h₁ h₂ => hspaces n (by omega) h₂) (by omega)

def Plain (c : UInt8) : Prop := c ≠ 32 ∧ c ≠ 0 ∧ c ≠ 10

theorem parseName_tail {p : UInt8} {fuel : Nat} {i k : UInt8} {name name' : Fin 32 → UInt8}
    {j : UInt8} (hi : i ≠ 0) (hle : i.toNat ≤ p.toNat)
    (hplain : ∀ n, i.toNat ≤ n → n < p.toNat → Plain (command.charAt n))
    (hspace : command.charAt p.toNat = 32) (hlt : p.toNat < command.strlen)
    (h : parseName command fuel i k name = .ok (name', j)) :
    skipSeparators command 256 p = .ok j := by
  induction fuel generalizing i k name with
  | zero => exact absurd h (by simp [parseName])
  | succ fuel ih =>
    have hp := p.toNat_lt
    rw [parseName, if_pos (by omega), if_neg hi] at h
    simp only [bind, Except.bind] at h
    by_cases he : i.toNat = p.toNat
    · obtain rfl := UInt8.toNat_inj.mp he
      rw [if_neg (fun hpl => hpl.1 hspace), if_pos (.inl hspace)] at h
      split at h
      · exact absurd h (by simp)
      · rename_i j' hj
        obtain ⟨-, rfl⟩ := Prod.mk.inj (Except.ok.inj h)
        exact hj
    · have hsucc := counter_succ (i := i) (by omega)
      have hpl : command.charAt i.toNat ≠ 32 ∧ command.charAt i.toNat ≠ 0 ∧
          command.charAt i.toNat ≠ 10 := hplain _ (Nat.le_refl _) (by omega)
      rw [if_pos hpl] at h
      split at h
      · refine ih ?_ (by omega) (fun n h₁ h₂ => hplain n (by omega) h₂) h
        intro h0
        rw [h0] at hsucc
        exact absurd hsucc.symm (Nat.succ_ne_zero _)
      · exact absurd h (by simp)

theorem copyArguments_args {fuel : Nat} {k : UInt8} {c : Nat} {args args' : Nat → UInt8}
    (hlen : command.strlen < 256) (h : copyArguments command fuel k c args = .ok args') (i : Nat) :
    args' i = if c ≤ i ∧ i < c + (command.strlen - k.toNat) then
      command.charAt (k.toNat + (i - c)) else args i := by
  induction fuel generalizing k c args with
  | zero => exact absurd h (by simp [copyArguments])
  | succ fuel ih =>
    rw [copyArguments] at h
    split at h
    · rename_i hk
      have hsucc := counter_succ (i := k) (by omega)
      rw [ih h, hsucc]
      by_cases he : i = c
      · subst he
        rw [if_neg (by omega), if_pos (by omega), Function.update_self, Nat.sub_self,
          Nat.add_zero]
      · rw [Function.update_of_ne he]
        by_cases hin : c + 1 ≤ i ∧ i < c + 1 + (command.strlen - (k.toNat + 1))
        · have hindex : k.toNat + 1 + (i - (c + 1)) = k.toNat + (i - c) := by omega
          rw [if_pos hin, if_pos (by omega), hindex]
        · rw [if_neg hin, if_neg (by omega)]
    · rename_i hk
      obtain rfl := Except.ok.inj h
      rw [if_neg (by omega)]

end parse

/-! ### Command lines -/

structure Word where
  bytes : List UInt8
  nonempty : bytes ≠ []
  plain : ∀ b ∈ bytes, Plain b

/-- The words of a command line, with the spaces before, between and behind them: an argument comes
after `gap + 1` spaces. -/
structure CommandLine where
  lead : Nat
  name : Word
  first : Nat × Word
  more : List (Nat × Word)
  trail : Nat

def spaces (n : Nat) : List UInt8 := List.replicate n 32

def spaced (args : List (Nat × Word)) : List UInt8 :=
  args.flatMap fun (gap, w) => spaces (gap + 1) ++ w.bytes

namespace CommandLine
variable (line : CommandLine)

def text : List UInt8 := line.first.2.bytes ++ spaced line.more

def front : List UInt8 := spaces line.lead ++ (line.name.bytes ++ spaces (line.first.1 + 1))

def bytes : List UInt8 := line.front ++ (line.text ++ spaces line.trail)

def normalForm : List UInt8 :=
  [32].intercalate (line.first.2.bytes :: line.more.map fun arg => arg.2.bytes)

theorem noNul : ∀ b ∈ line.bytes, b ≠ 0 := by
  have hspaces : ∀ n, ∀ b ∈ spaces n, b ≠ 0 := by
    intro n b hb
    rw [List.eq_of_mem_replicate hb]
    decide
  have hword : ∀ w : Word, ∀ b ∈ w.bytes, b ≠ 0 := fun w b hb => (w.plain b hb).2.1
  intro b hb
  simp only [bytes, front, text, spaced, List.mem_append, List.mem_flatMap] at hb
  rcases hb with (hb | hb | hb) | (hb | ⟨arg, -, hb | hb⟩) | hb
  · exact hspaces _ b hb
  · exact hword _ b hb
  · exact hspaces _ b hb
  · exact hword _ b hb
  · exact hspaces _ b hb
  · exact hword _ b hb
  · exact hspaces _ b hb

def command : CString := ⟨line.bytes, line.noNul⟩

end CommandLine

/-! ### Indexing into concatenations -/

theorem getD_append_left {a b : List UInt8} {i : Nat} (h : i < a.length) :
    (a ++ b).getD i 0 = a.getD i 0 := List.getD_append _ _ _ _ h

theorem getD_append_add (a b : List UInt8) (i : Nat) :
    (a ++ b).getD (a.length + i) 0 = b.getD i 0 := by
  rw [List.getD_append_right _ _ _ _ (Nat.le_add_right ..), Nat.add_sub_cancel_left]

theorem getD_spaces {n i : Nat} (h : i < n) : (spaces n).getD i 0 = 32 := by
  rw [spaces, List.getD_eq_getElem _ _ (by rwa [List.length_replicate]), List.getElem_replicate]

theorem Word.getD_plain (w : Word) {i : Nat} (h : i < w.bytes.length) :
    Plain (w.bytes.getD i 0) := by
  rw [List.getD_eq_getElem _ _ h]
  exact w.plain _ (List.getElem_mem h)

theorem Word.length_pos (w : Word) : 0 < w.bytes.length := List.length_pos_of_ne_nil w.nonempty

namespace CommandLine
variable (line : CommandLine)

theorem charAt_front {n : Nat} (h : n < line.front.length) :
    line.command.charAt n = line.front.getD n 0 := getD_append_left h

theorem front_length : line.front.length =
    line.lead + (line.name.bytes.length + (line.first.1 + 1)) := by
  simp only [front, List.length_append, spaces, List.length_replicate]

theorem charAt_lead {n : Nat} (h : n < line.lead) : line.command.charAt n = 32 := by
  have hfront : n < line.front.length := by rw [front_length]; omega
  have hlead : n < (spaces line.lead).length := by rwa [spaces, List.length_replicate]
  rw [charAt_front line hfront, front, getD_append_left hlead, getD_spaces h]

theorem charAt_behind_lead {n : Nat} (h : n < line.name.bytes.length + (line.first.1 + 1)) :
    line.command.charAt (line.lead + n) =
      (line.name.bytes ++ spaces (line.first.1 + 1)).getD n 0 := by
  have hfront : line.lead + n < line.front.length := by rw [front_length]; omega
  have hindex := getD_append_add (spaces line.lead)
    (line.name.bytes ++ spaces (line.first.1 + 1)) n
  rw [spaces, List.length_replicate] at hindex
  rw [charAt_front line hfront]
  exact hindex

theorem charAt_name {n : Nat} (h : n < line.name.bytes.length) :
    Plain (line.command.charAt (line.lead + n)) := by
  rw [charAt_behind_lead line (by omega), getD_append_left h]
  exact line.name.getD_plain h

theorem charAt_gap {n : Nat} (h : n < line.first.1 + 1) :
    line.command.charAt (line.lead + (line.name.bytes.length + n)) = 32 := by
  rw [charAt_behind_lead line (by omega), getD_append_add, getD_spaces h]

theorem charAt_text (n : Nat) : line.command.charAt (line.front.length + n) =
    (line.text ++ spaces line.trail).getD n 0 := getD_append_add ..

theorem charAt_first : Plain (line.command.charAt line.front.length) := by
  have h := line.charAt_text 0
  rw [Nat.add_zero, text, List.append_assoc, getD_append_left line.first.2.length_pos] at h
  rw [h]
  exact line.first.2.getD_plain line.first.2.length_pos

theorem strlen_eq : line.command.strlen =
    line.front.length + (line.text.length + line.trail) := by
  simp only [CString.strlen, command, bytes, List.length_append, spaces, List.length_replicate]

theorem text_length_pos : 0 < line.text.length := by
  have hword := line.first.2.length_pos
  rw [text, List.length_append]
  omega

theorem skipSpaces_lead (h : line.lead < 256) :
    skipSpaces line.command 256 0 = .ok (UInt8.ofNat line.lead) := by
  have hq : (UInt8.ofNat line.lead).toNat = line.lead := UInt8.toNat_ofNat_of_lt' h
  apply skipSpaces_eq
  · exact Nat.zero_le _
  · intro n _ hn
    exact line.charAt_lead (by omega)
  · rw [hq]
    exact (line.charAt_name line.name.length_pos).1
  · rw [hq]
    exact Nat.lt_of_le_of_lt (Nat.sub_le ..) h

theorem skipSeparators_gap (h : line.bytes.length < 256) :
    skipSeparators line.command 256 (UInt8.ofNat (line.lead + line.name.bytes.length)) =
      .ok (UInt8.ofNat line.front.length) := by
  have hstrlen : line.command.strlen < 256 := h
  have hsize := line.strlen_eq
  have hfront := line.front_length
  have htext := line.text_length_pos
  have hbits : UInt8.size = 256 := rfl
  have hp : (UInt8.ofNat (line.lead + line.name.bytes.length)).toNat =
      line.lead + line.name.bytes.length := UInt8.toNat_ofNat_of_lt' (by omega)
  have hj : (UInt8.ofNat line.front.length).toNat = line.front.length :=
    UInt8.toNat_ofNat_of_lt' (by omega)
  apply skipSeparators_eq
  · omega
  · intro n h₁ h₂
    have hn : n = line.lead + (line.name.bytes.length +
        (n - (line.lead + line.name.bytes.length))) := by omega
    rw [hn]
    exact line.charAt_gap (by omega)
  · rw [hj]
    exact line.charAt_first.1
  · omega
  · omega

theorem parseName_start (hlen : line.bytes.length < 256) {name name' : Fin 32 → UInt8} {j : UInt8}
    (h : parseName line.command 256 0 0 name = .ok (name', j)) : j.toNat = line.front.length := by
  have hstrlen : line.command.strlen < 256 := hlen
  have hsize := line.strlen_eq
  have hfront := line.front_length
  have htext := line.text_length_pos
  have hname := line.name.length_pos
  have hbits : UInt8.size = 256 := rfl
  have hq : (UInt8.ofNat line.lead).toNat = line.lead := UInt8.toNat_ofNat_of_lt' (by omega)
  have hp : (UInt8.ofNat (line.lead + line.name.bytes.length)).toNat =
      line.lead + line.name.bytes.length := UInt8.toNat_ofNat_of_lt' (by omega)
  have hsucc := counter_succ (i := UInt8.ofNat line.lead) (by omega)
  have hzero : (0 : UInt8).toNat = 0 := rfl
  have hfirst : line.command.charAt line.lead ≠ 32 ∧ line.command.charAt line.lead ≠ 0 ∧
      line.command.charAt line.lead ≠ 10 := line.charAt_name hname
  -- the spaces in front are skipped in the first round only, where `i` is 0
  rw [parseName, if_pos (by omega), if_pos rfl, line.skipSpaces_lead (by omega)] at h
  simp only [bind, Except.bind, hq] at h
  rw [if_pos hfirst, dif_pos (by decide)] at h
  have htail := parseName_tail (p := UInt8.ofNat (line.lead + line.name.bytes.length))
    (fun h0 => by rw [h0] at hsucc; omega) (by omega) (fun n h₁ h₂ => ?_)
    (by rw [hp]; exact line.charAt_gap (Nat.succ_pos _)) (by omega) h
  · rw [Except.ok.inj (htail.symm.trans (line.skipSeparators_gap hlen))]
    exact UInt8.toNat_ofNat_of_lt' (by omega)
  · have hn : n = line.lead + (n - line.lead) := by omega
    rw [hn]
    exact line.charAt_name (by omega)

theorem parseCommand_args (hlen : line.bytes.length < 256)
    {args : Nat → UInt8} {parsed : Parsed}
    (h : parseCommand line.command args = .ok parsed) {i : Nat} (hi : i < argLength) :
    parsed.args i = (line.text ++ spaces line.trail).getD i 0 := by
  unfold parseCommand at h
  simp only [bind, Except.bind] at h
  split at h
  · exact absurd h (by simp)
  · rename_i r hname
    obtain ⟨name, j⟩ := r
    split at h
    · exact absurd h (by simp)
    · rename_i args' hcopy
      obtain rfl := Except.ok.inj h
      have hj := line.parseName_start hlen hname
      have hsize := line.strlen_eq
      have hstrlen : line.command.strlen < 256 := hlen
      change args' i = _
      rw [copyArguments_args hstrlen hcopy, hj, Nat.sub_zero]
      by_cases hin : i < line.text.length + line.trail
      · rw [if_pos (by omega), charAt_text]
      · have hbeyond : (line.text ++ spaces line.trail).length ≤ i := by
          rw [List.length_append, spaces, List.length_replicate]
          omega
        rw [if_neg (by omega), if_pos hi, List.getD_eq_default _ _ hbeyond]

end CommandLine

/-! ### The bytes that `getargs` stores -/

section copyArgs

theorem copyArgs_append (f : Nat → UInt8) (m n i : Nat) :
    copyArgs f (m + n) i = copyArgs f m i ++ copyArgs f n (i + m) := by
  induction m generalizing i with
  | zero => rw [Nat.zero_add, copyArgs, List.nil_append, Nat.add_zero]
  | succ m ih =>
    have hnext : i + 1 + m = i + (m + 1) := by omega
    rw [Nat.add_right_comm, copyArgs, copyArgs, ih, hnext]
    split
    · rfl
    · split <;> rfl

theorem copyArgs_congr {f g : Nat → UInt8} {n i : Nat}
    (h : ∀ j, i ≤ j → j ≤ i + n → f j = g j) : copyArgs f n i = copyArgs g n i := by
  induction n generalizing i with
  | zero => rfl
  | succ n ih =>
    rw [copyArgs, copyArgs, h i (Nat.le_refl _) (by omega), h (i + 1) (by omega) (by omega),
      ih fun j h₁ h₂ => h j (by omega) (by omega)]

theorem copyArgs_spaces {f : Nat → UInt8} {n i : Nat}
    (h : ∀ j, i ≤ j → j < i + n → f j = 32) : copyArgs f n i = [] := by
  induction n generalizing i with
  | zero => rfl
  | succ n ih =>
    rw [copyArgs, if_pos (h i (Nat.le_refl _) (by omega))]
    exact ih fun j h₁ h₂ => h j (by omega) (by omega)

theorem copyArgs_zeros {f : Nat → UInt8} {n i : Nat}
    (h : ∀ j, i ≤ j → j ≤ i + n → f j = 0) : copyArgs f n i = List.replicate n 0 := by
  induction n generalizing i with
  | zero => rfl
  | succ n ih =>
    rw [copyArgs, h i (Nat.le_refl _) (by omega), h (i + 1) (by omega) (by omega),
      if_neg (by decide), if_neg (by decide), ih fun j h₁ h₂ => h j (by omega) (by omega)]
    rfl

theorem copyArgs_run {f : Nat → UInt8} (l : List UInt8) {i : Nat} (hl : l ≠ [])
    (hf : ∀ j < l.length, f (i + j) = l.getD j 0) (hspace : ∀ b ∈ l, b ≠ 32) :
    copyArgs f l.length i = l ++ (if f (i + l.length) = 32 then [32] else []) := by
  induction l generalizing i with
  | nil => exact absurd rfl hl
  | cons a l ih =>
    have ha := hf 0 (Nat.succ_pos _)
    rw [Nat.add_zero, List.getD_cons_zero] at ha
    rw [List.length_cons, copyArgs, ha, if_neg (hspace a (List.mem_cons_self ..))]
    cases l with
    | nil =>
      change (if f (i + 1) = 32 then [a, 32] else [a]) = [a] ++ if f (i + 1) = 32 then [32] else []
      split <;> rfl
    | cons b l =>
      have hb := hf 1 (by simp)
      rw [List.getD_cons_succ, List.getD_cons_zero] at hb
      have hrest := ih (i := i + 1) (by simp)
        (fun j hj => by
          have hnext : i + 1 + j = i + (j + 1) := by omega
          rw [hnext, hf (j + 1) (Nat.succ_lt_succ hj), List.getD_cons_succ])
        fun c hc => hspace c (List.mem_cons_of_mem _ hc)
      have hb' : b ≠ 32 := hspace b (List.mem_cons_of_mem _ (List.mem_cons_self ..))
      have hnext : i + 1 + (b :: l).length = i + ((b :: l).length + 1) := by omega
      rw [hb, if_neg hb', hrest, hnext]
      rfl

theorem getD_argument (w : Word) (gap : Nat) (l : List UInt8) (j : Nat) :
    (spaces (gap + 1) ++ (w.bytes ++ l)).getD (gap + 1 + j) 0 = (w.bytes ++ l).getD j 0 := by
  have h := getD_append_add (spaces (gap + 1)) (w.bytes ++ l) j
  rwa [spaces, List.length_replicate] at h

theorem copyArgs_word (w : Word) (rest : List UInt8) {f : Nat → UInt8} {i : Nat}
    (hf : ∀ j ≤ w.bytes.length, f (i + j) = (w.bytes ++ rest).getD j 0) :
    copyArgs f w.bytes.length i = w.bytes ++ (if rest.getD 0 0 = 32 then [32] else []) := by
  have hnext : f (i + w.bytes.length) = rest.getD 0 0 := by
    have h := hf _ (Nat.le_refl _)
    have hrest := getD_append_add w.bytes rest 0
    rw [Nat.add_zero] at hrest
    rw [h, hrest]
  rw [← hnext]
  apply copyArgs_run w.bytes w.nonempty
  · intro j hj
    rw [hf j (Nat.le_of_lt hj), getD_append_left hj]
  · intro b hb
    exact (w.plain b hb).1

/-- A word and the arguments behind it come out joined by single spaces; the look-ahead adds one
more if anything follows the last word. -/
theorem copyArgs_words (w : Word) (more : List (Nat × Word)) (trail : Nat) {f : Nat → UInt8}
    {i : Nat} (hf : ∀ j ≤ (w.bytes ++ spaced more).length,
      f (i + j) = (w.bytes ++ (spaced more ++ spaces trail)).getD j 0) :
    copyArgs f (w.bytes ++ spaced more).length i =
      w.bytes ++ ((more.flatMap fun arg => 32 :: arg.2.bytes) ++ spaces (min trail 1)) := by
  induction more generalizing w i with
  | nil =>
    have hlen : (w.bytes ++ spaced []).length = w.bytes.length := by
      rw [spaced, List.flatMap_nil, List.append_nil]
    rw [hlen] at hf ⊢
    rw [copyArgs_word w _ hf]
    cases trail with
    | zero => rfl
    | succ n => rw [Nat.min_eq_right (Nat.succ_le_succ (Nat.zero_le n))]; rfl
  | cons arg more ih =>
    obtain ⟨gap, w'⟩ := arg
    have hcons : spaced ((gap, w') :: more) = spaces (gap + 1) ++ (w'.bytes ++ spaced more) := by
      rw [spaced, List.flatMap_cons, List.append_assoc]
      rfl
    have hgap : (spaces (gap + 1)).length = gap + 1 := List.length_replicate
    have hlen : (w.bytes ++ (spaces (gap + 1) ++ (w'.bytes ++ spaced more))).length =
        w.bytes.length + (gap + 1 + (w'.bytes ++ spaced more).length) := by
      rw [List.length_append, List.length_append, hgap]
    rw [hcons, hlen, List.append_assoc, List.append_assoc] at hf
    rw [hcons, hlen]
    have hword := copyArgs_word w _ fun j hj => hf j (by omega)
    rw [getD_append_left (by omega), getD_spaces (Nat.succ_pos _), if_pos rfl] at hword
    have hspaces : ∀ j, i + w.bytes.length ≤ j → j < i + w.bytes.length + (gap + 1) →
        f j = 32 := by
      intro j h₁ h₂
      have hj : j = i + (w.bytes.length + (j - i - w.bytes.length)) := by omega
      rw [hj, hf _ (by omega), getD_append_add, getD_append_left (by omega),
        getD_spaces (by omega)]
    -- the run of spaces gives one byte, and the next word begins behind it
    have hrest := ih w' (i := i + w.bytes.length + (gap + 1)) fun j hj => by
      have hindex : i + w.bytes.length + (gap + 1) + j =
          i + (w.bytes.length + (gap + 1 + j)) := by omega
      rw [hindex, hf _ (by omega), getD_append_add, getD_argument]
    rw [copyArgs_append, copyArgs_append, hword, copyArgs_spaces hspaces, hrest]
    simp only [List.flatMap_cons, List.append_assoc, List.nil_append, List.cons_append]

theorem copyArgs_trail {f : Nat → UInt8} {i t n : Nat}
    (hf : ∀ j ≤ n, f (i + j) = (spaces t).getD j 0) :
    copyArgs f n i = List.replicate (n - t) 0 := by
  have hsplit : n = min n t + (n - t) := by omega
  have hspaces : copyArgs f (min n t) i = [] := by
    apply copyArgs_spaces
    intro j h₁ h₂
    have hj : j = i + (j - i) := by omega
    rw [hj, hf _ (by omega), getD_spaces (by omega)]
  have hzeros : copyArgs f (n - t) (i + min n t) = List.replicate (n - t) 0 := by
    rcases Nat.eq_zero_or_pos (n - t) with h0 | hpos
    · rw [h0]
      rfl
    · apply copyArgs_zeros
      intro j h₁ h₂
      have hj : j = i + (j - i) := by omega
      have hbeyond : (spaces t).length ≤ j - i := by
        rw [spaces, List.length_replicate]
        omega
      rw [hj, hf _ (by omega), List.getD_eq_default _ _ hbeyond]
  calc copyArgs f n i = copyArgs f (min n t + (n - t)) i := by rw [← hsplit]
    _ = List.replicate (n - t) 0 := by rw [copyArgs_append, hspaces, hzeros, List.nil_append]

end copyArgs

theorem intercalate_space (l : List UInt8) (ls : List (List UInt8)) :
    [32].intercalate (l :: ls) = l ++ ls.flatMap fun l' => 32 :: l' := by
  induction ls generalizing l with
  | nil => rw [List.intercalate_singleton, List.flatMap_nil, List.append_nil]
  | cons l' ls ih =>
    rw [List.intercalate_cons_cons, ih, List.flatMap_cons, List.append_assoc]
    rfl

section getargs
variable (line : CommandLine) {k : Kernel} {buf : UInt32} {nbytes : Int32}

theorem CommandLine.normalForm_eq : line.normalForm =
    line.first.2.bytes ++ line.more.flatMap fun arg => 32 :: arg.2.bytes := by
  rw [normalForm, intercalate_space, List.flatMap_map]

theorem getargs_of_args (hargs : ∀ i < argLength,
      k.currPcb.args i = (line.text ++ spaces line.trail).getD i 0)
    (hbuf : buf ≠ 0) (hn : line.text.length < nbytes.toInt ∧ nbytes.toInt ≤ 127) :
    ∃ rest, syscallGetargs buf nbytes k = .ok ⟨.ret 0, k,
      storesAt buf (line.normalForm ++ (spaces (min line.trail 1) ++ 0 :: rest))⟩ := by
  obtain ⟨m, hm⟩ : ∃ m, nbytes.toInt.toNat = line.text.length + m :=
    ⟨nbytes.toInt.toNat - line.text.length, by omega⟩
  have hwords := copyArgs_words line.first.2 line.more line.trail (f := k.currPcb.args) (i := 0)
    fun j hj => by
      have hj' : j ≤ line.text.length := hj
      rw [Nat.zero_add, hargs j (by unfold argLength; omega), CommandLine.text, List.append_assoc]
  have htrail := copyArgs_trail (f := k.currPcb.args) (i := line.text.length) (n := m)
    (t := line.trail) fun j hj => by
      rw [hargs _ (by unfold argLength; omega), getD_append_add]
  have hcopy : copyArgs k.currPcb.args nbytes.toInt.toNat 0 ++ [0] =
      line.normalForm ++
        (spaces (min line.trail 1) ++ 0 :: List.replicate (m - line.trail) 0) := by
    change copyArgs k.currPcb.args line.text.length 0 = _ at hwords
    rw [hm, copyArgs_append, hwords, Nat.zero_add, htrail, line.normalForm_eq, List.append_assoc,
      ← List.replicate_succ', List.replicate_succ]
    simp only [List.append_assoc]
  have hfirst : k.currPcb.args 0 ≠ 0 := by
    rw [hargs 0 (by decide), CommandLine.text, List.append_assoc,
      getD_append_left line.first.2.length_pos]
    exact (line.first.2.getD_plain line.first.2.length_pos).2.1
  refine ⟨List.replicate (m - line.trail) 0, ?_⟩
  rw [syscallGetargs, if_neg hbuf, if_neg hfirst, hcopy]

end getargs

/-! ### The started program -/

theorem started_args {img : Image} {junk : StackBytes} {frame : Frame} {command : CString}
    {k k' : Kernel} {stores : List Store}
    (h : syscallExecute img junk frame command k = .ok ⟨.iret, k', stores⟩) :
    ∃ args parsed, parseCommand command args = .ok parsed ∧ k'.currPcb.args = parsed.args := by
  unfold syscallExecute at h
  cases hslot : k.freeSlot with
  | none =>
    rw [hslot] at h
    simp only [bind, Except.bind] at h
    split at h
    · exact absurd h (by simp)
    · exact absurd (congrArg Left.exit (Except.ok.inj h)) (by simp)
  | some slot =>
    rw [hslot] at h
    simp only [bind, Except.bind] at h
    split at h
    · exact absurd h (by simp)
    · rename_i parsed hparse
      split at h
      · exact absurd (congrArg Left.exit (Except.ok.inj h)) (by simp)
      · refine ⟨_, parsed, hparse, ?_⟩
        obtain rfl : k' = _ := (congrArg Left.kernel (Except.ok.inj h)).symm
        simp only [Kernel.enterProgram, Kernel.currPcb, Kernel.setPcb, Function.update_self]

theorem fileCalls_args {img : Image} {k k' : Kernel} {c : FileCall} {o : Int × List Store}
    (h : fileCalls img k c = some (o, k')) : k'.currPcb.args = k.currPcb.args := by
  obtain ⟨i, e, dev, hi, rfl, -⟩ := fileCalls_effect h
  change ((k.setFd i e).pcb k.pid).args = _
  rw [Kernel.setFd, Kernel.setPcb_pcb_self, Pcb.setFdEntry, dif_pos hi]

section started
variable {img : Image} {junk : StackBytes} {frame : Frame} {k k₁ k₂ : Kernel}
  {stores : List Store} {line : CommandLine} {buf : UInt32} {nbytes : Int32}

theorem getargs_of_started {calls : List FileCall} {os : List (Int × List Store)}
    (hlen : line.bytes.length ≤ 126)
    (hexec : syscallExecute img junk frame line.command k = .ok ⟨.iret, k₁, stores⟩)
    (hrun : (fileCalls img).run k₁ calls = some (os, k₂)) (hbuf : buf ≠ 0)
    (hn : line.text.length < nbytes.toInt ∧ nbytes.toInt ≤ 127) :
    ∃ rest, syscallGetargs buf nbytes k₂ = .ok ⟨.ret 0, k₂,
      storesAt buf (line.normalForm ++ (spaces (min line.trail 1) ++ 0 :: rest))⟩ := by
  obtain ⟨args, parsed, hparse, hstart⟩ := started_args hexec
  have hkept : k₂.currPcb.args = k₁.currPcb.args :=
    Machine.run_invariant (fun s => s.currPcb.args = k₁.currPcb.args)
      (fun s c o s' hs hstep => (fileCalls_args hstep).trans hs) rfl hrun
  apply getargs_of_args line _ hbuf hn
  intro i hi
  rw [hkept, hstart]
  exact line.parseCommand_args (by omega) hparse hi

theorem normalForm_iff {rest : List UInt8} (hget : syscallGetargs buf nbytes k₂ =
      .ok ⟨.ret 0, k₂,
        storesAt buf (line.normalForm ++ (spaces (min line.trail 1) ++ 0 :: rest))⟩) :
    (∃ rest, syscallGetargs buf nbytes k₂ =
      .ok ⟨.ret 0, k₂, storesAt buf (line.normalForm ++ 0 :: rest)⟩) ↔ line.trail = 0 := by
  constructor
  · rintro ⟨rest', hget'⟩
    rw [hget] at hget'
    obtain ⟨-, -, hs⟩ := Left.mk.inj (Except.ok.inj hget')
    have hbytes := congrArg (List.map Prod.snd) hs
    rw [storesAt_snd, storesAt_snd] at hbytes
    have htail := List.append_cancel_left hbytes
    -- a space would stand where the terminator stands
    by_contra hne
    rw [Nat.min_eq_right (Nat.one_le_iff_ne_zero.mpr hne)] at htail
    exact absurd (List.cons.inj htail).1 (by decide)
  · intro h0
    rw [h0] at hget
    exact ⟨rest, hget⟩

/-- The argument string is in normal form exactly if no space follows the last word. -/
theorem arguments_normal_iff {calls : List FileCall} {os : List (Int × List Store)}
    (hlen : line.bytes.length ≤ 126)
    (hexec : syscallExecute img junk frame line.command k = .ok ⟨.iret, k₁, stores⟩)
    (hrun : (fileCalls img).run k₁ calls = some (os, k₂)) (hbuf : buf ≠ 0)
    (hn : line.text.length < nbytes.toInt ∧ nbytes.toInt ≤ 127) :
    (∃ rest, syscallGetargs buf nbytes k₂ =
      .ok ⟨.ret 0, k₂, storesAt buf (line.normalForm ++ 0 :: rest)⟩) ↔ line.trail = 0 := by
  obtain ⟨rest, hget⟩ := getargs_of_started hlen hexec hrun hbuf hn
  exact normalForm_iff hget

end started

/-! ### A sample command -/

def Word.ofAll (bytes : List UInt8) (hne : bytes ≠ [])
    (h : bytes.all (fun b => b ≠ 32 ∧ b ≠ 0 ∧ b ≠ 10) = true) : Word where
  bytes := bytes
  nonempty := hne
  plain := by
    intro b hb
    exact of_decide_eq_true (p := b ≠ 32 ∧ b ≠ 0 ∧ b ≠ 10) (List.all_eq_true.mp h b hb)

def sampleLine (trail : Nat) : CommandLine where
  lead := 0
  name := Word.ofAll [115, 104, 101, 108, 108] (by simp) rfl
  first := (0, Word.ofAll [97] (by simp) rfl)
  more := []
  trail := trail

theorem line_starts {line : CommandLine}
    (htarget : (commandTarget sampleImage sampleJunk line.command).toOption.map Option.isSome =
      some true) : ∃ k₀ k stores, Boots sampleImage k₀ ∧
        syscallExecute sampleImage sampleJunk sampleFrame line.command k₀ =
          .ok ⟨.iret, k, stores⟩ := by
  obtain ⟨shellArgs, shell, hboot⟩ := sampleImage_boots
  have hslot : (sampleShell (initTerminal samplePowerOn) 0 shellArgs shell).freeSlot = some 1 := rfl
  obtain ⟨d, hd⟩ := loads_of_isSome htarget
  obtain ⟨args, hexec⟩ := syscallExecute_of_freeSlot sampleFrame hslot hd
  exact ⟨_, _, _, hboot, hexec⟩

theorem sampleLine_starts {trail : Nat} (htrail : trail ≤ 1) : ∃ k₀ k stores,
    Boots sampleImage k₀ ∧
      syscallExecute sampleImage sampleJunk sampleFrame (sampleLine trail).command k₀ =
        .ok ⟨.iret, k, stores⟩ := by
  have htargets : ∀ t ≤ 1,
      (commandTarget sampleImage sampleJunk (sampleLine t).command).toOption.map Option.isSome =
        some true := by decide +kernel
  exact line_starts (htargets trail htrail)

def spacedLine : CommandLine where
  lead := 2
  name := Word.ofAll [115, 104, 101, 108, 108] (by simp) rfl
  first := (1, Word.ofAll [97] (by simp) rfl)
  more := [(2, Word.ofAll [98, 99] (by simp) rfl), (0, Word.ofAll [100] (by simp) rfl)]
  trail := 0

theorem spacedLine_arguments : ∃ k₀ k stores, Boots sampleImage k₀ ∧
    syscallExecute sampleImage sampleJunk sampleFrame spacedLine.command k₀ =
      .ok ⟨.iret, k, stores⟩ ∧
    ∃ rest, syscallGetargs 0x8000000 64 k =
      .ok ⟨.ret 0, k, storesAt 0x8000000 ([97, 32, 98, 99, 32, 100] ++ 0 :: rest)⟩ := by
  have htarget : (commandTarget sampleImage sampleJunk spacedLine.command).toOption.map
      Option.isSome = some true := by decide +kernel
  obtain ⟨k₀, k, stores, hboot, hexec⟩ := line_starts htarget
  have hrun : (fileCalls sampleImage).run k [] = some ([], k) := rfl
  have hbuf : (0x8000000 : UInt32) ≠ 0 := by decide
  have hn : spacedLine.text.length < (64 : Int32).toInt ∧ (64 : Int32).toInt ≤ 127 := by decide
  have hnormal : spacedLine.normalForm = [97, 32, 98, 99, 32, 100] := by decide
  rw [← hnormal]
  exact ⟨_, k, stores, hboot, hexec,
    (arguments_normal_iff (by decide) hexec hrun hbuf hn).mpr rfl⟩

/-- A space typed behind the last word is part of what the program gets: `cat` would look for a file
whose name ends in a space. -/
theorem trailing_space_reaches_the_program : ∃ k₀ k stores rest, Boots sampleImage k₀ ∧
    syscallExecute sampleImage sampleJunk sampleFrame (sampleLine 1).command k₀ =
      .ok ⟨.iret, k, stores⟩ ∧
    syscallGetargs 0x8000000 64 k = .ok ⟨.ret 0, k, storesAt 0x8000000 (97 :: 32 :: 0 :: rest)⟩ ∧
    (sampleLine 1).normalForm = [97] ∧
    ¬ ∃ rest, syscallGetargs 0x8000000 64 k =
      .ok ⟨.ret 0, k, storesAt 0x8000000 ((sampleLine 1).normalForm ++ 0 :: rest)⟩ := by
  obtain ⟨k₀, k, stores, hboot, hexec⟩ := sampleLine_starts (Nat.le_refl 1)
  have hrun : (fileCalls sampleImage).run k [] = some ([], k) := rfl
  have hbuf : (0x8000000 : UInt32) ≠ 0 := by decide
  have hn : (sampleLine 1).text.length < (64 : Int32).toInt ∧ (64 : Int32).toInt ≤ 127 := by decide
  obtain ⟨rest, hget⟩ := getargs_of_started (by decide) hexec hrun hbuf hn
  refine ⟨_, k, stores, rest, hboot, hexec, hget, rfl, fun hnormal => ?_⟩
  exact absurd ((normalForm_iff hget).mp hnormal) (by decide)

end MyLinuxOS
