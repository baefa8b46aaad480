import MyLinuxOS.Process.ArgumentLeak

/-! What `getargs` stores against the buffer it is given. The loop bounds the index it reads at by
`nbytes`; the index it stores at only stays behind where spaces are dropped. -/

namespace MyLinuxOS
open Foundation

/-! ### Squeezing -/

/-- A space is kept only behind a byte that is none; `prev` is the byte in front. -/
def squeeze : (prev : UInt8) → List UInt8 → List UInt8
  | _, [] => []
  | prev, c :: l => if c = 32 ∧ prev = 32 then squeeze c l else c :: squeeze c l

def squeezed (text : CString) : List UInt8 := squeeze 32 text.bytes

def spaceAhead (prev : UInt8) (l : List UInt8) : List UInt8 :=
  if l.head? = some 32 ∧ prev ≠ 32 then [32] else []

theorem squeeze_append (prev : UInt8) (a b : List UInt8) :
    squeeze prev (a ++ b) = squeeze prev a ++ squeeze (a.getLastD prev) b := by
  induction a generalizing prev with
  | nil => rfl
  | cons c a ih =>
    rw [List.cons_append, squeeze, squeeze, List.getLastD_cons, ih]
    split <;> rfl

theorem mem_squeeze {prev c : UInt8} {l : List UInt8} (hc : c ∈ l) (hne : c ≠ 32) :
    c ∈ squeeze prev l := by
  induction l generalizing prev with
  | nil => exact absurd hc (by simp)
  | cons b l ih =>
    rw [squeeze]
    rcases List.mem_cons.mp hc with rfl | hl
    · rw [if_neg (fun h => hne h.1)]
      exact List.mem_cons_self ..
    · split
      · exact ih hl
      · exact List.mem_cons_of_mem _ (ih hl)

theorem squeeze_spaces {prev : UInt8} {l : List UInt8} (h : ∀ c ∈ l, c = 32) :
    squeeze prev l = spaceAhead prev l := by
  induction l generalizing prev with
  | nil => rfl
  | cons c l ih =>
    obtain rfl : c = 32 := h c (List.mem_cons_self ..)
    have hrest : squeeze 32 l = [] := by
      rw [ih fun b hb => h b (List.mem_cons_of_mem _ hb)]
      exact if_neg fun hne => hne.2 rfl
    rw [squeeze, spaceAhead, hrest]
    by_cases hprev : prev = 32
    · rw [if_pos ⟨rfl, hprev⟩, if_neg fun hne => hne.2 hprev]
    · rw [if_neg fun he => hprev he.2, if_pos ⟨rfl, hprev⟩]

/-- The bytes behind the first `n` are all stored, with the terminator behind them, only if they
are spaces. -/
theorem spaceAhead_complete_iff {prev : UInt8} {l : List UInt8} (hl : ∀ c ∈ l, c ≠ 0) :
    (∃ rest, spaceAhead prev l ++ [0] = squeeze prev l ++ 0 :: rest) ↔ ∀ c ∈ l, c = 32 := by
  constructor
  · rintro ⟨rest, h⟩ c hc
    by_contra hne
    have hmem : c ∈ spaceAhead prev l ++ [0] := by
      rw [h]
      exact List.mem_append_left _ (mem_squeeze hc hne)
    rcases List.mem_append.mp hmem with hahead | hzero
    · rw [spaceAhead] at hahead
      split at hahead
      · exact hne (List.mem_singleton.mp hahead)
      · exact absurd hahead (by simp)
    · exact hl c hc (List.mem_singleton.mp hzero)
  · intro h
    exact ⟨[], by rw [squeeze_spaces h]⟩

/-! ### The loop -/

section loop
variable (args : Nat → UInt8)

def prevByte : Nat → UInt8
  | 0 => 32
  | n + 1 => args n

def lookAhead (n : Nat) : List UInt8 := if args n = 32 ∧ prevByte args n ≠ 32 then [32] else []

/-- How many of the first `n` bytes are spaces that the loop leaves out for good. -/
def droppedSpaces (n : Nat) : Nat :=
  (List.range n).countP fun i => args i = 32 ∧ prevByte args i = 32

def firstBytes (n : Nat) : List UInt8 := (List.range n).map args

theorem firstBytes_succ (n : Nat) : firstBytes args (n + 1) = firstBytes args n ++ [args n] := by
  rw [firstBytes, List.range_succ, List.map_append]
  rfl

theorem firstBytes_getLastD (n : Nat) : (firstBytes args n).getLastD 32 = prevByte args n := by
  cases n with
  | zero => rfl
  | succ n =>
    rw [firstBytes_succ, List.getLastD_concat]
    rfl

theorem droppedSpaces_succ (n : Nat) : droppedSpaces args (n + 1) =
    droppedSpaces args n + if args n = 32 ∧ prevByte args n = 32 then 1 else 0 := by
  rw [droppedSpaces, List.range_succ, List.countP_append, List.countP_singleton]
  simp only [decide_eq_true_eq]
  rfl

theorem squeeze_firstBytes_succ (n : Nat) : squeeze 32 (firstBytes args (n + 1)) =
    squeeze 32 (firstBytes args n) ++
      if args n = 32 ∧ prevByte args n = 32 then [] else [args n] := by
  rw [firstBytes_succ, squeeze_append, firstBytes_getLastD, squeeze]
  rfl

theorem squeeze_firstBytes_length (n : Nat) :
    (squeeze 32 (firstBytes args n)).length + droppedSpaces args n = n := by
  induction n with
  | zero => rfl
  | succ n ih =>
    rw [squeeze_firstBytes_succ, droppedSpaces_succ, List.length_append]
    split
    · rw [List.length_nil]
      omega
    · rw [List.length_singleton]
      omega

/-- A round stores the space for the next byte early; the next round then stores nothing. -/
theorem lookAhead_round (n : Nat) : lookAhead args n ++ copyArgs args 1 n =
    (if args n = 32 ∧ prevByte args n = 32 then [] else [args n]) ++ lookAhead args (n + 1) := by
  rw [copyArgs_one, lookAhead, lookAhead, prevByte]
  by_cases hn : args n = 32
  · have hnext : ¬(args (n + 1) = 32 ∧ args n ≠ 32) := fun h => h.2 hn
    rw [if_pos hn, if_neg hnext]
    by_cases hprev : prevByte args n = 32
    · rw [if_neg (fun h => h.2 hprev), if_pos ⟨hn, hprev⟩]
    · rw [if_pos ⟨hn, hprev⟩, if_neg (fun h => hprev h.2), hn]
  · have hkept : ¬(args n = 32 ∧ prevByte args n = 32) := fun h => hn h.1
    have hearly : ¬(args n = 32 ∧ prevByte args n ≠ 32) := fun h => hn h.1
    rw [if_neg hearly, if_neg hn, if_neg hkept]
    by_cases hnext : args (n + 1) = 32
    · rw [if_pos hnext, if_pos ⟨hnext, hn⟩]
      rfl
    · rw [if_neg hnext, if_neg fun h => hnext h.1]
      rfl

theorem copyArgs_eq_squeeze (n : Nat) :
    copyArgs args n 0 = squeeze 32 (firstBytes args n) ++ lookAhead args n := by
  induction n with
  | zero => exact (if_neg fun h => h.2 rfl).symm
  | succ n ih =>
    rw [copyArgs_append, ih, Nat.zero_add, List.append_assoc, lookAhead_round,
      squeeze_firstBytes_succ, List.append_assoc]

/-- With the terminator, the stores stay inside if a space is left out for the terminator and one
for the space stored ahead. -/
theorem copied_length_le_iff (n : Nat) : (copyArgs args n 0 ++ [0]).length ≤ n ↔
    (lookAhead args n).length < droppedSpaces args n := by
  have hlen := squeeze_firstBytes_length args n
  rw [List.length_append, List.length_singleton, copyArgs_eq_squeeze, List.length_append]
  omega

end loop

/-! ### The buffer -/

section buffer
variable {args : Nat → UInt8} {text : CString}

def Holds (args : Nat → UInt8) (text : CString) : Prop :=
  ∀ i ≤ text.strlen, args i = text.charAt i

theorem Holds.firstBytes_eq (h : Holds args text) {n : Nat} (hn : n ≤ text.strlen) :
    firstBytes args n = text.bytes.take n := by
  have hlen : n ≤ text.bytes.length := hn
  refine List.ext_getElem ?_ fun i h₁ h₂ => ?_
  · rw [firstBytes, List.length_map, List.length_range, List.length_take, Nat.min_eq_left hlen]
  · rw [firstBytes, List.length_map, List.length_range] at h₁
    have hi : i < text.bytes.length := by omega
    simp only [firstBytes, List.getElem_map, List.getElem_range, List.getElem_take]
    rw [h i (Nat.le_of_lt hi), CString.charAt, List.getD_eq_getElem _ _ hi]

theorem Holds.lookAhead_eq (h : Holds args text) {n : Nat} (hn : n ≤ text.strlen) :
    lookAhead args n = spaceAhead (prevByte args n) (text.bytes.drop n) := by
  have hhead : args n = 32 ↔ (text.bytes.drop n).head? = some 32 := by
    rw [h n hn, CString.charAt, List.head?_drop]
    rcases Nat.lt_or_ge n text.bytes.length with hlt | hge
    · rw [List.getD_eq_getElem _ _ hlt, List.getElem?_eq_getElem hlt, Option.some_inj]
    · rw [List.getD_eq_default _ _ hge, List.getElem?_eq_none hge]
      exact iff_of_false (by decide) (by simp)
  rw [lookAhead, spaceAhead]
  exact if_congr (and_congr_left' hhead) rfl rfl

theorem Holds.copied_of_lt (h : Holds args text) {n : Nat} (hn : text.strlen < n) :
    ∃ rest, copyArgs args n 0 ++ [0] = squeezed text ++ 0 :: rest := by
  obtain ⟨m, rfl⟩ : ∃ m, n = text.strlen + (1 + m) := ⟨n - text.strlen - 1, by omega⟩
  have hend : args text.strlen = 0 := by
    rw [h _ (Nat.le_refl _), CString.charAt, CString.strlen,
      List.getD_eq_default _ _ (Nat.le_refl _)]
  have hahead : lookAhead args text.strlen = [] := by
    rw [lookAhead, if_neg]
    rw [hend]
    exact fun he => absurd he.1 (by decide)
  have hfirst : ∃ rest, copyArgs args 1 text.strlen = 0 :: rest := by
    rw [copyArgs_one, hend, if_neg (by decide)]
    split
    · exact ⟨_, rfl⟩
    · exact ⟨_, rfl⟩
  obtain ⟨rest, hrest⟩ := hfirst
  refine ⟨rest ++ copyArgs args m (text.strlen + 1) ++ [0], ?_⟩
  rw [copyArgs_append, copyArgs_append, copyArgs_eq_squeeze, h.firstBytes_eq (Nat.le_refl _),
    hahead, Nat.zero_add, hrest, CString.strlen, List.take_length, squeezed]
  simp only [List.append_nil, List.append_assoc, List.cons_append]

theorem Holds.copied_iff (h : Holds args text) (n : Nat) :
    (∃ rest, copyArgs args n 0 ++ [0] = squeezed text ++ 0 :: rest) ↔
      ∀ c ∈ text.bytes.drop n, c = 32 := by
  rcases Nat.lt_or_ge text.strlen n with hlt | hge
  · refine iff_of_true (h.copied_of_lt hlt) fun c hc => ?_
    rw [List.drop_eq_nil_of_le (Nat.le_of_lt hlt)] at hc
    exact absurd hc (by simp)
  · have hlast : (text.bytes.take n).getLastD 32 = prevByte args n := by
      rw [← h.firstBytes_eq hge, firstBytes_getLastD]
    have hsplit : squeezed text =
        squeeze 32 (text.bytes.take n) ++ squeeze (prevByte args n) (text.bytes.drop n) := by
      rw [squeezed, ← hlast, ← squeeze_append, List.take_append_drop]
    have hbehind : (∃ rest, spaceAhead (prevByte args n) (text.bytes.drop n) ++ [0] =
        squeeze (prevByte args n) (text.bytes.drop n) ++ 0 :: rest) ↔ _ :=
      spaceAhead_complete_iff fun c hc => text.noNul c (List.mem_of_mem_drop hc)
    rw [← hbehind, copyArgs_eq_squeeze, h.firstBytes_eq hge, h.lookAhead_eq hge, hsplit]
    simp only [List.append_assoc, List.append_cancel_left_eq]

/-- What the caller may rely on: stores in the buffer only, 0 only for the whole string with its
terminator, and -1 if there is none or it does not fit. -/
structure RespectsBuffer (text : CString) (buf : UInt32) (nbytes : Int32) (left : Left) : Prop where
  inside : ∀ s ∈ left.stores, ∃ i : Nat, (i : Int) < nbytes.toInt ∧
    s.1 = (buf.toNat + i) % 4294967296
  complete : left.exit = .ret 0 → (squeezed text).length + 1 ≤ nbytes.toInt ∧
    ∃ rest, left.stores = storesAt buf (squeezed text ++ 0 :: rest)
  misfit : text.bytes = [] ∨ nbytes.toInt < (squeezed text).length + 1 → left.exit = .ret (-1)

theorem inside_iff (buf : UInt32) (nbytes : Int32) (args : Nat → UInt8) :
    (∀ s ∈ storesAt buf (copyArgs args nbytes.toInt.toNat 0 ++ [0]), ∃ i : Nat,
      (i : Int) < nbytes.toInt ∧ s.1 = (buf.toNat + i) % 4294967296) ↔
    (copyArgs args nbytes.toInt.toNat 0 ++ [0]).length ≤ nbytes.toInt.toNat := by
  have hmax := nbytes.toInt_lt
  have hcopy := copyArgs_length_le args nbytes.toInt.toNat 0
  have hlen : (copyArgs args nbytes.toInt.toNat 0 ++ [0]).length ≤ 4294967296 := by
    rw [List.length_append, List.length_singleton]
    omega
  rw [← storesAt_within_iff hlen]
  refine forall₂_congr fun s _ => exists_congr fun i => and_congr_left' ?_
  omega

/-- `getargs` respects its buffer only if there are no arguments, or if it reaches their last word
and more spaces are left out on the way than stored ahead. -/
theorem getargs_respects_iff {k : Kernel} {buf : UInt32} (nbytes : Int32)
    (htext : Holds k.currPcb.args text) (hbuf : buf ≠ 0) :
    (∃ left, syscallGetargs buf nbytes k = .ok left ∧ RespectsBuffer text buf nbytes left) ↔
      text.bytes = [] ∨ (∀ c ∈ text.bytes.drop nbytes.toInt.toNat, c = 32) ∧
        (lookAhead k.currPcb.args nbytes.toInt.toNat).length <
          droppedSpaces k.currPcb.args nbytes.toInt.toNat := by
  have hfirst := htext 0 (Nat.zero_le _)
  by_cases hnil : text.bytes = []
  · refine iff_of_true ⟨⟨.ret (-1), k, []⟩, ?_, ?_⟩ (.inl hnil)
    · have hzero : k.currPcb.args 0 = 0 := by rw [hfirst, CString.charAt, hnil, List.getD_nil]
      rw [syscallGetargs, if_neg hbuf, if_pos hzero, Kernel.returns]
    · exact ⟨by simp, fun h => absurd h (by simp), fun _ => rfl⟩
  · have hpos : 0 < text.bytes.length := List.length_pos_of_ne_nil hnil
    have hne : k.currPcb.args 0 ≠ 0 := by
      rw [hfirst, CString.charAt, List.getD_eq_getElem _ _ hpos]
      exact text.noNul _ (List.getElem_mem hpos)
    rw [or_iff_right hnil, ← copied_length_le_iff, ← htext.copied_iff, ← inside_iff buf]
    constructor
    · rintro ⟨left, hleft, hrespects⟩
      obtain rfl := Except.ok.inj ((getargs_ok hbuf hne).symm.trans hleft)
      obtain ⟨-, rest, hrest⟩ := hrespects.complete rfl
      have hbytes := congrArg (List.map Prod.snd) hrest
      rw [storesAt_snd, storesAt_snd] at hbytes
      exact ⟨⟨rest, hbytes⟩, hrespects.inside⟩
    · rintro ⟨⟨rest, hrest⟩, hinside⟩
      have hlen := (inside_iff buf nbytes _).mp hinside
      rw [hrest, List.length_append, List.length_cons] at hlen
      have hfits : (squeezed text).length + 1 ≤ nbytes.toInt := by omega
      refine ⟨_, getargs_ok hbuf hne, hinside, fun _ => ⟨hfits, rest, ?_⟩, fun hmis => ?_⟩
      · rw [hrest]
      · rcases hmis with hnone | hshort
        · exact absurd hnone hnil
        · omega

def Kernel.withArgs (k : Kernel) (bytes : List UInt8) : Kernel :=
  k.setPcb k.pid { k.currPcb with args := fun i => bytes.getD i 0 }

theorem withArgs_args (k : Kernel) (bytes : List UInt8) (i : Nat) :
    (k.withArgs bytes).currPcb.args i = bytes.getD i 0 := by
  simp only [Kernel.withArgs, Kernel.currPcb, Kernel.setPcb, Function.update_self]

/-- `a  b` with its terminator fills five bytes: the second space makes room for the terminator. -/
theorem dropped_space_makes_room : ∃ left,
    syscallGetargs 0x8000000 5 ((initTerminal samplePowerOn).withArgs [97, 32, 32, 98]) =
      .ok left ∧ RespectsBuffer (.ofBuffer [97, 32, 32, 98]) 0x8000000 5 left := by
  have htext : Holds ((initTerminal samplePowerOn).withArgs [97, 32, 32, 98]).currPcb.args
      (.ofBuffer [97, 32, 32, 98]) := fun i _ => withArgs_args _ _ i
  have hend : (CString.ofBuffer [97, 32, 32, 98]).bytes.drop (5 : Int32).toInt.toNat = [] := rfl
  refine (getargs_respects_iff 5 htext (by decide)).mpr (.inr ⟨?_, by decide +kernel⟩)
  rw [hend]
  exact List.forall_mem_nil _

/-- `shell a`: asked for one byte, `getargs` stores the argument and a terminator behind the buffer,
and returns 0. -/
theorem getargs_stores_behind_the_buffer : ∃ k₀ k stores, Boots sampleImage k₀ ∧
    syscallExecute sampleImage sampleJunk sampleFrame (sampleLine 0).command k₀ =
      .ok ⟨.iret, k, stores⟩ ∧
    Holds k.currPcb.args (.ofBuffer [97]) ∧
    syscallGetargs 0x8000000 1 k = .ok ⟨.ret 0, k, [(0x8000000, 97), (0x8000001, 0)]⟩ ∧
    ∀ left, syscallGetargs 0x8000000 1 k = .ok left →
      ¬RespectsBuffer (.ofBuffer [97]) 0x8000000 1 left := by
  obtain ⟨k₀, k, stores, hboot, hexec⟩ := sampleLine_starts (Nat.zero_le 1)
  obtain ⟨_, parsed, hparse, hargs⟩ := started_args hexec
  have hkept : ∀ i < argLength, k.currPcb.args i = [97].getD i 0 := by
    intro i hi
    rw [hargs]
    exact (sampleLine 0).parseCommand_args (by decide) hparse hi
  have h0 : k.currPcb.args 0 = 97 := hkept 0 (by decide)
  have h1 : k.currPcb.args 1 = 0 := hkept 1 (by decide)
  have hcopy : copyArgs k.currPcb.args 1 0 = [97] := by
    rw [copyArgs_one, h0, h1]
    rfl
  have hget : syscallGetargs 0x8000000 1 k =
      .ok ⟨.ret 0, k, [(0x8000000, 97), (0x8000001, 0)]⟩ := by
    have hone : (1 : Int32).toInt.toNat = 1 := rfl
    rw [getargs_ok (by decide) (by rw [h0]; decide), hone, hcopy]
    rfl
  refine ⟨_, k, stores, hboot, hexec, fun i hi => hkept i ?_, hget, fun left hleft hrespects => ?_⟩
  · exact Nat.lt_of_le_of_lt hi (by decide)
  · obtain rfl := Except.ok.inj (hget.symm.trans hleft)
    exact absurd (hrespects.complete rfl).1 (by decide)

end buffer
end MyLinuxOS
