import MyLinuxOS.Grep.Chunks

/-! The whole file, chunk by chunk: what `do_one_file` writes, against a search of all lines. -/

namespace MyLinuxOS
open Foundation

/-- A file that can be opened and closed, and whose reads deliver the bytes asked for or all that
remain. -/
structure Serves (calls : GrepSyscalls) (fname : CString) (file : List UInt8) : Prop where
  opens : calls.openFile fname ≠ -1
  reads : ∀ position nbytes, calls.read position nbytes = some ((file.drop position).take nbytes)
  closes : calls.closeFile ≠ -1

def matchingLines (s fname : CString) (file : List UInt8) : List UInt8 :=
  (linesFrom 10 [] file).flatMap fun line =>
    if s.bytes <:+: line then foundText fname line else []

def GrepsFaithfully (calls : GrepSyscalls) (s fname : CString) (data : Buffer)
    (file : List UInt8) : Prop :=
  ∃ enough, ∀ fuel ≥ enough,
    doOneFile calls s fname data fuel = some (matchingLines s fname file, 0)

/-! ### One read -/

section store
variable {data : Buffer} {carry bytes : List UInt8}

theorem storeChunk_holds (h : HoldsBytes data 0 carry) :
    HoldsBytes (storeChunk data carry.length bytes) 0 (carry ++ bytes) := by
  intro i hi
  rw [List.length_append] at hi
  rw [Nat.zero_add, storeChunk]
  by_cases hle : carry.length ≤ i
  · rw [if_pos hle, List.getElem_append_right hle, List.getD_eq_getElem]
  · rw [if_neg hle, List.getElem_append_left (by omega), ← h i (by omega), Nat.zero_add]

theorem storeChunk_behind (hfits : (carry ++ bytes).length ≤ bufsize) :
    storeChunk data carry.length bytes bufsize = data bufsize := by
  rw [List.length_append] at hfits
  rw [storeChunk, if_pos (by omega), List.getD_eq_default _ _ (by omega)]

end store

/-- The state at a read: the front of the buffer holds the beginning of a line that goes on with the
rest of the file. -/
structure AtRead (data : Buffer) (carry rest : List UInt8) : Prop where
  held : HoldsBytes data 0 carry
  plain : 10 ∉ carry
  noNul : ∀ c ∈ carry ++ rest, c ≠ 0
  short : ∀ line ∈ linesFrom 10 carry rest, line.length < bufsize

theorem carry_lt {carry rest : List UInt8}
    (hshort : ∀ line ∈ linesFrom 10 carry rest, line.length < bufsize) :
    carry.length < bufsize := by
  by_cases hnil : carry = []
  · rw [hnil]
    exact Nat.zero_lt_succ _
  · obtain ⟨line, hmem, hprefix⟩ := linesFrom_first hnil
    exact hprefix.length_le.trans_lt (hshort line hmem)

/-- One read, and the search of what has come: `carry'` is what is kept of the last line. -/
structure Stepped (s fname : CString) (data : Buffer) (carry bytes rest text : List UInt8)
    (data' : Buffer) (carry' : List UInt8) : Prop where
  next : AtRead data' carry' rest
  behind : data' bufsize =
    if (chunkLines 10 carry bytes).2 ≠ [] ∧ (carry ++ bytes).length = bufsize then 0
    else data bufsize
  fits : (carry ++ bytes).length ≤ bufsize
  filled : rest = [] ∨ (carry ++ bytes).length = bufsize
  keeps : carry' ≠ [] → (carry ++ bytes).length = bufsize → data bufsize ≠ 10
  written :
    text = shownAll s fname (chunkLines 10 carry bytes).1 ∧ carry' = (chunkLines 10 carry bytes).2 ∨
    text = shownAll s fname ((chunkLines 10 carry bytes).1 ++ [(chunkLines 10 carry bytes).2]) ∧
      carry' = [] ∧ (chunkLines 10 carry bytes).2 ≠ [] ∧ (rest = [] ∨ data bufsize = 10)

section run
variable {calls : GrepSyscalls} {s fname : CString} {file : List UInt8} {data : Buffer}
  {position : Nat} {carry bytes rest : List UInt8}

theorem AtRead.tail_short (h : AtRead data carry (bytes ++ rest)) :
    ∀ line ∈ linesFrom 10 (chunkLines 10 carry bytes).2 rest, line.length < bufsize := by
  intro line hline
  apply h.short line
  rw [linesFrom_append]
  exact List.mem_append_right _ hline

/-- No line is as long as the buffer, and so a full buffer holds the end of one. -/
theorem AtRead.line_ends (h : AtRead data carry (bytes ++ rest))
    (hfull : (carry ++ bytes).length = bufsize) : (chunkLines 10 carry bytes).1 ≠ [] := by
  intro hone
  have hlong : (chunkLines 10 carry bytes).2.length < bufsize := carry_lt h.tail_short
  rw [chunkLines_one hone] at hlong
  omega

theorem AtRead.tail (h : AtRead data carry (bytes ++ rest)) {data' : Buffer}
    (hheld : HoldsBytes data' 0 (chunkLines 10 carry bytes).2) :
    AtRead data' (chunkLines 10 carry bytes).2 rest := by
  refine ⟨hheld, chunkLines_tail_plain h.plain, fun c hc => h.noNul c ?_, h.tail_short⟩
  rw [← List.append_assoc]
  rw [chunkLines_tail h.plain] at hc
  rcases List.mem_append.mp hc with htail | hrest
  · exact List.mem_append_left _ ((List.rtakeWhile_suffix _ _).subset htail)
  · exact List.mem_append_right _ hrest

theorem AtRead.dropped (h : AtRead data carry (bytes ++ rest)) (data' : Buffer) :
    AtRead data' [] rest := by
  refine ⟨fun i hi => absurd hi (Nat.not_lt_zero i), List.not_mem_nil,
    fun c hc => h.noNul c (List.mem_append_right _ (List.mem_append_right _ hc)),
    fun line hline => ?_⟩
  obtain ⟨whole, hmem, hsuffix⟩ :
      ∃ m ∈ linesFrom 10 ((chunkLines 10 carry bytes).2 ++ []) rest, line <:+ m :=
    linesFrom_suffix hline
  rw [List.append_nil] at hmem
  exact hsuffix.length_le.trans_lt (h.tail_short whole hmem)

theorem grepLoop_unfold (hserves : Serves calls fname file) {text : List UInt8} {data' : Buffer}
    {last' : Nat} (hread : (file.drop position).take (bufsize - carry.length) = bytes)
    (hloop : lineLoop s fname bytes.length (carry.length + bytes.length)
      (carry.length + bytes.length + 1) 0 (storeChunk data carry.length bytes) =
        some (text, data', last')) (fuel : Nat) :
    grepLoop calls s fname (fuel + 1) position carry.length data =
      if bytes.length = 0 then some (text, 0)
      else (grepLoop calls s fname fuel (position + bytes.length) last' data').map
        fun r => (text ++ r.1, r.2) := by
  rw [grepLoop, hserves.reads, hread]
  dsimp only
  rw [hloop]
  simp only [Option.bind_eq_bind, Option.bind_some, if_neg hserves.closes]

theorem AtRead.chunk (h : AtRead data carry rest) (hne : rest ≠ []) : ∃ bytes rest',
    rest = bytes ++ rest' ∧ bytes ≠ [] ∧ rest.take (bufsize - carry.length) = bytes ∧
      (carry ++ bytes).length ≤ bufsize ∧ (rest' = [] ∨ (carry ++ bytes).length = bufsize) := by
  have hlt := carry_lt h.short
  have hpos : 0 < rest.length := List.length_pos_of_ne_nil hne
  have hlength : (rest.take (bufsize - carry.length)).length =
      min (bufsize - carry.length) rest.length := List.length_take
  refine ⟨rest.take (bufsize - carry.length), rest.drop (bufsize - carry.length),
    (List.take_append_drop ..).symm, List.ne_nil_of_length_pos (by omega), rfl, ?_, ?_⟩
  · rw [List.length_append]
    omega
  · rw [List.drop_eq_nil_iff, List.length_append]
    omega

theorem AtRead.searched (hs : s.bytes ≠ []) (h : AtRead data carry (bytes ++ rest))
    (hfits : (carry ++ bytes).length ≤ bufsize) : ∃ text data' last',
      lineLoop s fname bytes.length (carry.length + bytes.length)
          (carry.length + bytes.length + 1) 0 (storeChunk data carry.length bytes) =
        some (text, data', last') ∧
      ChunkDone s fname (storeChunk data carry.length bytes) bytes.length
        (carry.length + bytes.length) 0 (carry ++ bytes) text data' last' := by
  have hnoNul : ∀ c ∈ carry ++ bytes, c ≠ 0 := by
    intro c hc
    apply h.noNul c
    rw [← List.append_assoc]
    exact List.mem_append_left rest hc
  rw [List.length_append] at hfits
  refine lineLoop_eq hs (storeChunk_holds h.held) ?_ hfits hnoNul (fun _ => rfl) ?_
  · rw [List.length_append, Nat.zero_add]
  · rw [List.length_append]
    exact Nat.lt_succ_self _

theorem grepLoop_last (hserves : Serves calls fname file) (hs : s.bytes ≠ [])
    (hrest : file.drop position = []) (h : AtRead data carry []) (fuel : Nat) :
    grepLoop calls s fname (fuel + 1) position carry.length data =
      some (shownAll s fname (linesFrom 10 carry []), 0) := by
  have hread : (file.drop position).take (bufsize - carry.length) = [] := by
    rw [hrest, List.take_nil]
  have hfits : (carry ++ []).length ≤ bufsize := by
    rw [List.append_nil]
    exact (carry_lt h.short).le
  have hat : AtRead data carry ([] ++ []) := h
  obtain ⟨text, data', last', hloop, hdone⟩ :
      ∃ text data' last', _ ∧ ChunkDone s fname _ _ _ _ _ text data' last' :=
    hat.searched hs hfits
  obtain ⟨htext, -⟩ := hdone.finished fun hc => hc.2.2.1 rfl
  rw [grepLoop_unfold hserves hread hloop, if_pos List.length_nil, htext, List.append_nil,
    chunkLines_plain h.plain, linesFrom]
  by_cases hnil : carry = []
  · rw [if_pos hnil, hnil, List.nil_append, shownAll_cons, List.nil_append, shown_nil hs]
    rfl
  · rw [if_neg hnil, List.nil_append, List.nil_append]

theorem grepLoop_step (hserves : Serves calls fname file) (hs : s.bytes ≠ [])
    (hrest : file.drop position = rest) (hne : rest ≠ []) (h : AtRead data carry rest) :
    ∃ bytes rest' text data' carry', rest = bytes ++ rest' ∧ bytes ≠ [] ∧
      Stepped s fname data carry bytes rest' text data' carry' ∧
      ∀ fuel, grepLoop calls s fname (fuel + 1) position carry.length data =
        (grepLoop calls s fname fuel (position + bytes.length) carry'.length data').map
          fun r => (text ++ r.1, r.2) := by
  obtain ⟨bytes, rest', rfl, hbytes, hread, hfits, hfilled⟩ := h.chunk hne
  rw [← hrest] at hread
  obtain ⟨text, data', last', hloop, hdone⟩ :
      ∃ text data' last', _ ∧ ChunkDone s fname _ _ _ _ _ text data' last' := h.searched hs hfits
  have hcut : chunkLines 10 [] (carry ++ bytes) = chunkLines 10 carry bytes := by
    rw [chunkLines_append_plain h.plain, List.nil_append]
  have hkept : storeChunk data carry.length bytes bufsize = data bufsize := storeChunk_behind hfits
  have hbehind := hdone.behind
  rw [hcut, hkept, ← List.length_append] at hbehind
  have hgo : ∀ fuel, _ := grepLoop_unfold hserves hread hloop
  refine ⟨bytes, rest', text, data', ?_⟩
  -- a tail that is not carried has been searched as a line of its own, and is lost
  by_cases hc : Carries (storeChunk data carry.length bytes) bytes.length
      (carry.length + bytes.length) 0 (carry ++ bytes)
  · obtain ⟨htext, hlast', hheld⟩ := hdone.carried hc
    rw [hcut] at htext hlast' hheld
    refine ⟨(chunkLines 10 carry bytes).2, rfl, hbytes,
      ⟨h.tail hheld, hbehind, hfits, hfilled, fun _ hfull => ?_, .inl ⟨htext, rfl⟩⟩, fun fuel => ?_⟩
    · rw [← hkept]
      have hat := hc.2.1
      rwa [← List.length_append, hfull] at hat
    · rw [hgo, if_neg (mt List.eq_nil_of_length_eq_zero hbytes), hlast']
  · obtain ⟨htext, hlast'⟩ := hdone.finished hc
    rw [hcut] at htext
    refine ⟨[], rfl, hbytes, ⟨h.dropped data', hbehind, hfits, hfilled,
      fun hnil => absurd rfl hnil, ?_⟩, fun fuel => ?_⟩
    · by_cases htail : (chunkLines 10 carry bytes).2 = []
      · rw [htail, shownAll_append, shownAll_cons, shown_nil hs] at htext
        exact .inl ⟨htext.trans (List.append_nil _), htail.symm⟩
      · refine .inr ⟨htext, rfl, htail, hfilled.imp_right fun hfull => ?_⟩
        by_contra hbyte
        refine hc ⟨?_, ?_, mt List.eq_nil_of_length_eq_zero hbytes, .inr ?_⟩
        · rwa [hcut]
        · rwa [← List.length_append, hfull, hkept]
        · rw [hcut]
          exact h.line_ends hfull
    · rw [hgo, if_neg (mt List.eq_nil_of_length_eq_zero hbytes), hlast']
      rfl

/-- What is written in a round and the lines that are still to come are the lines that were to come,
unless the byte behind the buffer ends a line that goes on. -/
theorem Stepped.output {text : List UInt8} {data' : Buffer} {carry' : List UInt8}
    (h : Stepped s fname data carry bytes rest text data' carry')
    (hend : rest = [] ∨ data bufsize ≠ 10 ∨ (chunkLines 10 carry bytes).2 = []) :
    text ++ shownAll s fname (linesFrom 10 carry' rest) =
      shownAll s fname (linesFrom 10 carry (bytes ++ rest)) := by
  rw [linesFrom_append, shownAll_append]
  rcases h.written with ⟨rfl, rfl⟩ | ⟨rfl, rfl, htail, hlast⟩
  · rfl
  · have hrest : rest = [] := by
      rcases hlast with hrest | hbyte
      · exact hrest
      · rcases hend with hrest | hne | hnil
        · exact hrest
        · exact absurd hbyte hne
        · exact absurd hnil htail
    rw [hrest, linesFrom, linesFrom, if_pos rfl, if_neg htail, shownAll_append]
    exact List.append_nil _

theorem grepLoop_sound (hserves : Serves calls fname file) (hs : s.bytes ≠ [])
    (hrest : file.drop position = rest) (h : AtRead data carry rest) (hbyte : data bufsize ≠ 10)
    {fuel : Nat} (hfuel : rest.length < fuel) :
    grepLoop calls s fname fuel position carry.length data =
      some (shownAll s fname (linesFrom 10 carry rest), 0) := by
  induction fuel generalizing position data carry rest with
  | zero => omega
  | succ fuel ih =>
    by_cases hne : rest = []
    · rw [hne] at hrest h ⊢
      exact grepLoop_last hserves hs hrest h fuel
    · obtain ⟨bytes, rest', text, data', carry', rfl, hbytes, hstep, hgo⟩ :=
        grepLoop_step hserves hs hrest hne h
      have hpos : 0 < bytes.length := List.length_pos_of_ne_nil hbytes
      rw [List.length_append] at hfuel
      have hdrop : file.drop (position + bytes.length) = rest' := by
        rw [← List.drop_drop, hrest, List.drop_left]
      have hbyte' : data' bufsize ≠ 10 := by
        rw [hstep.behind]
        split
        · decide
        · exact hbyte
      rw [hgo, ih hdrop hstep.next hbyte' (by omega), Option.map_some,
        hstep.output (.inr (.inl hbyte))]

end run

/-! ### A newline behind the buffer -/

/-- Of the line in which the block number `k` of the size of the buffer ends, what is in the block,
and what is behind it. -/
def headPart (file : List UInt8) (k : Nat) : List UInt8 :=
  (file.take (bufsize * (k + 1))).rtakeWhile (· ≠ 10)

def restPart (file : List UInt8) (k : Nat) : List UInt8 :=
  (file.drop (bufsize * (k + 1))).takeWhile (· ≠ 10)

/-- The first block that does not end in a newline cuts no line that contains the string. -/
def CutsNoMatch (s : CString) (file : List UInt8) : Prop :=
  ∀ k, (∀ j < k, headPart file j = []) →
    headPart file k = [] ∨ restPart file k = [] ∨ ¬s.bytes <:+: headPart file k ++ restPart file k

section cuts
variable {s : CString} {chunk rest file : List UInt8}

theorem cutsNoMatch_short (h : file.length ≤ bufsize) : CutsNoMatch s file := by
  intro k _
  refine .inr (.inl ?_)
  rw [restPart, List.drop_of_length_le (h.trans (Nat.le_mul_of_pos_right _ (Nat.succ_pos k)))]
  rfl

theorem headPart_zero (h : chunk.length = bufsize) :
    headPart (chunk ++ rest) 0 = (chunkLines 10 [] chunk).2 := by
  rw [headPart, Nat.zero_add, Nat.mul_one, ← h, List.take_left, chunkLines_tail List.not_mem_nil,
    List.nil_append]

theorem restPart_zero (h : chunk.length = bufsize) :
    restPart (chunk ++ rest) 0 = rest.takeWhile (· ≠ 10) := by
  rw [restPart, Nat.zero_add, Nat.mul_one, ← h, List.drop_left]

theorem headPart_succ (h : chunk.length = bufsize) (htail : (chunkLines 10 [] chunk).2 = [])
    (k : Nat) : headPart (chunk ++ rest) (k + 1) = headPart rest k := by
  have hne : chunk ≠ [] := List.ne_nil_of_length_pos (h ▸ Nat.zero_lt_succ _)
  rw [chunkLines_tail List.not_mem_nil, List.nil_append, List.rtakeWhile_eq_nil_iff] at htail
  have hlast : chunk.getLast hne = 10 := by
    have hnot := htail hne
    rwa [decide_eq_true_iff, not_not] at hnot
  have hend : chunk = chunk.dropLast ++ [10] := by
    rw [← hlast, List.dropLast_concat_getLast]
  have hsize : bufsize * (k + 1 + 1) = chunk.length + bufsize * (k + 1) := by
    rw [h, Nat.mul_succ, Nat.add_comm]
  rw [headPart, headPart, hsize, List.take_length_add_append, hend, List.append_assoc,
    List.singleton_append, rtakeWhile_append_sep]

theorem restPart_succ (h : chunk.length = bufsize) (k : Nat) :
    restPart (chunk ++ rest) (k + 1) = restPart rest k := by
  have hsize : bufsize * (k + 1 + 1) = chunk.length + bufsize * (k + 1) := by
    rw [h, Nat.mul_succ, Nat.add_comm]
  rw [restPart, restPart, hsize, List.drop_length_add_append]

theorem cutsNoMatch_next (h : chunk.length = bufsize) (htail : (chunkLines 10 [] chunk).2 = []) :
    CutsNoMatch s (chunk ++ rest) ↔ CutsNoMatch s rest := by
  have hzero : headPart (chunk ++ rest) 0 = [] := (headPart_zero h).trans htail
  constructor
  · intro hcuts k hbefore
    have hat := hcuts (k + 1) fun j hj => by
      cases j with
      | zero => exact hzero
      | succ j => exact (headPart_succ h htail j).trans (hbefore j (Nat.lt_of_succ_lt_succ hj))
    rwa [headPart_succ h htail, restPart_succ h] at hat
  · intro hcuts k hbefore
    cases k with
    | zero => exact .inl hzero
    | succ k =>
      rw [headPart_succ h htail, restPart_succ h]
      refine hcuts k fun j hj => ?_
      rw [← headPart_succ h htail]
      exact hbefore (j + 1) (Nat.succ_lt_succ hj)

theorem cutsNoMatch_here (h : chunk.length = bufsize) (htail : (chunkLines 10 [] chunk).2 ≠ []) :
    CutsNoMatch s (chunk ++ rest) ↔ (chunkLines 10 [] chunk).2 = [] ∨ rest.takeWhile (· ≠ 10) = [] ∨
      ¬s.bytes <:+: (chunkLines 10 [] chunk).2 ++ rest.takeWhile (· ≠ 10) := by
  have hzero : headPart (chunk ++ rest) 0 = (chunkLines 10 [] chunk).2 := headPart_zero h
  rw [← hzero, ← restPart_zero h]
  constructor
  · intro hcuts
    exact hcuts 0 fun j hj => absurd hj (Nat.not_lt_zero j)
  · intro hcut k hbefore
    cases k with
    | zero => exact hcut
    | succ k => exact absurd (hzero.symm.trans (hbefore 0 (Nat.zero_lt_succ k))) htail

end cuts

section stale
variable {calls : GrepSyscalls} {s fname : CString} {file : List UInt8} {data : Buffer}
  {position : Nat} {rest : List UInt8}

theorem shownAll_linesFrom (hs : s.bytes ≠ []) (line text : List UInt8) :
    shownAll s fname (linesFrom 10 line text) = shown s fname (line ++ text.takeWhile (· ≠ 10)) ++
      shownAll s fname (linesFrom 10 [] (text.dropWhile (· ≠ 10)).tail) := by
  induction text generalizing line with
  | nil =>
    rw [linesFrom, List.takeWhile_nil, List.append_nil]
    by_cases hline : line = []
    · rw [if_pos hline, hline, shown_nil hs]
      rfl
    · rw [if_neg hline, shownAll_cons]
      rfl
  | cons c text ih =>
    rw [linesFrom]
    by_cases hc : c = 10
    · rw [if_pos hc, shownAll_cons, List.takeWhile_cons_of_neg (by simpa using hc),
        List.dropWhile_cons_of_neg (by simpa using hc), List.append_nil, List.tail_cons]
    · rw [if_neg hc, ih, List.takeWhile_cons_of_pos (by simpa using hc),
        List.dropWhile_cons_of_pos (by simpa using hc), List.append_assoc, List.singleton_append]

theorem shown_parts_iff (hs : s.bytes ≠ []) (a b : List UInt8) :
    shown s fname a ++ shown s fname b = shown s fname (a ++ b) ↔
      (StartsPlain s → a = [] ∨ b = [] ∨ ¬s.bytes <:+: a ++ b) := by
  constructor
  · intro heq hplain
    by_contra hall
    obtain ⟨ha, hb, hfound⟩ : a ≠ [] ∧ b ≠ [] ∧ s.bytes <:+: a ++ b := by
      refine ⟨fun h => hall (.inl h), fun h => hall (.inr (.inl h)), ?_⟩
      by_contra hnot
      exact hall (.inr (.inr hnot))
    have hapos : 0 < a.length := List.length_pos_of_ne_nil ha
    have hbpos : 0 < b.length := List.length_pos_of_ne_nil hb
    -- two lines are two names and two newlines, so the lengths tell them from one
    have hsize : ∀ line, (shown s fname line).length = 0 ∨
        (shown s fname line).length = fname.bytes.length + 1 + line.length + 1 := by
      intro line
      unfold shown
      split
      · refine .inr ?_
        simp only [foundText, List.length_append, List.length_singleton]
      · exact .inl rfl
    have hlength := congrArg List.length heq
    have hwhole : (shown s fname (a ++ b)).length =
        fname.bytes.length + 1 + (a ++ b).length + 1 := by
      rw [shown, if_pos ⟨hplain, hfound⟩]
      simp only [foundText, List.length_append, List.length_singleton]
    rw [List.length_append, hwhole, List.length_append] at hlength
    rcases hsize a with ha' | ha' <;> rcases hsize b with hb' | hb' <;> omega
  · intro hparts
    by_cases hplain : StartsPlain s
    · rcases hparts hplain with rfl | rfl | hnot
      · rw [shown_nil hs, List.nil_append, List.nil_append]
      · rw [shown_nil hs, List.append_nil, List.append_nil]
      · have hhead : ¬s.bytes <:+: a := fun h => hnot (h.trans (List.prefix_append a b).isInfix)
        have htail : ¬s.bytes <:+: b := fun h => hnot (h.trans (List.suffix_append a b).isInfix)
        rw [shown, shown, shown, if_neg fun h => hhead h.2, if_neg fun h => htail h.2,
          if_neg fun h => hnot h.2]
        rfl
    · have hnone : ∀ line, shown s fname line = [] := fun line => if_neg fun h => hplain h.1
      rw [hnone, hnone, hnone]
      rfl

theorem cut_line_iff (hs : s.bytes ≠ []) (bytes rest : List UInt8) :
    shownAll s fname ((chunkLines 10 [] bytes).1 ++ [(chunkLines 10 [] bytes).2]) ++
        shownAll s fname (linesFrom 10 [] rest) =
      shownAll s fname (linesFrom 10 [] (bytes ++ rest)) ↔
    (StartsPlain s → (chunkLines 10 [] bytes).2 = [] ∨ rest.takeWhile (· ≠ 10) = [] ∨
      ¬s.bytes <:+: (chunkLines 10 [] bytes).2 ++ rest.takeWhile (· ≠ 10)) := by
  have hone : ∀ line, shownAll s fname [line] = shown s fname line := fun line =>
    List.append_nil _
  rw [← shown_parts_iff hs, linesFrom_append, shownAll_append, shownAll_append, hone,
    List.append_assoc, List.append_right_inj, shownAll_linesFrom hs [] rest,
    shownAll_linesFrom hs _ rest, List.nil_append, ← List.append_assoc, List.append_left_inj]

/-- The blocks of the file are searched one by one, up to the first one that does not end in a
newline: what it has of its last line is searched as a line. -/
theorem grepLoop_stale (hserves : Serves calls fname file) (hs : s.bytes ≠ [])
    (hrest : file.drop position = rest) (h : AtRead data [] rest) (hbyte : data bufsize = 10) :
    ∃ out, (∀ fuel, rest.length < fuel →
        grepLoop calls s fname fuel position 0 data = some (out, 0)) ∧
      (out = shownAll s fname (linesFrom 10 [] rest) ↔ (StartsPlain s → CutsNoMatch s rest)) := by
  obtain ⟨n, hn⟩ : ∃ n, rest.length < n := ⟨rest.length + 1, Nat.lt_succ_self _⟩
  induction n generalizing position data rest with
  | zero => omega
  | succ n ih =>
    by_cases hne : rest = []
    · subst hne
      refine ⟨_, fun fuel hfuel => ?_, iff_of_true rfl fun _ => cutsNoMatch_short (Nat.zero_le _)⟩
      obtain ⟨fuel, rfl⟩ := Nat.exists_eq_add_one.mpr (Nat.zero_lt_of_lt hfuel)
      exact grepLoop_last hserves hs hrest h fuel
    · obtain ⟨bytes, rest', text, data', carry', rfl, hbytes, hstep, hgo⟩ :=
        grepLoop_step hserves hs hrest hne h
      have hpos : 0 < bytes.length := List.length_pos_of_ne_nil hbytes
      have hdrop : file.drop (position + bytes.length) = rest' := by
        rw [← List.drop_drop, hrest, List.drop_left]
      rw [List.length_append] at hn
      -- what comes out of the rounds to come is written behind the text of this one
      have hrun : ∀ out, (∀ fuel, rest'.length < fuel → grepLoop calls s fname fuel
            (position + bytes.length) carry'.length data' = some (out, 0)) →
          ∀ fuel, (bytes ++ rest').length < fuel →
            grepLoop calls s fname fuel position 0 data = some (text ++ out, 0) := by
        intro out hout fuel hfuel
        rw [List.length_append] at hfuel
        obtain ⟨fuel, rfl⟩ := Nat.exists_eq_add_one.mpr (Nat.zero_lt_of_lt hfuel)
        exact (hgo fuel).trans (congrArg _ (hout fuel (by omega)))
      by_cases hend : rest' = []
      · subst hend
        refine ⟨_, hrun _ fun fuel hfuel => ?_, iff_of_true (hstep.output (.inl rfl)) fun _ => ?_⟩
        · obtain ⟨fuel, rfl⟩ := Nat.exists_eq_add_one.mpr (Nat.zero_lt_of_lt hfuel)
          exact grepLoop_last hserves hs hdrop hstep.next fuel
        · rw [List.append_nil]
          exact cutsNoMatch_short hstep.fits
      · have hfull : bytes.length = bufsize := hstep.filled.resolve_left hend
        have hcarry : carry' = [] := by
          by_contra hkept
          exact hstep.keeps hkept hfull hbyte
        subst hcarry
        by_cases htail : (chunkLines 10 [] bytes).2 = []
        · have hbyte' : data' bufsize = 10 := by
            rw [hstep.behind, if_neg fun hand => hand.1 htail, hbyte]
          obtain ⟨out, hout, hiff⟩ := ih hdrop hstep.next hbyte' (by omega)
          refine ⟨text ++ out, hrun out hout, ?_⟩
          rw [cutsNoMatch_next hfull htail, ← hiff, ← hstep.output (.inr (.inr htail))]
          exact List.append_right_inj text
        · have hbyte' : data' bufsize ≠ 10 := by
            rw [hstep.behind, if_pos ⟨htail, hfull⟩]
            decide
          have htext : text = shownAll s fname
              ((chunkLines 10 [] bytes).1 ++ [(chunkLines 10 [] bytes).2]) := by
            rcases hstep.written with ⟨-, hnil⟩ | ⟨htext, -⟩
            · exact absurd hnil.symm htail
            · exact htext
          refine ⟨_, hrun _ fun fuel hfuel =>
            grepLoop_sound hserves hs hdrop hstep.next hbyte' hfuel, ?_⟩
          rw [cutsNoMatch_here hfull htail, htext]
          exact cut_line_iff hs bytes rest'

theorem doOneFile_output (hserves : Serves calls fname file) (hs : s.bytes ≠ [])
    (hplain : ∀ c ∈ file, c ≠ 0) (hshort : ∀ line ∈ linesFrom 10 [] file, line.length < bufsize)
    (data : Buffer) : ∃ out, (∀ fuel, file.length < fuel →
        doOneFile calls s fname data fuel = some (out, 0)) ∧
      (out = shownAll s fname (linesFrom 10 [] file) ↔
        (StartsPlain s → data bufsize = 10 → CutsNoMatch s file)) := by
  have hat : AtRead data [] file :=
    ⟨fun i hi => absurd hi (Nat.not_lt_zero i), List.not_mem_nil, hplain, hshort⟩
  have hopen : ∀ fuel, doOneFile calls s fname data fuel = grepLoop calls s fname fuel 0 0 data :=
    fun fuel => if_neg hserves.opens
  by_cases hbyte : data bufsize = 10
  · obtain ⟨out, hout, hiff⟩ := grepLoop_stale hserves hs List.drop_zero hat hbyte
    exact ⟨out, fun fuel hfuel => (hopen fuel).trans (hout fuel hfuel),
      hiff.trans (imp_congr_right fun _ => ⟨fun h _ => h, fun h => h hbyte⟩)⟩
  · exact ⟨_, fun fuel hfuel => (hopen fuel).trans
      (grepLoop_sound hserves hs List.drop_zero hat hbyte hfuel),
      iff_of_true rfl fun _ h => absurd h hbyte⟩

theorem grepsFaithfully_iff_out {out : List UInt8} {n : Nat}
    (hout : ∀ fuel, n < fuel → doOneFile calls s fname data fuel = some (out, 0)) :
    GrepsFaithfully calls s fname data file ↔ out = matchingLines s fname file := by
  constructor
  · rintro ⟨enough, henough⟩
    have hboth := (hout (max enough (n + 1)) (by omega)).symm.trans (henough _ (by omega))
    exact congrArg Prod.fst (Option.some.inj hboth)
  · rintro rfl
    exact ⟨n + 1, fun fuel hfuel => hout fuel (by omega)⟩

theorem shownAll_plain (hplain : StartsPlain s) :
    shownAll s fname (linesFrom 10 [] file) = matchingLines s fname file := by
  refine List.flatMap_congr fun line _ => ?_
  unfold shown
  simp only [hplain, true_and]

theorem shownAll_signed (hsigned : ¬StartsPlain s) (lines : List (List UInt8)) :
    shownAll s fname lines = [] :=
  List.flatMap_eq_nil_iff.mpr fun _ _ => if_neg fun h => hsigned h.1

theorem matchingLines_eq_nil : matchingLines s fname file = [] ↔
    ∀ line ∈ linesFrom 10 [] file, ¬s.bytes <:+: line := by
  rw [matchingLines, List.flatMap_eq_nil_iff]
  refine forall₂_congr fun line _ => ?_
  by_cases hfound : s.bytes <:+: line
  · rw [if_pos hfound]
    exact iff_of_false (List.append_ne_nil_of_right_ne_nil _ (List.cons_ne_nil _ _))
      (not_not.mpr hfound)
  · rw [if_neg hfound]
    exact iff_of_true rfl hfound

/-- The program writes the lines that contain the string, and no others, exactly if a string that
starts with a negative character occurs nowhere, and a newline left behind the buffer cuts no line
that contains the string. -/
theorem greps_faithfully_iff (hserves : Serves calls fname file) (hs : s.bytes ≠ [])
    (hplain : ∀ c ∈ file, c ≠ 0) (hshort : ∀ line ∈ linesFrom 10 [] file, line.length < bufsize)
    (data : Buffer) : GrepsFaithfully calls s fname data file ↔
      (StartsPlain s → data bufsize = 10 → CutsNoMatch s file) ∧
      (¬StartsPlain s → ∀ line ∈ linesFrom 10 [] file, ¬s.bytes <:+: line) := by
  obtain ⟨out, hout, hiff⟩ := doOneFile_output hserves hs hplain hshort data
  rw [grepsFaithfully_iff_out hout]
  by_cases hfirst : StartsPlain s
  · rw [← shownAll_plain hfirst, hiff]
    exact ⟨fun h => ⟨h, fun hnot => absurd hfirst hnot⟩, fun h => h.1⟩
  · have hnone : out = [] :=
      (hiff.mpr fun h => absurd h hfirst).trans (shownAll_signed hfirst _)
    rw [hnone, eq_comm, matchingLines_eq_nil]
    exact ⟨fun h => ⟨fun hp => absurd hp hfirst, fun _ => h⟩, fun h => h.2 hfirst⟩

def servedCalls (file : List UInt8) : GrepSyscalls where
  openFile _ := 2
  read position nbytes := some ((file.drop position).take nbytes)
  closeFile := 0

theorem servedCalls_serves (fname : CString) (file : List UInt8) :
    Serves (servedCalls file) fname file where
  opens h := absurd h (by decide : (2 : Int32) ≠ -1)
  reads _ _ := rfl
  closes h := absurd h (by decide : (0 : Int32) ≠ -1)

/-! ### A line across two blocks -/

def firstLine : List UInt8 := List.replicate 1019 120

/-- The first block ends behind the fourth byte of the second line. -/
def firstBlock : List UInt8 := firstLine ++ 10 :: [97, 98, 99, 100]

def straddlingFile : List UInt8 := firstBlock ++ [101, 102]

def straddlingString : CString := ⟨[100, 101], CString.noNul_of_all rfl⟩

theorem firstLine_letters : ∀ c ∈ firstLine, c = 120 := fun _ hc => List.eq_of_mem_replicate hc

theorem firstLine_length : firstLine.length = 1019 := List.length_replicate

theorem firstBlock_length : firstBlock.length = bufsize := by
  rw [firstBlock, List.length_append, firstLine_length]
  rfl

theorem firstBlock_lines : chunkLines 10 [] firstBlock = ([firstLine], [97, 98, 99, 100]) := by
  rw [firstBlock, chunkLines_append_sep fun hmem => absurd (firstLine_letters 10 hmem) (by decide)]
  rfl

theorem straddlingFile_lines :
    linesFrom 10 [] straddlingFile = [firstLine, [97, 98, 99, 100, 101, 102]] := by
  rw [straddlingFile, linesFrom_append, firstBlock_lines]
  rfl

theorem straddlingFile_plain : ∀ c ∈ straddlingFile, c ≠ 0 := by
  intro c hc
  rw [straddlingFile, firstBlock, List.append_assoc] at hc
  rcases List.mem_append.mp hc with hc | hc
  · rw [firstLine_letters c hc]
    decide
  · exact CString.noNul_of_all rfl c hc

theorem straddlingFile_short : ∀ line ∈ linesFrom 10 [] straddlingFile, line.length < bufsize := by
  rw [straddlingFile_lines]
  intro line hline
  rcases List.mem_cons.mp hline with rfl | hlast
  · rw [firstLine_length]
    decide
  · rw [List.mem_singleton.mp hlast]
    decide

theorem straddlingString_starts : StartsPlain straddlingString := by decide

theorem straddlingString_cut : ¬CutsNoMatch straddlingString straddlingFile := by
  have htail : (chunkLines 10 [] firstBlock).2 = [97, 98, 99, 100] :=
    congrArg Prod.snd firstBlock_lines
  rw [straddlingFile, cutsNoMatch_here firstBlock_length (htail ▸ List.cons_ne_nil _ _), htail]
  decide

/-- Where no newline is left behind the buffer, the string across the border is found. -/
theorem greps_across_blocks :
    GrepsFaithfully (servedCalls straddlingFile) straddlingString straddlingString (fun _ => 0)
      straddlingFile ∧ matchingLines straddlingString straddlingString straddlingFile ≠ [] := by
  constructor
  · refine (greps_faithfully_iff (servedCalls_serves _ _) (List.cons_ne_nil _ _)
      straddlingFile_plain straddlingFile_short _).mpr ⟨fun _ hbyte => ?_, fun hsigned => ?_⟩
    · exact absurd hbyte (by decide)
    · exact absurd straddlingString_starts hsigned
  · intro hnone
    have hlast : [97, 98, 99, 100, 101, 102] ∈ linesFrom 10 [] straddlingFile := by
      rw [straddlingFile_lines]
      exact List.mem_cons_of_mem _ (List.mem_singleton_self _)
    exact matchingLines_eq_nil.mp hnone _ hlast (by decide)

/-- Behind a newline that is left there, the second line is cut and the string is not found. -/
theorem stale_newline_cuts_line : ¬∀ calls s fname data file, Serves calls fname file →
    s.bytes ≠ [] → (∀ c ∈ file, c ≠ 0) → (∀ line ∈ linesFrom 10 [] file, line.length < bufsize) →
    GrepsFaithfully calls s fname data file := by
  intro hall
  have hserves := servedCalls_serves straddlingString straddlingFile
  have hne : straddlingString.bytes ≠ [] := List.cons_ne_nil _ _
  obtain ⟨out, hout, hiff⟩ :=
    doOneFile_output hserves hne straddlingFile_plain straddlingFile_short fun _ => 10
  have hall := (grepsFaithfully_iff_out hout).mp
    (hall _ _ straddlingString _ _ hserves hne straddlingFile_plain straddlingFile_short)
  rw [← shownAll_plain straddlingString_starts, hiff] at hall
  exact straddlingString_cut (hall straddlingString_starts rfl)

end stale

end MyLinuxOS
