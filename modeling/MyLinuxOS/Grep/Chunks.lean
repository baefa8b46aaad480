import MyLinuxOS.Foundation.Lines
import MyLinuxOS.Grep.Search

/-! One chunk of the file in the buffer. The lines that end in it are searched; what is left of the
last line is kept for the next chunk, unless the byte behind the chunk happens to be a newline. -/

namespace MyLinuxOS
open Foundation

section shown
variable (s fname : CString)

def shown (line : List UInt8) : List UInt8 :=
  if StartsPlain s ∧ s.bytes <:+: line then foundText fname line else []

def shownAll (lines : List (List UInt8)) : List UInt8 := lines.flatMap (shown s fname)

variable {s fname}

theorem shownAll_append (a b : List (List UInt8)) :
    shownAll s fname (a ++ b) = shownAll s fname a ++ shownAll s fname b := List.flatMap_append

theorem shownAll_cons (line : List UInt8) (lines : List (List UInt8)) :
    shownAll s fname (line :: lines) = shown s fname line ++ shownAll s fname lines :=
  List.flatMap_cons

theorem shown_nil (hs : s.bytes ≠ []) : shown s fname [] = [] :=
  if_neg fun h => hs (List.infix_nil.mp h.2)

end shown

def Carries (data : Buffer) (cnt last lineStart : Nat) (chunk : List UInt8) : Prop :=
  (chunkLines 10 [] chunk).2 ≠ [] ∧ data last ≠ 10 ∧ cnt ≠ 0 ∧
    (lineStart ≠ 0 ∨ (chunkLines 10 [] chunk).1 ≠ [])

structure ChunkDone (s fname : CString) (data : Buffer) (cnt last lineStart : Nat)
    (chunk : List UInt8) (text : List UInt8) (data' : Buffer) (last' : Nat) : Prop where
  carried : Carries data cnt last lineStart chunk →
    text = shownAll s fname (chunkLines 10 [] chunk).1 ∧
      last' = (chunkLines 10 [] chunk).2.length ∧ HoldsBytes data' 0 (chunkLines 10 [] chunk).2
  finished : ¬Carries data cnt last lineStart chunk →
    text = shownAll s fname ((chunkLines 10 [] chunk).1 ++ [(chunkLines 10 [] chunk).2]) ∧ last' = 0
  behind : data' bufsize =
    if (chunkLines 10 [] chunk).2 ≠ [] ∧ last = bufsize then 0 else data bufsize

section loop
variable {s fname : CString} {data : Buffer} {cnt last lineStart : Nat} {chunk : List UInt8}

theorem searched_text (hs : s.bytes ≠ []) {line : List UInt8} (h : HoldsBytes data lineStart line)
    (hplain : ∀ c ∈ line, c ≠ 0) (hfits : lineStart + line.length ≤ bufsize) :
    (if searchLine (Function.update data (lineStart + line.length) 0) s
        (lineStart + line.length - lineStart) lineStart = true then
      foundText fname (stringAt (Function.update data (lineStart + line.length) 0) lineStart)
      else []) = shown s fname line := by
  have hstring : HoldsString (Function.update data (lineStart + line.length) 0) lineStart line :=
    ⟨h.update (.inr (Nat.le_refl _)), Function.update_self ..⟩
  rw [stringAt_eq hstring hplain hfits, Nat.add_sub_cancel_left]
  unfold shown
  by_cases hfound : StartsPlain s ∧ s.bytes <:+: line
  · rw [if_pos ((searchLine_iff hstring hs).mpr hfound), if_pos hfound]
  · rw [if_neg (mt (searchLine_iff hstring hs).mp hfound), if_neg hfound]

theorem lineLoop_plain (hs : s.bytes ≠ []) (h : HoldsBytes data lineStart chunk)
    (hlast : last = lineStart + chunk.length) (hfits : last ≤ bufsize)
    (hplain : ∀ c ∈ chunk, c ≠ 0) (hnl : 10 ∉ chunk) (hstart : chunk = [] → lineStart = 0)
    (fuel : Nat) : ∃ text data' last',
      lineLoop s fname cnt last (fuel + 1) lineStart data = some (text, data', last') ∧
        ChunkDone s fname data cnt last lineStart chunk text data' last' := by
  have hcut : chunkLines 10 [] chunk = ([], chunk) := chunkLines_plain hnl
  have hscan : scanLine data (last - lineStart) lineStart = last := by
    rw [hlast, Nat.add_sub_cancel_left, scanLine_plain h hnl]
  -- what is carried is decided by the byte behind the chunk, which need not be of the file
  have hcarries : Carries data cnt last lineStart chunk ↔
      chunk ≠ [] ∧ data last ≠ 10 ∧ cnt ≠ 0 ∧ lineStart ≠ 0 := by
    unfold Carries
    rw [hcut]
    simp only [ne_eq, not_true_eq_false, or_false]
  have hsize : bufsize = 1024 := rfl
  by_cases hgo : data last ≠ 10 ∧ cnt ≠ 0 ∧ lineStart ≠ 0
  · have hne : chunk ≠ [] := fun hnil => hgo.2.2 (hstart hnil)
    -- the unfinished line is moved to the front, with the mark that ends the chunk as its NUL
    have hstring : HoldsString (Function.update data last 0) (lineStart + 0) chunk := by
      refine ⟨h.update (.inr (by omega)), ?_⟩
      rw [hlast]
      exact Function.update_self ..
    have hpos : 0 < chunk.length := List.length_pos_of_ne_nil hne
    obtain ⟨data', hcopy, hmoved, hkept⟩ : ∃ data',
        ece391Strcpy lineStart (bufsize + 1) 0 (Function.update data last 0) = some data' ∧ _ :=
      ece391Strcpy_eq (Nat.pos_of_ne_zero hgo.2.2) hstring hplain (by omega)
    refine ⟨[], data', last - lineStart, ?_, ⟨fun _ => ⟨?_, ?_, ?_⟩, fun hnot => ?_, ?_⟩⟩
    · simp only [lineLoop, hscan, if_pos hgo, hcopy, Option.map_some]
    · rw [hcut]
      rfl
    · rw [hcut]
      dsimp only
      omega
    · rw [hcut]
      exact hmoved
    · exact absurd (hcarries.mpr ⟨hne, hgo⟩) hnot
    · rw [hcut, hkept bufsize (.inr (by omega))]
      by_cases hfull : last = bufsize
      · rw [if_pos ⟨hne, hfull⟩, hfull, Function.update_self]
      · rw [if_neg fun hand => hfull hand.2, Function.update_of_ne (Ne.symm hfull)]
  · have hnot : ¬Carries data cnt last lineStart chunk := fun hc => hgo (hcarries.mp hc).2
    have htext : _ = shown s fname chunk := searched_text hs h hplain (hlast ▸ hfits)
    rw [← hlast] at htext
    refine ⟨shown s fname chunk, Function.update data last 0, 0, ?_,
      ⟨fun hc => absurd hc hnot, fun _ => ⟨?_, rfl⟩, ?_⟩⟩
    · simp only [lineLoop, hscan, if_neg hgo, htext, if_pos (Nat.le_succ last)]
    · rw [hcut, List.nil_append, shownAll_cons]
      exact (List.append_nil _).symm
    · rw [hcut]
      by_cases hfull : last = bufsize
      · have hne : chunk ≠ [] := by
          rintro rfl
          rw [hstart rfl, List.length_nil] at hlast
          omega
        rw [if_pos ⟨hne, hfull⟩, hfull, Function.update_self]
      · rw [if_neg fun hand => hfull hand.2, Function.update_of_ne (Ne.symm hfull)]

theorem lineLoop_line (hs : s.bytes ≠ []) {line rest : List UInt8} (hline : 10 ∉ line)
    (h : HoldsBytes data lineStart (line ++ 10 :: rest))
    (hlast : last = lineStart + (line.length + (rest.length + 1))) (hfits : last ≤ bufsize)
    (hplain : ∀ c ∈ line ++ 10 :: rest, c ≠ 0) (fuel : Nat) :
    lineLoop s fname cnt last (fuel + 1) lineStart data =
      if rest = [] then
        some (shown s fname line, Function.update data (lineStart + line.length) 0, 0)
      else
        (lineLoop s fname cnt last fuel (lineStart + line.length + 1)
          (Function.update data (lineStart + line.length) 0)).map
            fun r => (shown s fname line ++ r.1, r.2) := by
  obtain ⟨hbytes, hbehind⟩ := HoldsBytes.append h
  have hscan : scanLine data (last - lineStart) lineStart = lineStart + line.length :=
    scanLine_sep h hline (by omega)
  have hnot : ¬(data (lineStart + line.length) ≠ 10 ∧ cnt ≠ 0 ∧ lineStart ≠ 0) :=
    fun hgo => hgo.1 hbehind.cons.1
  have htext : _ = shown s fname line := searched_text hs hbytes
    (fun c hc => hplain c (List.mem_append_left _ hc)) (by omega)
  simp only [lineLoop, hscan, if_neg hnot, htext]
  by_cases hend : rest = []
  · rw [hend, List.length_nil] at hlast
    rw [if_pos hend, if_pos (by omega)]
  · have hpos : 0 < rest.length := List.length_pos_of_ne_nil hend
    rw [if_neg hend, if_neg (by omega)]

theorem lineLoop_eq (hs : s.bytes ≠ []) (h : HoldsBytes data lineStart chunk)
    (hlast : last = lineStart + chunk.length) (hfits : last ≤ bufsize)
    (hplain : ∀ c ∈ chunk, c ≠ 0) (hstart : chunk = [] → lineStart = 0) {fuel : Nat}
    (hfuel : chunk.length < fuel) : ∃ text data' last',
      lineLoop s fname cnt last fuel lineStart data = some (text, data', last') ∧
        ChunkDone s fname data cnt last lineStart chunk text data' last' := by
  induction fuel generalizing data lineStart chunk with
  | zero => omega
  | succ fuel ih =>
    -- the induction is on the fuel: each turn takes one line off the front of the chunk
    by_cases hnl : 10 ∈ chunk
    · obtain ⟨line, rest, rfl, hline⟩ := List.eq_append_cons_of_mem hnl
      have hlength : (line ++ 10 :: rest).length = line.length + (rest.length + 1) :=
        List.length_append
      rw [hlength] at hlast hfuel
      have hcut : chunkLines 10 [] (line ++ 10 :: rest) =
          (line :: (chunkLines 10 [] rest).1, (chunkLines 10 [] rest).2) :=
        chunkLines_append_sep hline
      rw [lineLoop_line hs hline h hlast hfits hplain]
      by_cases hend : rest = []
      · subst hend
        rw [List.length_nil] at hlast
        have hcut' : chunkLines 10 [] (line ++ [10]) = ([line], []) := hcut
        refine ⟨shown s fname line, Function.update data (lineStart + line.length) 0, 0, if_pos rfl,
          ⟨fun hc => ?_, fun _ => ⟨?_, rfl⟩, ?_⟩⟩
        · exact absurd (congrArg Prod.snd hcut') hc.1
        · rw [hcut', List.singleton_append, shownAll_cons, shownAll_cons, shown_nil hs]
          exact (List.append_nil _).symm
        · rw [hcut', if_neg fun hand => hand.1 rfl, Function.update_of_ne (by omega)]
      · -- the rest of the chunk is searched in the buffer with this line marked off
        have hpos : 0 < rest.length := List.length_pos_of_ne_nil hend
        have hbytes' : HoldsBytes (Function.update data (lineStart + line.length) 0)
            (lineStart + line.length + 1) rest :=
          (HoldsBytes.append h).2.cons.2.update (.inl (Nat.lt_succ_self _))
        obtain ⟨text, data', last', hloop, hdone⟩ := ih hbytes' (by omega)
          (fun c hc => hplain c (List.mem_append_right _ (List.mem_cons_of_mem _ hc)))
          (fun hnil => absurd hnil hend) (by omega)
        have hcarries : Carries data cnt last lineStart (line ++ 10 :: rest) ↔
            Carries (Function.update data (lineStart + line.length) 0) cnt last
              (lineStart + line.length + 1) rest := by
          unfold Carries
          rw [hcut, Function.update_of_ne (by omega)]
          simp only [ne_eq, List.cons_ne_nil, not_false_eq_true, or_true, Nat.succ_ne_zero, true_or]
        refine ⟨shown s fname line ++ text, data', last', ?_, ⟨fun hc => ?_, fun hc => ?_, ?_⟩⟩
        · rw [if_neg hend, hloop, Option.map_some]
        · obtain ⟨htext', hlast', hbytes'⟩ := hdone.carried (hcarries.mp hc)
          rw [hcut, htext', shownAll_cons]
          exact ⟨rfl, hlast', hbytes'⟩
        · obtain ⟨htext', hlast'⟩ := hdone.finished (mt hcarries.mpr hc)
          rw [hcut, htext', List.cons_append, shownAll_cons]
          exact ⟨rfl, hlast'⟩
        · rw [hcut, hdone.behind, Function.update_of_ne (by omega)]
    · exact lineLoop_plain hs h hlast hfits hplain hnl hstart fuel

end loop

end MyLinuxOS
