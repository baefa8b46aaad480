import Mathlib.Data.List.DropRight
import Mathlib.Tactic.Common

/-! The lines of a text that comes in chunks: the lines that end in a chunk, and what is left of the
last one, to which the next chunk is added. -/

namespace Foundation
variable {β : Type*} [DecidableEq β] (sep : β)

/-- The lines of a text, where `line` is what has been seen of the first one. What is left at the
end is a line if it is not empty. -/
def linesFrom : (line : List β) → List β → List (List β)
  | line, [] => if line = [] then [] else [line]
  | line, c :: text =>
    if c = sep then line :: linesFrom [] text else linesFrom (line ++ [c]) text

def chunkLines : (line : List β) → List β → List (List β) × List β
  | line, [] => ([], line)
  | line, c :: chunk =>
    if c = sep then (line :: (chunkLines [] chunk).1, (chunkLines [] chunk).2)
    else chunkLines (line ++ [c]) chunk

variable {sep} {line chunk text : List β}

theorem linesFrom_append : linesFrom sep line (chunk ++ text) =
    (chunkLines sep line chunk).1 ++ linesFrom sep (chunkLines sep line chunk).2 text := by
  induction chunk generalizing line with
  | nil => rfl
  | cons c chunk ih =>
    rw [List.cons_append, linesFrom, chunkLines]
    by_cases hc : c = sep
    · rw [if_pos hc, if_pos hc, ih]
      rfl
    · rw [if_neg hc, if_neg hc, ih]

theorem chunkLines_append_plain (hplain : sep ∉ chunk) :
    chunkLines sep line (chunk ++ text) = chunkLines sep (line ++ chunk) text := by
  induction chunk generalizing line with
  | nil => rw [List.nil_append, List.append_nil]
  | cons c chunk ih =>
    obtain ⟨hc, hrest⟩ := not_or.mp (mt List.mem_cons.mpr hplain)
    rw [List.cons_append, chunkLines, if_neg (Ne.symm hc), ih hrest, List.append_assoc,
      List.singleton_append]

theorem chunkLines_plain (hplain : sep ∉ chunk) :
    chunkLines sep line chunk = ([], line ++ chunk) := by
  have hchunk : chunkLines sep line (chunk ++ []) = chunkLines sep (line ++ chunk) [] :=
    chunkLines_append_plain hplain
  rwa [List.append_nil, chunkLines] at hchunk

theorem chunkLines_append_sep (hplain : sep ∉ chunk) :
    chunkLines sep line (chunk ++ sep :: text) =
      ((line ++ chunk) :: (chunkLines sep [] text).1, (chunkLines sep [] text).2) := by
  rw [chunkLines_append_plain hplain, chunkLines, if_pos rfl]

theorem linesFrom_first (hline : line ≠ []) : ∃ l ∈ linesFrom sep line text, line <+: l := by
  induction text generalizing line with
  | nil => exact ⟨line, by rw [linesFrom, if_neg hline]; exact List.mem_singleton_self _,
      List.prefix_rfl⟩
  | cons c text ih =>
    rw [linesFrom]
    by_cases hc : c = sep
    · rw [if_pos hc]
      exact ⟨line, List.mem_cons_self .., List.prefix_rfl⟩
    · rw [if_neg hc]
      obtain ⟨l, hmem, hprefix⟩ := ih (List.append_ne_nil_of_left_ne_nil hline [c])
      exact ⟨l, hmem, (List.prefix_append line [c]).trans hprefix⟩

theorem linesFrom_suffix {a : List β} {l : List β} (hmem : l ∈ linesFrom sep line text) :
    ∃ m ∈ linesFrom sep (a ++ line) text, l <:+ m := by
  induction text generalizing line with
  | nil =>
    rw [linesFrom] at hmem ⊢
    by_cases hline : line = []
    · rw [if_pos hline] at hmem
      exact absurd hmem List.not_mem_nil
    · rw [if_neg hline, List.mem_singleton] at hmem
      rw [if_neg (List.append_ne_nil_of_right_ne_nil a hline), hmem]
      exact ⟨a ++ line, List.mem_singleton_self _, List.suffix_append a line⟩
  | cons c text ih =>
    rw [linesFrom] at hmem ⊢
    by_cases hc : c = sep
    · rw [if_pos hc] at hmem ⊢
      rcases List.mem_cons.mp hmem with rfl | hlater
      · exact ⟨a ++ l, List.mem_cons_self .., List.suffix_append a l⟩
      · exact ⟨l, List.mem_cons_of_mem _ hlater, List.suffix_rfl⟩
    · rw [if_neg hc] at hmem ⊢
      rw [List.append_assoc]
      exact ih hmem

/-! ### What is left behind the last separator -/

theorem rtakeWhile_append_sep (a : List β) :
    (a ++ sep :: chunk).rtakeWhile (· ≠ sep) = chunk.rtakeWhile (· ≠ sep) := by
  have hstop : ∀ l : List β, (sep :: l).takeWhile (· ≠ sep) = [] := fun l =>
    List.takeWhile_cons_of_neg (by simp)
  unfold List.rtakeWhile
  rw [List.reverse_append, List.reverse_cons, List.append_assoc, List.singleton_append,
    List.takeWhile_append, hstop, List.append_nil]
  by_cases hall : (chunk.reverse.takeWhile (· ≠ sep)).length = chunk.reverse.length
  · rw [if_pos hall, (List.takeWhile_prefix _).eq_of_length hall]
  · rw [if_neg hall]

theorem rtakeWhile_plain (hplain : sep ∉ chunk) : chunk.rtakeWhile (· ≠ sep) = chunk := by
  rw [List.rtakeWhile_eq_self_iff]
  intro c hc
  exact decide_eq_true fun heq => hplain (heq ▸ hc)

theorem chunkLines_tail (hline : sep ∉ line) :
    (chunkLines sep line chunk).2 = (line ++ chunk).rtakeWhile (· ≠ sep) := by
  induction chunk generalizing line with
  | nil => rw [List.append_nil, rtakeWhile_plain hline, chunkLines]
  | cons c chunk ih =>
    rw [chunkLines]
    by_cases hc : c = sep
    · rw [if_pos hc, ih List.not_mem_nil, hc, rtakeWhile_append_sep, List.nil_append]
    · rw [if_neg hc, ih, List.append_assoc, List.singleton_append]
      refine List.not_mem_append hline fun hmem => hc (List.mem_singleton.mp hmem).symm

theorem chunkLines_tail_plain (hline : sep ∉ line) : sep ∉ (chunkLines sep line chunk).2 := by
  rw [chunkLines_tail hline]
  intro hmem
  have hne := List.mem_rtakeWhile_imp hmem
  exact of_decide_eq_true hne rfl

theorem chunkLines_one (hnone : (chunkLines sep line chunk).1 = []) :
    (chunkLines sep line chunk).2 = line ++ chunk := by
  induction chunk generalizing line with
  | nil => exact (List.append_nil line).symm
  | cons c chunk ih =>
    rw [chunkLines] at hnone ⊢
    by_cases hc : c = sep
    · rw [if_pos hc] at hnone
      exact absurd hnone (List.cons_ne_nil _ _)
    · rw [if_neg hc] at hnone ⊢
      rw [ih hnone, List.append_assoc, List.singleton_append]

end Foundation
