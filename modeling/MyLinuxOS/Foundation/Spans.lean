import Mathlib.Data.List.Chain

/-! Spans of a counter that follow one another, kept newest first. -/

namespace Foundation

structure Span where
  start : Nat
  stop : Nat

def Successive (spans : List Span) : Prop :=
  (∀ s ∈ spans, s.start < s.stop) ∧ spans.IsChain fun later earlier => earlier.stop ≤ later.start

namespace Successive
variable {s : Span} {spans : List Span}

theorem nil : Successive [] := ⟨by simp, by simp⟩

theorem cons (h : Successive spans) (hs : s.start < s.stop)
    (hnext : ∀ n ∈ spans.head?, n.stop ≤ s.start) : Successive (s :: spans) := by
  refine ⟨?_, ?_⟩
  · intro t ht
    rcases List.mem_cons.mp ht with rfl | ht
    · exact hs
    · exact h.1 t ht
  · exact List.isChain_cons.mpr ⟨hnext, h.2⟩

theorem of_window (h : Successive spans) {window : List Span} (hw : window <:+: spans) :
    Successive window := by
  refine ⟨fun s hs => h.1 s (hw.subset hs), ?_⟩
  obtain ⟨front, back, rfl⟩ := hw
  exact h.2.left_of_append.right_of_append

theorem length_le (h : Successive spans) {newest oldest : Span}
    (hnew : spans.head? = some newest) (hold : spans.getLast? = some oldest) :
    oldest.start + spans.length ≤ newest.stop := by
  induction spans generalizing newest with
  | nil => simp at hnew
  | cons s rest ih =>
    obtain rfl : s = newest := by simpa using hnew
    have hs := h.1 s (List.mem_cons_self ..)
    cases rest with
    | nil =>
      obtain rfl : s = oldest := by simpa using hold
      exact hs
    | cons t rest =>
      have hrest : Successive (t :: rest) := h.of_window ⟨[s], [], by simp⟩
      have hstep : t.stop ≤ s.start := (List.isChain_cons_cons.mp h.2).1
      have hlen := ih hrest rfl (by rw [← hold, List.getLast?_cons_cons])
      simp only [List.length_cons] at hlen ⊢
      omega

end Successive
end Foundation
