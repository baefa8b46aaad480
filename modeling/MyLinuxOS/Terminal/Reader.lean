import Mathlib.Logic.Function.Iterate
import MyLinuxOS.Files.UserBuffers
import MyLinuxOS.Terminal.Events

/-! `terminal_read` step by step, since keys come in while it runs. Undisturbed, the steps add up to
`terminalRead`. -/

namespace MyLinuxOS
open Foundation

/-- What a call of `terminal_read` does next, with the bytes it has copied so far. -/
inductive Reader
  | idle
  /-- `while (enter_flag == 0)`. -/
  | waiting (nbytes : Int32)
  /-- `enter_flag = 0`. -/
  | woken (nbytes : Int32)
  /-- `i < nbytes`, and then `key_buffer[i] == '\n'`. -/
  | testing (n : Nat) (copied : List UInt8)
  /-- `buf[i] = key_buffer[i]`. -/
  | copying (n : Nat) (copied : List UInt8)
  /-- `buffer_index = -1`. -/
  | resetting (copied : List UInt8)
  /-- `key_buffer[j] = '\0'`, or the return when all are cleared. -/
  | clearing (j : Nat) (copied : List UInt8)
  deriving DecidableEq

/-- The kernel, the call of `terminal_read` in progress, and the lines returned so far. -/
structure Reading where
  kernel : Kernel
  reader : Reader
  returned : List (List UInt8)

namespace Reading

def step (r : Reading) : Reading :=
  let kb := r.kernel.dev.keyboard
  match r.reader with
  | .idle => r
  | .waiting nbytes => if kb.enterFlag = 0 then r else { r with reader := .woken nbytes }
  | .woken nbytes =>
    { r with
      kernel := r.kernel.setKeyboard { kb with enterFlag := 0 }
      reader := .testing (terminalCount nbytes) [] }
  | .testing n copied =>
    if copied.length < n then
      if kb.keyBuffer copied.length = 10 then { r with reader := .resetting copied }
      else { r with reader := .copying n copied }
    else { r with reader := .resetting copied }
  | .copying n copied =>
    { r with reader := .testing n (copied ++ [kb.keyBuffer copied.length]) }
  | .resetting copied =>
    { r with
      kernel := r.kernel.setKeyboard { kb with bufferIndex := -1 }
      reader := .clearing 0 copied }
  | .clearing j copied =>
    if j < extendedBuffer then
      { r with
        kernel := r.kernel.setKeyboard { kb with keyBuffer := Function.update kb.keyBuffer j 0 }
        reader := .clearing (j + 1) copied }
    else { r with reader := .idle, returned := r.returned ++ [copied] }

def Runs (r t : Reading) : Prop := ∃ m, step^[m] r = t

theorem Runs.refl (r : Reading) : Runs r r := ⟨0, rfl⟩

theorem Runs.next {r t : Reading} (h : Runs r.step t) : Runs r t := by
  obtain ⟨m, hm⟩ := h
  exact ⟨m + 1, by rw [Function.iterate_succ_apply, hm]⟩

theorem Runs.trans {r t u : Reading} (h : Runs r t) (h' : Runs t u) : Runs r u := by
  obtain ⟨m, rfl⟩ := h
  obtain ⟨m', rfl⟩ := h'
  exact ⟨m' + m, Function.iterate_add_apply ..⟩

theorem runs_copy (k : Kernel) (returned : List (List UInt8)) (m : Nat) (copied : List UInt8) :
    Runs ⟨k, .testing (copied.length + m) copied, returned⟩
      ⟨k, .resetting (copied ++ copyLine k.dev.keyboard.keyBuffer m copied.length), returned⟩ := by
  induction m generalizing copied with
  | zero =>
    refine Runs.next ?_
    rw [step, copyLine, List.append_nil]
    simp only [Nat.add_zero, Nat.lt_irrefl, if_false]
    exact .refl _
  | succ m ih =>
    refine Runs.next ?_
    rw [step, copyLine]
    have hlt : copied.length < copied.length + (m + 1) := by omega
    by_cases hc : k.dev.keyboard.keyBuffer copied.length = 10
    · simp only [hlt, hc, if_true, List.append_nil]
      exact .refl _
    · simp only [hlt, hc, if_true, if_false]
      refine Runs.next ?_
      have hrest := ih (copied ++ [k.dev.keyboard.keyBuffer copied.length])
      rw [List.length_append, List.length_singleton, List.append_assoc, List.singleton_append,
        Nat.add_assoc, Nat.add_comm 1 m] at hrest
      exact hrest

def clearedFrom (kb : Keyboard) (j : Nat) : Keyboard :=
  { kb with keyBuffer := fun i => if j ≤ i ∧ i < extendedBuffer then 0 else kb.keyBuffer i }

theorem clearedFrom_end (kb : Keyboard) : clearedFrom kb extendedBuffer = kb := by
  unfold clearedFrom
  congr 1
  funext i
  exact if_neg fun h => by omega

theorem clearedFrom_update (kb : Keyboard) {j : Nat} (hj : j < extendedBuffer) :
    clearedFrom { kb with keyBuffer := Function.update kb.keyBuffer j 0 } (j + 1) =
      clearedFrom kb j := by
  unfold clearedFrom
  congr 1
  funext i
  dsimp only
  by_cases hi : i = j
  · subst hi
    rw [if_neg (by omega), if_pos ⟨Nat.le_refl i, hj⟩, Function.update_self]
  · rw [Function.update_of_ne hi]
    exact if_congr (by omega) rfl rfl

theorem runs_clear (k : Kernel) (returned : List (List UInt8)) (copied : List UInt8) (m j : Nat)
    (h : j + m = extendedBuffer) : Runs ⟨k, .clearing j copied, returned⟩
      ⟨k.setKeyboard (clearedFrom k.dev.keyboard j), .idle, returned ++ [copied]⟩ := by
  induction m generalizing k j with
  | zero =>
    obtain rfl : j = extendedBuffer := h
    refine Runs.next ?_
    rw [clearedFrom_end, step]
    simp only [Nat.lt_irrefl, if_false]
    exact .refl _
  | succ m ih =>
    have hj : j < extendedBuffer := by omega
    refine Runs.next ?_
    rw [step, ← clearedFrom_update _ hj]
    simp only [hj, if_true]
    exact ih _ (j + 1) (by omega)

theorem runs_alone (k : Kernel) (nbytes : Int32) (returned : List (List UInt8))
    (h : k.dev.keyboard.enterFlag ≠ 0) : Runs ⟨k, .waiting nbytes, returned⟩
      ⟨k.lineRead, .idle,
        returned ++ [copyLine k.dev.keyboard.keyBuffer (terminalCount nbytes) 0]⟩ := by
  have hcopy := runs_copy (k.setKeyboard { k.dev.keyboard with enterFlag := 0 }) returned
    (terminalCount nbytes) []
  rw [List.length_nil, Nat.zero_add, List.nil_append] at hcopy
  refine Runs.next ?_
  rw [step]
  simp only [h, if_false]
  refine Runs.next (hcopy.trans (Runs.next ?_))
  have hclear := runs_clear
    (k.setKeyboard { k.dev.keyboard with enterFlag := 0, bufferIndex := -1 }) returned
    (copyLine k.dev.keyboard.keyBuffer (terminalCount nbytes) 0) extendedBuffer 0 (Nat.zero_add _)
  have hcleared :
      (k.setKeyboard { k.dev.keyboard with enterFlag := 0, bufferIndex := -1 }).setKeyboard
        (clearedFrom { k.dev.keyboard with enterFlag := 0, bufferIndex := -1 } 0) = k.lineRead := by
    unfold clearedFrom
    simp only [Nat.zero_le, true_and]
    rfl
  rwa [← hcleared]

end Reading

/-- The whole call as one step leaves what the steps leave, and stores the line they return. -/
theorem terminalRead_eq (buf : UInt32) (nbytes : Int32) {k : Kernel}
    (h : k.dev.keyboard.enterFlag ≠ 0) :
    let line := copyLine k.dev.keyboard.keyBuffer (terminalCount nbytes) 0
    Reading.Runs ⟨k, .waiting nbytes, []⟩ ⟨k.lineRead, .idle, [line]⟩ ∧
      terminalRead buf nbytes k = .ok ⟨.ret (Int.bmod (line.length + 1) 4294967296), k.lineRead,
        storesAt buf (line ++ [10])⟩ := by
  have hcount : (if nbytes > 128 then 128 else nbytes).toUInt32.toNat = terminalCount nbytes := by
    unfold terminalCount
    split <;> rfl
  refine ⟨Reading.runs_alone k nbytes [] h, ?_⟩
  unfold terminalRead
  simp only [if_neg h, hcount]
  rfl

end MyLinuxOS
