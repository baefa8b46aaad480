import Mathlib.Data.List.Infix
import MyLinuxOS.Terminal.LineBuffer
import MyLinuxOS.Terminal.Reader

/-! Typed lines and the reads that return them. A line reaches its reader as long as, from Enter to
the moment the reader lets go of the buffer, nothing more is typed and Enter is held until the
reader has seen the flag. -/

namespace MyLinuxOS
open Foundation

/-- The reading kernel beside what the user has typed: the line so far and the completed ones. -/
structure Session where
  reading : Reading
  line : List UInt8
  completed : List (List UInt8)

inductive SessionOp
  | key (keyIn : UInt8) (junk : StackBytes) (frame : Frame)
  | read (nbytes : Int32)
  | step

namespace Session
variable (s : Session)

def start (k : Kernel) : Session := ⟨⟨k, .idle, []⟩, [], []⟩

def keyEffect (keyIn : UInt8) : Effect :=
  (TerminalOp.key keyIn).effect s.reading.kernel.modifiers

def typeChar (c : UInt8) : Session :=
  if c = 10 then { s with line := [], completed := s.completed ++ [s.line] }
  else { s with line := s.line ++ [c] }

def edit : Effect → Session
  | .type text => text.foldl typeChar s
  | .erase => { s with line := s.line.dropLast }
  | .clear | .swap _ | .read | .putc _ => s

def onKernel (k : Kernel) : Session := { s with reading := { s.reading with kernel := k } }

end Session

/-- Keys, the beginnings of reads and the steps of the read in progress, in any order: without a
switch of the terminal, with lines shorter than 128 and reads of at least 128 bytes. -/
def sessions (img : Image) : Machine Session SessionOp Unit := fun s c =>
  match c with
  | .key keyIn junk frame =>
    (terminalEvents img s.reading.kernel ⟨.key keyIn, junk, frame⟩).bind fun r =>
      let s' := (s.edit (s.keyEffect keyIn)).onKernel r.2
      if r.2.currActiveTerminal = s.reading.kernel.currActiveTerminal ∧
          ∀ l ∈ s'.completed, l.length < 128 then some ((), s') else none
  | .read nbytes =>
    if s.reading.reader = .idle ∧ 128 ≤ nbytes then
      some ((), { s with reading := { s.reading with reader := .waiting nbytes } })
    else none
  | .step => some ((), { s with reading := s.reading.step })

/-- The lines returned are the first of those completed; and a read that begins behind a completed
line returns it without any key. -/
def Delivers (s : Session) (c : SessionOp) (_ : Unit) (s' : Session) : Prop :=
  s'.reading.returned <+: s'.completed ∧
    ∀ nbytes, c = .read nbytes → ∀ l rest, s.completed = s.reading.returned ++ l :: rest →
      ∃ t, s'.reading.Runs t ∧ t.reader = .idle ∧ t.returned = s.reading.returned ++ [l]

namespace Reader

def taken : Reader → List (List UInt8)
  | .clearing _ copied => [copied]
  | _ => []

def Reads : Reader → Prop
  | .idle | .waiting _ | .clearing _ _ => False
  | .woken _ | .testing _ _ | .copying _ _ | .resetting _ => True

/-- The reader will not clear the byte at `i` any more before it returns. -/
def Spares (i : Int) : Reader → Prop
  | .clearing j _ => i < j
  | _ => True

end Reader

def Session.LineWaiting (s : Session) : Prop :=
  s.reading.returned.length + s.reading.reader.taken.length < s.completed.length

def Undisturbed (s : Session) (c : SessionOp) (_ : Unit) (_ : Session) : Prop :=
  match c with
  | .key keyIn _ _ =>
    let typed := (s.keyEffect keyIn).typed
    (typed ≠ [] → ¬ s.LineWaiting ∧
      s.reading.reader.Spares (s.reading.kernel.dev.keyboard.bufferIndex + typed.length)) ∧
    (keyIn = enterRelease → s.LineWaiting → s.reading.reader.Reads)
  | .read _ | .step => True

/-! ### The buffer -/

inductive Buffered (kb : Keyboard) : Option (List UInt8) → List UInt8 → Prop
  | editing {line : List UInt8} : kb.Holds line → 10 ∉ line → Buffered kb none line
  | entered {l : List UInt8} : (∀ i ≤ l.length, kb.keyBuffer i = (l ++ [10]).getD i 0) → 10 ∉ l →
      l.length < 128 → Buffered kb (some l) []

def occupied : Option (List UInt8) → List UInt8 → Nat
  | none, line => line.length
  | some l, _ => l.length + 1

section
variable {kb : Keyboard} {w : Option (List UInt8)} {line : List UInt8}

theorem Buffered.flags (h : Buffered kb w line) {kb' : Keyboard}
    (hbuffer : kb'.keyBuffer = kb.keyBuffer) (hindex : kb'.bufferIndex = kb.bufferIndex) :
    Buffered kb' w line := by
  cases h with
  | editing hholds hline =>
    refine .editing (Keyboard.holds_of_map_range (hindex.trans hholds.index) ?_) hline
    rw [hbuffer]
    exact hholds.map_range
  | entered hbytes hline hlen => exact .entered (fun i hi => hbuffer ▸ hbytes i hi) hline hlen

theorem Buffered.typed (h : Buffered kb none line) {text : List UInt8} (htext : 10 ∉ text) :
    Buffered (kb.typed text) none (line ++ text) := by
  cases h with
  | editing hholds hline =>
    exact .editing (hholds.typed text) fun hmem => (List.mem_append.mp hmem).elim hline htext

theorem Buffered.enter (h : Buffered kb none line) (hlen : line.length < 128) :
    Buffered (kb.typed [10]) (some line) [] := by
  cases h with
  | editing hholds hline =>
    have hmap := (hholds.typed [10]).map_range
    refine .entered (fun i hi => ?_) hline hlen
    have hi' : i < (line ++ [10]).length := by
      rw [List.length_append, List.length_singleton]
      omega
    rw [← hmap, List.getD_eq_getElem _ _ (by rwa [hmap]), List.getElem_map, List.getElem_range]

theorem Buffered.erase (h : Buffered kb w line) :
    Buffered (Effect.erase.keyboard kb) w line.dropLast := by
  rw [Effect.keyboard]
  cases h with
  | editing hholds hline =>
    have hline' : 10 ∉ line.dropLast := fun hmem => hline (List.dropLast_subset _ hmem)
    by_cases hi : kb.bufferIndex ≥ 0
    · rw [if_pos hi]
      exact .editing (hholds.erased hi) hline'
    · have hindex := hholds.index
      have hnil : line = [] := List.length_eq_zero_iff.mp (by omega)
      rw [if_neg hi]
      subst hnil
      exact .editing hholds hline'
  | entered hbytes hline hlen =>
    split
    · exact .entered hbytes hline hlen
    · exact .entered hbytes hline hlen

theorem Buffered.update (h : Buffered kb w line) {j : Nat} (hj : occupied w line ≤ j) :
    Buffered { kb with keyBuffer := Function.update kb.keyBuffer j 0 } w line := by
  cases h with
  | editing hholds hline =>
    change line.length ≤ j at hj
    refine .editing (Keyboard.holds_of_map_range hholds.index ?_) hline
    refine Eq.trans (List.map_congr_left fun i hi => ?_) hholds.map_range
    rw [List.mem_range] at hi
    exact Function.update_of_ne (by omega) ..
  | @entered l hbytes hline hlen =>
    change l.length + 1 ≤ j at hj
    refine .entered (fun i hi => ?_) hline hlen
    exact (Function.update_of_ne (by omega) ..).trans (hbytes i hi)

theorem getD_newline (l : List UInt8) : (l ++ [10]).getD l.length 0 = 10 := by
  rw [List.getD_append_right _ _ _ _ (Nat.le_refl _), Nat.sub_self]
  rfl

theorem getD_of_lt {l : List UInt8} {i : Nat} (h : i < l.length) :
    (l ++ [10]).getD i 0 = l.get ⟨i, h⟩ := by
  rw [List.getD_append _ _ _ _ h, List.getD_eq_getElem _ _ h]
  rfl

theorem copyLine_of_bytes {keyBuffer : Nat → UInt8} {l : List UInt8} {n i : Nat}
    (hbytes : ∀ j ≤ l.length, keyBuffer (i + j) = (l ++ [10]).getD j 0) (hline : 10 ∉ l)
    (hn : l.length < n) : copyLine keyBuffer n i = l := by
  induction l generalizing n i with
  | nil =>
    obtain ⟨n, rfl⟩ := Nat.exists_eq_add_one.mpr (Nat.zero_lt_of_lt hn)
    exact if_pos (hbytes 0 (Nat.le_refl 0))
  | cons c l ih =>
    obtain ⟨n, rfl⟩ := Nat.exists_eq_add_one.mpr (Nat.zero_lt_of_lt hn)
    have hc : keyBuffer i = c := hbytes 0 (Nat.zero_le _)
    have hne : c ≠ 10 := fun h => hline (h ▸ List.mem_cons_self ..)
    have hrest : copyLine keyBuffer n (i + 1) = l := by
      refine ih (fun j hj => ?_) (fun hmem => hline (List.mem_cons_of_mem _ hmem))
        (Nat.lt_of_succ_lt_succ hn)
      rw [Nat.add_assoc, Nat.add_comm 1 j]
      exact hbytes (j + 1) (Nat.succ_le_succ hj)
    rw [copyLine, hc, if_neg hne, hrest]

end

/-! ### The invariant -/

/-- How far the reader has come with the line that waits for it. -/
def Reader.Agrees (kb : Keyboard) (w : Option (List UInt8)) (line : List UInt8) : Reader → Prop
  | .idle => kb.enterFlag = 0 ↔ w = none
  | .waiting nbytes => 128 ≤ nbytes ∧ (kb.enterFlag = 0 ↔ w = none)
  | .woken nbytes => 128 ≤ nbytes ∧ w ≠ none
  | .testing n copied => n = 128 ∧ kb.enterFlag = 0 ∧ ∃ l, w = some l ∧ copied <+: l
  | .copying n copied =>
    n = 128 ∧ kb.enterFlag = 0 ∧ ∃ l, w = some l ∧ copied <+: l ∧ copied.length < l.length
  | .resetting copied => kb.enterFlag = 0 ∧ w = some copied
  | .clearing j _ => (kb.enterFlag = 0 ↔ w = none) ∧ occupied w line ≤ j

/-- `w` is the completed line in the buffer, if there is one. -/
structure Session.Tracks (s : Session) (w : Option (List UInt8)) : Prop where
  buffered : Buffered s.reading.kernel.dev.keyboard w s.line
  agrees : s.reading.reader.Agrees s.reading.kernel.dev.keyboard w s.line
  history : s.completed = s.reading.returned ++ (s.reading.reader.taken ++ w.toList)

theorem Session.Tracks.lineWaiting_iff {s : Session} {w : Option (List UInt8)} (h : s.Tracks w) :
    s.LineWaiting ↔ w ≠ none := by
  unfold LineWaiting
  rw [h.history, List.length_append, List.length_append]
  cases w with
  | none => exact iff_of_false (by simp) (by simp)
  | some l => exact iff_of_true (by simp) (by simp)

theorem terminalCount_eq {nbytes : Int32} (h : 128 ≤ nbytes) : terminalCount nbytes = 128 := by
  unfold terminalCount
  by_cases hgt : nbytes > 128
  · exact if_pos hgt
  · have heq : nbytes = 128 := Int32.le_antisymm (Int32.not_lt.mp hgt) h
    subst heq
    rfl

/-! ### The reader -/

section
variable {k : Kernel} {line : List UInt8} {completed returned : List (List UInt8)}

theorem Session.Tracks.entered {w : Option (List UInt8)} {r : Reader} {l : List UInt8}
    (h : Session.Tracks ⟨⟨k, r, returned⟩, line, completed⟩ w) (hw : w = some l) :
    line = [] ∧ (∀ i ≤ l.length, k.dev.keyboard.keyBuffer i = (l ++ [10]).getD i 0) ∧ 10 ∉ l ∧
      l.length < 128 := by
  have hbuffered := h.buffered
  subst hw
  cases hbuffered with
  | entered hbytes hline hlen => exact ⟨rfl, hbytes, hline, hlen⟩

theorem Session.Tracks.testing {w : Option (List UInt8)} {n : Nat} {copied : List UInt8}
    (h : Session.Tracks ⟨⟨k, .testing n copied, returned⟩, line, completed⟩ w) :
    Session.Tracks ⟨Reading.step ⟨k, .testing n copied, returned⟩, line, completed⟩ w := by
  obtain ⟨rfl, hflag, l, hl, hcopied⟩ := h.agrees
  obtain ⟨-, hbytes, hline, hlen⟩ := h.entered hl
  have hle := hcopied.length_le
  have hlt : copied.length < 128 := by omega
  unfold Reading.step
  simp only [if_pos hlt]
  by_cases hall : copied.length = l.length
  · obtain rfl : copied = l := hcopied.eq_of_length hall
    have hc : k.dev.keyboard.keyBuffer copied.length = 10 := by
      rw [hbytes _ (Nat.le_refl _)]
      exact getD_newline copied
    simp only [if_pos hc]
    exact ⟨h.buffered, ⟨hflag, hl⟩, h.history⟩
  · have hmem : copied.length < l.length := by omega
    have hc : k.dev.keyboard.keyBuffer copied.length ≠ 10 := by
      rw [hbytes _ hle, getD_of_lt hmem]
      exact fun he => hline (he ▸ List.get_mem ..)
    simp only [if_neg hc]
    exact ⟨h.buffered, ⟨rfl, hflag, l, hl, hcopied, hmem⟩, h.history⟩

theorem Session.Tracks.step {s : Session} {w : Option (List UInt8)} (h : s.Tracks w) :
    ∃ w', ({ s with reading := s.reading.step } : Session).Tracks w' := by
  obtain ⟨⟨k, reader, returned⟩, line, completed⟩ := s
  have hagrees := h.agrees
  have hhistory := h.history
  cases reader with
  | idle => exact ⟨w, h⟩
  | waiting nbytes =>
    refine ⟨w, ?_⟩
    unfold Reading.step
    by_cases hflag : k.dev.keyboard.enterFlag = 0
    · simp only [if_pos hflag]
      exact h
    · simp only [if_neg hflag]
      exact ⟨h.buffered, ⟨hagrees.1, fun hw => hflag (hagrees.2.mpr hw)⟩, hhistory⟩
  | woken nbytes =>
    obtain ⟨hn, hw⟩ := hagrees
    obtain ⟨l, hl⟩ := Option.ne_none_iff_exists'.mp hw
    exact ⟨w, h.buffered.flags rfl rfl, ⟨terminalCount_eq hn, rfl, l, hl, List.nil_prefix⟩,
      hhistory⟩
  | testing n copied => exact ⟨w, h.testing⟩
  | copying n copied =>
    obtain ⟨rfl, hflag, l, hl, hcopied, hmem⟩ := hagrees
    obtain ⟨-, hbytes, -, -⟩ := h.entered hl
    refine ⟨w, h.buffered, ⟨rfl, hflag, l, hl, ?_⟩, hhistory⟩
    rw [hbytes _ hcopied.length_le, getD_of_lt hmem]
    exact List.concat_get_prefix hcopied hmem
  | resetting copied =>
    obtain ⟨hflag, hw⟩ := hagrees
    obtain ⟨rfl, -⟩ := h.entered hw
    have hempty : Keyboard.Holds { k.dev.keyboard with bufferIndex := -1 } [] :=
      Keyboard.holds_nil.mpr rfl
    -- the line leaves the buffer here: it is taken, and the clearing has not begun
    refine ⟨none, .editing hempty List.not_mem_nil, ⟨iff_of_true hflag rfl, Nat.zero_le 0⟩, ?_⟩
    rw [hhistory, hw]
    rfl
  | clearing j copied =>
    obtain ⟨hflag, hj⟩ := hagrees
    refine ⟨w, ?_⟩
    unfold Reading.step
    by_cases hlt : j < extendedBuffer
    · simp only [if_pos hlt]
      exact ⟨h.buffered.update hj, ⟨hflag, Nat.le_succ_of_le hj⟩, hhistory⟩
    · simp only [if_neg hlt]
      refine ⟨h.buffered, hflag, ?_⟩
      rw [hhistory, List.append_assoc]
      rfl

end

/-! ### Keys -/

theorem enterScancode_effect (m : Modifiers) :
    (TerminalOp.key enterScancode).effect m = .type [10] := rfl

theorem enterRelease_effect (m : Modifiers) :
    (TerminalOp.key enterRelease).effect m = .type [] := rfl

theorem TerminalOp.newline_not_mem_typed (m : Modifiers) {keyIn : UInt8}
    (henter : keyIn ≠ enterScancode) : 10 ∉ ((TerminalOp.key keyIn).effect m).typed := by
  rcases TerminalOp.typed_key m keyIn with h | h
  · rw [h]
    exact List.not_mem_nil
  · rw [h]
    exact (m.pressed keyIn).newline_not_mem_characters henter

theorem Keyboard.typed_enterFlag (kb : Keyboard) (text : List UInt8) :
    (kb.typed text).enterFlag = kb.enterFlag := by
  induction text generalizing kb with
  | nil => rfl
  | cons c text ih => exact ih (kb.put c)

theorem Session.edit_type (s : Session) {text : List UInt8} (h : 10 ∉ text) :
    s.edit (.type text) = { s with line := s.line ++ text } := by
  change text.foldl typeChar s = _
  induction text generalizing s with
  | nil => rw [List.foldl_nil, List.append_nil]
  | cons c text ih =>
    have hc : c ≠ 10 := fun he => h (he ▸ List.mem_cons_self ..)
    rw [List.foldl_cons, ih _ fun hmem => h (List.mem_cons_of_mem _ hmem), typeChar, if_neg hc]
    simp only [List.append_assoc, List.singleton_append]

/-- What a key leaves of the session when it is not Enter and types nothing while a line waits. -/
structure Edits (kb : Keyboard) (s : Session) (e : Effect) (w : Option (List UInt8)) : Prop where
  buffered : Buffered (e.keyboard kb) w (s.edit e).line
  completed : (s.edit e).completed = s.completed
  flag : (e.keyboard kb).enterFlag = kb.enterFlag
  occupied_le : occupied w (s.edit e).line ≤ occupied w s.line + e.typed.length

theorem Buffered.edits {kb : Keyboard} {s : Session} {w : Option (List UInt8)} {e : Effect}
    (h : Buffered kb w s.line) (hread : e ≠ .read) (hnewline : 10 ∉ e.typed)
    (hwaiting : e.typed ≠ [] → w = none) : Edits kb s e w := by
  cases e with
  | type text =>
    have htext' : 10 ∉ text := hnewline
    have hedit := s.edit_type htext'
    by_cases htext : text = []
    · subst htext
      exact ⟨h, rfl, rfl, Nat.le_refl _⟩
    · obtain rfl := hwaiting htext
      refine ⟨?_, ?_, kb.typed_enterFlag text, ?_⟩
      · rw [hedit]
        exact h.typed htext'
      · rw [hedit]
      · rw [hedit]
        exact (List.length_append ..).le
  | erase =>
    refine ⟨h.erase, rfl, ?_, ?_⟩
    · rw [Effect.keyboard]
      split <;> rfl
    · cases w with
      | none =>
        change s.line.dropLast.length ≤ s.line.length + 0
        rw [List.length_dropLast]
        omega
      | some l => exact Nat.le_refl _
  | read => exact absurd rfl hread
  | clear => exact ⟨h, rfl, rfl, Nat.le_refl _⟩
  | swap newTermVal => exact ⟨h, rfl, rfl, Nat.le_refl _⟩
  | putc c => exact ⟨h, rfl, rfl, Nat.le_refl _⟩

theorem sessions_key {img : Image} {s s' : Session} {keyIn : UInt8} {junk : StackBytes}
    {frame : Frame} (h : sessions img s (.key keyIn junk frame) = some ((), s')) :
    ∃ k', s' = (s.edit (s.keyEffect keyIn)).onKernel k' ∧
      k'.dev.keyboard =
        (s.keyEffect keyIn).keyboard (s.reading.kernel.dev.keyboard.pressed keyIn) ∧
      ∀ l ∈ s'.completed, l.length < 128 := by
  obtain ⟨⟨⟨o, stored⟩, k'⟩, hevent, hrest⟩ := Option.bind_eq_some_iff.mp h
  dsimp only at hrest
  split at hrest
  · rename_i hlegal
    cases hrest
    obtain hstays | ⟨newTermVal, -, ⟨h0, -, hne⟩, hshows⟩ :=
      (terminalEvents_effect hevent).stays_or_switches
    · exact ⟨k', rfl, hstays.keyboard, hlegal.2⟩
    · have hnew : newTermVal.toNat = s.reading.kernel.currActiveTerminal :=
        hshows.active.symm.trans hlegal.1
      change newTermVal ≠ s.reading.kernel.currActiveTerminal at hne
      omega
  · exact absurd hrest (by simp)

theorem Session.edit_reading (s : Session) (e : Effect) : (s.edit e).reading = s.reading := by
  cases e with
  | type text =>
    change (text.foldl typeChar s).reading = _
    induction text generalizing s with
    | nil => rfl
    | cons c text ih =>
      rw [List.foldl_cons, ih]
      unfold typeChar
      split <;> rfl
  | _ => rfl

theorem Reader.Agrees.edits {kb kb' : Keyboard} {w : Option (List UInt8)} {line line' : List UInt8}
    {r : Reader} (h : r.Agrees kb w line) (hzero : kb.enterFlag = 0 → kb'.enterFlag = 0)
    (hflag : ¬ r.Reads → (kb.enterFlag = 0 ↔ w = none) → (kb'.enterFlag = 0 ↔ w = none))
    (hle : ∀ j, occupied w line ≤ j → (∃ copied, r = .clearing j copied) → occupied w line' ≤ j) :
    r.Agrees kb' w line' := by
  cases r with
  | idle => exact hflag id h
  | waiting nbytes => exact ⟨h.1, hflag id h.2⟩
  | woken nbytes => exact h
  | testing n copied => exact ⟨h.1, hzero h.2.1, h.2.2⟩
  | copying n copied => exact ⟨h.1, hzero h.2.1, h.2.2⟩
  | resetting copied => exact ⟨hzero h.1, h.2⟩
  | clearing j copied => exact ⟨hflag id h.1, hle j h.2 ⟨copied, rfl⟩⟩

theorem TerminalOp.key_effect_ne_read (m : Modifiers) (keyIn : UInt8) :
    (TerminalOp.key keyIn).effect m ≠ .read := by
  change KeyAction.effect ((m.pressed keyIn).action keyIn) ≠ .read
  cases (m.pressed keyIn).action keyIn <;> exact nofun

theorem Buffered.index {kb : Keyboard} {line : List UInt8} (h : Buffered kb none line) :
    kb.bufferIndex = line.length - 1 := by
  cases h with
  | editing hholds _ => exact hholds.index

/-- What is typed while the buffer is cleared lands on bytes that are cleared already. -/
theorem Edits.occupied_le_of_spares {kb : Keyboard} {s : Session} {e : Effect}
    {w : Option (List UInt8)} {j : Nat} {copied : List UInt8} (h : Edits kb s e w)
    (hbuffered : Buffered kb w s.line) (htyping : e.typed ≠ [] →
      w = none ∧ (Reader.clearing j copied).Spares (kb.bufferIndex + e.typed.length))
    (hj : occupied w s.line ≤ j) : occupied w (s.edit e).line ≤ j := by
  have hle := h.occupied_le
  by_cases hnone : e.typed = []
  · rw [hnone] at hle
    exact hle.trans hj
  · obtain ⟨rfl, hspares⟩ := htyping hnone
    rw [hbuffered.index] at hspares
    change occupied none _ ≤ s.line.length + e.typed.length at hle
    change ((s.line.length - 1 + e.typed.length : Int)) < (j : Int) at hspares
    omega

theorem Reader.Agrees.enter {kb kb' : Keyboard} {line : List UInt8} {r : Reader}
    (h : r.Agrees kb none line) (hflag : kb'.enterFlag ≠ 0) (hspares : r.Spares line.length) :
    r.Agrees kb' (some line) [] := by
  cases r with
  | idle => exact iff_of_false hflag nofun
  | waiting nbytes => exact ⟨h.1, iff_of_false hflag nofun⟩
  | woken nbytes => exact absurd rfl h.2
  | testing n copied =>
    obtain ⟨-, -, l, hl, -⟩ := h
    exact absurd hl nofun
  | copying n copied =>
    obtain ⟨-, -, l, hl, -⟩ := h
    exact absurd hl nofun
  | resetting copied => exact absurd h.2 nofun
  | clearing j copied => exact ⟨iff_of_false hflag nofun, Int.ofNat_lt.mp hspares⟩

theorem Session.Tracks.enter {s : Session} {k' : Kernel} (h : s.Tracks none)
    (hkeyboard : k'.dev.keyboard =
      (s.reading.kernel.dev.keyboard.pressed enterScancode).typed [10])
    (hlen : s.line.length < 128) (hspares : s.reading.reader.Spares
      (s.reading.kernel.dev.keyboard.bufferIndex + 1)) :
    ((s.edit (.type [10])).onKernel k').Tracks (some s.line) := by
  have hpressed : Buffered (s.reading.kernel.dev.keyboard.pressed enterScancode) none s.line :=
    h.buffered.flags rfl rfl
  have hflag : k'.dev.keyboard.enterFlag ≠ 0 := by
    rw [hkeyboard]
    change (1 : Int) ≠ 0
    decide
  rw [h.buffered.index, Int.sub_add_cancel] at hspares
  refine ⟨?_, h.agrees.enter hflag hspares, ?_⟩
  · change Buffered k'.dev.keyboard (some s.line) []
    rw [hkeyboard]
    exact hpressed.enter hlen
  · change s.completed ++ [s.line] = s.reading.returned ++ (s.reading.reader.taken ++ [s.line])
    rw [h.history]
    simp only [Option.toList_none, List.append_nil, List.append_assoc]

theorem Session.Tracks.key {img : Image} {s s' : Session} {w : Option (List UInt8)} {keyIn : UInt8}
    {junk : StackBytes} {frame : Frame} (h : s.Tracks w)
    (hstep : sessions img s (.key keyIn junk frame) = some ((), s'))
    (hquiet : Undisturbed s (.key keyIn junk frame) () s') : ∃ w', s'.Tracks w' := by
  obtain ⟨k', rfl, hkeyboard, hlens⟩ := sessions_key hstep
  obtain ⟨htyping, hrelease⟩ := hquiet
  rw [h.lineWaiting_iff, not_not] at htyping
  rw [h.lineWaiting_iff] at hrelease
  by_cases henter : keyIn = enterScancode
  · -- Enter types, so no line waits, and the one being typed becomes the line that does
    subst henter
    obtain ⟨rfl, hspares⟩ := htyping nofun
    have hmem : s.line ∈ s.completed ++ [s.line] :=
      List.mem_append_right _ (List.mem_singleton_self _)
    exact ⟨some s.line, h.enter hkeyboard (hlens _ hmem) hspares⟩
  have hpressed : Buffered (s.reading.kernel.dev.keyboard.pressed keyIn) w s.line :=
    h.buffered.flags rfl rfl
  have hedits : Edits (s.reading.kernel.dev.keyboard.pressed keyIn) s (s.keyEffect keyIn) w :=
    hpressed.edits (TerminalOp.key_effect_ne_read _ _)
      (TerminalOp.newline_not_mem_typed s.reading.kernel.modifiers henter)
      fun hne => (htyping hne).1
  have hflag : k'.dev.keyboard.enterFlag =
      if keyIn = enterRelease then 0 else s.reading.kernel.dev.keyboard.enterFlag := by
    rw [hkeyboard]
    exact hedits.flag.trans (if_neg henter)
  refine ⟨w, ?_, ?_, ?_⟩
  · change Buffered k'.dev.keyboard w (s.edit (s.keyEffect keyIn)).line
    rw [hkeyboard]
    exact hedits.buffered
  · change (s.edit (s.keyEffect keyIn)).reading.reader.Agrees k'.dev.keyboard w
      (s.edit (s.keyEffect keyIn)).line
    rw [Session.edit_reading]
    refine h.agrees.edits (fun hzero => ?_) (fun hreads hw => ?_) fun j hj hclearing => ?_
    · rw [hflag, hzero, ite_self]
    · rw [hflag]
      by_cases hup : keyIn = enterRelease
      · -- the release clears the flag: behind a reader that has seen it, or with no line waiting
        rw [if_pos hup]
        exact iff_of_true rfl (not_not.mp fun hne => hreads (hrelease hup hne))
      · rwa [if_neg hup]
    · obtain ⟨copied, hr⟩ := hclearing
      rw [hr] at htyping
      exact hedits.occupied_le_of_spares hpressed htyping hj
  · change (s.edit (s.keyEffect keyIn)).completed =
      (s.edit (s.keyEffect keyIn)).reading.returned ++
        ((s.edit (s.keyEffect keyIn)).reading.reader.taken ++ w.toList)
    rw [hedits.completed, Session.edit_reading]
    exact h.history

/-! ### Runs -/

theorem sessions_read {s s' : Session} {img : Image} {nbytes : Int32}
    (h : sessions img s (.read nbytes) = some ((), s')) :
    s.reading.reader = .idle ∧ 128 ≤ nbytes ∧
      s' = { s with reading := { s.reading with reader := .waiting nbytes } } := by
  unfold sessions at h
  dsimp only at h
  split at h
  · rename_i hlegal
    cases h
    exact ⟨hlegal.1, hlegal.2, rfl⟩
  · exact absurd h (by simp)

theorem Session.Tracks.read {s : Session} {w : Option (List UInt8)} {nbytes : Int32}
    (h : s.Tracks w) (hidle : s.reading.reader = .idle) (hn : 128 ≤ nbytes) :
    Session.Tracks { s with reading := { s.reading with reader := .waiting nbytes } } w := by
  have hagrees := h.agrees
  have hhistory := h.history
  rw [hidle] at hagrees hhistory
  exact ⟨h.buffered, ⟨hn, hagrees⟩, hhistory⟩

theorem Session.Tracks.delivers {s : Session} {w : Option (List UInt8)} {nbytes : Int32}
    (h : s.Tracks w) (hreader : s.reading.reader = .waiting nbytes) {l : List UInt8}
    {rest : List (List UInt8)} (hl : s.completed = s.reading.returned ++ l :: rest) :
    ∃ t, s.reading.Runs t ∧ t.reader = .idle ∧ t.returned = s.reading.returned ++ [l] := by
  obtain ⟨⟨k, reader, returned⟩, line, completed⟩ := s
  obtain rfl : reader = .waiting nbytes := hreader
  obtain ⟨hn, hflag⟩ := h.agrees
  -- with nothing taken, the first line not yet returned is the one in the buffer
  have hw : w = some l := by
    have hsuffix := List.append_cancel_left (h.history.symm.trans hl)
    cases w with
    | none => exact absurd hsuffix nofun
    | some l' => exact congrArg some (List.cons.inj hsuffix).1
  obtain ⟨-, hbytes, hline, hlen⟩ := h.entered hw
  have hset : k.dev.keyboard.enterFlag ≠ 0 := fun h0 => absurd (hw.symm.trans (hflag.mp h0)) nofun
  have hcopy : copyLine k.dev.keyboard.keyBuffer (terminalCount nbytes) 0 = l := by
    rw [terminalCount_eq hn]
    refine copyLine_of_bytes (fun j hj => ?_) hline hlen
    rw [Nat.zero_add]
    exact hbytes j hj
  have hruns := Reading.runs_alone k nbytes returned hset
  rw [hcopy] at hruns
  exact ⟨_, hruns, rfl, rfl⟩

theorem Session.Tracks.next {img : Image} {s s' : Session} {w : Option (List UInt8)} {c : SessionOp}
    (h : s.Tracks w) (hstep : sessions img s c = some ((), s')) (hquiet : Undisturbed s c () s') :
    Delivers s c () s' ∧ ∃ w', s'.Tracks w' := by
  have hreturned {t : Session} {w' : Option (List UInt8)} (ht : t.Tracks w') :
      t.reading.returned <+: t.completed := ⟨_, ht.history.symm⟩
  cases c with
  | key keyIn junk frame =>
    obtain ⟨w', hw'⟩ := h.key hstep hquiet
    exact ⟨⟨hreturned hw', nofun⟩, w', hw'⟩
  | read nbytes =>
    obtain ⟨hidle, hn, rfl⟩ := sessions_read hstep
    have hw' := h.read hidle hn
    exact ⟨⟨hreturned hw', fun _ _ l rest hl => hw'.delivers rfl hl⟩, w, hw'⟩
  | step =>
    cases hstep
    obtain ⟨w', hw'⟩ := h.step
    exact ⟨⟨hreturned hw', nofun⟩, w', hw'⟩

theorem typed_lines_delivered (img : Image) {k : Kernel} {after : Nat → UInt8}
    (hk : k.dev.keyboard = Keyboard.initKeyboard after) (ops : List SessionOp)
    (hquiet : (sessions img).Always Undisturbed (Session.start k) ops) :
    (sessions img).Always Delivers (Session.start k) ops := by
  refine Machine.always_mono (fun s => ∃ w, s.Tracks w) ?_ ?_ hquiet
  · rintro s c ⟨⟩ s' ⟨w, h⟩ hstep hq
    exact h.next hstep hq
  · refine ⟨none, .editing ?_ List.not_mem_nil, ?_, rfl⟩
    · exact Keyboard.holds_nil.mpr (congrArg Keyboard.bufferIndex hk)
    · exact iff_of_true (congrArg Keyboard.enterFlag hk) rfl

theorem steps_undisturbed (img : Image) (n : Nat) (s : Session) :
    (sessions img).Always Undisturbed s (List.replicate n .step) := by
  induction n generalizing s with
  | zero => trivial
  | succ n ih => exact fun _ s' _ => ⟨trivial, ih s'⟩

theorem sample_line_delivered : (sessions sampleImage).Always Delivers
    (Session.start (initTerminal samplePowerOn))
    (.key aScancode sampleJunk sampleFrame :: .key enterScancode sampleJunk sampleFrame ::
      .read 1024 :: List.replicate 300 .step) := by
  refine typed_lines_delivered sampleImage rfl _ fun _ s₁ h₁ => ?_
  obtain ⟨k₁, rfl, -⟩ := sessions_key h₁
  refine ⟨⟨fun _ => ⟨Nat.lt_irrefl 0, trivial⟩, nofun⟩, fun _ s₂ h₂ => ?_⟩
  obtain ⟨k₂, rfl, -⟩ := sessions_key h₂
  refine ⟨⟨fun _ => ⟨Nat.lt_irrefl 0, trivial⟩, nofun⟩, fun _ s₃ _ => ?_⟩
  exact ⟨trivial, steps_undisturbed sampleImage 300 s₃⟩

theorem KeyAction.eq_type_of_effect {a : KeyAction} {text : List UInt8}
    (h : a.effect = .type text) : a = .type text := by
  cases a with
  | type text' => exact congrArg KeyAction.type (Effect.type.inj h)
  | _ => exact absurd h nofun

theorem sessions_of_type {img : Image} {s : Session} {keyIn : UInt8} {text : List UInt8}
    (h : s.keyEffect keyIn = .type text)
    (hlens : ∀ l ∈ (s.edit (.type text)).completed, l.length < 128) :
    let k := s.reading.kernel.pressed keyIn
    sessions img s (.key keyIn sampleJunk sampleFrame) =
      some ((), (s.edit (.type text)).onKernel (putKeys text k).1) := by
  have haction : (s.reading.kernel.modifiers.pressed keyIn).action keyIn = .type text :=
    KeyAction.eq_type_of_effect h
  have hevent : terminalEvents img s.reading.kernel (sampleKey keyIn) = some (_, _) :=
    terminalEvents_key haction rfl
  have hactive : (putKeys text (s.reading.kernel.pressed keyIn)).1.currActiveTerminal =
      s.reading.kernel.currActiveTerminal := by
    rw [putKeys_eq]
    rfl
  refine Option.bind_eq_some_iff.mpr ⟨_, hevent, ?_⟩
  dsimp only
  rw [h]
  exact if_pos ⟨hactive, hlens⟩

theorem Reading.Runs.waiting {k : Kernel} {nbytes : Int32} {returned : List (List UInt8)}
    {t : Reading} (hflag : k.dev.keyboard.enterFlag = 0)
    (h : Runs ⟨k, .waiting nbytes, returned⟩ t) :
    t.reader = .waiting nbytes := by
  obtain ⟨m, rfl⟩ := h
  have hfixed : step ⟨k, .waiting nbytes, returned⟩ = ⟨k, .waiting nbytes, returned⟩ := if_pos hflag
  rw [Function.iterate_fixed hfixed]

/-- A and Enter, with Enter released again before the read begins. -/
theorem released_enter_withholds_the_line : ¬ ∀ (img : Image) (k : Kernel) (after : Nat → UInt8)
    (ops : List SessionOp), k.dev.keyboard = Keyboard.initKeyboard after →
      (sessions img).Always Delivers (Session.start k) ops := by
  intro hall
  obtain ⟨args, d, -⟩ := sampleImage_boots
  let k₀ := sampleShell (initTerminal samplePowerOn) 0 args d
  let k₁ := (putKeys [97] (k₀.pressed aScancode)).1
  let k₂ := (putKeys [10] (k₁.pressed enterScancode)).1
  let k₃ := (putKeys [] (k₂.pressed enterRelease)).1
  let s₁ : Session := ⟨⟨k₁, .idle, []⟩, [97], []⟩
  let s₂ : Session := ⟨⟨k₂, .idle, []⟩, [], [[97]]⟩
  let s₃ : Session := ⟨⟨k₃, .idle, []⟩, [], [[97]]⟩
  have hlens : ∀ l ∈ [[(97 : UInt8)]], l.length < 128 := by simp
  have ha : (Session.start k₀).keyEffect aScancode = .type [97] := rfl
  have h₁ : sessions sampleImage (Session.start k₀) (.key aScancode sampleJunk sampleFrame) =
      some ((), s₁) := sessions_of_type ha nofun
  have h₂ : sessions sampleImage s₁ (.key enterScancode sampleJunk sampleFrame) =
      some ((), s₂) := sessions_of_type (s := s₁) (enterScancode_effect _) hlens
  have h₃ : sessions sampleImage s₂ (.key enterRelease sampleJunk sampleFrame) =
      some ((), s₃) := sessions_of_type (s := s₂) (enterRelease_effect _) hlens
  have h₄ : sessions sampleImage s₃ (.read 128) =
      some ((), { s₃ with reading := { s₃.reading with reader := .waiting 128 } }) := rfl
  have hrun := hall sampleImage k₀ _ [.key aScancode sampleJunk sampleFrame,
    .key enterScancode sampleJunk sampleFrame, .key enterRelease sampleJunk sampleFrame,
    .read 128] rfl
  obtain ⟨t, ht, hidle, -⟩ :=
    ((((hrun _ _ h₁).2 _ _ h₂).2 _ _ h₃).2 _ _ h₄).1.2 128 rfl [97] [] rfl
  exact absurd (hidle.symm.trans (ht.waiting rfl)) nofun

end MyLinuxOS
