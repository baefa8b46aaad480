import MyLinuxOS.Terminal.Events

/-! The index into the line buffer. Nothing bounds it from above: every key that types moves it up,
and only a reader or a Backspace moves it down again. -/

namespace MyLinuxOS
open Foundation

def Effect.index (i : Int) : Effect → Int
  | .type text => i + text.length
  | .erase => if i ≥ 0 then i - 1 else i
  | .clear | .swap _ | .putc _ => i
  | .read => -1

def Effect.typed : Effect → List UInt8
  | .type text => text
  | _ => []

theorem Effect.keyboard_bufferIndex (e : Effect) (kb : Keyboard) :
    (e.keyboard kb).bufferIndex = e.index kb.bufferIndex := by
  cases e with
  | type text => exact kb.typed_bufferIndex text
  | erase =>
    rw [keyboard, index]
    split <;> rfl
  | _ => rfl

section
variable {k k' : Kernel} {stored : List Int} {e : Effect}

theorem Effect.Spec.bufferIndex (h : e.Spec k stored k') :
    k'.dev.keyboard.bufferIndex = e.index k.dev.keyboard.bufferIndex := by
  obtain hstays | ⟨newTermVal, rfl, -, hshows⟩ := h.stays_or_switches
  · rw [hstays.keyboard, e.keyboard_bufferIndex]
  · rw [hshows.keyboard]
    rfl

theorem Effect.Spec.stored_eq (h : e.Spec k stored k') :
    stored = (List.range e.typed.length).map fun n : Nat => k.dev.keyboard.bufferIndex + 1 + n := by
  cases e with
  | type text =>
    obtain ⟨-, rfl⟩ := h
    rw [putKeys_eq]
    rfl
  | erase => exact h.2
  | clear => exact h.2
  | swap newTermVal => exact h.1
  | read => exact h.2.2
  | putc c => exact h.2

end

theorem TerminalOp.typed_key (m : Modifiers) (keyIn : UInt8) :
    ((TerminalOp.key keyIn).effect m).typed = [] ∨
      ((TerminalOp.key keyIn).effect m).typed = (m.pressed keyIn).characters keyIn := by
  change (KeyAction.effect ((m.pressed keyIn).action keyIn)).typed = [] ∨ _ = _
  change _ ∨ (KeyAction.effect ((m.pressed keyIn).action keyIn)).typed = _
  unfold Modifiers.action
  split_ifs
  · exact .inl rfl
  · exact .inl rfl
  · exact .inl rfl
  · exact .inl rfl
  · exact .inl rfl
  · exact .inr rfl

@[simp] theorem TerminalOp.noted_bufferIndex (k : Kernel) (op : TerminalOp) :
    (op.noted k).dev.keyboard.bufferIndex = k.dev.keyboard.bufferIndex := by
  cases op <;> rfl

def Keyboard.Bounded (kb : Keyboard) : Prop :=
  -1 ≤ kb.bufferIndex ∧ kb.bufferIndex < (extendedBuffer : Int)

def InBuffer (_ : Kernel) (_ : TerminalEvent) (answer : Exit × List Int) (k' : Kernel) : Prop :=
  k'.dev.keyboard.Bounded ∧ ∀ i ∈ answer.2, 0 ≤ i ∧ i < (extendedBuffer : Int)

def HasRoom (k : Kernel) (c : TerminalEvent) (_ : Exit × List Int) (_ : Kernel) : Prop :=
  k.dev.keyboard.bufferIndex + (c.op.effect k.modifiers).typed.length < (extendedBuffer : Int)

theorem Effect.index_eq (e : Effect) (i : Int) :
    e.index i = i + e.typed.length ∨
      e.typed = [] ∧ (e.index i = -1 ∨ 0 ≤ i ∧ e.index i = i - 1) := by
  cases e with
  | type text => exact .inl rfl
  | erase =>
    by_cases hi : i ≥ 0
    · exact .inr ⟨rfl, .inr ⟨hi, if_pos hi⟩⟩
    · exact .inl ((if_neg hi).trans (Int.add_zero i).symm)
  | clear => exact .inl (Int.add_zero i).symm
  | swap newTermVal => exact .inl (Int.add_zero i).symm
  | read => exact .inr ⟨rfl, .inl rfl⟩
  | putc c => exact .inl (Int.add_zero i).symm

theorem inBuffer_iff {img : Image} {k k' : Kernel} {c : TerminalEvent} {answer : Exit × List Int}
    (hk : k.dev.keyboard.Bounded) (hstep : terminalEvents img k c = some (answer, k')) :
    InBuffer k c answer k' ↔ HasRoom k c answer k' := by
  obtain ⟨o, stored⟩ := answer
  obtain ⟨hlo, hhi⟩ := hk
  have heffect := terminalEvents_effect hstep
  have hindex := heffect.bufferIndex
  have hstored := heffect.stored_eq
  rw [TerminalOp.noted_bufferIndex] at hindex hstored
  unfold InBuffer HasRoom Keyboard.Bounded
  rw [hindex]
  constructor
  · -- an event that types moves the index by exactly what it types
    rintro ⟨⟨-, hi⟩, -⟩
    rcases Effect.index_eq (c.op.effect k.modifiers) k.dev.keyboard.bufferIndex with h | ⟨h, -⟩
    · rwa [h] at hi
    · rw [h]
      exact (Int.add_zero _).trans_lt hhi
  · intro hroom
    refine ⟨?_, fun i hi => ?_⟩
    · rcases Effect.index_eq (c.op.effect k.modifiers) k.dev.keyboard.bufferIndex with
        h | ⟨-, h | ⟨h0, h⟩⟩
      · omega
      · rw [h]
        decide
      · omega
    · rw [hstored, List.mem_map] at hi
      obtain ⟨n, hn, rfl⟩ := hi
      rw [List.mem_range] at hn
      omega

theorem inBuffer_iff_hasRoom (img : Image) {k : Kernel} {after : Nat → UInt8}
    (hk : k.dev.keyboard = Keyboard.initKeyboard after) (events : List TerminalEvent) :
    (terminalEvents img).Always InBuffer k events ↔
      (terminalEvents img).Always HasRoom k events := by
  refine Machine.always_iff (fun k => k.dev.keyboard.Bounded) (fun k c o k' hb hstep => ?_) ?_
  · have hiff := inBuffer_iff hb hstep
    exact ⟨hiff, fun hroom => (hiff.mpr hroom).1⟩
  · rw [hk]
    have hbounds : (-1 : Int) ≤ -1 ∧ (-1 : Int) < (extendedBuffer : Int) := by decide
    exact hbounds

theorem sample_tab_in_buffer : (terminalEvents sampleImage).Always InBuffer
    (initTerminal samplePowerOn) [sampleKey tabScancode, sampleKey enterScancode] := by
  have htab : (-1 : Int) + (3 : Nat) < (extendedBuffer : Int) := by decide
  have henter : (2 : Int) + (1 : Nat) < (extendedBuffer : Int) := by decide
  refine (inBuffer_iff_hasRoom sampleImage rfl _).mpr fun o k hstep => ⟨htab, ?_⟩
  cases hstep
  exact fun o k _ => ⟨henter, trivial⟩

theorem aScancode_fills {img : Image} {k : Kernel} (n : Nat)
    (h : (terminalEvents img).Always InBuffer k (List.replicate (n + 1) (sampleKey aScancode))) :
    k.dev.keyboard.bufferIndex + n + 1 < (extendedBuffer : Int) := by
  induction n generalizing k with
  | zero =>
    obtain ⟨c, hstep⟩ := aScancode_types img k
    have hb := (h _ _ hstep).1.1.2
    rw [(terminalEvents_effect hstep).bufferIndex] at hb
    change k.dev.keyboard.bufferIndex + 1 < _ at hb
    omega
  | succ n ih =>
    obtain ⟨c, hstep⟩ := aScancode_types img k
    have hb := ih (h _ _ hstep).2
    rw [(terminalEvents_effect hstep).bufferIndex] at hb
    change k.dev.keyboard.bufferIndex + 1 + (n : Int) + 1 < _ at hb
    change k.dev.keyboard.bufferIndex + ((n + 1 : Nat) : Int) + 1 < _
    omega

/-- Holding A down for 257 scancodes writes behind the buffer. -/
theorem held_key_overflows : ¬ ∀ (img : Image) (k : Kernel) (after : Nat → UInt8)
    (events : List TerminalEvent), k.dev.keyboard = Keyboard.initKeyboard after →
      (terminalEvents img).Always InBuffer k events := by
  intro h
  have hheld := aScancode_fills 256
    (h sampleImage (initTerminal samplePowerOn) _ (List.replicate 257 (sampleKey aScancode)) rfl)
  have hfull : ¬ (-1 : Int) + (256 : Nat) + 1 < (extendedBuffer : Int) := by decide
  exact hfull hheld

end MyLinuxOS
