import MyLinuxOS.Process.Calls
import MyLinuxOS.Terminal.BufferBound

/-! The line buffer against a line editor. Typing, erasing and reading keep the buffer and its index
in step; a switch to another terminal empties the buffer and leaves the index behind. -/

namespace MyLinuxOS
open Foundation

/-- What the user edits: the line since the last read or switch, and what a key's meaning depends
on. -/
structure Editor where
  line : List UInt8
  modifiers : Modifiers
  active : Nat

namespace Editor
variable (d : Editor)

def start (active : Nat) : Editor := ⟨[], ⟨false, false, false, false⟩, active⟩

def edited : Effect → List UInt8
  | .type text => d.line ++ text
  | .erase => d.line.dropLast
  | .clear | .putc _ => d.line
  | .swap newTermVal =>
    if (Effect.swap newTermVal).active d.active = d.active then d.line else []
  | .read => []

def step (op : TerminalOp) : Editor where
  line := d.edited (op.effect d.modifiers)
  modifiers := op.modifiers d.modifiers
  active := (op.effect d.modifiers).active d.active

end Editor

namespace Keyboard
variable (kb : Keyboard)

def line : List UInt8 := (List.range (kb.bufferIndex + 1).toNat).map kb.keyBuffer

structure Holds (line : List UInt8) : Prop where
  index : kb.bufferIndex = line.length - 1
  line_eq : kb.line = line

variable {kb} {line : List UInt8}

theorem Holds.next (h : kb.Holds line) : (kb.bufferIndex + 1).toNat = line.length := by
  rw [h.index]
  omega

theorem Holds.map_range (h : kb.Holds line) :
    (List.range line.length).map kb.keyBuffer = line := by
  have hline := h.line_eq
  rwa [Keyboard.line, h.next] at hline

theorem holds_of_map_range (hi : kb.bufferIndex = line.length - 1)
    (h : (List.range line.length).map kb.keyBuffer = line) : kb.Holds line := by
  have hnext : (kb.bufferIndex + 1).toNat = line.length := by omega
  refine ⟨hi, ?_⟩
  rwa [Keyboard.line, hnext]

theorem Holds.put (h : kb.Holds line) (c : UInt8) : (kb.put c).Holds (line ++ [c]) := by
  have hi := h.index
  refine holds_of_map_range ?_ ?_
  · change kb.bufferIndex + 1 = _
    rw [List.length_append, List.length_singleton]
    omega
  · rw [List.length_append, List.length_singleton, List.range_succ, List.map_append,
      List.map_singleton]
    change (List.range _).map (Function.update kb.keyBuffer (kb.bufferIndex + 1).toNat c) ++
      [Function.update kb.keyBuffer (kb.bufferIndex + 1).toNat c line.length] = _
    rw [h.next, Function.update_self]
    refine congrArg (· ++ [c]) (Eq.trans (List.map_congr_left fun n hn => ?_) h.map_range)
    exact Function.update_of_ne (Nat.ne_of_lt (List.mem_range.mp hn)) ..

theorem Holds.typed (h : kb.Holds line) (text : List UInt8) :
    (kb.typed text).Holds (line ++ text) := by
  induction text generalizing kb line with
  | nil => rwa [List.append_nil]
  | cons c text ih =>
    have hrest := ih (h.put c)
    rwa [List.append_assoc] at hrest

theorem Holds.erased (h : kb.Holds line) (hi : kb.bufferIndex ≥ 0) :
    Holds { kb with bufferIndex := kb.bufferIndex - 1 } line.dropLast := by
  have hindex := h.index
  refine holds_of_map_range ?_ ?_
  · change kb.bufferIndex - 1 = _
    rw [List.length_dropLast]
    omega
  · have hmap := congrArg List.dropLast h.map_range
    rw [← List.map_dropLast] at hmap
    have hrange : (List.range line.length).dropLast = List.range line.dropLast.length := by
      rw [List.length_dropLast]
      obtain ⟨n, hn⟩ : ∃ n, line.length = n + 1 := ⟨line.length - 1, by omega⟩
      rw [hn, List.range_succ, List.dropLast_concat]
      rfl
    rwa [hrange] at hmap

theorem holds_nil : kb.Holds [] ↔ kb.bufferIndex = -1 :=
  ⟨fun h => h.index, fun h => holds_of_map_range h rfl⟩

end Keyboard

/-! ### Simulation -/

theorem Effect.edited_of_active_ne {e : Effect} {d : Editor} (h : e.active d.active ≠ d.active) :
    d.edited e = [] := by
  cases e with
  | swap newTermVal => exact if_neg h
  | _ => exact absurd rfl h

theorem Effect.keyboard_holds {kb : Keyboard} {d : Editor} {e : Effect} (h : kb.Holds d.line)
    (hactive : e.active d.active = d.active) : (e.keyboard kb).Holds (d.edited e) := by
  cases e with
  | type text => exact h.typed text
  | erase =>
    rw [keyboard]
    split
    · rename_i hi
      exact h.erased hi
    · have hi := h.index
      have hnil : d.line = [] := List.length_eq_zero_iff.mp (by omega)
      change kb.Holds d.line.dropLast
      rwa [hnil] at h ⊢
  | clear => exact h
  | swap newTermVal =>
    rw [Editor.edited, if_pos hactive]
    exact h
  | read => exact Keyboard.holds_nil.mpr rfl
  | putc c => exact h

theorem Effect.Spec.holds {e : Effect} {k k' : Kernel} {stored : List Int} {d : Editor}
    (h : e.Spec k stored k') (hd : k.dev.keyboard.Holds d.line)
    (hactive : k.currActiveTerminal = d.active) :
    k'.dev.keyboard.Holds (d.edited e) ↔ (e.active d.active ≠ d.active → d.line = []) := by
  obtain hstays | ⟨newTermVal, rfl, hyes, hshows⟩ := h.stays_or_switches
  · have hsame := hstays.effect
    rw [hactive] at hsame
    rw [hstays.keyboard]
    exact iff_of_true (Effect.keyboard_holds hd hsame) fun hne => absurd hsame hne
  · -- the buffer is emptied and the index stays
    have hne : (Effect.swap newTermVal).active d.active ≠ d.active := by
      obtain ⟨h0, -, hother⟩ := hyes
      rw [← hactive, ← h.active, hshows.active]
      change newTermVal.toNat ≠ k.currActiveTerminal
      omega
    rw [Effect.edited_of_active_ne hne, Keyboard.holds_nil, hshows.keyboard]
    change k.dev.keyboard.bufferIndex = -1 ↔ _
    rw [hd.index, ← List.length_eq_zero_iff]
    constructor
    · intro hi _
      omega
    · intro hempty
      have hlen := hempty hne
      omega

end MyLinuxOS
