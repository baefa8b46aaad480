import MyLinuxOS.Process.Calls
import MyLinuxOS.Terminal.Keys

/-! The kernel as the terminal sees it: keys, calls of `terminal_read`, switches of the terminal and
output to the console, and what each of them leaves. The results about the buffer, the line and the
cursor argue from `terminalEvents_effect` only. -/

namespace MyLinuxOS
open Foundation

inductive TerminalOp
  | key (keyIn : UInt8)
  | read (buf : UInt32) (nbytes : Int32)
  | swap (newTermVal : Int)
  | putc (c : UInt8)

structure TerminalEvent where
  op : TerminalOp
  junk : StackBytes
  frame : Frame

namespace Kernel
variable (k : Kernel)

def putc (c : UInt8) : Kernel := k.setConsole (k.dev.console.putc k.currActiveTerminal c)

def puts (text : List UInt8) : Kernel := k.setConsole (k.dev.console.puts k.currActiveTerminal text)

end Kernel

def TerminalEvent.enter (img : Image) (c : TerminalEvent) (k : Kernel) : KeyEntry :=
  match c.op with
  | .key keyIn => keyboardInterrupt img c.junk c.frame keyIn k
  | .read buf nbytes => (terminalRead buf nbytes k).map fun left => (left, [])
  | .swap newTermVal => (terminalSwap img c.junk c.frame newTermVal k).map fun left => (left, [])
  | .putc ch => (k.putc ch).handled

/-- The answer to an event is how the entry ends and where it has stored into `key_buffer`. -/
def terminalEvents (img : Image) : Machine Kernel TerminalEvent (Exit × List Int) := fun k c =>
  match c.enter img k with
  | .ok (left, stored) => some ((left.exit, stored), left.kernel)
  | .error _ => none

/-! ### Effects -/

inductive Effect
  | type (text : List UInt8)
  | erase
  | clear
  | swap (newTermVal : Int)
  | read
  | putc (c : UInt8)

def KeyAction.effect : KeyAction → Effect
  | .type text => .type text
  | .erase => .erase
  | .clear => .clear
  | .swap newTermVal => .swap newTermVal

namespace TerminalOp

def effect (m : Modifiers) : TerminalOp → Effect
  | .key keyIn => ((m.pressed keyIn).action keyIn).effect
  | .read _ _ => .read
  | .swap newTermVal => .swap newTermVal
  | .putc c => .putc c

def modifiers (m : Modifiers) : TerminalOp → Modifiers
  | .key keyIn => m.pressed keyIn
  | .read _ _ | .swap _ | .putc _ => m

def noted (k : Kernel) : TerminalOp → Kernel
  | .key keyIn => k.pressed keyIn
  | .read _ _ | .swap _ | .putc _ => k

end TerminalOp

namespace Kernel
variable (k : Kernel)

def modifiers : Modifiers := k.dev.keyboard.modifiers

def Switches (newTermVal : Int) : Prop :=
  0 ≤ newTermVal ∧ newTermVal < maxTerminals ∧ newTermVal ≠ k.currActiveTerminal

instance (newTermVal : Int) : Decidable (k.Switches newTermVal) :=
  inferInstanceAs (Decidable (_ ∧ _))

def lineRead : Kernel :=
  k.setKeyboard { k.dev.keyboard with enterFlag := 0, bufferIndex := -1 }.clearKeyboardBuffer

def stdoutText (text : List UInt8) : List UInt8 :=
  match k.dispatch 1 with
  | none => []
  | some (_, e) => if e.fileOpsTable = .table .stdout then text else []

def executeText : List UInt8 := if k.freeSlot = none then k.stdoutText reachedMaxAmount else []

def swapText (newTermVal : Int) : List UInt8 :=
  if (k.termBlk newTermVal.toNat).processActive = -1 then
    (k.switchTerminal newTermVal.toNat).executeText
  else []

end Kernel

structure Shows (k : Kernel) (text : List UInt8) (k' : Kernel) : Prop where
  keyboard : k'.dev.keyboard = k.dev.keyboard
  console : k'.dev.console = k.dev.console.puts k.currActiveTerminal text
  active : k'.currActiveTerminal = k.currActiveTerminal
  saved : ∀ t, (k'.termBlk t).cursorX = (k.termBlk t).cursorX ∧
    (k'.termBlk t).cursorY = (k.termBlk t).cursorY ∧
    (k'.termBlk t).videoMem = (k.termBlk t).videoMem

def Effect.Spec (k : Kernel) (stored : List Int) (k' : Kernel) : Effect → Prop
  | .type text => k' = (putKeys text k).1 ∧ stored = (putKeys text k).2
  | .erase => k' = k.erased ∧ stored = []
  | .clear => k' = k.cleared ∧ stored = []
  | .swap newTermVal => stored = [] ∧
      (¬ k.Switches newTermVal ∧ k' = k ∨
        k.Switches newTermVal ∧
          Shows (k.switchTerminal newTermVal.toNat) (k.swapText newTermVal) k')
  | .read => k.dev.keyboard.enterFlag ≠ 0 ∧ k' = k.lineRead ∧ stored = []
  | .putc c => k' = k.putc c ∧ stored = []

section
variable {img : Image} {junk : StackBytes} {frame : Frame} {k : Kernel} {left : Left}

theorem Shows.refl (k : Kernel) : Shows k [] k := ⟨rfl, rfl, rfl, fun _ => ⟨rfl, rfl, rfl⟩⟩

theorem Shows.of_eq {dev : Devices} {text : List UInt8} (hkb : dev.keyboard = k.dev.keyboard)
    (hconsole : dev.console = k.dev.console.puts k.currActiveTerminal text) :
    Shows k text { k with dev := dev } := ⟨hkb, hconsole, rfl, fun _ => ⟨rfl, rfl, rfl⟩⟩

theorem map_getD_range (text : List UInt8) :
    (List.range text.length).map (fun i => text.getD i 0) = text := by
  apply List.ext_getElem
  · simp
  · intro i _ h
    rw [List.getElem_map, List.getElem_range, List.getD_eq_getElem _ _ h]

theorem syscallWrite_shows {text : List UInt8} {nbytes : Int32} (hn : ¬ nbytes < 0)
    (hlen : nbytes.toInt.toNat = text.length) (hnul : ∀ c ∈ text, c ≠ 0)
    (h : syscallWrite junk 1 kernelString (fun i => text.getD i 0) nbytes k = .ok left) :
    Shows k (k.stdoutText text) left.kernel := by
  unfold syscallWrite at h
  rw [if_neg (not_or.mpr ⟨hn, by decide⟩)] at h
  unfold Kernel.stdoutText
  cases hd : k.dispatch 1 with
  | none =>
    rw [hd] at h
    obtain rfl := Except.ok.inj h
    exact .refl k
  | some found =>
    obtain ⟨i, e⟩ := found
    rw [hd] at h
    change writeFn junk e.fileOpsTable _ _ _ _ = _ at h
    change Shows k (if e.fileOpsTable = .table .stdout then text else []) _
    cases hops : e.fileOpsTable with
    | raw word => rw [hops] at h; exact absurd h (by simp [writeFn])
    | table t =>
      rw [hops] at h
      cases t with
      | rtc => obtain rfl := Except.ok.inj h; exact .of_eq rfl rfl
      | dir => obtain rfl := Except.ok.inj h; exact .refl k
      | file => obtain rfl := Except.ok.inj h; exact .refl k
      | stdin => obtain rfl := Except.ok.inj h; exact .refl k
      | stdout =>
        obtain rfl := Except.ok.inj h
        -- `terminal_write` leaves out NULs, of which the text has none
        have htext : ((List.range nbytes.toInt.toNat).map (fun i => text.getD i 0)).filter
            (· ≠ 0) = text := by
          rw [hlen, map_getD_range, List.filter_eq_self]
          simpa using hnul
        refine .of_eq rfl ?_
        change k.dev.console.puts k.currActiveTerminal (((List.range _).map _).filter _) = _
        rw [htext, if_pos rfl]

theorem execute_shows {command : CString} (h : syscallExecute img junk frame command k = .ok left) :
    Shows k k.executeText left.kernel := by
  unfold Kernel.executeText
  cases hslot : k.freeSlot with
  | none =>
    unfold syscallExecute at h
    rw [hslot] at h
    simp only [bind, Except.bind] at h
    split at h
    · exact absurd h (by simp)
    · rename_i left' hw
      obtain rfl := Except.ok.inj h
      have hn : ¬ (19 : Int32) < 0 := by decide
      rw [if_pos rfl]
      change Shows k (k.stdoutText reachedMaxAmount) left'.kernel
      exact syscallWrite_shows hn rfl (CString.noNul_of_all rfl) hw
  | some slot =>
    rw [if_neg (by simp)]
    -- taking a slot counts a process of the terminal and touches no other field of it
    have hsaved : ∀ t, ((k.assignPid slot).termBlk t).cursorX = (k.termBlk t).cursorX ∧
        ((k.assignPid slot).termBlk t).cursorY = (k.termBlk t).cursorY ∧
        ((k.assignPid slot).termBlk t).videoMem = (k.termBlk t).videoMem := by
      intro t
      change (Function.update k.termBlk k.currActiveTerminal _ t).cursorX = _ ∧
        (Function.update k.termBlk k.currActiveTerminal _ t).cursorY = _ ∧
        (Function.update k.termBlk k.currActiveTerminal _ t).videoMem = _
      by_cases ht : t = k.currActiveTerminal
      · subst ht
        rw [Function.update_self]
        exact ⟨rfl, rfl, rfl⟩
      · rw [Function.update_of_ne ht]
        exact ⟨rfl, rfl, rfl⟩
    rcases syscallExecute_cases_of_slot hslot h with ⟨args, -, rfl⟩ | ⟨args, d, -, rfl⟩
    · exact ⟨rfl, rfl, rfl, hsaved⟩
    · exact ⟨rfl, rfl, rfl, hsaved⟩

theorem not_switches {newTermVal : Int} (h : newTermVal < 0 ∨ newTermVal ≥ maxTerminals) :
    ¬ k.Switches newTermVal := fun hs => by
  obtain ⟨h0, hlt, -⟩ := hs
  omega

theorem terminalSwap_effect {newTermVal : Int}
    (h : terminalSwap img junk frame newTermVal k = .ok left) :
    (0 ≤ newTermVal ∧ newTermVal < maxTerminals → left.exit ≠ .ret (-1)) ∧
      (¬ k.Switches newTermVal ∧ left.kernel = k ∨
        k.Switches newTermVal ∧
          Shows (k.switchTerminal newTermVal.toNat) (k.swapText newTermVal) left.kernel) := by
  have hzero : Exit.ret 0 ≠ .ret (-1) := by decide
  unfold terminalSwap at h
  by_cases hrange : newTermVal < 0 ∨ newTermVal ≥ maxTerminals
  · rw [if_pos hrange] at h
    obtain rfl := Except.ok.inj h
    exact ⟨fun hin => absurd hrange (by omega), .inl ⟨not_switches hrange, rfl⟩⟩
  rw [if_neg hrange] at h
  by_cases hsame : newTermVal = k.currActiveTerminal
  · rw [if_pos hsame] at h
    obtain rfl := Except.ok.inj h
    exact ⟨fun _ => hzero, .inl ⟨fun hs => hs.2.2 hsame, rfl⟩⟩
  rw [if_neg hsame] at h
  have hswitches : k.Switches newTermVal := ⟨by omega, by omega, hsame⟩
  by_cases hnew : (k.termBlk newTermVal.toNat).processActive = -1
  · simp only [if_pos hnew, bind, Except.bind] at h
    split at h
    · exact absurd h (by simp)
    · rename_i left' hexec
      have hshows := execute_shows hexec
      rw [Kernel.swapText, if_pos hnew]
      split at h
      · obtain rfl := Except.ok.inj h
        exact ⟨fun _ => hzero, .inr ⟨hswitches, hshows⟩⟩
      · rename_i hexit
        obtain rfl := Except.ok.inj h
        exact ⟨fun _ => hexit (-1), .inr ⟨hswitches, hshows⟩⟩
  · simp only [if_neg hnew] at h
    obtain rfl := Except.ok.inj h
    rw [Kernel.swapText, if_neg hnew]
    exact ⟨fun _ => hzero, .inr ⟨hswitches, .refl _⟩⟩

theorem swapKey_effect {newTermVal : Int} {stored : List Int} (hrange : 0 ≤ newTermVal)
    (hlt : newTermVal < maxTerminals)
    (h : swapKey img junk frame newTermVal k = .ok (left, stored)) :
    (Effect.swap newTermVal).Spec k stored left.kernel := by
  unfold swapKey at h
  simp only [bind, Except.bind] at h
  split at h
  · exact absurd h (by simp)
  · rename_i left' hswap
    obtain ⟨hexit, heffect⟩ := terminalSwap_effect hswap
    have hne := hexit ⟨hrange, hlt⟩
    split at h
    · rename_i r hr
      rw [if_neg (by rintro rfl; exact hne hr)] at h
      cases h
      exact ⟨rfl, heffect⟩
    · cases h
      exact ⟨rfl, heffect⟩

end

section
variable {k k' : Kernel} {stored : List Int} {e : Effect}

def Effect.active (t : Nat) : Effect → Nat
  | .swap newTermVal =>
    if 0 ≤ newTermVal ∧ newTermVal < maxTerminals ∧ newTermVal ≠ t then newTermVal.toNat else t
  | _ => t

def Effect.keyboard (kb : Keyboard) : Effect → Keyboard
  | .type text => kb.typed text
  | .erase => if kb.bufferIndex ≥ 0 then { kb with bufferIndex := kb.bufferIndex - 1 } else kb
  | .clear | .swap _ | .putc _ => kb
  | .read => { kb with enterFlag := 0, bufferIndex := -1 }.clearKeyboardBuffer

structure Effect.Stays (e : Effect) (k k' : Kernel) : Prop where
  effect : e.active k.currActiveTerminal = k.currActiveTerminal
  active : k'.currActiveTerminal = k.currActiveTerminal
  termBlk : k'.termBlk = k.termBlk
  keyboard : k'.dev.keyboard = e.keyboard k.dev.keyboard

theorem Effect.Spec.stays_or_switches (h : e.Spec k stored k') :
    e.Stays k k' ∨ ∃ newTermVal, e = .swap newTermVal ∧ k.Switches newTermVal ∧
      Shows (k.switchTerminal newTermVal.toNat) (k.swapText newTermVal) k' := by
  cases e with
  | type text =>
    obtain ⟨rfl, -⟩ := h
    rw [putKeys_eq]
    exact .inl ⟨rfl, rfl, rfl, rfl⟩
  | erase =>
    obtain ⟨rfl, -⟩ := h
    refine .inl ?_
    unfold Kernel.erased
    by_cases hi : k.dev.keyboard.bufferIndex ≥ 0
    · rw [if_pos hi]
      exact ⟨rfl, rfl, rfl, (if_pos hi).symm⟩
    · rw [if_neg hi]
      exact ⟨rfl, rfl, rfl, (if_neg hi).symm⟩
  | clear =>
    rw [h.1, Kernel.cleared]
    exact .inl ⟨rfl, Kernel.setConsole_active .., Kernel.setConsole_termBlk ..,
      Kernel.setConsole_keyboard ..⟩
  | swap newTermVal =>
    obtain ⟨-, ⟨hno, rfl⟩ | ⟨hyes, hshows⟩⟩ := h
    · exact .inl ⟨if_neg hno, rfl, rfl, rfl⟩
    · exact .inr ⟨newTermVal, rfl, hyes, hshows⟩
  | read =>
    rw [h.2.1]
    exact .inl ⟨rfl, rfl, rfl, rfl⟩
  | putc c =>
    rw [h.1, Kernel.putc]
    exact .inl ⟨rfl, Kernel.setConsole_active .., Kernel.setConsole_termBlk ..,
      Kernel.setConsole_keyboard ..⟩

theorem Effect.Spec.active (h : e.Spec k stored k') :
    k'.currActiveTerminal = e.active k.currActiveTerminal := by
  obtain hstays | ⟨newTermVal, rfl, hyes, hshows⟩ := h.stays_or_switches
  · exact hstays.active.trans hstays.effect.symm
  · exact hshows.active.trans (if_pos hyes).symm

theorem Effect.keyboard_modifiers (e : Effect) (kb : Keyboard) :
    (e.keyboard kb).modifiers = kb.modifiers := by
  cases e with
  | type text => exact kb.typed_modifiers text
  | erase =>
    rw [keyboard]
    split <;> rfl
  | _ => rfl

theorem Effect.Spec.modifiers (h : e.Spec k stored k') : k'.modifiers = k.modifiers := by
  obtain hstays | ⟨newTermVal, rfl, -, hshows⟩ := h.stays_or_switches
  · rw [Kernel.modifiers, hstays.keyboard]
    exact e.keyboard_modifiers k.dev.keyboard
  · exact (congrArg Keyboard.modifiers hshows.keyboard).trans rfl

end

section
variable {img : Image} {k k' : Kernel} {c : TerminalEvent} {o : Exit} {stored : List Int}

theorem key_effect {junk : StackBytes} {frame : Frame} {keyIn : UInt8} {left : Left}
    (h : keyboardInterrupt img junk frame keyIn k = .ok (left, stored)) :
    ((TerminalOp.key keyIn).effect k.modifiers).Spec (k.pressed keyIn) stored left.kernel := by
  rw [keyboardInterrupt_eq, Keyboard.pressed_modifiers] at h
  change (KeyAction.effect ((k.modifiers.pressed keyIn).action keyIn)).Spec _ _ _
  change keyEffect _ _ _ _ ((k.modifiers.pressed keyIn).action keyIn) = _ at h
  generalize hact : (k.modifiers.pressed keyIn).action keyIn = action at h ⊢
  cases action with
  | type text =>
    cases h
    exact ⟨rfl, rfl⟩
  | erase =>
    cases h
    exact ⟨rfl, rfl⟩
  | clear =>
    cases h
    exact ⟨rfl, rfl⟩
  | swap newTermVal =>
    have hrange : 0 ≤ newTermVal ∧ newTermVal < maxTerminals := by
      unfold Modifiers.action at hact
      split_ifs at hact <;> cases hact <;> decide
    exact swapKey_effect hrange.1 hrange.2 h

theorem terminalEvents_effect (h : terminalEvents img k c = some ((o, stored), k')) :
    (c.op.effect k.modifiers).Spec (c.op.noted k) stored k' := by
  obtain ⟨op, junk, frame⟩ := c
  unfold terminalEvents at h
  split at h
  · rename_i left stored' henter
    cases h
    cases op with
    | key keyIn => exact key_effect henter
    | read buf nbytes =>
      change (terminalRead buf nbytes k).map _ = _ at henter
      unfold terminalRead at henter
      split at henter
      · exact absurd henter (by simp [Except.map])
      · rename_i hflag
        cases henter
        exact ⟨hflag, rfl, rfl⟩
    | swap newTermVal =>
      change (terminalSwap img junk frame newTermVal k).map _ = _ at henter
      cases hswap : terminalSwap img junk frame newTermVal k with
      | error e => rw [hswap] at henter; exact absurd henter (by simp [Except.map])
      | ok left' =>
        rw [hswap] at henter
        cases henter
        exact ⟨rfl, (terminalSwap_effect hswap).2⟩
    | putc ch =>
      cases henter
      exact ⟨rfl, rfl⟩
  · exact absurd h (by simp)

theorem terminalEvents_of_enter {left : Left} (h : c.enter img k = .ok (left, stored)) :
    terminalEvents img k c = some ((left.exit, stored), left.kernel) := by
  unfold terminalEvents
  rw [h]

theorem terminalEvents_key {junk : StackBytes} {frame : Frame} {keyIn : UInt8} {left : Left}
    {a : KeyAction} (haction : (k.modifiers.pressed keyIn).action keyIn = a)
    (h : keyEffect img junk frame (k.pressed keyIn) a = .ok (left, stored)) :
    terminalEvents img k ⟨.key keyIn, junk, frame⟩ = some ((left.exit, stored), left.kernel) := by
  refine terminalEvents_of_enter ?_
  change keyboardInterrupt img junk frame keyIn k = _
  rw [keyboardInterrupt_eq, Keyboard.pressed_modifiers, ← h, ← haction]
  rfl

end

/-! ### Sample events -/

def sampleEvent (op : TerminalOp) : TerminalEvent := ⟨op, sampleJunk, sampleFrame⟩
def sampleKey (keyIn : UInt8) : TerminalEvent := sampleEvent (.key keyIn)

def aScancode : UInt8 := 0x1E

theorem aScancode_types (img : Image) (k : Kernel) : ∃ c,
    terminalEvents img k (sampleKey aScancode) =
      some ((.ret 0, (putKeys [c] (k.pressed aScancode)).2),
        (putKeys [c] (k.pressed aScancode)).1) :=
  ⟨_, terminalEvents_key (a := .type [_]) rfl rfl⟩

end MyLinuxOS
