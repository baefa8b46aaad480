import MyLinuxOS.Foundation.Runs
import MyLinuxOS.Kernel.KeyInterrupt
import MyLinuxOS.Process.Identity

/-! What a key does: it changes the modifiers, and then types some characters, erases one, clears
the screen, or asks for another terminal. -/

namespace MyLinuxOS
open Foundation

structure Modifiers where
  shift : Bool
  ctrl : Bool
  caps : Bool
  alt : Bool
  deriving DecidableEq

inductive KeyAction
  | type (text : List UInt8)
  | erase
  | clear
  | swap (newTermVal : Int)
  deriving DecidableEq

namespace Modifiers
variable (m : Modifiers)

def pressed (keyIn : UInt8) : Modifiers where
  shift :=
    if keyIn = rightShift ∨ keyIn = leftShift then true
    else if keyIn = rightShiftRelease ∨ keyIn = leftShiftRelease then false
    else m.shift
  ctrl := if keyIn = ctrlPress then true else if keyIn = ctrlRelease then false else m.ctrl
  caps := if keyIn = capsPress then !m.caps else m.caps
  alt := if keyIn = altPress then true else if keyIn = altRelease then false else m.alt

def character (i : Nat) : UInt8 :=
  if m.shift && !m.caps then shiftAscii.getD i 0
  else if m.caps && !m.shift then capsAscii.getD i 0
  else asciiVal.getD i 0

def characters (keyIn : UInt8) : List UInt8 :=
  if keyIn = tabScancode then [32, 32, 32]
  else if keyIn = enterScancode then [10]
  else
    match firstFrom (fun i => keyIn = keyInArray.getD i 0) arraySize 0 with
    | none => []
    | some i => [m.character i]

def action (keyIn : UInt8) : KeyAction :=
  if keyIn = backspaceScancode then .erase
  else if keyIn = lScancode ∧ m.ctrl then .clear
  else if keyIn = f1Scancode ∧ m.alt then .swap 0
  else if keyIn = f2Scancode ∧ m.alt then .swap 1
  else if keyIn = f3Scancode ∧ m.alt then .swap 2
  else .type (m.characters keyIn)

end Modifiers

namespace Keyboard
variable (kb : Keyboard)

def modifiers : Modifiers where
  shift := kb.shiftFlag ≠ 0
  ctrl := kb.ctrlFlag ≠ 0
  caps := kb.capslockFlag ≠ 0
  alt := kb.altFlag ≠ 0

def pressed (keyIn : UInt8) : Keyboard :=
  { kb with
    enterFlag :=
      if keyIn = enterScancode then 1 else if keyIn = enterRelease then 0 else kb.enterFlag
    shiftFlag :=
      if keyIn = rightShift ∨ keyIn = leftShift then 1
      else if keyIn = rightShiftRelease ∨ keyIn = leftShiftRelease then 0
      else kb.shiftFlag
    ctrlFlag := if keyIn = ctrlPress then 1 else if keyIn = ctrlRelease then 0 else kb.ctrlFlag
    capslockFlag :=
      if keyIn = capsPress then (if kb.capslockFlag = 0 then 1 else 0) else kb.capslockFlag
    altFlag := if keyIn = altPress then 1 else if keyIn = altRelease then 0 else kb.altFlag }

theorem pressed_modifiers (keyIn : UInt8) :
    (kb.pressed keyIn).modifiers = kb.modifiers.pressed keyIn := by
  simp only [pressed, modifiers, Modifiers.pressed, Modifiers.mk.injEq]
  refine ⟨?_, ?_, ?_, ?_⟩
  · split
    · rfl
    · split <;> rfl
  · split
    · rfl
    · split <;> rfl
  · split
    · by_cases h : kb.capslockFlag = 0
      · simp [h]
      · simp [h]
    · rfl
  · split
    · rfl
    · split <;> rfl

end Keyboard

namespace Kernel
variable (k : Kernel)

def erased : Kernel :=
  if k.dev.keyboard.bufferIndex ≥ 0 then
    (k.setConsole (k.dev.console.backspace k.currActiveTerminal)).setKeyboard
      { k.dev.keyboard with bufferIndex := k.dev.keyboard.bufferIndex - 1 }
  else k

def cleared : Kernel := k.setConsole (k.dev.console.clear k.currActiveTerminal)

@[simp] theorem setConsole_keyboard (console : Console) :
    (k.setConsole console).dev.keyboard = k.dev.keyboard := rfl

@[simp] theorem setConsole_console (console : Console) :
    (k.setConsole console).dev.console = console := rfl

@[simp] theorem setConsole_active (console : Console) :
    (k.setConsole console).currActiveTerminal = k.currActiveTerminal := rfl

@[simp] theorem setConsole_termBlk (console : Console) :
    (k.setConsole console).termBlk = k.termBlk := rfl

end Kernel

def putKeys (text : List UInt8) (k : Kernel) : Printing :=
  text.foldl (fun s c => putKey c s) (k, [])

theorem printToScreen_eq (keyIn : UInt8) (k : Kernel) :
    printToScreen keyIn k = putKeys (k.dev.keyboard.modifiers.characters keyIn) k := by
  unfold printToScreen Modifiers.characters
  by_cases htab : keyIn = tabScancode
  · rw [if_pos htab, if_pos htab]
    rfl
  by_cases henter : keyIn = enterScancode
  · rw [if_neg htab, if_neg htab, if_pos henter, if_pos henter]
    rfl
  rw [if_neg htab, if_neg htab, if_neg henter, if_neg henter]
  generalize firstFrom (fun i => keyIn = keyInArray.getD i 0) arraySize 0 = found
  cases found with
  | none => rfl
  | some i =>
    simp only [Modifiers.character, Keyboard.modifiers]
    by_cases hshift : k.dev.keyboard.shiftFlag = 0
    · by_cases hcaps : k.dev.keyboard.capslockFlag = 0
      · simp [hshift, hcaps, putKeys]
      · simp [hshift, hcaps, putKeys]
    · by_cases hcaps : k.dev.keyboard.capslockFlag = 0
      · simp [hshift, hcaps, putKeys]
      · simp [hshift, hcaps, putKeys]

def keyEffect (img : Image) (junk : StackBytes) (frame : Frame) (k : Kernel) :
    KeyAction → KeyEntry
  | .type text => .ok (⟨.ret 0, (putKeys text k).1, []⟩, (putKeys text k).2)
  | .erase => k.erased.handled
  | .clear => k.cleared.handled
  | .swap newTermVal => swapKey img junk frame newTermVal k

def Kernel.pressed (keyIn : UInt8) (k : Kernel) : Kernel :=
  k.setKeyboard (k.dev.keyboard.pressed keyIn)

theorem keyEffect_of_ne (img : Image) (junk : StackBytes) (frame : Frame) {keyIn : UInt8}
    (hback : keyIn ≠ backspaceScancode) (k : Kernel) :
    (if k.dev.keyboard.ctrlFlag ≠ 0 ∧ keyIn = lScancode then k.cleared.handled
      else if k.dev.keyboard.altFlag ≠ 0 ∧ keyIn = f1Scancode then swapKey img junk frame 0 k
      else if k.dev.keyboard.altFlag ≠ 0 ∧ keyIn = f2Scancode then swapKey img junk frame 1 k
      else if k.dev.keyboard.altFlag ≠ 0 ∧ keyIn = f3Scancode then swapKey img junk frame 2 k
      else .ok (⟨.ret 0, (printToScreen keyIn k).1, []⟩, (printToScreen keyIn k).2)) =
    keyEffect img junk frame k (k.dev.keyboard.modifiers.action keyIn) := by
  have hctrl : k.dev.keyboard.modifiers.ctrl = true ↔ k.dev.keyboard.ctrlFlag ≠ 0 :=
    decide_eq_true_iff
  have halt : k.dev.keyboard.modifiers.alt = true ↔ k.dev.keyboard.altFlag ≠ 0 :=
    decide_eq_true_iff
  simp only [Modifiers.action, if_neg hback, hctrl, halt, and_comm (b := keyIn = _)]
  split
  · rfl
  split
  · rfl
  split
  · rfl
  split
  · rfl
  · rw [printToScreen_eq]
    rfl

theorem keyboardInterrupt_eq (img : Image) (junk : StackBytes) (frame : Frame) (keyIn : UInt8)
    (k : Kernel) : keyboardInterrupt img junk frame keyIn k =
      keyEffect img junk frame (k.pressed keyIn)
        ((k.dev.keyboard.pressed keyIn).modifiers.action keyIn) := by
  unfold keyboardInterrupt
  by_cases hshift : keyIn = rightShift ∨ keyIn = leftShift
  · rcases hshift with rfl | rfl
    · rfl
    · rfl
  by_cases hrelease : keyIn = rightShiftRelease ∨ keyIn = leftShiftRelease
  · rcases hrelease with rfl | rfl
    · rfl
    · rfl
  by_cases hctrl : keyIn = ctrlPress
  · subst hctrl
    rfl
  by_cases hctrl' : keyIn = ctrlRelease
  · subst hctrl'
    rfl
  by_cases hcaps : keyIn = capsPress
  · subst hcaps
    let kb := k.dev.keyboard
    change (if kb.capslockFlag = 0 then (k.setKeyboard { kb with capslockFlag := 1 }).handled
        else (k.setKeyboard { kb with capslockFlag := 0 }).handled) =
      (k.setKeyboard
        { kb with capslockFlag := if kb.capslockFlag = 0 then 1 else 0 }).handled
    split <;> rfl
  by_cases hback : keyIn = backspaceScancode
  · subst hback
    change (if k.dev.keyboard.bufferIndex ≥ 0 then _ else k.handled) = k.erased.handled
    unfold Kernel.erased
    split <;> rfl
  by_cases halt : keyIn = altPress
  · subst halt
    rfl
  by_cases halt' : keyIn = altRelease
  · subst halt'
    rfl
  -- a key that is no modifier: only `enter_flag` may have changed
  have hpressed : k.dev.keyboard.pressed keyIn =
      (let kb := if keyIn = enterScancode then { k.dev.keyboard with enterFlag := 1 }
        else k.dev.keyboard
      if keyIn = enterRelease then { kb with enterFlag := 0 } else kb) := by
    simp only [Keyboard.pressed, hshift, hrelease, hctrl, hctrl', hcaps, halt, halt', if_false]
    by_cases henter : keyIn = enterScancode
    · subst henter
      rfl
    · simp only [henter, if_false]
      split <;> rfl
  simp only [hshift, hrelease, hctrl, hctrl', hcaps, halt, halt', hback, if_false]
  rw [Kernel.pressed, hpressed]
  generalize (if keyIn = enterRelease then _ else _ : Keyboard) = kb
  exact keyEffect_of_ne img junk frame hback (k.setKeyboard kb)

/-! ### Typed text -/

namespace Keyboard

def put (kb : Keyboard) (c : UInt8) : Keyboard :=
  { kb with
    bufferIndex := kb.bufferIndex + 1
    keyBuffer := Function.update kb.keyBuffer (kb.bufferIndex + 1).toNat c }

def typed (kb : Keyboard) (text : List UInt8) : Keyboard := text.foldl put kb

end Keyboard

theorem putKeys_foldl (text : List UInt8) (k : Kernel) (stored : List Int) :
    text.foldl (fun s c => putKey c s) (k, stored) =
      ((k.setKeyboard (k.dev.keyboard.typed text)).setConsole
        (k.dev.console.puts k.currActiveTerminal text),
      stored ++ (List.range text.length).map fun n : Nat =>
        k.dev.keyboard.bufferIndex + 1 + n) := by
  induction text generalizing k stored with
  | nil =>
    rw [List.foldl_nil, List.length_nil, List.range_zero, List.map_nil, List.append_nil]
    rfl
  | cons c text ih =>
    rw [List.foldl_cons, putKey, ih]
    refine Prod.ext rfl ?_
    -- the first store is at the index, the others start one further
    rw [List.length_cons, List.range_succ_eq_map, List.map_cons, List.map_map, List.append_assoc,
      List.singleton_append, Int.ofNat_zero, Int.add_zero]
    refine congrArg (stored ++ _ :: ·) (List.map_congr_left fun n _ => ?_)
    change k.dev.keyboard.bufferIndex + 1 + 1 + (n : Int) =
      k.dev.keyboard.bufferIndex + 1 + ((n + 1 : Nat) : Int)
    omega

theorem putKeys_eq (text : List UInt8) (k : Kernel) : putKeys text k =
    ((k.setKeyboard (k.dev.keyboard.typed text)).setConsole
      (k.dev.console.puts k.currActiveTerminal text),
    (List.range text.length).map fun n : Nat => k.dev.keyboard.bufferIndex + 1 + n) :=
  putKeys_foldl text k []

theorem putKeys_console (text : List UInt8) (k : Kernel) :
    (putKeys text k).1.dev.console = k.dev.console.puts k.currActiveTerminal text := by
  rw [putKeys_eq]
  rfl

@[simp] theorem Keyboard.typed_bufferIndex (kb : Keyboard) (text : List UInt8) :
    (kb.typed text).bufferIndex = kb.bufferIndex + text.length := by
  induction text generalizing kb with
  | nil => exact (Int.add_zero _).symm
  | cons c text ih =>
    change ((kb.put c).typed text).bufferIndex = _
    rw [ih, List.length_cons]
    change kb.bufferIndex + 1 + (text.length : Int) = _
    omega

@[simp] theorem Keyboard.typed_modifiers (kb : Keyboard) (text : List UInt8) :
    (kb.typed text).modifiers = kb.modifiers := by
  induction text generalizing kb with
  | nil => rfl
  | cons c text ih => exact ih (kb.put c)

theorem getD_ne {table : List UInt8} {b : UInt8} (h : (table.all fun c => c ≠ b) = true) {i : Nat}
    (hi : i < table.length) : table.getD i 0 ≠ b := by
  rw [List.getD_eq_getElem _ _ hi]
  exact of_decide_eq_true (List.all_eq_true.mp h _ (List.getElem_mem hi))

theorem Modifiers.character_ne (m : Modifiers) {b : UInt8} {i : Nat} (hi : i < arraySize)
    (h : ((asciiVal ++ shiftAscii ++ capsAscii).all fun c => c ≠ b) = true) :
    m.character i ≠ b := by
  rw [List.all_append, List.all_append, Bool.and_eq_true, Bool.and_eq_true] at h
  obtain ⟨⟨hascii, hshift⟩, hcaps⟩ := h
  unfold character
  split
  · exact getD_ne hshift hi
  · split
    · exact getD_ne hcaps hi
    · exact getD_ne hascii hi

theorem Modifiers.mem_characters (m : Modifiers) {keyIn c : UInt8} (h : c ∈ m.characters keyIn) :
    keyIn = tabScancode ∧ c = 32 ∨ keyIn = enterScancode ∧ c = 10 ∨
      ∃ i < arraySize, c = m.character i := by
  unfold characters at h
  split at h
  · rename_i htab
    have hspace : c = 32 := by simpa using h
    exact .inl ⟨htab, hspace⟩
  · split at h
    · rename_i henter
      exact .inr (.inl ⟨henter, List.mem_singleton.mp h⟩)
    · split at h
      · exact absurd h List.not_mem_nil
      · rename_i i hfound
        obtain ⟨-, hi, -⟩ := firstFrom_eq_some_iff.mp hfound
        exact .inr (.inr ⟨i, by omega, List.mem_singleton.mp h⟩)

theorem Modifiers.newline_not_mem_characters (m : Modifiers) {keyIn : UInt8}
    (henter : keyIn ≠ enterScancode) : 10 ∉ m.characters keyIn := by
  intro h
  rcases m.mem_characters h with ⟨-, h32⟩ | ⟨he, -⟩ | ⟨i, hi, hc⟩
  · exact absurd h32 (by decide)
  · exact henter he
  · exact m.character_ne hi rfl hc.symm

end MyLinuxOS
