import MyLinuxOS.Kernel.Terminal

/-! The keyboard interrupt of `keyboard.c`: a scancode changes the modifier flags, edits the line
buffer and the screen, clears the screen, or switches to another terminal. -/

namespace MyLinuxOS
open Foundation

def arraySize : Nat := 48
def rightShift : UInt8 := 0x36
def leftShift : UInt8 := 0x2A
def rightShiftRelease : UInt8 := 0xB6
def leftShiftRelease : UInt8 := 0xAA
def lScancode : UInt8 := 0x26
def ctrlPress : UInt8 := 0x1D
def ctrlRelease : UInt8 := 0x9D
def backspaceScancode : UInt8 := 0x0E
def capsPress : UInt8 := 0x3A
def tabScancode : UInt8 := 0x0F
def enterScancode : UInt8 := 0x1C
def enterRelease : UInt8 := 0x9C
def altPress : UInt8 := 0x38
def altRelease : UInt8 := 0xB8
def f1Scancode : UInt8 := 0x3B
def f2Scancode : UInt8 := 0x3C
def f3Scancode : UInt8 := 0x3D

/-! ### The key map -/

def asciiVal : List UInt8 :=
  [97, 98, 99, 100, 101, 102, 103, 104, 105, 106, 107, 108, 109, 110, 111, 112, 113, 114, 115, 116,
    117, 118, 119, 120, 121, 122, 48, 49, 50, 51, 52, 53, 54, 55, 56, 57, 96, 45, 61, 91, 93, 92,
    59, 48, 44, 46, 47, 32]

def shiftAscii : List UInt8 :=
  [65, 66, 67, 68, 69, 70, 71, 72, 73, 74, 75, 76, 77, 78, 79, 80, 81, 82, 83, 84, 85, 86, 87, 88,
    89, 90, 41, 33, 64, 35, 36, 37, 94, 38, 42, 40, 126, 95, 43, 123, 125, 124, 58, 34, 60, 62, 63,
    32]

def capsAscii : List UInt8 :=
  [65, 66, 67, 68, 69, 70, 71, 72, 73, 74, 75, 76, 77, 78, 79, 80, 81, 82, 83, 84, 85, 86, 87, 88,
    89, 90, 48, 49, 50, 51, 52, 53, 54, 55, 56, 57, 96, 45, 61, 91, 93, 92, 59, 48, 44, 46, 47, 32]

def keyInArray : List UInt8 :=
  [0x1E, 0x30, 0x2E, 0x20, 0x12, 0x21, 0x22, 0x23, 0x17, 0x24, 0x25, 0x26, 0x32, 0x31, 0x18, 0x19,
    0x10, 0x13, 0x1F, 0x14, 0x16, 0x2F, 0x11, 0x2D, 0x15, 0x2C, 0x0B, 0x02, 0x03, 0x04, 0x05, 0x06,
    0x07, 0x08, 0x09, 0x0A, 0x29, 0x0C, 0x0D, 0x1A, 0x1B, 0x2B, 0x27, 0x28, 0x33, 0x34, 0x35, 0x39]

namespace Kernel
variable (k : Kernel)

def setKeyboard (kb : Keyboard) : Kernel := { k with dev := { k.dev with keyboard := kb } }

def setConsole (console : Console) : Kernel := { k with dev := { k.dev with console := console } }

end Kernel

abbrev Printing := Kernel × List Int

/-- `buffer_index++; key_buffer[buffer_index] = c; putc(key_buffer[buffer_index])`. -/
def putKey (c : UInt8) (s : Printing) : Printing :=
  let kb := s.1.dev.keyboard
  let i := kb.bufferIndex + 1
  let k := s.1.setKeyboard
    { kb with bufferIndex := i, keyBuffer := Function.update kb.keyBuffer i.toNat c }
  (k.setConsole (k.dev.console.putc k.currActiveTerminal c), s.2 ++ [i])

/-- The tab key puts three spaces. A scancode that is not in the key map does nothing. -/
def printToScreen (keyIn : UInt8) (k : Kernel) : Printing :=
  if keyIn = tabScancode then (List.range 3).foldl (fun s _ => putKey 32 s) (k, [])
  else if keyIn = enterScancode then putKey 10 (k, [])
  else
    match firstFrom (fun i => keyIn = keyInArray.getD i 0) arraySize 0 with
    | none => (k, [])
    | some i =>
      let kb := k.dev.keyboard
      if kb.shiftFlag ≠ 0 ∧ kb.capslockFlag = 0 then putKey (shiftAscii.getD i 0) (k, [])
      else if kb.capslockFlag ≠ 0 ∧ kb.shiftFlag = 0 then putKey (capsAscii.getD i 0) (k, [])
      else if kb.capslockFlag ≠ 0 ∧ kb.shiftFlag ≠ 0 then putKey (asciiVal.getD i 0) (k, [])
      else putKey (asciiVal.getD i 0) (k, [])

def failureInSwap : List UInt8 :=
  [102, 97, 105, 108, 117, 114, 101, 32, 105, 110, 32, 115, 119, 97, 112, 32, 10]

abbrev KeyEntry := Except Stuck (Left × List Int)

def Kernel.handled (k : Kernel) : KeyEntry := .ok (⟨.ret 0, k, []⟩, [])

/-- The keys Alt-F1 to Alt-F3. When the swap starts a shell, the interrupt does not come back. -/
def swapKey (img : Image) (junk : StackBytes) (frame : Frame) (newTermVal : Int) (k : Kernel) :
    KeyEntry := do
  let left ← terminalSwap img junk frame newTermVal k
  match left.exit with
  | .ret retval =>
    if retval = -1 then
      let k := left.kernel
      (k.setConsole (k.dev.console.puts k.currActiveTerminal failureInSwap)).handled
    else left.kernel.handled
  | _ => .ok (left, [])

def keyboardInterrupt (img : Image) (junk : StackBytes) (frame : Frame) (keyIn : UInt8)
    (k : Kernel) : KeyEntry :=
  let kb := k.dev.keyboard
  let kb := if keyIn = enterScancode then { kb with enterFlag := 1 } else kb
  let kb := if keyIn = enterRelease then { kb with enterFlag := 0 } else kb
  let k := k.setKeyboard kb
  if keyIn = rightShift ∨ keyIn = leftShift then (k.setKeyboard { kb with shiftFlag := 1 }).handled
  else if keyIn = rightShiftRelease ∨ keyIn = leftShiftRelease then
    (k.setKeyboard { kb with shiftFlag := 0 }).handled
  else if keyIn = ctrlPress then (k.setKeyboard { kb with ctrlFlag := 1 }).handled
  else if keyIn = ctrlRelease then (k.setKeyboard { kb with ctrlFlag := 0 }).handled
  else if keyIn = capsPress then
    if kb.capslockFlag = 0 then (k.setKeyboard { kb with capslockFlag := 1 }).handled
    else (k.setKeyboard { kb with capslockFlag := 0 }).handled
  else if keyIn = backspaceScancode then
    if kb.bufferIndex ≥ 0 then
      let k := k.setConsole (k.dev.console.backspace k.currActiveTerminal)
      (k.setKeyboard { kb with bufferIndex := kb.bufferIndex - 1 }).handled
    else k.handled
  else if keyIn = altPress then (k.setKeyboard { kb with altFlag := 1 }).handled
  else if keyIn = altRelease then (k.setKeyboard { kb with altFlag := 0 }).handled
  else if kb.ctrlFlag ≠ 0 ∧ keyIn = lScancode then
    (k.setConsole (k.dev.console.clear k.currActiveTerminal)).handled
  else if kb.altFlag ≠ 0 ∧ keyIn = f1Scancode then swapKey img junk frame 0 k
  else if kb.altFlag ≠ 0 ∧ keyIn = f2Scancode then swapKey img junk frame 1 k
  else if kb.altFlag ≠ 0 ∧ keyIn = f3Scancode then swapKey img junk frame 2 k
  else
    let printed := printToScreen keyIn k
    .ok (⟨.ret 0, printed.1, []⟩, printed.2)

end MyLinuxOS
