import MyLinuxOS.Kernel.Console

/-! The keyboard driver of `keyboard.c`: the modifier flags and the line buffer. -/

namespace MyLinuxOS

def extendedBuffer : Nat := 256

structure Keyboard where
  /-- The buffer, followed by whatever memory comes after its 256 bytes. -/
  keyBuffer : Nat → UInt8
  bufferIndex : Int
  shiftFlag : Int
  ctrlFlag : Int
  capslockFlag : Int
  enterFlag : Int
  altFlag : Int

namespace Keyboard

def clearKeyboardBuffer (kb : Keyboard) : Keyboard :=
  { kb with keyBuffer := fun i => if i < extendedBuffer then 0 else kb.keyBuffer i }

def initKeyboard (afterBuffer : Nat → UInt8) : Keyboard where
  keyBuffer := fun i => if i < extendedBuffer then 0 else afterBuffer i
  bufferIndex := -1
  shiftFlag := 0
  ctrlFlag := 0
  capslockFlag := 0
  enterFlag := 0
  altFlag := 0

end Keyboard
end MyLinuxOS
