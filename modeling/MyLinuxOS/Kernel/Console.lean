import Mathlib.Logic.Function.Basic
import MyLinuxOS.Foundation.Bytes

/-! The text console of `lib.c`: video memory as bytes at absolute addresses, the software cursor,
and the cursor position last sent to the CRT controller. -/

namespace MyLinuxOS
open Foundation

def video : Int := 0xB8000
def numCols : Int := 80
def numRows : Int := 25

structure Console where
  vram : Int → UInt8
  screenX : Int
  screenY : Int
  crtcCursor : Nat

namespace Console

def attrib (currActiveTerminal : Nat) : Option UInt8 :=
  if currActiveTerminal = 0 then some 0x2
  else if currActiveTerminal = 1 then some 0x4
  else if currActiveTerminal = 2 then some 0x5
  else none

def cell (x y : Int) : Int := video + 2 * (numCols * y + x)

def poke (s : Console) (a : Int) (b : UInt8) : Console :=
  { s with vram := Function.update s.vram a b }

def putCell (currActiveTerminal : Nat) (c : UInt8) (s : Console) : Console :=
  let a := cell s.screenX s.screenY
  let s := s.poke a c
  match attrib currActiveTerminal with
  | some colour => s.poke (a + 1) colour
  | none => s

/-- The position goes out through two 8-bit registers, so it is kept modulo 2^16. -/
def updateCursor (s : Console) : Console :=
  { s with crtcCursor := ((s.screenY * numCols + s.screenX) % 65536).toNat }

def clear (currActiveTerminal : Nat) (s : Console) : Console :=
  let s := (List.range 2000).foldl (fun s i =>
    let a := video + 2 * (i : Int)
    let s := s.poke a 32
    match attrib currActiveTerminal with
    | some colour => s.poke (a + 1) colour
    | none => s) s
  updateCursor { s with screenX := 0, screenY := 0 }

/-- Only the character bytes move; the attribute bytes stay where they are. -/
def scroll (s : Console) : Console :=
  let s := (List.range 24).foldl (fun s (y : Nat) => (List.range 80).foldl (fun s (x : Nat) =>
    s.poke (cell x y) (s.vram (cell x (y + 1)))) s) s
  let s := (List.range 80).foldl (fun s (x : Nat) => s.poke (cell x (numRows - 1)) 32) s
  { s with screenY := numRows - 1, screenX := 0 }

def putc (currActiveTerminal : Nat) (c : UInt8) (s : Console) : Console :=
  updateCursor <|
    if c = 10 ∨ c = 13 then
      let s := { s with screenY := s.screenY + 1, screenX := 0 }
      if s.screenY ≥ numRows then scroll s else s
    else if s.screenX = numCols - 1 then
      -- the character that meets the last column is not stored
      let s := { s with screenX := 0, screenY := s.screenY + 1 }
      if s.screenY ≥ numRows then scroll s else s
    else
      let s := putCell currActiveTerminal c s
      let x := (s.screenX + 1).tmod numCols
      { s with screenX := x, screenY := (s.screenY + x.tdiv numCols).tmod numRows }

def puts (currActiveTerminal : Nat) (text : List UInt8) (s : Console) : Console :=
  text.foldl (fun s c => putc currActiveTerminal c s) s

def backspace (currActiveTerminal : Nat) (s : Console) : Console :=
  let x := (s.screenX - 1).tmod numCols
  let s := { s with screenX := x, screenY := (s.screenY + x.tdiv numCols).tmod numRows }
  updateCursor (putCell currActiveTerminal 32 s)

def copyPage (s : Console) (dest src : Int) : Console :=
  { s with
    vram := fun a => if dest ≤ a ∧ a < dest + 4096 then s.vram (src + (a - dest)) else s.vram a }

end Console
end MyLinuxOS
