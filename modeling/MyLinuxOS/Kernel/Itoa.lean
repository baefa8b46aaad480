import Mathlib.Logic.Function.Basic
import MyLinuxOS.Foundation.Bytes

/-! The string routines of `lib.c` behind the output of numbers. A buffer is given by its bytes and
the index a pointer stands at. -/

namespace MyLinuxOS

abbrev Buffer := Nat → UInt8

def lookup : List UInt8 :=
  [48, 49, 50, 51, 52, 53, 54, 55, 56, 57, 65, 66, 67, 68, 69, 70, 71, 72, 73, 74, 75, 76, 77, 78,
    79, 80, 81, 82, 83, 84, 85, 86, 87, 88, 89, 90]

/-- One more than the digits of a 32-bit number. A loop over them has ended by then. -/
def maxTurns : Nat := 33

def strlen (mem : Buffer) (s : Nat) : (fuel : Nat) → (len : Nat) → Option Nat
  | 0, _ => none
  | fuel + 1, len => if mem (s + len) ≠ 0 then strlen mem s fuel (len + 1) else some len

def strrevLoop (s : Nat) : (fin beg : Nat) → Buffer → Buffer
  | 0, _, mem => mem
  | fin + 1, beg, mem =>
    if beg < fin + 1 then
      let tmp := mem (s + (fin + 1))
      let mem := Function.update mem (s + (fin + 1)) (mem (s + beg))
      strrevLoop s fin (beg + 1) (Function.update mem (s + beg) tmp)
    else mem

/-- An empty string leaves `end` at -1, here 0: there is nothing to swap. -/
def strrev (s : Nat) (mem : Buffer) : Option Buffer :=
  (strlen mem s maxTurns 0).map fun len => strrevLoop s (len - 1) 0 mem

/-- The loop over the digits, from the lowest: the end of the string and the buffer, or `none` for a
radix with which it does not end. -/
def itoaLoop (radix : UInt32) :
    (fuel : Nat) → (newval : UInt32) → (newbuf : Nat) → Buffer → Option (Nat × Buffer)
  | 0, _, _, _ => none
  | fuel + 1, newval, newbuf, mem =>
    if newval > 0 then
      if radix = 0 then none
      else
        itoaLoop radix fuel (newval / radix) (newbuf + 1)
          (Function.update mem newbuf (lookup.getD (newval % radix).toNat 0))
    else some (newbuf, mem)

def itoa (value : UInt32) (buf : Nat) (radix : Int32) (mem : Buffer) : Option Buffer :=
  if value = 0 then some (Function.update (Function.update mem buf 48) (buf + 1) 0)
  else do
    let (newbuf, mem) ← itoaLoop radix.toUInt32 maxTurns value buf mem
    strrev buf (Function.update mem newbuf 0)

end MyLinuxOS
