import MyLinuxOS.Kernel.Printf

/-! The conversions of `printf` once more, in a buffer of a declared size: a look at a byte outside
of it, or a store there, has no result. The same holds of the table of digits in `itoa`. -/

namespace MyLinuxOS
open Foundation

def loadIn (size : Nat) (mem : Buffer) (a : Nat) : Option UInt8 :=
  if a < size then some (mem a) else none

def storeIn (size : Nat) (mem : Buffer) (a : Nat) (c : UInt8) : Option Buffer :=
  if a < size then some (Function.update mem a c) else none

section routines
variable (size : Nat)

def strlenIn (mem : Buffer) (s : Nat) : (fuel : Nat) → (len : Nat) → Option Nat
  | 0, _ => none
  | fuel + 1, len => do
    let c ← loadIn size mem (s + len)
    if c ≠ 0 then strlenIn mem s fuel (len + 1) else some len

def strrevLoopIn (s : Nat) : (fin beg : Nat) → Buffer → Option Buffer
  | 0, _, mem => some mem
  | fin + 1, beg, mem =>
    if beg < fin + 1 then do
      let tmp ← loadIn size mem (s + (fin + 1))
      let c ← loadIn size mem (s + beg)
      let mem ← storeIn size mem (s + (fin + 1)) c
      let mem ← storeIn size mem (s + beg) tmp
      strrevLoopIn s fin (beg + 1) mem
    else some mem

def strrevIn (s : Nat) (mem : Buffer) : Option Buffer := do
  let len ← strlenIn size mem s maxTurns 0
  strrevLoopIn size s (len - 1) 0 mem

def itoaLoopIn (radix : UInt32) :
    (fuel : Nat) → (newval : UInt32) → (newbuf : Nat) → Buffer → Option (Nat × Buffer)
  | 0, _, _, _ => none
  | fuel + 1, newval, newbuf, mem =>
    if newval > 0 then
      if radix = 0 then none
      else do
        let c ← lookup[(newval % radix).toNat]?
        let mem ← storeIn size mem newbuf c
        itoaLoopIn radix fuel (newval / radix) (newbuf + 1) mem
    else some (newbuf, mem)

def itoaIn (value : UInt32) (buf : Nat) (radix : Int32) (mem : Buffer) : Option Buffer :=
  if value = 0 then do
    let mem ← storeIn size mem buf 48
    storeIn size mem (buf + 1) 0
  else do
    let (newbuf, mem) ← itoaLoopIn size radix.toUInt32 maxTurns value buf mem
    let mem ← storeIn size mem newbuf 0
    strrevIn size buf mem

def putsLoopIn (mem : Buffer) (s : Nat) : (fuel : Nat) → (index : Nat) → Option (List UInt8)
  | 0, _ => none
  | fuel + 1, index => do
    let c ← loadIn size mem (s + index)
    if c ≠ 0 then (putsLoopIn mem s fuel (index + 1)).map (c :: ·) else some []

def padZerosIn : (n i : Nat) → Buffer → Option Buffer
  | 0, _, mem => some mem
  | n + 1, i, mem => do
    let mem ← storeIn size mem i 48
    padZerosIn n (i + 1) mem

def printHexIn (convBuf : Buffer) (alternate : Bool) (arg : UInt32) : Option (List UInt8) :=
  if alternate = false then do
    let mem ← itoaIn size arg 0 16 convBuf
    putsLoopIn size mem 0 maxTurns 0
  else do
    let mem ← itoaIn size arg 8 16 convBuf
    let startingIndex ← strlenIn size mem 8 maxTurns 0
    let mem ← padZerosIn size (8 - startingIndex) startingIndex mem
    putsLoopIn size mem startingIndex maxTurns 0

def printUnsignedIn (convBuf : Buffer) (arg : UInt32) : Option (List UInt8) := do
  let mem ← itoaIn size arg 0 10 convBuf
  putsLoopIn size mem 0 maxTurns 0

def printSignedIn (convBuf : Buffer) (arg : UInt32) : Option (List UInt8) := do
  let value := arg.toInt32
  let mem ←
    if value < 0 then do
      let mem ← storeIn size convBuf 0 45
      itoaIn size (-value).toUInt32 1 10 mem
    else itoaIn size value.toUInt32 0 10 convBuf
  putsLoopIn size mem 0 maxTurns 0

end routines

def convertIn (strings : UInt32 → CString) (convBuf : Buffer) (c : UInt8) (alternate : Bool)
    (arg : UInt32) : Option (List UInt8 × Nat) :=
  if c = 37 then some ([37], 0)
  else if c = 120 then (printHexIn 64 convBuf alternate arg).map (·, 1)
  else if c = 117 then (printUnsignedIn 36 convBuf arg).map (·, 1)
  else if c = 100 then (printSignedIn 36 convBuf arg).map (·, 1)
  else if c = 99 then some ([UInt8.ofNat arg.toNat], 1)
  else if c = 115 then some ((strings arg).bytes, 1)
  else some ([], 0)

end MyLinuxOS
