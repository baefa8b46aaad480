import MyLinuxOS.Kernel.Itoa

/-! `printf` of `lib.c`. A call is described by the bytes it sends to `putc`, the bytes of the
format it looks at and the value it returns. -/

namespace MyLinuxOS
open Foundation

structure Printed where
  output : List UInt8
  reads : List Nat
  returned : Nat

def Printed.after (r : Printed) (buf : Nat) (text : List UInt8) : Printed :=
  ⟨text ++ r.output, buf :: r.reads, r.returned⟩

def putsLoop (mem : Buffer) (s : Nat) : (fuel : Nat) → (index : Nat) → Option (List UInt8)
  | 0, _ => none
  | fuel + 1, index =>
    if mem (s + index) ≠ 0 then (putsLoop mem s fuel (index + 1)).map (mem (s + index) :: ·)
    else some []

def padZeros : (n i : Nat) → Buffer → Buffer
  | 0, _, mem => mem
  | n + 1, i, mem => padZeros n (i + 1) (Function.update mem i 48)

/-- The number conversions. `convBuf` is what the buffer on the stack holds before. -/
def printHex (convBuf : Buffer) (alternate : Bool) (arg : UInt32) : Option (List UInt8) :=
  if alternate = false then do
    let mem ← itoa arg 0 16 convBuf
    putsLoop mem 0 maxTurns 0
  else do
    let mem ← itoa arg 8 16 convBuf
    let startingIndex ← strlen mem 8 maxTurns 0
    putsLoop (padZeros (8 - startingIndex) startingIndex mem) startingIndex maxTurns 0

def printUnsigned (convBuf : Buffer) (arg : UInt32) : Option (List UInt8) := do
  let mem ← itoa arg 0 10 convBuf
  putsLoop mem 0 maxTurns 0

def printSigned (convBuf : Buffer) (arg : UInt32) : Option (List UInt8) := do
  let value := arg.toInt32
  let mem ←
    if value < 0 then itoa (-value).toUInt32 1 10 (Function.update convBuf 0 45)
    else itoa value.toUInt32 0 10 convBuf
  putsLoop mem 0 maxTurns 0

def convert (strings : UInt32 → CString) (convBuf : Buffer) (c : UInt8) (alternate : Bool)
    (arg : UInt32) : Option (List UInt8 × Nat) :=
  if c = 37 then some ([37], 0)
  else if c = 120 then (printHex convBuf alternate arg).map (·, 1)
  else if c = 117 then (printUnsigned convBuf arg).map (·, 1)
  else if c = 100 then (printSigned convBuf arg).map (·, 1)
  else if c = 99 then some ([UInt8.ofNat arg.toNat], 1)
  else if c = 115 then some ((strings arg).bytes, 1)
  else some ([], 0)

/-- The two places at which `*buf` is looked at: the `while` with the switch below it, and the label
in the conversion. -/
inductive PrintfPoint
  | whileTest
  | formatCharSwitch (alternate : Bool)

/-- `none` where the call has not returned. `format` is memory from the format on, `args` the words
on the stack behind the format pointer, `strings` the strings they may point to, and `stack` what
the conversion buffers hold. -/
def printfLoop (format : Buffer) (args : Nat → UInt32) (strings : UInt32 → CString)
    (stack : Nat → Buffer) : (fuel : Nat) → PrintfPoint → (buf esp : Nat) → Option Printed
  | 0, _, _, _ => none
  | fuel + 1, .whileTest, buf, esp =>
    if format buf = 0 then some ⟨[], [buf], buf⟩
    else if format buf = 37 then
      (printfLoop format args strings stack fuel (.formatCharSwitch false) (buf + 1) esp).map
        (·.after buf [])
    else
      (printfLoop format args strings stack fuel .whileTest (buf + 1) esp).map
        (·.after buf [format buf])
  | fuel + 1, .formatCharSwitch alternate, buf, esp =>
    if format buf = 35 then
      (printfLoop format args strings stack fuel (.formatCharSwitch true) (buf + 1) esp).map
        (·.after buf [])
    else do
      let (text, used) ← convert strings (stack buf) (format buf) alternate (args esp)
      (printfLoop format args strings stack fuel .whileTest (buf + 1) (esp + used)).map
        (·.after buf text)

def printf (format : Buffer) (args : Nat → UInt32) (strings : UInt32 → CString)
    (stack : Nat → Buffer) (fuel : Nat) : Option Printed :=
  printfLoop format args strings stack fuel .whileTest 0 0

end MyLinuxOS
