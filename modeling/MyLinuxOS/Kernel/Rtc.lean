import MyLinuxOS.Foundation.Bytes

/-! The real-time clock driver of `rtc.c`: status register A and the flag its handler sets. -/

namespace MyLinuxOS
open Foundation

structure Rtc where
  statusA : UInt8
  interruptFlag : Int

namespace Rtc

def rate (frequency : Int) : Option UInt8 :=
  if frequency = 2 then some 0x0F
  else if frequency = 4 then some 0x0E
  else if frequency = 8 then some 0x0D
  else if frequency = 16 then some 0x0C
  else if frequency = 32 then some 0x0B
  else if frequency = 64 then some 0x0A
  else if frequency = 128 then some 0x09
  else if frequency = 256 then some 0x08
  else if frequency = 512 then some 0x07
  else if frequency = 1024 then some 0x06
  else none

/-- `regA_temp` is an uninitialised local: the register is selected but never read back. -/
def setFreqRtc (regATemp : UInt8) (frequency : Int) (rtc : Rtc) : Int × Rtc :=
  match rate frequency with
  | none => (-1, rtc)
  | some r => (0, { rtc with statusA := (regATemp &&& 0xF0) ||| r })

def rtcHandler (rtc : Rtc) : Rtc := { rtc with interruptFlag := 1 }

def openRtc (regATemp : UInt8) (rtc : Rtc) : Int × Rtc := (0, (setFreqRtc regATemp 2 rtc).2)

def closeRtc : Int := 0

/-- `word` is the word at `buf`, loaded before `buf` is compared with NULL. -/
def writeRtc (regATemp : UInt8) (buf : UInt32) (word : UInt32) (nbytes : Int32) (rtc : Rtc) :
    Int × Rtc :=
  let frequency := word.toInt32
  if frequency > 1024 ∨ frequency < 2 ∨ (word &&& (word - 1)) ≠ 0 then (-1, rtc)
  else if nbytes = 4 ∧ buf ≠ 0 then setFreqRtc regATemp frequency.toInt rtc
  else (-1, rtc)

/-- `none` while the loop still waits for the flag; the frequency has been set by then. -/
def readRtc (regATemp : UInt8) (rtc : Rtc) : Option (Int × Rtc) :=
  let rtc := (setFreqRtc regATemp 512 rtc).2
  if rtc.interruptFlag = 0 then none else some (0, { rtc with interruptFlag := 0 })

end Rtc
end MyLinuxOS
