import MyLinuxOS.Foundation.Runs
import MyLinuxOS.Foundation.Search
import Mathlib.Logic.Function.Basic

/-! The blinking characters of `fish`: the pool of `fish.c` and the list that `blink.S` threads
through it. -/

namespace MyLinuxOS
open Foundation

abbrev Slot := Fin 2000

structure Blink where
  location : UInt16
  onChar : UInt8
  offChar : UInt8
  onLength : UInt16
  offLength : UInt16
  countdown : UInt16
  status : UInt16
  next : Option Slot

namespace Blink

def zero : Blink := ⟨0, 0, 0, 0, 0, 0, 0, none⟩

def offset (b : Blink) : Nat := 2 * b.location.toNat

end Blink

structure Fish where
  blinkArray : Slot → Blink
  listHead : Option Slot
  vmem : Nat → UInt8

/-- A word that holds a pointer to an entry: `mp1_list_head` or the NEXT of a slot. -/
inductive Place
  | listHead
  | next (slot : Slot)

namespace Fish

def start (vmem : Nat → UInt8) : Fish := ⟨fun _ => .zero, none, vmem⟩

def setBlink (s : Fish) (i : Slot) (b : Blink) : Fish :=
  { s with blinkArray := Function.update s.blinkArray i b }

def mp1Poke (s : Fish) (offset : Nat) (cl : UInt8) : Fish :=
  { s with vmem := Function.update s.vmem offset cl }

/-- A slot counts as free when its location is 0. -/
def mp1Malloc (s : Fish) : Option Slot :=
  (firstFrom (fun i => (s.blinkArray (Fin.ofNat 2000 i)).location = 0) 2000 0).map (Fin.ofNat 2000)

def mp1Free (s : Fish) (i : Slot) : Fish := s.setBlink i .zero

def taskletEntry (s : Fish) (i : Slot) : Fish :=
  let b := s.blinkArray i
  let countdown := b.countdown - 1
  if countdown.toInt16 > 0 then s.setBlink i { b with countdown }
  else if b.status &&& 1 = 0 then
    (s.mp1Poke b.offset b.onChar).setBlink i
      { b with countdown := b.onLength, status := b.status ^^^ 1 }
  else
    (s.mp1Poke b.offset b.offChar).setBlink i
      { b with countdown := b.offLength, status := b.status ^^^ 1 }

/-- `none` when the loop has not reached NULL after `fuel` entries. -/
def mp1RtcTasklet : Nat → Option Slot → Fish → Option Fish
  | _, none, s => some s
  | 0, some _, _ => none
  | fuel + 1, some i, s =>
    mp1RtcTasklet fuel ((s.taskletEntry i).blinkArray i).next (s.taskletEntry i)

def mp1FindHelper (s : Fish) (ax : UInt16) : Nat → Option Slot → Option (Option Slot)
  | _, none => some none
  | 0, some _ => none
  | fuel + 1, some i =>
    if (s.blinkArray i).location = ax then some (some i)
    else mp1FindHelper s ax fuel (s.blinkArray i).next

def load (s : Fish) : Place → Option Slot
  | .listHead => s.listHead
  | .next i => (s.blinkArray i).next

def store (s : Fish) (q : Option Slot) : Place → Fish
  | .listHead => { s with listHead := q }
  | .next i => s.setBlink i { s.blinkArray i with next := q }

/-- `none` as well where the loop would follow a NULL pointer. -/
def removeFindPrev (s : Fish) (eax : Slot) : Nat → Place → Option Place
  | 0, _ => none
  | fuel + 1, edx =>
    if s.load edx = some eax then some edx
    else (s.load edx).bind fun i => removeFindPrev s eax fuel (.next i)

/-- As many turns as there are slots; a loop that ends at all needs no more. -/
def find (s : Fish) (ax : UInt16) : Option (Option Slot) := s.mp1FindHelper ax 2000 s.listHead

/-- The NEXT of the structure passed in is copied along and overwritten at once. -/
def mp1IoctlAdd (s : Fish) (arg : Blink) : Int × Fish :=
  if 80 * 25 ≤ arg.location then (-1, s)
  else
    let b := { arg with status := 1, countdown := arg.onLength }
    match s.mp1Malloc with
    | none => (-1, s)
    | some edx =>
      let s := { s.setBlink edx { b with next := s.listHead } with listHead := some edx }
      (0, s.mp1Poke b.offset b.onChar)

def mp1IoctlRemove (s : Fish) (arg : UInt32) : Option (Int × Fish) :=
  (s.find arg.toUInt16).bind fun found =>
    match found with
    | none => some (-1, s)
    | some eax => (s.removeFindPrev eax 2000 .listHead).map fun edx =>
        (0, (s.store (s.blinkArray eax).next edx).mp1Free eax)

def synced (s : Fish) (esi edi : Slot) : Blink :=
  let first := s.blinkArray esi
  { s.blinkArray edi with
    onLength := first.onLength
    offLength := first.offLength
    countdown := first.countdown
    status := first.status }

/-- `cmovl` moves when the sign flag differs from the overflow flag: `testb` clears the latter and
copies bit 7 of its result into the former. -/
def syncChar (b : Blink) : UInt8 :=
  if (b.status.toUInt8 &&& 0x1) &&& 0x80 ≠ 0 then b.onChar else b.offChar

def mp1IoctlSync (s : Fish) (arg : UInt32) : Option (Int × Fish) :=
  (s.find (arg >>> 16).toUInt16).bind fun first =>
    match first with
    | none => some (-1, s)
    | some esi => (s.find (arg &&& 0xFFFF).toUInt16).map fun second =>
        match second with
        | none => (-1, s)
        | some edi =>
          let b := s.synced esi edi
          (0, (s.setBlink edi b).mp1Poke b.offset (syncChar b))

def mp1IoctlFind (s : Fish) (location : UInt16) : Option (Int × Option Blink) :=
  (s.find location).map fun found =>
    match found with
    | none => (-1, none)
    | some eax => (0, some (s.blinkArray eax))

end Fish

inductive Mp1Call
  | add (arg : Blink)
  | remove (arg : UInt32)
  | find (location : UInt16)
  | sync (arg : UInt32)
  | tasklet

structure Mp1Answer where
  ret : Int
  copied : Option Blink

def mp1Calls : Machine Fish Mp1Call Mp1Answer := fun s call =>
  match call with
  | .add arg => some (⟨(s.mp1IoctlAdd arg).1, none⟩, (s.mp1IoctlAdd arg).2)
  | .remove arg => (s.mp1IoctlRemove arg).map fun (ret, s') => (⟨ret, none⟩, s')
  | .find location => (s.mp1IoctlFind location).map fun (ret, copied) => (⟨ret, copied⟩, s)
  | .sync arg => (s.mp1IoctlSync arg).map fun (ret, s') => (⟨ret, none⟩, s')
  | .tasklet => (Fish.mp1RtcTasklet 2000 s.listHead s).map fun s' => (⟨0, none⟩, s')

end MyLinuxOS
