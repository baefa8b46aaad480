import MyLinuxOS.Foundation.Bitfield
import MyLinuxOS.Kernel.Linkage

/-! `idt.c`, over the layout of a descriptor in `x86_desc.h`, and what the processor does with the
table. -/

namespace MyLinuxOS
open Foundation

abbrev IdtDesc := BitVec 64

namespace IdtDesc

def offset15_00 : BitField 64 := ⟨0, 16, by decide⟩
def segSelector : BitField 64 := ⟨16, 16, by decide⟩
def reserved4 : BitField 64 := ⟨32, 8, by decide⟩
def reserved3 : BitField 64 := ⟨40, 1, by decide⟩
def reserved2 : BitField 64 := ⟨41, 1, by decide⟩
def reserved1 : BitField 64 := ⟨42, 1, by decide⟩
def size : BitField 64 := ⟨43, 1, by decide⟩
def reserved0 : BitField 64 := ⟨44, 1, by decide⟩
def dpl : BitField 64 := ⟨45, 2, by decide⟩
def present : BitField 64 := ⟨47, 1, by decide⟩
def offset31_16 : BitField 64 := ⟨48, 16, by decide⟩

def high : Nat := 0x1
def low : Nat := 0x0
def userLevel : Nat := 0x3

end IdtDesc

abbrev Idt := Nat → IdtDesc

def numVec : Nat := 256
def kernelCs : Nat := 0x0010
def reserved : Nat := 32
def keyboardInterruptIndex : Nat := 0x21
def rtcInterruptIndex : Nat := 0x28
def syscallInterruptIdx : Nat := 0x80

structure Handlers where
  exception : Fin 20 → UInt32
  keyInterrupt : UInt32
  rtcInterrupt : UInt32
  syscallAsm : UInt32

open IdtDesc in
def initializeEntry (i : Nat) (d : IdtDesc) : IdtDesc :=
  let d := segSelector.set kernelCs d
  let d := reserved4.set low d
  let d := reserved2.set high d
  let d := reserved1.set high d
  let d := reserved0.set low d
  let d := size.set high d
  let d := present.set high d
  if i < reserved then dpl.set low (reserved3.set high d)
  else dpl.set userLevel (reserved3.set low d)

open IdtDesc in
def setIdtEntry (handler : UInt32) (d : IdtDesc) : IdtDesc :=
  let d := offset31_16.set ((handler &&& 0xFFFF0000) >>> 16).toNat d
  offset15_00.set (handler &&& 0xFFFF).toNat d

/-- The calls of `SET_IDT_ENTRY` in `initialize_idt`: the vectors with their handlers. -/
def Handlers.connected (h : Handlers) : List (Nat × UInt32) :=
  List.ofFn (fun entry : Fin 20 => (entry.val, h.exception entry)) ++
    [(keyboardInterruptIndex, h.keyInterrupt), (rtcInterruptIndex, h.rtcInterrupt),
      (syscallInterruptIdx, h.syscallAsm)]

def initializeIdt (h : Handlers) (idt : Idt) : Idt :=
  let idt := assignAll id initializeEntry idt (List.range numVec)
  assignAll Prod.fst (fun c => setIdtEntry c.2) idt h.connected

/-! ### The processor -/

structure GateDesc where
  gate : Gate
  trap : Bool
  level : UInt32

namespace IdtDesc

/-- S and the type, which the processor reads together. -/
def kind : BitField 64 := ⟨40, 5, by decide⟩

def offset (d : IdtDesc) : UInt32 :=
  UInt32.ofNat (offset15_00.get d + 2 ^ 16 * offset31_16.get d)

/-- An interrupt gate or a trap gate of 32 bits; the other types are left out. -/
def decode (d : IdtDesc) : Option GateDesc :=
  let type := kind.get d
  if present.get d = 1 ∧ (type = 0b01110 ∨ type = 0b01111) then
    some {
      gate := ⟨UInt32.ofNat (segSelector.get d), d.offset⟩
      trap := type = 0b01111
      level := UInt32.ofNat (dpl.get d) }
  else none

end IdtDesc

inductive Cause where
  | instruction (next : UInt32)
  | exception (code : Option UInt32)
  | device

namespace Processor
variable (s : Processor)

def throughGate (g : GateDesc) (next : UInt32) (code : Option UInt32) : Processor :=
  if g.trap then (s.withReg (.setEip next s.reg)).fault g.gate code
  else
    let t := s.interrupt g.gate next
    match code with
    | none => t
    | some code => t.push code

/-- The level of the gate is for `INT` only. `none` stands for another exception in its place. -/
def deliver (idt : Idt) (v : Nat) : Cause → Option Processor
  | .instruction next => (idt v).decode.bind fun g =>
      if g.level < level s.reg.cs then none else some (s.throughGate g next none)
  | .exception code => (idt v).decode.map fun g => s.throughGate g s.reg.eip code
  | .device => (idt v).decode.map fun g => s.throughGate g s.reg.eip none

end Processor
end MyLinuxOS
