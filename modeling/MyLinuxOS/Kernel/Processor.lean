import MyLinuxOS.Foundation.Stack
import MyLinuxOS.Memory.Translation

/-! The processor as far as `assembly_linkage.S` and the system call library use it: registers, the
stack, interrupts, and memory behind the mapping of the running program. -/

namespace MyLinuxOS
open Foundation

structure Registers where
  eax : UInt32
  ebx : UInt32
  ecx : UInt32
  edx : UInt32
  esi : UInt32
  edi : UInt32
  ebp : UInt32
  esp : UInt32
  eip : UInt32
  eflags : UInt32
  cs : UInt32
  ss : UInt32
  deriving DecidableEq

/-! Assignments to one register; the value comes first. -/

namespace Registers

def setEax (w : UInt32) (r : Registers) : Registers := { r with eax := w }
def setEbx (w : UInt32) (r : Registers) : Registers := { r with ebx := w }
def setEcx (w : UInt32) (r : Registers) : Registers := { r with ecx := w }
def setEdx (w : UInt32) (r : Registers) : Registers := { r with edx := w }
def setEsi (w : UInt32) (r : Registers) : Registers := { r with esi := w }
def setEdi (w : UInt32) (r : Registers) : Registers := { r with edi := w }
def setEbp (w : UInt32) (r : Registers) : Registers := { r with ebp := w }
def setEsp (w : UInt32) (r : Registers) : Registers := { r with esp := w }
def setEip (w : UInt32) (r : Registers) : Registers := { r with eip := w }
def setEflags (w : UInt32) (r : Registers) : Registers := { r with eflags := w }

end Registers

/-- The variables of the kernel are in `kernel`; `phys` is physical memory. -/
structure Processor where
  reg : Registers
  phys : Nat → UInt8
  kernel : Kernel

def Kernel.programBase (k : Kernel) : Nat :=
  (k.paging.pageDirectory userProgramIndex).addr * bytesToAlignTo

/-- Where the tables of `paging.c` lead a virtual address that they map. -/
def physical (base v : Nat) : Nat :=
  if userLocation ≤ v ∧ v < userLocation + pageSize4MB then base + (v - userLocation)
  else if vidmapLocation ≤ v ∧ v < vidmapLocation + bytesToAlignTo then
    addrVideo + (v - vidmapLocation)
  else v

structure Gate where
  selector : UInt32
  offset : UInt32

namespace Processor
variable (s : Processor)

def physical (v : Nat) : Nat := MyLinuxOS.physical s.kernel.programBase v

def view (v : Nat) : UInt8 := s.phys (s.physical v)

def load (v : UInt32) : UInt32 :=
  le32 (s.view v.toNat) (s.view (v + 1).toNat) (s.view (v + 2).toNat) (s.view (v + 3).toNat)

def store (v w : UInt32) : Processor :=
  let stores := (storesAt v (le32Bytes w)).map fun p => (s.physical p.1, p.2)
  { s with phys := applyStores s.phys stores }

def withReg (r : Registers) : Processor := { s with reg := r }

def push (w : UInt32) : Processor :=
  let sp := s.reg.esp - 4
  (s.store sp w).withReg { s.reg with esp := sp }

def pop (set : UInt32 → Registers → Registers) : Processor :=
  s.withReg (set (s.load s.reg.esp) { s.reg with esp := s.reg.esp + 4 })

def pushAll (regs : List (Registers → UInt32)) : Processor :=
  regs.foldl (fun s r => s.push (r s.reg)) s

def popAll (sets : List (UInt32 → Registers → Registers)) : Processor :=
  sets.foldl (fun s set => s.pop set) s

def level (selector : UInt32) : UInt32 := selector &&& 3

/-- VM, RF, NT, IF and TF, which an interrupt gate clears. -/
def gateFlags : UInt32 := 0x34300

/-- The stack for an interrupt to level 0: that of a program is left for the one in the TSS. -/
def switchStack : Processor :=
  if level s.reg.cs = 0 then s
  else
    let r := { s.reg with
      esp := UInt32.ofNat s.kernel.tss.esp0, ss := UInt32.ofNat s.kernel.tss.ss0 }
    ((s.withReg r).push s.reg.ss).push s.reg.esp

def interrupt (gate : Gate) (next : UInt32) : Processor :=
  let t := ((s.switchStack.push s.reg.eflags).push s.reg.cs).push next
  t.withReg { t.reg with
    eflags := s.reg.eflags &&& ~~~ gateFlags, cs := gate.selector, eip := gate.offset }

/-- Those of them that a trap gate clears: all but IF. -/
def trapFlags : UInt32 := 0x34100

def fault (gate : Gate) (code : Option UInt32) : Processor :=
  let t := ((s.switchStack.push s.reg.eflags).push s.reg.cs).push s.reg.eip
  let t := match code with
    | none => t
    | some code => t.push code
  t.withReg { t.reg with
    eflags := s.reg.eflags &&& ~~~ trapFlags, cs := gate.selector, eip := gate.offset }

def iret : Processor :=
  let eip := s.load s.reg.esp
  let cs := s.load (s.reg.esp + 4)
  let eflags := s.load (s.reg.esp + 8)
  if level cs = level s.reg.cs then
    s.withReg { s.reg with eip := eip, cs := cs, eflags := eflags, esp := s.reg.esp + 12 }
  else
    s.withReg { s.reg with
      eip := eip, cs := cs, eflags := eflags
      esp := s.load (s.reg.esp + 12), ss := s.load (s.reg.esp + 16) }

def ret : Processor := s.pop Registers.setEip

def leave : Processor :=
  (s.withReg (.setEsp s.reg.ebp s.reg)).pop Registers.setEbp

end Processor
end MyLinuxOS
