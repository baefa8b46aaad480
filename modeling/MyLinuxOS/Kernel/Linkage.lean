import MyLinuxOS.Kernel.Processor

/-! `assembly_linkage.S` and the wrappers of `ece391syscall.S`: from the call that a program makes
to the function of the kernel and back. -/

namespace MyLinuxOS
open Foundation

/-- What the linker and the processor decide: addresses in the code, and what a comparison leaves
in the flags. -/
structure Linked where
  syscallAsm : Gate
  rtcInterrupt : Gate
  keyInterrupt : Gate
  exception : Fin 20 → Gate
  jumpTable : Fin 10 → UInt32
  /-- Behind the call through `jump_table`. -/
  callReturn : UInt32
  /-- Behind `INT $0x80` in the wrapper of a number. -/
  intReturn : UInt32 → UInt32
  compare : UInt32 → UInt32 → UInt32

structure Linked.ToKernel (L : Linked) : Prop where
  syscallAsm : Processor.level L.syscallAsm.selector = 0
  rtcInterrupt : Processor.level L.rtcInterrupt.selector = 0
  keyInterrupt : Processor.level L.keyInterrupt.selector = 0
  exception : ∀ entry, Processor.level (L.exception entry).selector = 0

def pushesCode (entry : Fin 20) : Bool := entry.val ∈ [8, 10, 11, 12, 13, 14, 17]

/-- The compiled functions behind the labels: `run i` leads from the first instruction of the
function in entry `i` of `jump_table` to the instruction after its return. -/
abbrev Compiled := Fin 10 → Processor → Processor → Prop

namespace Processor
variable (L : Linked) (s : Processor)

open Registers in
def pushRegisters : Processor := s.pushAll [esp, ebp, edi, esi, eflags, edx, ecx, ebx]

def popRegisters : Processor :=
  s.popAll [.setEbx, .setEcx, .setEdx, .setEflags, .setEsi, .setEdi, .setEbp, .setEsp]

/-- `cmpl $0, %eax; jle` and `cmpl $10, %eax; jg`, both signed. -/
def invalidCall : Bool := s.reg.eax.toInt32 ≤ 0 || 10 < s.reg.eax.toInt32

/-- The entry of `jump_table` that `jump_table-4(,%eax,4)` denotes. -/
def tableIndex : Fin 10 := ⟨(s.reg.eax.toNat - 1) % 10, Nat.mod_lt _ (by decide)⟩

def callFunction : Processor :=
  let i := s.tableIndex
  let s := s.withReg (.setEflags (L.compare s.reg.eax s.reg.eflags) s.reg)
  let s := s.pushRegisters.push L.callReturn
  s.withReg (.setEip (L.jumpTable i) s.reg)

/-- `SYSCALL_ASM` from its first instruction to the instruction after its `iret`. -/
def SyscallAsm (C : Compiled) (t : Processor) : Prop :=
  if s.invalidCall then
    t = (s.withReg { s.reg with eax := -1, eflags := L.compare s.reg.eax s.reg.eflags }).iret
  else ∃ u, C s.tableIndex (s.callFunction L) u ∧ t = u.popRegisters.iret

open Registers in
/-- `pushal` pushes the stack pointer as it was before. -/
def pushal : Processor :=
  s.pushAll [eax, ecx, edx, ebx, fun _ => s.reg.esp, ebp, esi, edi]

/-- `popal` drops the word for the stack pointer. -/
def popal : Processor :=
  s.popAll [.setEdi, .setEsi, .setEbp, fun _ r => r, .setEbx, .setEdx, .setEcx, .setEax]

end Processor
end MyLinuxOS
