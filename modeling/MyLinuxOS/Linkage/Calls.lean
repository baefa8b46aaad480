import MyLinuxOS.Linkage.Frames
import MyLinuxOS.Process.SystemCalls
import MyLinuxOS.Programs.Lifecycle

/-! From a program into a function of the kernel and back: what `INT $0x80` and `SYSCALL_ASM` keep
whatever the function does with its own stack. -/

namespace MyLinuxOS
open Foundation

/-! ### Where the stacks are -/

def pcbSize : Nat := 276

def kernelWindow (q : Nat) : Window :=
  let lo := kpageSize - kstackSize * (q + 1) + pcbSize
  ⟨lo, Kernel.kernelStackTop q, lo⟩

def programWindow (q : Nat) : Window :=
  ⟨userLocation, userLocation + pageSize4MB, programMemory q⟩

theorem kernelStackTop_eq {q : Nat} (hq : q < maxPid) :
    Kernel.kernelStackTop q = 8388604 - 8192 * q := by
  unfold maxPid at hq
  unfold Kernel.kernelStackTop kpageSize kstackSize memFence
  omega

theorem kernelWindow_bounds {q : Nat} (hq : q < maxPid) :
    (kernelWindow q).lo = 8380692 - 8192 * q ∧ (kernelWindow q).base = 8380692 - 8192 * q ∧
      (kernelWindow q).hi = 8388604 - 8192 * q := by
  unfold maxPid at hq
  have hlo : 8388608 - 8192 * (q + 1) + 276 = 8380692 - 8192 * q := by omega
  exact ⟨hlo, hlo, kernelStackTop_eq hq⟩

theorem programWindow_bounds (q : Nat) :
    (programWindow q).lo = 134217728 ∧ (programWindow q).base = q * 4194304 + 8388608 ∧
      (programWindow q).hi = 138412032 := ⟨rfl, rfl, rfl⟩

namespace Processor
variable {L : Linked} {s t u v : Processor} {q : Nat}

structure InProgram (q : Nat) (s : Processor) : Prop where
  tss : s.kernel.tss = ⟨kernelDs, Kernel.kernelStackTop q⟩
  page : s.kernel.programBase = programMemory q
  user : level s.reg.cs ≠ 0

theorem maps_kernelWindow (s : Processor) (hq : q < maxPid) : s.Maps (kernelWindow q) := by
  obtain ⟨hlo, hbase, hhi⟩ := kernelWindow_bounds hq
  unfold maxPid at hq
  refine ⟨by omega, fun v hl hh => ?_⟩
  have hlow : ¬ (userLocation ≤ v ∧ v < userLocation + pageSize4MB) := by
    unfold userLocation
    omega
  have hvid : ¬ (vidmapLocation ≤ v ∧ v < vidmapLocation + bytesToAlignTo) := by
    unfold vidmapLocation
    omega
  rw [Processor.physical, MyLinuxOS.physical, if_neg hlow, if_neg hvid]
  unfold Window.phys
  omega

theorem physical_program {base v : Nat} (hl : userLocation ≤ v)
    (hh : v < userLocation + pageSize4MB) : MyLinuxOS.physical base v = base + (v - userLocation) :=
  if_pos ⟨hl, hh⟩

theorem maps_programWindow (hpage : s.kernel.programBase = programMemory q) :
    s.Maps (programWindow q) := by
  obtain ⟨hlo, hbase, hhi⟩ := programWindow_bounds q
  refine ⟨by omega, fun v hl hh => ?_⟩
  rw [Processor.physical, hpage]
  exact physical_program hl hh

theorem InProgram.fresh (hs : s.InProgram q) (hq : q < maxPid) :
    s.FreshStack (kernelWindow q) :=
  ⟨s.maps_kernelWindow hq, by rw [hs.tss]; rfl⟩

/-! ### Into the kernel and back -/

def inFunction (L : Linked) (s : Processor) (next : UInt32) : Processor :=
  (s.interrupt L.syscallAsm next).callFunction L

def entryRegisters (L : Linked) (s : Processor) (next : UInt32) : Registers :=
  (s.interrupt L.syscallAsm next).comparedRegs L

theorem inFunction_frame (hs : s.InProgram q) (hq : q < maxPid) (next : UInt32) :
    OnStack (kernelWindow q) s.kernel s.phys 1 (s.inFunction L next)
      (L.callReturn :: (savedRegisters (s.entryRegisters L next) ++ s.interruptFrame next)) := by
  obtain ⟨hlo, -, hhi⟩ := kernelWindow_bounds hq
  unfold maxPid at hq
  exact callFunction_frame (n := 1)
    (interrupt_frame (n := 10) (hs.fresh hq) hs.user (by omega) L.syscallAsm next)

/-- A function has returned to `SYSCALL_ASM` on the slot's stack, which it has used below its
arguments only. -/
structure Returned (q : Nat) (u v : Processor) : Prop where
  esp : v.reg.esp = u.reg.esp + 4
  level : level v.reg.cs = 0
  stack : AgreeOn (u.reg.esp.toNat + 16) (Kernel.kernelStackTop q) u.phys v.phys

theorem Returned.frame (hs : s.InProgram q) (hq : q < maxPid) {next : UInt32}
    (hv : Returned q (s.inFunction L next) v) :
    ∃ x y z, OnStack (kernelWindow q) v.kernel v.phys 1 v
      (savedRegisters { s.entryRegisters L next with ebx := x, ecx := y, edx := z } ++
        s.interruptFrame next) := by
  have hframe := s.inFunction_frame (L := L) hs hq next
  obtain ⟨hlo, hbase, hhi⟩ := kernelWindow_bounds hq
  have hroom := hframe.room
  have hbelow := hframe.below
  have hlen : (L.callReturn :: (savedRegisters (s.entryRegisters L next) ++
      s.interruptFrame next)).length = 14 := rfl
  rw [hlen] at hbelow
  unfold maxPid at hq
  have hsame : ∀ a, (kernelWindow q).lo ≤ a → (kernelWindow q).phys a = a := by
    intro a ha
    unfold Window.phys
    omega
  have hnat : v.reg.esp.toNat = (s.inFunction L next).reg.esp.toNat + 4 := by
    rw [hv.esp, UInt32.toNat_add]
    exact Nat.mod_eq_of_lt (by change _ + 4 < 2 ^ 32; omega)
  have hsplit := hframe.stacked
  rw [hsame _ (by omega)] at hsplit
  -- the return address and the arguments are four words
  obtain ⟨-, -, -, -, hrest⟩ := hsplit
  have hkept := hrest.congr (hv.stack.mono (Nat.le_refl _) (by
    change _ + 4 + 4 + 4 + 4 + 40 ≤ _
    rw [kernelStackTop_eq hq]
    omega))
  refine ⟨loadWord v.phys v.reg.esp.toNat, loadWord v.phys (v.reg.esp.toNat + 4),
    loadWord v.phys (v.reg.esp.toNat + 8), rfl, fun _ _ => rfl, v.maps_kernelWindow hq,
    by omega, ?_, ?_⟩
  · change v.reg.esp.toNat + 52 ≤ _
    omega
  · rw [hsame _ (by omega)]
    have hsum : v.reg.esp.toNat + 4 + 4 + 4 = (s.inFunction L next).reg.esp.toNat + 16 := by omega
    refine ⟨rfl, rfl, rfl, ?_⟩
    rw [hsum]
    exact hkept

/-- The program finds its registers as it left them, but for those that a C function may use
anyhow. -/
theorem return_reg (hs : s.InProgram q) (hq : q < maxPid) {next : UInt32}
    (hv : Returned q (s.inFunction L next) v) :
    ∃ x y z, v.popRegisters.iret.reg =
      { s.reg with eax := v.reg.eax, ebx := x, ecx := y, edx := z, eip := next } := by
  obtain ⟨x, y, z, hstack⟩ := hv.frame hs hq
  have hesp : (s.entryRegisters L next).esp = v.reg.esp + 32 := by
    rw [hv.esp, inFunction, callFunction_reg]
    change (s.interrupt L.syscallAsm next).reg.esp =
      (s.interrupt L.syscallAsm next).reg.esp - 36 + 4 + 32
    grind
  obtain ⟨hpopped, hreg⟩ := popRegisters_frame hstack hesp
  have hcs : level v.popRegisters.reg.cs = 0 := by
    rw [hreg]
    exact hv.level
  refine ⟨x, y, z, ?_⟩
  rw [iret_reg hpopped hcs hs.user, hreg, entryRegisters, comparedRegs, interrupt_reg hs.user]
  rfl

end Processor
end MyLinuxOS
