import MyLinuxOS.Linkage.Stacks

/-! What `INT`, `SYSCALL_ASM` and `IRET` put on the kernel stack, and what they take from it. -/

namespace MyLinuxOS
open Foundation

namespace Processor
variable {s : Processor} {w : Window} {k : Kernel} {m : Nat → UInt8} {n : Nat}
  {ws : List UInt32}

structure FreshStack (s : Processor) (w : Window) : Prop where
  maps : s.Maps w
  esp0 : s.kernel.tss.esp0 = w.hi

def interruptFrame (s : Processor) (next : UInt32) : List UInt32 :=
  [next, s.reg.cs, s.reg.eflags, s.reg.esp, s.reg.ss]

theorem entry_frame (hf : s.FreshStack w) (huser : level s.reg.cs ≠ 0)
    (hroom : w.lo + 4 * (n + 5) ≤ w.hi) (next : UInt32) :
    OnStack w s.kernel s.phys n (((s.switchStack.push s.reg.eflags).push s.reg.cs).push next)
      (s.interruptFrame next) := by
  have hnat : (UInt32.ofNat s.kernel.tss.esp0).toNat = w.hi := by
    rw [UInt32.toNat_ofNat', hf.esp0]
    exact Nat.mod_eq_of_lt hf.maps.bound
  have hempty : ∀ r : Registers, r.esp = UInt32.ofNat s.kernel.tss.esp0 →
      OnStack w s.kernel s.phys (n + 5) (s.withReg r) [] := by
    intro r hr
    refine ⟨rfl, fun _ _ => rfl, hf.maps.of_base rfl, ?_, ?_, trivial⟩
    · rw [withReg_reg, hr, hnat]
      exact hroom
    · rw [withReg_reg, hr, hnat]
      exact Nat.le_refl _
  have hswitch : OnStack w s.kernel s.phys (n + 3) s.switchStack [s.reg.esp, s.reg.ss] := by
    unfold switchStack
    rw [if_neg huser]
    exact ((hempty _ rfl).push _).push _
  exact ((hswitch.push _).push _).push _

theorem interrupt_frame (hf : s.FreshStack w) (huser : level s.reg.cs ≠ 0)
    (hroom : w.lo + 4 * (n + 5) ≤ w.hi) (gate : Gate) (next : UInt32) :
    OnStack w s.kernel s.phys n (s.interrupt gate next) (s.interruptFrame next) :=
  (entry_frame hf huser hroom next).withReg rfl

theorem interrupt_reg (huser : level s.reg.cs ≠ 0) (gate : Gate) (next : UInt32) :
    (s.interrupt gate next).reg =
      { s.reg with
        esp := UInt32.ofNat s.kernel.tss.esp0 - 4 - 4 - 4 - 4 - 4
        ss := UInt32.ofNat s.kernel.tss.ss0
        eflags := s.reg.eflags &&& ~~~ gateFlags
        cs := gate.selector
        eip := gate.offset } := by
  have hswitch : s.switchStack.reg =
      { s.reg with
        esp := UInt32.ofNat s.kernel.tss.esp0 - 4 - 4
        ss := UInt32.ofNat s.kernel.tss.ss0 } := by
    unfold switchStack
    rw [if_neg huser]
    rfl
  simp only [interrupt, withReg_reg, push_reg, hswitch, Registers.setEsp]

theorem fault_frame (hf : s.FreshStack w) (huser : level s.reg.cs ≠ 0)
    (hroom : w.lo + 4 * 6 ≤ w.hi) (gate : Gate) (code : Option UInt32) :
    ∃ n, OnStack w s.kernel s.phys n (s.fault gate code)
      (code.toList ++ s.interruptFrame s.reg.eip) := by
  have hframe := entry_frame (n := 1) hf huser hroom s.reg.eip
  cases code with
  | none => exact ⟨1, hframe.withReg rfl⟩
  | some code => exact ⟨0, (hframe.push code).withReg rfl⟩

theorem iret_reg {next cs eflags esp ss : UInt32}
    (h : OnStack w k m n s [next, cs, eflags, esp, ss]) (hkernel : level s.reg.cs = 0)
    (huser : level cs ≠ 0) :
    s.iret.reg =
      { s.reg with eip := next, cs := cs, eflags := eflags, esp := esp, ss := ss } := by
  have h1 : s.load (s.reg.esp + 4) = cs := h.load_at (i := 1) (by simp) rfl
  have h2 : s.load (s.reg.esp + 8) = eflags := h.load_at (i := 2) (by simp) rfl
  have h3 : s.load (s.reg.esp + 12) = esp := h.load_at (i := 3) (by simp) rfl
  have h4 : s.load (s.reg.esp + 16) = ss := h.load_at (i := 4) (by simp) rfl
  have hne : level cs ≠ level s.reg.cs := by rwa [hkernel]
  simp only [iret, h1, h2, h3, h4, h.load, if_neg hne, withReg_reg]

@[simp] theorem iret_phys : s.iret.phys = s.phys := by
  simp only [iret]
  split <;> rfl

@[simp] theorem iret_kernel : s.iret.kernel = s.kernel := by
  simp only [iret]
  split <;> rfl

/-! ### The frame of a call through `jump_table` -/

def savedRegisters (r : Registers) : List UInt32 :=
  [r.ebx, r.ecx, r.edx, r.eflags, r.esi, r.edi, r.ebp, r.esp]

theorem pushRegisters_frame (h : OnStack w k m (n + 8) s ws) :
    OnStack w k m n s.pushRegisters (savedRegisters s.reg ++ ws) := by
  rw [pushRegisters, pushAll_cons]
  exact OnStack.pushAll (by simp [OffStack, Registers.setEsp]) (h.push s.reg.esp)

theorem pushRegisters_reg : s.pushRegisters.reg = .setEsp (s.reg.esp - 32) s.reg :=
  pushAll_reg _

def comparedRegs (L : Linked) (s : Processor) : Registers :=
  .setEflags (L.compare s.reg.eax s.reg.eflags) s.reg

theorem callFunction_frame {L : Linked} (h : OnStack w k m (n + 9) s ws) :
    OnStack w k m n (s.callFunction L)
      (L.callReturn :: (savedRegisters (s.comparedRegs L) ++ ws)) := by
  have hcompared : OnStack w k m (n + 1 + 8) (s.withReg (s.comparedRegs L)) ws := h.withReg rfl
  exact ((pushRegisters_frame hcompared).push L.callReturn).withReg rfl

theorem callFunction_reg {L : Linked} :
    (s.callFunction L).reg =
      .setEip (L.jumpTable s.tableIndex) (.setEsp (s.reg.esp - 36) (s.comparedRegs L)) := by
  have hpush := pushRegisters_reg (s := s.withReg (s.comparedRegs L))
  have hsum : s.reg.esp - 32 - 4 = s.reg.esp - 36 := by grind
  have hcall : (s.callFunction L).reg = .setEip (L.jumpTable s.tableIndex)
      (.setEsp ((s.withReg (s.comparedRegs L)).pushRegisters.reg.esp - 4)
        (s.withReg (s.comparedRegs L)).pushRegisters.reg) := rfl
  rw [hcall, hpush, ← hsum]
  rfl

theorem popRegisters_frame {r : Registers} {a b c : UInt32}
    (h : OnStack w k m n s (savedRegisters { r with ebx := a, ecx := b, edx := c } ++ ws))
    (hesp : r.esp = s.reg.esp + 32) :
    OnStack w k m (n + 8) s.popRegisters ws ∧
      s.popRegisters.reg =
        { r with
          ebx := a, ecx := b, edx := c
          eax := s.reg.eax, eip := s.reg.eip, cs := s.reg.cs, ss := s.reg.ss } := by
  let sets : List (UInt32 → Registers → Registers) :=
    [.setEbx, .setEcx, .setEdx, .setEflags, .setEsi, .setEdi, .setEbp]
  have hsets : ∀ set ∈ sets, SetsOff set := by
    simp [sets, SetsOff, Registers.setEsp, Registers.setEbx, Registers.setEcx, Registers.setEdx,
      Registers.setEflags, Registers.setEsi, Registers.setEdi, Registers.setEbp]
  have hwords : OnStack w k m n s
      ([a, b, c, r.eflags, r.esi, r.edi, r.ebp] ++ r.esp :: ws) := h
  obtain ⟨hstack, hreg⟩ := hwords.popAll hsets rfl
  have hpop : s.popRegisters = (s.popAll sets).pop .setEsp := popAll_concat sets _
  have hnext : (s.popAll sets).reg.esp + 4 = r.esp := by
    have hcount : (4 : UInt32) * UInt32.ofNat sets.length + 4 = 32 := rfl
    rw [hreg, hesp, ← hcount, ← UInt32.add_assoc]
    rfl
  have hlast : ((s.popAll sets).pop .setEsp).reg =
      .setEsp r.esp (.setEsp ((s.popAll sets).reg.esp + 4) (s.popAll sets).reg) := by
    rw [pop_reg, hstack.load]
  rw [hpop]
  refine ⟨hstack.tail (pop_kernel _) (pop_phys _) ?_, ?_⟩
  · rw [hlast, hnext]
    rfl
  · rw [hlast, hreg]
    rfl

@[simp] theorem popRegisters_phys : s.popRegisters.phys = s.phys := popAll_phys _

@[simp] theorem popRegisters_kernel : s.popRegisters.kernel = s.kernel := popAll_kernel _

end Processor
end MyLinuxOS
