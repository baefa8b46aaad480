import MyLinuxOS.Linkage.Nested

/-! Interrupts of the keyboard and of the clock. Their handlers enable interrupts before they are
done, so that others come in between; whatever comes, the program that was interrupted goes on as if
nothing had been. -/

namespace MyLinuxOS
open Foundation

namespace Processor
variable {L : Linked} {s t u v : Processor} {w : Window} {k : Kernel} {m : Nat → UInt8}
  {n q sp : Nat} {ws : List UInt32}

/-! ### What `KEY_INTERRUPT` and `RTC_INTERRUPT` put on the stack -/

def generalRegisters (r : Registers) : List UInt32 :=
  [r.edi, r.esi, r.ebp, r.esp, r.ebx, r.edx, r.ecx, r.eax]

theorem pushal_frame (h : OnStack w k m (n + 8) s ws) :
    OnStack w k m n s.pushal (generalRegisters s.reg ++ ws) :=
  OnStack.pushAll (by simp [OffStack, Registers.setEsp]) h

theorem pushal_reg : s.pushal.reg = .setEsp (s.reg.esp - 32) s.reg := pushAll_reg _

theorem popal_frame {r : Registers} (h : OnStack w k m n s (generalRegisters r ++ ws)) :
    OnStack w k m (n + 8) s.popal ws ∧
      s.popal.reg =
        { r with
          esp := s.reg.esp + 32, eip := s.reg.eip, eflags := s.reg.eflags
          cs := s.reg.cs, ss := s.reg.ss } := by
  let sets : List (UInt32 → Registers → Registers) := [.setEdi, .setEsi, .setEbp, fun _ r => r,
    .setEbx, .setEdx, .setEcx, .setEax]
  have hsets : ∀ set ∈ sets, SetsOff set := by
    simp [sets, SetsOff, Registers.setEsp, Registers.setEdi, Registers.setEsi, Registers.setEbp,
      Registers.setEbx, Registers.setEdx, Registers.setEcx, Registers.setEax]
  exact OnStack.popAll hsets rfl h

theorem popal_phys : s.popal.phys = s.phys := popAll_phys _

theorem popal_kernel : s.popal.kernel = s.kernel := popAll_kernel _

theorem interrupt_kernel_frame (hlevel : level s.reg.cs = 0) (h : OnStack w k m (n + 3) s ws)
    (gate : Gate) (next : UInt32) :
    OnStack w k m n (s.interrupt gate next) (next :: s.reg.cs :: s.reg.eflags :: ws) := by
  have hswitch : s.switchStack = s := if_pos hlevel
  unfold interrupt
  rw [hswitch]
  exact (((h.push _).push _).push _).withReg rfl

theorem interrupt_kernel_reg (hlevel : level s.reg.cs = 0) (gate : Gate) (next : UInt32) :
    (s.interrupt gate next).reg =
      { s.reg with
        esp := s.reg.esp - 4 - 4 - 4
        eflags := s.reg.eflags &&& ~~~ gateFlags
        cs := gate.selector
        eip := gate.offset } := by
  have hswitch : s.switchStack = s := if_pos hlevel
  simp only [interrupt, hswitch, withReg_reg, push_reg, Registers.setEsp]

theorem iret_kernel_reg {next cs eflags : UInt32}
    (h : OnStack w k m n s (next :: cs :: eflags :: ws)) (hkernel : level s.reg.cs = 0)
    (hlevel : level cs = 0) :
    s.iret.reg =
      { s.reg with eip := next, cs := cs, eflags := eflags, esp := s.reg.esp + 12 } := by
  have h1 : s.load (s.reg.esp + 4) = cs := h.load_at (i := 1) (by simp) rfl
  have h2 : s.load (s.reg.esp + 8) = eflags := h.load_at (i := 2) (by simp) rfl
  have hsame : level cs = level s.reg.cs := hlevel.trans hkernel.symm
  simp only [iret, h1, h2, h.load, if_pos hsame, withReg_reg]

def handlerEntry (s : Processor) (gate : Gate) (next : UInt32) : Processor :=
  (s.interrupt gate s.reg.eip).pushal.push next

theorem handlerEntry_frame (h : OnStack w k m (n + 9) (s.interrupt gate s.reg.eip) ws)
    (next : UInt32) : OnStack w k m n (s.handlerEntry gate next)
      (next :: (generalRegisters (s.interrupt gate s.reg.eip).reg ++ ws)) :=
  (pushal_frame (n := n + 1) h).push next

theorem OnStack.returned {x : UInt32} (h : OnStack w k m n u (x :: ws)) (hbase : w.base = w.lo)
    (hesp : v.reg.esp = u.reg.esp + 4) (hmaps : v.Maps w)
    (hkept : AgreeOn (u.reg.esp.toNat + 4) w.hi u.phys v.phys) :
    OnStack w v.kernel v.phys (n + 1) v ws := by
  have hroom := h.room
  have hbelow := h.below
  have hbound := hmaps.bound
  rw [List.length_cons] at hbelow
  have hnat : v.reg.esp.toNat = u.reg.esp.toNat + 4 := by
    rw [hesp, UInt32.toNat_add]
    exact Nat.mod_eq_of_lt (by change _ + 4 < 2 ^ 32; omega)
  have hsame : ∀ a, w.lo ≤ a → w.phys a = a := by
    intro a ha
    unfold Window.phys
    omega
  have hstacked := h.stacked.2
  rw [hsame _ (by omega)] at hstacked
  refine ⟨rfl, fun _ _ => rfl, hmaps, by omega, by omega, ?_⟩
  rw [hsame _ (by omega), hnat]
  exact hstacked.congr (hkept.mono (Nat.le_refl _) (by omega))

/-! ### Handlers -/

/-- Code of the kernel on the stack of slot `q` has left what is above `sp` as it was, and of the
kernel all but the devices. The keys that switch the terminal do more than that. -/
structure KeepsAbove (q sp : Nat) (s t : Processor) : Prop where
  kernel : ∃ dev, t.kernel = s.kernel.withDev dev
  cs : t.reg.cs = s.reg.cs
  ss : t.reg.ss = s.reg.ss
  memory : ∀ addr, Guarded q sp addr → t.phys addr = s.phys addr

def DeviceGate (L : Linked) (gate : Gate) : Prop :=
  gate = L.keyInterrupt ∨ gate = L.rtcInterrupt

/-- What a handler does from one of its instructions to another. It has enabled interrupts, so that
others may come where the stack has room for them: twelve words above the process block. -/
inductive Handling (L : Linked) (q : Nat) : Nat → Processor → Processor → Prop
  | done {sp : Nat} {s : Processor} : Handling L q sp s s
  | own {sp : Nat} {s t u : Processor} : KeepsAbove q sp s t → Handling L q sp t u →
    Handling L q sp s u
  | interrupted {sp : Nat} {s v u : Processor} {gate : Gate} {next : UInt32} : DeviceGate L gate →
    (kernelWindow q).lo + 48 ≤ s.reg.esp.toNat → s.reg.esp.toNat ≤ sp →
    Handling L q ((s.handlerEntry gate next).reg.esp.toNat + 4) (s.handlerEntry gate next) v →
    v.reg.esp = (s.handlerEntry gate next).reg.esp + 4 → Handling L q sp v.popal.iret u →
    Handling L q sp s u

theorem KeepsAbove.refl (q sp : Nat) (s : Processor) : KeepsAbove q sp s s :=
  ⟨⟨s.kernel.dev, rfl⟩, rfl, rfl, fun _ _ => rfl⟩

theorem KeepsAbove.trans (h : KeepsAbove q sp s t) (h' : KeepsAbove q sp t u) :
    KeepsAbove q sp s u := by
  obtain ⟨dev, hk⟩ := h.kernel
  obtain ⟨dev', hk'⟩ := h'.kernel
  refine ⟨⟨dev', ?_⟩, h'.cs.trans h.cs, h'.ss.trans h.ss, fun addr ha => ?_⟩
  · rw [hk', hk]
    rfl
  · rw [h'.memory addr ha, h.memory addr ha]

theorem guarded_mono {sp' addr : Nat} (h : Guarded q sp addr) (hsp : sp' ≤ sp) :
    Guarded q sp' addr := by
  rcases h with h | h | ⟨hl, hh⟩
  · exact .inl h
  · exact .inr (.inl h)
  · exact .inr (.inr ⟨by omega, hh⟩)

theorem handlerEntry_reg (gate : Gate) (next : UInt32) :
    (s.handlerEntry gate next).reg =
      { (s.interrupt gate s.reg.eip).reg with
        esp := (s.interrupt gate s.reg.eip).reg.esp - 32 - 4 } := by
  rw [handlerEntry, push_reg, pushal_reg]
  rfl

theorem handlerEntry_esp (hlevel : level s.reg.cs = 0) (h : 48 ≤ s.reg.esp.toNat) (gate : Gate)
    (next : UInt32) : (s.handlerEntry gate next).reg.esp.toNat = s.reg.esp.toNat - 48 := by
  have hsum : s.reg.esp - 4 - 4 - 4 - 32 - 4 = s.reg.esp - 48 := by grind
  rw [handlerEntry_reg, interrupt_kernel_reg hlevel]
  change (s.reg.esp - 4 - 4 - 4 - 32 - 4).toNat = _
  rw [hsum]
  exact UInt32.toNat_sub_of_le _ _ h

theorem kernel_returns {gate : Gate} {next : UInt32} (hgate : level gate.selector = 0)
    (hq : q < maxPid) (hlevel : level s.reg.cs = 0)
    (hroom : (kernelWindow q).lo + 48 ≤ s.reg.esp.toNat) (hsp : s.reg.esp.toNat ≤ sp)
    (hhi : sp ≤ (kernelWindow q).hi)
    (hv : KeepsAbove q ((s.handlerEntry gate next).reg.esp.toNat + 4) (s.handlerEntry gate next) v)
    (hesp : v.reg.esp = (s.handlerEntry gate next).reg.esp + 4) :
    v.popal.iret.reg = s.reg ∧ KeepsAbove q sp s v.popal.iret := by
  -- the bytes from the stack pointer up are outside of this window
  let w : Window := ⟨(kernelWindow q).lo, s.reg.esp.toNat, (kernelWindow q).lo⟩
  have hmaps : ∀ t : Processor, t.Maps w := by
    intro t
    refine ⟨s.reg.esp.toNat_lt, fun a hl hh => ?_⟩
    exact (t.maps_kernelWindow hq).physical a hl (hh.trans_le (hsp.trans hhi))
  have hstack : OnStack w s.kernel s.phys 12 s [] :=
    ⟨rfl, fun _ _ => rfl, hmaps s, hroom, Nat.le_refl _, trivial⟩
  have hframe := handlerEntry_frame (n := 0)
    (interrupt_kernel_frame (n := 9) hlevel hstack gate s.reg.eip) next
  have hbelow := handlerEntry_esp hlevel (by omega) gate next
  have hentry := handlerEntry_reg (s := s) gate next
  have hreg := interrupt_kernel_reg hlevel gate s.reg.eip
  obtain ⟨hpopped, hpop⟩ := popal_frame (hframe.returned rfl hesp (hmaps v)
    fun a hl hh => hv.memory a (.inr (.inr ⟨hl, hh.trans_le (hsp.trans hhi)⟩)))
  have hcs : level v.popal.reg.cs = 0 := by
    rw [hpop, hv.cs, hentry, hreg]
    exact hgate
  have hend : v.popal.iret.reg = s.reg := by
    have hsum : s.reg.esp - 4 - 4 - 4 - 32 - 4 + 4 + 32 + 12 = s.reg.esp := by grind
    rw [iret_kernel_reg hpopped hcs hlevel, hpop, hv.ss, hesp, hentry, hreg, hsum]
  have hphys : v.popal.iret.phys = v.phys := by rw [iret_phys, popal_phys]
  obtain ⟨dev, hk⟩ := hv.kernel
  refine ⟨hend, ⟨dev, ?_⟩, by rw [hend], by rw [hend], fun addr ha => ?_⟩
  · rw [iret_kernel, popal_kernel, hk, hframe.kernel]
  · rw [hphys, hv.memory addr (guarded_mono ha (by omega))]
    apply hframe.outside
    obtain ⟨hlo, hbase, hhi'⟩ := kernelWindow_bounds hq
    have hin : w.Covers addr → (kernelWindow q).Covers addr := by
      change (kernelWindow q).lo ≤ addr ∧ addr < (kernelWindow q).lo +
        (s.reg.esp.toNat - (kernelWindow q).lo) → _
      unfold maxPid at hq
      unfold Window.Covers
      omega
    rcases ha with ⟨p, hp, ha⟩ | ⟨p, hp, hne, ha⟩ | ⟨hl, -⟩
    · exact fun hc => covers_apart hq hp (.inl ha) (hin hc)
    · exact fun hc => covers_apart hq hp (.inr ⟨hne, ha⟩) (hin hc)
    · rintro ⟨-, hh⟩
      change addr < (kernelWindow q).lo + (s.reg.esp.toNat - (kernelWindow q).lo) at hh
      omega

/-- By induction on the handler: those that come in between are steps of it. -/
theorem Handling.keeps (h : Handling L q sp s t) (hgates : L.ToKernel) (hq : q < maxPid)
    (hlevel : level s.reg.cs = 0) (hhi : sp ≤ (kernelWindow q).hi) : KeepsAbove q sp s t := by
  induction h with
  | done => exact .refl ..
  | own hstep _ ih => exact hstep.trans (ih (hstep.cs ▸ hlevel) hhi)
  | @interrupted sp s v u gate next hgate hroom hsp _ hesp _ ihhandler ih =>
    have hselector : level gate.selector = 0 := by
      rcases hgate with rfl | rfl
      · exact hgates.keyInterrupt
      · exact hgates.rtcInterrupt
    have hentry : (s.handlerEntry gate next).reg.cs = gate.selector := by
      rw [handlerEntry_reg, interrupt_kernel_reg hlevel]
    have hbelow := handlerEntry_esp hlevel (by omega) gate next
    have hv := ihhandler (hentry ▸ hselector) (by omega)
    obtain ⟨hreg, hkept⟩ := kernel_returns hselector hq hlevel hroom hsp hhi hv hesp
    exact hkept.trans (ih (hreg ▸ hlevel) hhi)

/-! ### Interrupts of a program -/

def handled (u : Processor) : Processor := u.withReg (.setEsp (u.reg.esp + 4) u.reg)

end Processor
end MyLinuxOS
