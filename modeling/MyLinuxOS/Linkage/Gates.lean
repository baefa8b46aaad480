import MyLinuxOS.Kernel.Descriptors
import MyLinuxOS.Linkage.Library
import MyLinuxOS.Memory.Loading

/-! The table that `initialize_idt` leaves leads every interrupt into the kernel, and those that have
a handler to it. -/

namespace MyLinuxOS
open Foundation

namespace IdtDesc

structure Initialized (v : Nat) (d : IdtDesc) : Prop where
  selector : segSelector.get d = kernelCs
  kind : kind.get d = if v < reserved then 0b01111 else 0b01110
  dpl : dpl.get d = if v < reserved then 0 else userLevel
  present : present.get d = 1

variable {v : Nat} {d : IdtDesc} {handler : UInt32}

theorem kind_eq : kind.get d = reserved3.get d + 2 ^ 1 * (reserved2.get d +
    2 ^ 1 * (reserved1.get d + 2 ^ 1 * (size.get d + 2 ^ 1 * reserved0.get d))) := by
  have h1 : BitField.get ⟨43, 2, by decide⟩ d = size.get d + 2 ^ 1 * reserved0.get d :=
    BitField.get_split rfl rfl rfl
  have h2 : BitField.get ⟨42, 3, by decide⟩ d =
      reserved1.get d + 2 ^ 1 * BitField.get ⟨43, 2, by decide⟩ d :=
    BitField.get_split rfl rfl rfl
  have h3 : BitField.get ⟨41, 4, by decide⟩ d =
      reserved2.get d + 2 ^ 1 * BitField.get ⟨42, 3, by decide⟩ d :=
    BitField.get_split rfl rfl rfl
  rw [← h1, ← h2, ← h3]
  exact BitField.get_split rfl rfl rfl

theorem initializeEntry_initialized : Initialized v (initializeEntry v d) := by
  unfold initializeEntry
  -- a field is read back behind the assignments to other fields
  by_cases hv : v < reserved
  · constructor <;> simp (disch := decide) only [if_pos hv, kind_eq, BitField.get_set_of_apart,
      BitField.get_set] <;> rfl
  · constructor <;> simp (disch := decide) only [if_neg hv, kind_eq, BitField.get_set_of_apart,
      BitField.get_set] <;> rfl

theorem initializeEntry_offset : (initializeEntry v d).offset = d.offset := by
  unfold initializeEntry offset
  by_cases hv : v < reserved <;>
    simp (disch := decide) only [hv, if_true, if_false, BitField.get_set_of_apart]

theorem Initialized.setIdtEntry (h : Initialized v d) : Initialized v (setIdtEntry handler d) := by
  unfold MyLinuxOS.setIdtEntry
  constructor <;> simp (disch := decide) only [BitField.get_set_of_apart]
  · exact h.selector
  · exact h.kind
  · exact h.dpl
  · exact h.present

theorem setIdtEntry_offset : (setIdtEntry handler d).offset = handler := by
  have hlt : handler.toNat < 2 ^ 32 := handler.toNat_lt
  have hhigh : ((handler &&& 0xFFFF0000) >>> 16).toNat = handler.toNat / 2 ^ 16 % 2 ^ 16 := by
    rw [UInt32.toNat_shiftRight, UInt32.toNat_and]
    change (handler.toNat &&& 0xFFFF0000) >>> 16 = _
    rw [Nat.shiftRight_and_distrib, Nat.shiftRight_eq_div_pow]
    exact Nat.and_two_pow_sub_one_eq_mod _ 16
  have hlow : (handler &&& 0xFFFF).toNat = handler.toNat % 2 ^ 16 := by
    rw [UInt32.toNat_and]
    exact Nat.and_two_pow_sub_one_eq_mod _ 16
  unfold offset MyLinuxOS.setIdtEntry
  simp (disch := decide) only [BitField.get_set_of_apart, BitField.get_set]
  apply UInt32.toNat_inj.mp
  rw [hhigh, hlow, UInt32.toNat_ofNat']
  change (handler.toNat % 2 ^ 16 % 2 ^ 16 +
    2 ^ 16 * (handler.toNat / 2 ^ 16 % 2 ^ 16 % 2 ^ 16)) % 2 ^ 32 = _
  omega

theorem Initialized.decode (h : Initialized v d) : d.decode = some {
    gate := ⟨UInt32.ofNat kernelCs, d.offset⟩
    trap := v < reserved
    level := if v < reserved then 0 else 3 } := by
  unfold IdtDesc.decode
  rw [h.kind, h.selector, h.dpl, h.present]
  by_cases hv : v < reserved
  · simp [hv]
  · simp [hv, userLevel]

end IdtDesc

/-! ### The table -/

section
variable {h : Handlers} {idt : Idt} {v : Nat}

theorem connected_vectors : h.connected.map Prod.fst =
    List.range 20 ++ [keyboardInterruptIndex, rtcInterruptIndex, syscallInterruptIdx] := rfl

theorem not_connected (hv : 20 ≤ v) (hkey : v ≠ keyboardInterruptIndex)
    (hrtc : v ≠ rtcInterruptIndex) (hcall : v ≠ syscallInterruptIdx) :
    v ∉ h.connected.map Prod.fst := by
  rw [connected_vectors, List.mem_append, List.mem_range]
  rintro (hexception | hinterrupt)
  · exact absurd hv (Nat.not_le.mpr hexception)
  · simp [hkey, hrtc, hcall] at hinterrupt

theorem connected_lt {c : Nat × UInt32} (hc : c ∈ h.connected) : c.1 < numVec := by
  have hmem := List.mem_map_of_mem (f := Prod.fst) hc
  rw [connected_vectors] at hmem
  revert hmem
  generalize c.1 = v
  revert v
  decide

theorem initializeLoop_eq (hv : v < numVec) :
    assignAll id initializeEntry idt (List.range numVec) v = initializeEntry v (idt v) :=
  assignAll_of_mem id initializeEntry (by rw [List.map_id]; exact List.nodup_range)
    (List.mem_range.mpr hv)

theorem initializeIdt_connected {c : Nat × UInt32} (hc : c ∈ h.connected) :
    initializeIdt h idt c.1 = setIdtEntry c.2 (initializeEntry c.1 (idt c.1)) := by
  have hkeys : (h.connected.map Prod.fst).Nodup := by
    rw [connected_vectors]
    decide
  calc initializeIdt h idt c.1
      = setIdtEntry c.2 (assignAll id initializeEntry idt (List.range numVec) c.1) :=
        assignAll_of_mem Prod.fst (fun c => setIdtEntry c.2) hkeys hc
    _ = _ := by rw [initializeLoop_eq (connected_lt hc)]

theorem initializeIdt_other (hv : v < numVec) (hother : v ∉ h.connected.map Prod.fst) :
    initializeIdt h idt v = initializeEntry v (idt v) := by
  have hne : ∀ c ∈ h.connected, c.1 ≠ v := fun c hc hsame =>
    hother (hsame ▸ List.mem_map_of_mem hc)
  calc initializeIdt h idt v
      = assignAll id initializeEntry idt (List.range numVec) v :=
        assignAll_of_notMem Prod.fst (fun c => setIdtEntry c.2) hne
    _ = _ := initializeLoop_eq hv

theorem initializeIdt_initialized (hv : v < numVec) :
    (initializeIdt h idt v).Initialized v := by
  by_cases hin : v ∈ h.connected.map Prod.fst
  · obtain ⟨c, hc, rfl⟩ := List.mem_map.mp hin
    rw [initializeIdt_connected hc]
    exact IdtDesc.initializeEntry_initialized.setIdtEntry
  · rw [initializeIdt_other hv hin]
    exact IdtDesc.initializeEntry_initialized

theorem initializeIdt_handler {c : Nat × UInt32} (hc : c ∈ h.connected) :
    (initializeIdt h idt c.1).offset = c.2 := by
  rw [initializeIdt_connected hc, IdtDesc.setIdtEntry_offset]

theorem initializeIdt_kept (hv : v < numVec) (hother : v ∉ h.connected.map Prod.fst) :
    (initializeIdt h idt v).offset = (idt v).offset := by
  rw [initializeIdt_other hv hother, IdtDesc.initializeEntry_offset]

end

/-! ### Interrupts through the table -/

def Handlers.linked (h : Handlers) (L : Linked) : Linked :=
  let gate := fun address => ⟨UInt32.ofNat kernelCs, address⟩
  { L with
    syscallAsm := gate h.syscallAsm
    rtcInterrupt := gate h.rtcInterrupt
    keyInterrupt := gate h.keyInterrupt
    exception := fun entry => gate (h.exception entry) }

theorem Handlers.linked_toKernel (h : Handlers) (L : Linked) : (h.linked L).ToKernel := by
  have hlevel : Processor.level (UInt32.ofNat kernelCs) = 0 := by decide
  exact ⟨hlevel, hlevel, hlevel, fun _ => hlevel⟩

/-- Interrupts lead where the linkage says, and into the kernel only. `old` is the table from
before. -/
structure IdtDelivers (L : Linked) (old idt : Idt) : Prop where
  gates : L.ToKernel
  exception : ∀ (s : Processor) (entry : Fin 20) code,
    s.deliver idt entry (.exception code) = some (s.fault (L.exception entry) code)
  key : ∀ s : Processor,
    s.deliver idt keyboardInterruptIndex .device = some (s.interrupt L.keyInterrupt s.reg.eip)
  rtc : ∀ s : Processor,
    s.deliver idt rtcInterruptIndex .device = some (s.interrupt L.rtcInterrupt s.reg.eip)
  call : ∀ (s : Processor) next,
    s.deliver idt syscallInterruptIdx (.instruction next) = some (s.interrupt L.syscallAsm next)
  /-- A program cannot pretend that an exception is raised. -/
  refused : ∀ (s : Processor) v next, v < reserved → Processor.level s.reg.cs ≠ 0 →
    s.deliver idt v (.instruction next) = none
  /-- Every other vector is open to programs. Where nothing is connected, the address is the one
  from before. -/
  admitted : ∀ (s : Processor) v next, reserved ≤ v → v < numVec →
    s.deliver idt v (.instruction next) =
      some (s.interrupt ⟨UInt32.ofNat kernelCs, (idt v).offset⟩ next)
  kept : ∀ v, 20 ≤ v → v < numVec → v ≠ keyboardInterruptIndex →
    v ≠ rtcInterruptIndex → v ≠ syscallInterruptIdx → (idt v).offset = (old v).offset
  toKernel : ∀ (s t : Processor) v cause, v < numVec → s.deliver idt v cause = some t →
    Processor.level t.reg.cs = 0

namespace Processor
variable {s t : Processor} {idt : Idt} {v : Nat}

theorem level_le (cs : UInt32) : level cs ≤ 3 := by
  rw [UInt32.le_iff_toNat_le, level, UInt32.toNat_and]
  exact Nat.and_le_right

theorem throughGate_cs (g : GateDesc) (next : UInt32) (code : Option UInt32) :
    (s.throughGate g next code).reg.cs = g.gate.selector := by
  unfold throughGate
  cases g.trap <;> cases code <;> rfl

theorem deliver_exception (h : (idt v).Initialized v) (hv : v < reserved)
    (code : Option UInt32) : s.deliver idt v (.exception code) =
      some (s.fault ⟨UInt32.ofNat kernelCs, (idt v).offset⟩ code) := by
  simp only [deliver, h.decode, Option.map_some, throughGate, hv, decide_true, if_true]
  rfl

theorem deliver_device (h : (idt v).Initialized v) (hv : reserved ≤ v) :
    s.deliver idt v .device =
      some (s.interrupt ⟨UInt32.ofNat kernelCs, (idt v).offset⟩ s.reg.eip) := by
  simp only [deliver, h.decode, Option.map_some, throughGate, Nat.not_lt.mpr hv, decide_false,
    Bool.false_eq_true, if_false]

theorem deliver_instruction (h : (idt v).Initialized v) (hv : reserved ≤ v)
    (next : UInt32) : s.deliver idt v (.instruction next) =
      some (s.interrupt ⟨UInt32.ofNat kernelCs, (idt v).offset⟩ next) := by
  have hlevel : ¬ 3 < level s.reg.cs := UInt32.not_lt.mpr (level_le _)
  simp only [deliver, h.decode, Option.bind_some, throughGate, Nat.not_lt.mpr hv, decide_false,
    Bool.false_eq_true, if_false, hlevel]

theorem deliver_refused (h : (idt v).Initialized v) (hv : v < reserved)
    (huser : level s.reg.cs ≠ 0) (next : UInt32) :
    s.deliver idt v (.instruction next) = none := by
  have hlevel : 0 < level s.reg.cs := UInt32.pos_iff_ne_zero.mpr huser
  simp only [deliver, h.decode, Option.bind_some, if_pos hv, if_pos hlevel]

theorem deliver_toKernel (h : (idt v).Initialized v) {cause : Cause}
    (ht : s.deliver idt v cause = some t) : level t.reg.cs = 0 := by
  have hthrough : ∃ g next code, g.gate.selector = UInt32.ofNat kernelCs ∧
      t = s.throughGate g next code := by
    unfold deliver at ht
    rw [h.decode] at ht
    cases cause with
    | instruction next =>
      obtain ⟨-, ht⟩ := Option.ite_none_left_eq_some.mp ht
      exact ⟨_, next, none, rfl, (Option.some.inj ht).symm⟩
    | exception code => exact ⟨_, _, code, rfl, (Option.some.inj ht).symm⟩
    | device => exact ⟨_, _, none, rfl, (Option.some.inj ht).symm⟩
  obtain ⟨g, next, code, hselector, rfl⟩ := hthrough
  rw [throughGate_cs, hselector]
  decide

end Processor

section
variable {h : Handlers} {idt : Idt} {c : Nat × UInt32} {s : Processor}

theorem exception_connected (entry : Fin 20) : (entry.val, h.exception entry) ∈ h.connected :=
  List.mem_append_left _ (List.mem_ofFn.mpr ⟨entry, rfl⟩)

theorem interrupt_connected (hc : c ∈ [(keyboardInterruptIndex, h.keyInterrupt),
    (rtcInterruptIndex, h.rtcInterrupt), (syscallInterruptIdx, h.syscallAsm)]) :
    c ∈ h.connected :=
  List.mem_append_right _ hc

theorem connected_exception (hc : c ∈ h.connected) (hv : c.1 < reserved)
    (code : Option UInt32) : s.deliver (initializeIdt h idt) c.1 (.exception code) =
      some (s.fault ⟨UInt32.ofNat kernelCs, c.2⟩ code) := by
  rw [Processor.deliver_exception (initializeIdt_initialized (connected_lt hc)) hv,
    initializeIdt_handler hc]

theorem connected_device (hc : c ∈ h.connected) (hv : reserved ≤ c.1) :
    s.deliver (initializeIdt h idt) c.1 .device =
      some (s.interrupt ⟨UInt32.ofNat kernelCs, c.2⟩ s.reg.eip) := by
  rw [Processor.deliver_device (initializeIdt_initialized (connected_lt hc)) hv,
    initializeIdt_handler hc]

theorem connected_instruction (hc : c ∈ h.connected) (hv : reserved ≤ c.1)
    (next : UInt32) : s.deliver (initializeIdt h idt) c.1 (.instruction next) =
      some (s.interrupt ⟨UInt32.ofNat kernelCs, c.2⟩ next) := by
  rw [Processor.deliver_instruction (initializeIdt_initialized (connected_lt hc)) hv,
    initializeIdt_handler hc]

end

/-- What `initialize_idt` leaves delivers so, whatever was in the table before. -/
theorem initializeIdt_delivers (h : Handlers) (L : Linked) (idt : Idt) :
    IdtDelivers (h.linked L) idt (initializeIdt h idt) := by
  constructor
  case gates => exact h.linked_toKernel L
  case exception =>
    intro s entry code
    have hlt : entry.val < reserved := Nat.lt_trans entry.isLt (by decide)
    exact connected_exception (exception_connected entry) hlt code
  case key =>
    intro s
    exact connected_device (c := (keyboardInterruptIndex, h.keyInterrupt))
      (interrupt_connected (by simp)) (by decide : reserved ≤ keyboardInterruptIndex)
  case rtc =>
    intro s
    exact connected_device (c := (rtcInterruptIndex, h.rtcInterrupt))
      (interrupt_connected (by simp)) (by decide : reserved ≤ rtcInterruptIndex)
  case call =>
    intro s next
    exact connected_instruction (c := (syscallInterruptIdx, h.syscallAsm))
      (interrupt_connected (by simp)) (by decide : reserved ≤ syscallInterruptIdx) next
  case refused =>
    intro s v next hv huser
    exact Processor.deliver_refused
      (initializeIdt_initialized (Nat.lt_trans hv (by decide))) hv huser next
  case admitted =>
    intro s v next hv hlt
    exact Processor.deliver_instruction (initializeIdt_initialized hlt) hv next
  case kept =>
    intro v hv hlt hkey hrtc hcall
    exact initializeIdt_kept hlt (not_connected hv hkey hrtc hcall)
  case toKernel =>
    intro s t v cause hlt ht
    exact Processor.deliver_toKernel (initializeIdt_initialized hlt) ht

/-! ### Vectors without a handler -/

end MyLinuxOS
