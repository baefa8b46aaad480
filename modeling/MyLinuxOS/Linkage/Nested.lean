import MyLinuxOS.Linkage.Library

/-! Programs that start programs, on the level of the processor: while a child and its children run,
the frame that the `execute` of the parent has left on its kernel stack stays as it is, and `halt`
leads back through it. -/

namespace MyLinuxOS
open Foundation

/-! ### The kernel's variables -/

/-- The process on the processor is in slot `q`; its slot and that of the base shell are in use. -/
structure Kernel.Hosts (k : Kernel) (q : Nat) : Prop where
  pid : k.pid = q
  lt : q < maxPid
  live : k.pidArray q ≠ 0
  root : k.pidArray 0 ≠ 0
  noException : k.globalflag = 0
  pidOf : ∀ p, k.pidArray p ≠ 0 → (k.pcb p).pid = p
  tss : k.tss = ⟨kernelDs, Kernel.kernelStackTop q⟩
  page : k.programBase = programMemory q

/-- What a program leaves as it is, whatever it does with its files and its children. -/
structure Kernel.Resident (k k' : Kernel) : Prop where
  pid : k'.pid = k.pid
  pidArray : k'.pidArray = k.pidArray
  globalflag : k'.globalflag = k.globalflag
  tss : k'.tss = k.tss
  page : k'.programBase = k.programBase
  blocks : ∀ p, k.pidArray p ≠ 0 → (k'.pcb p).pid = (k.pcb p).pid ∧
    (k'.pcb p).parentPid = (k.pcb p).parentPid ∧ (k'.pcb p).savedFrame = (k.pcb p).savedFrame

section
variable {img : Image} {k k' k'' : Kernel} {q : Nat}

theorem Kernel.Resident.refl (k : Kernel) : k.Resident k :=
  ⟨rfl, rfl, rfl, rfl, rfl, fun _ _ => ⟨rfl, rfl, rfl⟩⟩

theorem Kernel.Resident.trans (h : k.Resident k') (h' : k'.Resident k'') : k.Resident k'' := by
  refine ⟨h'.pid.trans h.pid, h'.pidArray.trans h.pidArray, h'.globalflag.trans h.globalflag,
    h'.tss.trans h.tss, h'.page.trans h.page, fun p hp => ?_⟩
  obtain ⟨h1, h2, h3⟩ := h.blocks p hp
  obtain ⟨h1', h2', h3'⟩ := h'.blocks p (by rwa [h.pidArray])
  exact ⟨h1'.trans h1, h2'.trans h2, h3'.trans h3⟩

theorem Kernel.Hosts.resident (h : k.Hosts q) (hk : k.Resident k') : k'.Hosts q := by
  refine ⟨hk.pid.trans h.pid, h.lt, ?_, ?_, hk.globalflag.trans h.noException, fun p hp => ?_,
    hk.tss.trans h.tss, hk.page.trans h.page⟩
  · rw [hk.pidArray]; exact h.live
  · rw [hk.pidArray]; exact h.root
  · rw [hk.pidArray] at hp
    exact (hk.blocks p hp).1.trans (h.pidOf p hp)

theorem Kernel.OnlyFiles.resident (h : k.OnlyFiles k') : k.Resident k' := by
  obtain ⟨fds, dev, rfl⟩ := h
  have hfield : ∀ {α : Type} (f : Pcb → α), (∀ b fds, f { b with fdArray := fds } = f b) → ∀ p,
      f ((k.setPcb k.pid { k.currPcb with fdArray := fds }).pcb p) = f (k.pcb p) :=
    fun f hf p => k.setPcb_field f (hf ..) p
  exact ⟨rfl, rfl, rfl, rfl, rfl, fun p _ => ⟨hfield Pcb.pid (fun _ _ => rfl) p,
    hfield Pcb.parentPid (fun _ _ => rfl) p, hfield Pcb.savedFrame (fun _ _ => rfl) p⟩⟩

/-- A call that returns leaves the kernel in the process that makes it, but for an `execute` that
finds a slot and nothing to load. -/
def ProgramCall.Stays (c : ProgramCall) (k : Kernel) : Prop :=
  ∀ command, c = .execute command → k.freeSlot = none

theorem programWorld_resident {c : ProgramCall} {a : Answer} (hstays : c.Stays k)
    (h : programWorld img k c a k') : k.Resident k' := by
  have hkept := programWorld_kept h
  obtain ⟨dev, junk, frame, h⟩ := h
  cases c with
  | execute command =>
    have hfull : (k.withDev dev).freeSlot = none := hstays command rfl
    rcases syscallExecute_cases h with ⟨-, -, dev', hk⟩ | ⟨slot, args, hslot, -⟩ |
      ⟨slot, args, d, hslot, -⟩
    · obtain rfl : k' = _ := hk
      exact (k.onlyFiles_withDev dev').resident
    · exact absurd (hfull.symm.trans hslot) (by simp)
    · exact absurd (hfull.symm.trans hslot) (by simp)
  | user c => exact (userWorld_onlyFiles k c a k' ⟨dev, junk, h⟩).resident
  | vidmap screenStart =>
    rcases syscallVidmap_cases h with ⟨-, hleft⟩ | ⟨-, exit, -, hleft⟩
    · obtain rfl : k' = _ := congrArg Left.kernel hleft
      exact (k.onlyFiles_withDev dev).resident
    · obtain rfl : k' = _ := congrArg Left.kernel hleft
      exact ⟨rfl, rfl, rfl, rfl, hkept.2, fun _ _ => ⟨rfl, rfl, rfl⟩⟩
  | setHandler signum handlerAddress =>
    obtain rfl : k.withDev dev = k' := congrArg Left.kernel (Except.ok.inj h)
    exact (k.onlyFiles_withDev dev).resident
  | sigreturn =>
    obtain rfl : k.withDev dev = k' := congrArg Left.kernel (Except.ok.inj h)
    exact (k.onlyFiles_withDev dev).resident

/-! ### A child in the kernel's variables -/

theorem programBase_of_helper {k : Kernel} {q : Nat} (hq : q < maxPid)
    (h : (k.paging.pageDirectory userProgramIndex).addr =
      frameOf (q * pageSize4MB + kpageSize)) : k.programBase = programMemory q := by
  rw [Kernel.programBase, h]
  unfold maxPid at hq
  unfold frameOf programMemory pageSize4MB kpageSize bytesToAlignTo
  omega

structure Kernel.Started (k : Kernel) (q : Nat) (frame : Frame) (k₁ : Kernel) : Prop where
  hosts : k₁.Hosts k₁.pid
  free : k.pidArray k₁.pid = 0
  root : k₁.pid ≠ 0
  pidArray : k₁.pidArray = Function.update k.pidArray k₁.pid 1
  block : (k₁.pcb k₁.pid).parentPid = q ∧ (k₁.pcb k₁.pid).savedFrame = frame
  others : ∀ p, p ≠ k₁.pid → k₁.pcb p = k.pcb p

theorem Kernel.Hosts.started {junk : StackBytes} {frame : Frame} {command : CString} {left : Left}
    (h : k.Hosts q) (hparent : k.parentPid = q)
    (hexec : syscallExecute img junk frame command k = .ok left) (hexit : left.exit = .iret) :
    k.Started q frame left.kernel := by
  obtain ⟨slot, args, d, hslot, -, rfl⟩ := syscallExecute_entered hexec hexit
  obtain ⟨hlt, hfree, -⟩ := Kernel.freeSlot_eq_some hslot
  have hroot : slot ≠ 0 := by
    rintro rfl
    exact h.root hfree
  have hblock : ((k.prepared slot args).enterProgram img junk frame d).kernel.currPcb = _ :=
    entered_currPcb frame args
  rw [Kernel.prepared_pcb_self] at hblock
  have harray : ((k.prepared slot args).enterProgram img junk frame d).kernel.pidArray =
      Function.update k.pidArray slot 1 := rfl
  have hother : ∀ p, p ≠ slot →
      ((k.prepared slot args).enterProgram img junk frame d).kernel.pcb p = k.pcb p :=
    fun p hp => entered_pcb_of_ne frame args hp
  refine ⟨⟨rfl, hlt, ?_, ?_, h.noException, fun p hp => ?_, rfl, ?_⟩, hfree, hroot, rfl, ⟨?_, ?_⟩,
    hother⟩
  · change Function.update k.pidArray slot 1 slot ≠ 0
    rw [Function.update_self]
    decide
  · change Function.update k.pidArray slot 1 0 ≠ 0
    rw [Function.update_of_ne hroot.symm]
    exact h.root
  · by_cases he : p = slot
    · subst he
      exact congrArg Pcb.pid hblock
    · rw [harray, Function.update_of_ne he] at hp
      rw [hother p he]
      exact h.pidOf p hp
  · exact programBase_of_helper hlt (Kernel.enterProgram_addr ..)
  · have hp : ((k.prepared slot args).enterProgram img junk frame d).kernel.currPcb.parentPid =
        if slot = 0 then 0 else k.parentPid := congrArg Pcb.parentPid hblock
    exact hp.trans ((if_neg hroot).trans hparent)
  · exact congrArg Pcb.savedFrame hblock

inductive ProgramEnd
  | halt (status : UInt8)
  | fault (entry : Fin 20)

namespace ProgramEnd

def result : ProgramEnd → UInt32
  | .halt status => Kernel.statusFlag status
  | .fault _ => exceptHalt

def enter (img : Image) (junk : StackBytes) (frame : Frame) (k : Kernel) : ProgramEnd → Entry
  | .halt status => syscallHalt img junk frame status k
  | .fault entry => exceptions img junk frame entry k

def raised (k : Kernel) : ProgramEnd → Kernel × UInt8
  | .halt status => (k, status)
  | .fault entry => (k.raised entry, 0)

theorem enter_eq (img : Image) (junk : StackBytes) (frame : Frame) (k : Kernel) (e : ProgramEnd) :
    e.enter img junk frame k = syscallHalt img junk frame (e.raised k).2 (e.raised k).1 := by
  cases e <;> rfl

theorem raised_kept (k : Kernel) (e : ProgramEnd) : (e.raised k).1.pid = k.pid ∧
    (e.raised k).1.pcb = k.pcb ∧ (e.raised k).1.pidArray = k.pidArray := by
  cases e <;> exact ⟨rfl, rfl, rfl⟩

theorem resumes (e : ProgramEnd) (h : k.globalflag = 0) (p : Nat) :
    ((e.raised k).1.closeFiles.backToParent p (e.raised k).2).exit =
        .resume ((e.raised k).1.closeFiles.pcb p).savedFrame e.result ∧
      ((e.raised k).1.closeFiles.backToParent p (e.raised k).2).kernel.globalflag = 0 := by
  cases e with
  | halt status => exact backToParent_of_clear (k := k.closeFiles) h p status
  | fault entry => exact ⟨rfl, rfl⟩

end ProgramEnd

theorem Kernel.Started.ended {junk : StackBytes} {frame frame' fr : Frame} {e : ProgramEnd}
    {eax : UInt32} {k₁ k₂ : Kernel} {left : Left} (h : k.Hosts q) (hs : k.Started q frame k₁)
    (hk : k₁.Resident k₂) (hend : e.enter img junk frame' k₂ = .ok left)
    (hexit : left.exit = .resume fr eax) :
    fr = frame ∧ eax = e.result ∧ k.Resident left.kernel := by
  have hhosts := hs.hosts.resident hk
  obtain ⟨hid, hparent, hframe⟩ := hk.blocks k₁.pid hs.hosts.live
  have hcurr : k₂.pid = k₁.pid := hhosts.pid
  obtain ⟨hpid₃, hpcb₃, harray₃⟩ := e.raised_kept k₂
  obtain ⟨hresume, hflag⟩ := e.resumes hhosts.noException (e.raised k₂).1.pid
  rw [e.enter_eq] at hend
  generalize (e.raised k₂).1 = k₃ at hend hresume hflag hpid₃ hpcb₃ harray₃
  generalize (e.raised k₂).2 = status at hend hresume hflag
  have hne : k₃.currPcb.pid ≠ 0 := by
    rw [Kernel.currPcb, hpid₃, hpcb₃, hcurr, hid, hs.hosts.pidOf _ hs.hosts.live]
    exact hs.root
  rw [syscallHalt_of_ne hne] at hend
  obtain rfl := Except.ok.inj hend
  rw [hresume] at hexit
  have hsaved : (k₃.closeFiles.pcb k₃.pid).savedFrame = frame := by
    rw [k₃.closeFiles_pcb_field Pcb.savedFrame (fun _ _ => rfl) k₃.pid, hpid₃, hpcb₃, hcurr, hframe]
    exact hs.block.2
  have hto : k₃.parentOf k₃.pid = q := by
    rw [Kernel.parentOf, hpid₃, hpcb₃, hcurr, hparent]
    exact hs.block.1
  have hpid : (k₃.closeFiles.backToParent k₃.pid status).kernel.pid = q :=
    (Lineage.backToParent_pid k₃ status).trans hto
  obtain ⟨rfl, rfl⟩ :
      (k₃.closeFiles.pcb k₃.pid).savedFrame = fr ∧ e.result = eax := by
    injection hexit with h1 h2
    exact ⟨h1, h2⟩
  refine ⟨hsaved, rfl, hpid.trans h.pid.symm, ?_, hflag.trans h.noException.symm, ?_, ?_,
    fun p hp => ?_⟩
  · rw [Lineage.backToParent_pidArray, harray₃, hpid₃, hk.pidArray, hcurr, hs.pidArray,
      Function.update_idem, ← hs.free, Function.update_eq_self]
  · rw [h.tss, ← hpid]
    rfl
  · rw [h.page, ← hpid]
    exact programBase_of_helper (hpid ▸ h.lt) (Paging.syscallHelper_addr ..)
  · have hne' : p ≠ k₁.pid := by
      rintro rfl
      exact hp hs.free
    have hlive : k₁.pidArray p ≠ 0 := by rwa [hs.pidArray, Function.update_of_ne hne']
    have hfield : ∀ {α : Type} (f : Pcb → α),
        (∀ b fds, f { b with fdArray := fds } = f b) →
        (∀ b flag, f { b with exceptionFlag := flag } = f b) →
        f ((k₃.closeFiles.backToParent k₃.pid status).kernel.pcb p) = f (k₂.pcb p) :=
      fun f hf hf' => hpcb₃ ▸ (k₃.closeFiles.backToParent_pcb_field f hf' k₃.pid status p).trans
        (k₃.closeFiles_pcb_field f hf p)
    obtain ⟨h1, h2, h3⟩ := hk.blocks p hlive
    rw [← hs.others p hne']
    exact ⟨(hfield Pcb.pid (fun _ _ => rfl) fun _ _ => rfl).trans h1,
      (hfield Pcb.parentPid (fun _ _ => rfl) fun _ _ => rfl).trans h2,
      (hfield Pcb.savedFrame (fun _ _ => rfl) fun _ _ => rfl).trans h3⟩

end

/-! ### A child on the processor -/

/-- The bytes of the other slots in use: their pages, and their kernel stacks with the frames of
those that wait in an `execute`. -/
def Spared (q : Nat) (k : Kernel) (m m' : Nat → UInt8) : Prop :=
  ∀ p < maxPid, p ≠ q → k.pidArray p ≠ 0 → ∀ addr,
    (programWindow p).Covers addr ∨ (kernelWindow p).Covers addr → m' addr = m addr

/-- `syscall_execute` as compiled with a frame pointer, from its first instruction on the stack of
slot `q` to the first instruction of the program that it starts. -/
structure StartsProgram (img : Image) (q : Nat) (command : CString) (u w : Processor) : Prop where
  argument : Lies u.view ((u.load (u.reg.esp + 4)).toNat, command.bytes ++ [0])
  entered : ∃ dev junk frame left,
    syscallExecute img junk frame command (u.kernel.withDev dev) = .ok left ∧
      left.exit = .iret ∧ w.kernel = left.kernel ∧ frame.ebp = u.reg.esp - 4
  esp : w.reg.esp = w.kernel.entryStackLocation
  eip : w.reg.eip = w.kernel.entryPoint
  user : Processor.level w.reg.cs ≠ 0
  saved : loadWord w.phys (u.reg.esp.toNat - 4) = u.reg.ebp
  stack : AgreeOn u.reg.esp.toNat (u.reg.esp.toNat + 4) u.phys w.phys ∧
    AgreeOn (u.reg.esp.toNat + 16) (Kernel.kernelStackTop q) u.phys w.phys
  memory : ∀ p < maxPid, p ≠ w.kernel.pid → ∀ addr,
    (programWindow p).Covers addr ∨ p ≠ q ∧ (kernelWindow p).Covers addr →
      w.phys addr = u.phys addr

/-- The first instruction of the function that ends a program: `syscall_halt` for call number 1, or
the one that the gate of an exception leads to. -/
inductive EntersEnd (L : Linked) (z : Processor) : ProgramEnd → Processor → Prop
  | call {status : UInt8} {next : UInt32} : z.reg.eax = 1 →
    status = ((z.inFunction L next).load ((z.inFunction L next).reg.esp + 4)).toUInt8 →
    EntersEnd L z (.halt status) (z.inFunction L next)
  | exception {entry : Fin 20} {code : Option UInt32} : code.isSome = pushesCode entry →
    EntersEnd L z (.fault entry) (z.fault (L.exception entry) code)

/-- That function as compiled, on the stack of slot `q`, to the jump of `syscall_halt` to
`return_label`. -/
structure EndsProgram (img : Image) (q : Nat) (e : ProgramEnd) (u v : Processor) : Prop where
  left : ∃ dev junk frame left fr,
    e.enter img junk frame (u.kernel.withDev dev) = .ok left ∧
      left.exit = .resume fr v.reg.eax ∧ v.kernel = left.kernel ∧ v.reg.esp = fr.esp ∧
        v.reg.ebp = fr.ebp
  cs : v.reg.cs = u.reg.cs
  memory : ∀ p < maxPid, ∀ addr,
    (programWindow p).Covers addr ∨ p ≠ q ∧ (kernelWindow p).Covers addr → v.phys addr = u.phys addr

namespace Processor
variable {img : Image} {L : Linked} {C : Compiled} {s t u v w z : Processor} {q : Nat}

def atReturnLabel (v : Processor) : Processor := v.leave.ret

theorem atReturnLabel_phys : v.atReturnLabel.phys = v.phys := rfl

theorem atReturnLabel_kernel : v.atReturnLabel.kernel = v.kernel := rfl

/-- Instructions of the program itself, and interrupts: a store of the program goes where the tables
let a user write, and the handlers work on the slot's own kernel stack and on the kernel's data. -/
structure OwnStep (q : Nat) (s t : Processor) : Prop where
  kernel : ∃ dev, t.kernel = s.kernel.withDev dev
  user : level t.reg.cs ≠ 0
  phys : ∀ addr, t.phys addr ≠ s.phys addr →
    (∃ vid a m, intended (programMemory q) vid a = some m ∧ m.user = true ∧ m.addr = addr) ∨
      ∀ p < maxPid, ¬ (programWindow p).Covers addr ∧ (p ≠ q → ¬ (kernelWindow p).Covers addr)

theorem OwnStep.spared (h : s.OwnStep q t) : Spared q s.kernel s.phys t.phys := by
  rintro p hp hne - addr hcovers
  by_contra hchanged
  rcases h.phys addr hchanged with ⟨vid, a, m, hmap, huser, rfl⟩ | hout
  · obtain ⟨hkernel, hpages⟩ := intended_isolates hmap huser
    obtain ⟨hlo, hbase, hhi⟩ := kernelWindow_bounds hp
    obtain ⟨hlo', hbase', hhi'⟩ := programWindow_bounds p
    have hpage := hpages p hp hne
    unfold maxPid at hp
    unfold Window.Covers at hcovers
    unfold kernelLocation kpageSize at hkernel
    unfold programMemory pageSize4MB kpageSize at hpage
    omega
  · obtain ⟨hpage, hstack⟩ := hout p hp
    rcases hcovers with hcovers | hcovers
    · exact hpage hcovers
    · exact hstack hne hcovers

section child
variable {command : CString} {next : UInt32} {e : ProgramEnd} {p addr : Nat}

theorem child_hosts (hs : s.InProgram q) (hk : s.kernel.Hosts q) (hparent : s.kernel.parentPid = q)
    (hstart : StartsProgram img q command (s.inFunction L next) w) :
    w.InProgram w.kernel.pid ∧ w.kernel.Hosts w.kernel.pid ∧
      ∃ dev frame, frame.ebp = (s.inFunction L next).reg.esp - 4 ∧
        (s.kernel.withDev dev).Started q frame w.kernel := by
  obtain ⟨dev, junk, frame, left, hexec, hexit, hw, hframe⟩ := hstart.entered
  rw [(inFunction_frame hs hk.lt next).kernel] at hexec
  have hstarted :=
    (hk.resident (s.kernel.onlyFiles_withDev dev).resident).started hparent hexec hexit
  rw [← hw] at hstarted
  exact ⟨⟨hstarted.hosts.tss, hstarted.hosts.page, hstart.user⟩, hstarted.hosts, dev, frame, hframe,
    hstarted⟩

theorem inFunction_cs (hs : s.InProgram q) (next : UInt32) :
    (s.inFunction L next).reg.cs = L.syscallAsm.selector := by
  rw [inFunction, callFunction_reg, comparedRegs, interrupt_reg hs.user]
  rfl

theorem entersEnd_frame (h : EntersEnd L z e u) (hgates : L.ToKernel) (hz : z.InProgram q)
    (hq : q < maxPid) : level u.reg.cs = 0 ∧
      ∃ n ws, OnStack (kernelWindow q) z.kernel z.phys n u ws := by
  cases h with
  | @call status next _ _ =>
    refine ⟨?_, 1, _, inFunction_frame hz hq next⟩
    rw [inFunction_cs hz]
    exact hgates.syscallAsm
  | @exception entry code _ =>
    obtain ⟨hlo, hbase, hhi⟩ := kernelWindow_bounds hq
    obtain ⟨n, hframe⟩ := fault_frame (hz.fresh hq) hz.user
      (by unfold maxPid at hq; omega) (L.exception entry) code
    exact ⟨hgates.exception entry, n, _, hframe⟩

theorem child_memory (hlive : s.kernel.pidArray p ≠ 0) (hp : p < maxPid) {dev : Devices}
    {frame : Frame} (hstarted : (s.kernel.withDev dev).Started q frame w.kernel)
    (hz : z.InProgram w.kernel.pid) (hspared : Spared w.kernel.pid w.kernel w.phys z.phys)
    (hgates : L.ToKernel) (henters : EntersEnd L z e u) (hend : EndsProgram img w.kernel.pid e u v)
    (hcovers : (programWindow p).Covers addr ∨ (kernelWindow p).Covers addr) :
    p ≠ w.kernel.pid ∧ v.phys addr = w.phys addr := by
  have hlt := hstarted.hosts.lt
  have hne : p ≠ w.kernel.pid := by
    rintro rfl
    exact hlive hstarted.free
  have hlive' : w.kernel.pidArray p ≠ 0 := by
    rw [hstarted.pidArray, Function.update_of_ne hne]
    exact hlive
  have hcovers' : (programWindow p).Covers addr ∨
      p ≠ w.kernel.pid ∧ (kernelWindow p).Covers addr := hcovers.imp_right fun h => ⟨hne, h⟩
  obtain ⟨-, n, ws, hframe⟩ := entersEnd_frame henters hgates hz hlt
  refine ⟨hne, ?_⟩
  calc v.phys addr
      = u.phys addr := hend.memory p hp addr hcovers'
    _ = z.phys addr := hframe.outside addr (covers_apart hlt hp hcovers')
    _ = w.phys addr := hspared p hp hne hlive' addr hcovers

theorem atReturnLabel_reg (hq : q < maxPid) {n : Nat} {ebp ra : UInt32} (hebp : v.reg.ebp.toNat = n)
    (hlo : (kernelWindow q).lo ≤ n) (hhi : n + 8 ≤ (kernelWindow q).hi)
    (h1 : loadWord v.phys n = ebp) (h2 : loadWord v.phys (n + 4) = ra) :
    v.atReturnLabel.reg =
      { v.reg with ebp := ebp, eip := ra, esp := v.reg.ebp + 4 + 4 } := by
  obtain ⟨hlo', hbase', hhi'⟩ := kernelWindow_bounds hq
  have hsame : ∀ a, (kernelWindow q).lo ≤ a → (kernelWindow q).phys a = a := by
    intro a ha
    unfold maxPid at hq
    unfold Window.phys
    omega
  have hframe : OnStack (kernelWindow q) v.kernel v.phys 0 (v.withReg (.setEsp v.reg.ebp v.reg))
      [ebp, ra] := by
    refine ⟨rfl, fun _ _ => rfl, maps_kernelWindow _ hq, ?_, ?_, ?_⟩
    · change _ ≤ v.reg.ebp.toNat
      omega
    · change v.reg.ebp.toNat + 8 ≤ _
      omega
    · change Stacked v.phys ((kernelWindow q).phys v.reg.ebp.toNat) _
      rw [hebp, hsame n hlo]
      exact ⟨h1, h2, trivial⟩
  have hleave : OnStack (kernelWindow q) v.kernel v.phys 1 v.leave [ra] :=
    hframe.pop fun _ _ => rfl
  rw [atReturnLabel, ret, pop_reg, hleave.load, leave, pop_reg, hframe.load]
  rfl

theorem frame_returns (hlevel : level v.reg.cs = 0) (hs : s.InProgram q) (hq : q < maxPid)
    (hebp : v.reg.ebp = (s.inFunction L next).reg.esp - 4)
    (hsaved : loadWord v.phys ((s.inFunction L next).reg.esp.toNat - 4) =
      (s.inFunction L next).reg.ebp)
    (hra : AgreeOn (s.inFunction L next).reg.esp.toNat ((s.inFunction L next).reg.esp.toNat + 4)
      (s.inFunction L next).phys v.phys)
    (hstack : AgreeOn ((s.inFunction L next).reg.esp.toNat + 16) (Kernel.kernelStackTop q)
      (s.inFunction L next).phys v.phys) :
    v.atReturnLabel.reg.eip = L.callReturn ∧ ∃ a b c, v.atReturnLabel.popRegisters.iret.reg =
      { s.reg with eax := v.reg.eax, ebx := a, ecx := b, edx := c, eip := next } := by
  have hentry := inFunction_frame (L := L) hs hq next
  have hroom := hentry.room
  have hbelow := hentry.below
  have hsub := hentry.push_esp
  have hword := hentry.stacked.1
  obtain ⟨hlo, hbase, hhi⟩ := kernelWindow_bounds hq
  rw [show ∀ x : UInt32, (x :: (savedRegisters (s.entryRegisters L next) ++
    s.interruptFrame next)).length = 14 from fun _ => rfl] at hbelow
  have hsame : (kernelWindow q).phys (s.inFunction L next).reg.esp.toNat =
      (s.inFunction L next).reg.esp.toNat := by
    unfold maxPid at hq
    unfold Window.phys
    omega
  rw [hsame, ← loadWord_congr hra] at hword
  have hnext : (s.inFunction L next).reg.esp.toNat - 4 + 4 =
      (s.inFunction L next).reg.esp.toNat := by omega
  have hreg := atReturnLabel_reg hq (hebp ▸ hsub) (by omega) (by omega) hsaved (hnext ▸ hword)
  have hreturned : Returned q (s.inFunction L next) v.atReturnLabel := by
    refine ⟨?_, ?_, hstack⟩
    · rw [hreg, hebp, UInt32.sub_add_cancel]
    · rw [hreg]
      exact hlevel
  obtain ⟨a, b, c, hend⟩ := return_reg hs hq hreturned
  refine ⟨by rw [hreg], a, b, c, ?_⟩
  rw [hend, hreg]

theorem execute_memory (hs : s.InProgram q) (hk : s.kernel.Hosts q) {dev : Devices} {frame : Frame}
    (hstarted : (s.kernel.withDev dev).Started q frame w.kernel)
    (hstart : StartsProgram img q command (s.inFunction L next) w)
    (hz : z.InProgram w.kernel.pid) (hspared : Spared w.kernel.pid w.kernel w.phys z.phys)
    (hgates : L.ToKernel) (henters : EntersEnd L z e u)
    (hend : EndsProgram img w.kernel.pid e u v) :
    AgreeOn ((s.inFunction L next).reg.esp.toNat - 4) (Kernel.kernelStackTop q) w.phys v.phys ∧
      ∀ p < maxPid, s.kernel.pidArray p ≠ 0 → ∀ addr,
        (programWindow p).Covers addr ∨ p ≠ q ∧ (kernelWindow p).Covers addr →
          v.phys addr = s.phys addr := by
  have hq := hk.lt
  refine ⟨fun a hl hh => ?_, fun p hp hlive addr hcovers => ?_⟩
  · refine (child_memory hk.live hq hstarted hz hspared hgates henters hend (.inr ?_)).2
    have hroom := (inFunction_frame (L := L) hs hq next).room
    obtain ⟨hlo, hbase, hhi⟩ := kernelWindow_bounds hq
    have htop := kernelStackTop_eq hq
    unfold maxPid at hq
    unfold Window.Covers
    omega
  · obtain ⟨hne, hvw⟩ :=
      child_memory hlive hp hstarted hz hspared hgates henters hend (hcovers.imp_right And.right)
    rw [hvw, hstart.memory p hp hne addr hcovers]
    exact inFunction_phys hs hq next hp hcovers

structure CameBack (L : Linked) (q : Nat) (next eax : UInt32) (s v : Processor) : Prop where
  eip : v.atReturnLabel.reg.eip = L.callReturn
  program : v.atReturnLabel.popRegisters.iret.InProgram q
  resident : s.kernel.Resident v.atReturnLabel.popRegisters.iret.kernel
  spared : Spared q s.kernel s.phys v.atReturnLabel.popRegisters.iret.phys
  page : ∀ addr, (programWindow q).Covers addr →
    v.atReturnLabel.popRegisters.iret.phys addr = s.phys addr
  reg : ∃ a b c, v.atReturnLabel.popRegisters.iret.reg =
    { s.reg with eax := eax, ebx := a, ecx := b, edx := c, eip := next }

theorem execute_returns (hgates : L.ToKernel) (hs : s.InProgram q) (hk : s.kernel.Hosts q)
    (hparent : s.kernel.parentPid = q)
    (hstart : StartsProgram img q command (s.inFunction L next) w)
    (hz : z.InProgram w.kernel.pid) (hresident : w.kernel.Resident z.kernel)
    (hspared : Spared w.kernel.pid w.kernel w.phys z.phys)
    (henters : EntersEnd L z e u) (hend : EndsProgram img w.kernel.pid e u v) :
    CameBack L q next e.result s v := by
  have hq := hk.lt
  obtain ⟨hw, hhosts, dev, frame, hframe, hstarted⟩ := child_hosts hs hk hparent hstart
  obtain ⟨dev', junk, frame', left, fr, hcall, hexit, hv, hesp, hebp⟩ := hend.left
  obtain ⟨hlevel, n, ws, hentry⟩ := entersEnd_frame henters hgates hz hhosts.lt
  rw [hentry.kernel] at hcall
  obtain ⟨rfl, heax, hback⟩ := hstarted.ended
    (hk.resident (s.kernel.onlyFiles_withDev dev).resident)
    (hresident.trans (z.kernel.onlyFiles_withDev dev').resident) hcall hexit
  rw [← hv] at hback
  have hback' : s.kernel.Resident v.kernel := (s.kernel.onlyFiles_withDev dev).resident.trans hback
  obtain ⟨hown, hkept⟩ := execute_memory hs hk hstarted hstart hz hspared hgates henters hend
  have hroom := (inFunction_frame (L := L) hs hq next).room
  have hbelow := (inFunction_frame (L := L) hs hq next).below
  rw [show ∀ x : UInt32, (x :: (savedRegisters (s.entryRegisters L next) ++
    s.interruptFrame next)).length = 14 from fun _ => rfl] at hbelow
  have htop : (kernelWindow q).hi = Kernel.kernelStackTop q := rfl
  obtain ⟨heip, a, b, c, hreg⟩ := frame_returns (v := v) (L := L)
    (by rw [hend.cs, hlevel]) hs hq (hebp.trans hframe)
    ((loadWord_congr (hown.mono (Nat.le_refl _) (by omega))).trans hstart.saved)
    (hstart.stack.1.trans (hown.mono (by omega) (by omega)))
    (hstart.stack.2.trans (hown.mono (by omega) (Nat.le_refl _)))
  have hphys : v.atReturnLabel.popRegisters.iret.phys = v.phys := by
    rw [iret_phys, popRegisters_phys, atReturnLabel_phys]
  have hkernel : v.atReturnLabel.popRegisters.iret.kernel = v.kernel := by
    rw [iret_kernel, popRegisters_kernel, atReturnLabel_kernel]
  refine ⟨heip, ⟨?_, ?_, ?_⟩, ?_, ?_, ?_, a, b, c, ?_⟩
  · rw [hkernel, hback'.tss]
    exact hs.tss
  · rw [hkernel, hback'.page]
    exact hs.page
  · rw [hreg]
    exact hs.user
  · rw [hkernel]
    exact hback'
  · intro p hp hne hlive addr hcovers
    rw [hphys]
    exact hkept p hp hlive addr (hcovers.imp_right fun h => ⟨hne, h⟩)
  · intro addr hcovers
    rw [hphys]
    exact hkept q hq hk.live addr (.inl hcovers)
  · rw [hreg, heax]

end child
end Processor

/-! ### Whole runs -/

structure Calls (img : Image) (c : ProgramCall) (s : Processor) : Prop where
  number : s.reg.eax = c.number
  words : c.words s.reg.ebx s.reg.ecx s.reg.edx
  lies : Lies s.view (c.object s.reg.ebx)
  object : InPage (c.object s.reg.ebx).1 (c.object s.reg.ebx).2.length
  dest : ∀ a k', programWorld img s.kernel c a k' → InPage c.dest.toNat a.2.length
  stays : c.Stays s.kernel

theorem ProgramCall.Stays.returns {img : Image} {c : ProgramCall} {k : Kernel} (h : c.Stays k) :
    c.Returns img k := by
  cases c with
  | execute command => exact .inl (h command rfl)
  | user c => trivial
  | vidmap screenStart => trivial
  | setHandler signum handlerAddress => trivial
  | sigreturn => trivial

/-- What the program of slot `q` does from one of its instructions to another, with all that its
children do meanwhile. A process starts children while the kernel takes it for their parent. -/
inductive Activity (img : Image) (L : Linked) (C : Compiled) : Nat → Processor → Processor → Prop
  | done {q : Nat} {s : Processor} : Activity img L C q s s
  | own {q : Nat} {s t u : Processor} : s.OwnStep q t → Activity img L C q t u →
    Activity img L C q s u
  | call {q : Nat} {s t u : Processor} {c : ProgramCall} {next : UInt32} : Calls img c s →
    (s.interrupt L.syscallAsm next).SyscallAsm L C t → Activity img L C q t u →
    Activity img L C q s u
  | execute {q : Nat} {s w z x v u : Processor} {command : CString} {e : ProgramEnd}
    {next : UInt32} : s.reg.eax = 2 → s.kernel.parentPid = q →
    StartsProgram img q command (s.inFunction L next) w → Activity img L C w.kernel.pid w z →
    EntersEnd L z e x → EndsProgram img w.kernel.pid e x v →
    Activity img L C q v.atReturnLabel.popRegisters.iret u → Activity img L C q s u

section
variable {img : Image} {L : Linked} {C : Compiled} {q : Nat} {s t : Processor}

structure SlotKept (q : Nat) (s t : Processor) : Prop where
  program : t.InProgram q
  resident : s.kernel.Resident t.kernel
  spared : Spared q s.kernel s.phys t.phys

theorem SlotKept.trans {u : Processor} (h : SlotKept q s t) (h' : SlotKept q t u) :
    SlotKept q s u := by
  refine ⟨h'.program, h.resident.trans h'.resident, fun p hp hne hlive addr hcovers => ?_⟩
  rw [h'.spared p hp hne (by rwa [h.resident.pidArray]) addr hcovers]
  exact h.spared p hp hne hlive addr hcovers

theorem Calls.kept {c : ProgramCall} {next : UInt32} (h : Calls img c s) (hgates : L.ToKernel)
    (hC : Compiles img C) (hs : s.InProgram q)
    (hq : q < maxPid) (hrun : (s.interrupt L.syscallAsm next).SyscallAsm L C t) :
    SlotKept q s t := by
  obtain ⟨a, hworld, ht, -, hmem⟩ := Processor.int_call hgates.syscallAsm hC hq hs h.number
    h.words h.lies h.object h.dest h.stays.returns hrun
  refine ⟨ht, programWorld_resident h.stays hworld, fun p hp hne hlive addr hcovers => ?_⟩
  rw [hmem p hp addr (hcovers.imp_right fun h => ⟨hne, h⟩)]
  apply applyStores_of_ne
  apply Processor.mapped_ne hs (h.dest a _ hworld)
  obtain ⟨hlo, hbase, hhi⟩ := kernelWindow_bounds hp
  obtain ⟨hlo', hbase', hhi'⟩ := programWindow_bounds p
  obtain ⟨hlo'', hbase'', hhi''⟩ := programWindow_bounds q
  unfold maxPid at hp
  unfold Window.Covers at hcovers ⊢
  omega

theorem Processor.OwnStep.kept (h : s.OwnStep q t) (hs : s.InProgram q) : SlotKept q s t := by
  obtain ⟨dev, hk⟩ := h.kernel
  refine ⟨⟨?_, ?_, h.user⟩, ?_, h.spared⟩
  · rw [hk]
    exact hs.tss
  · rw [hk]
    exact hs.page
  · rw [hk]
    exact (s.kernel.onlyFiles_withDev dev).resident

/-- By induction on the run: a child's run is one step of its parent's. -/
theorem Activity.kept (h : Activity img L C q s t) (hgates : L.ToKernel) (hC : Compiles img C)
    (hs : s.InProgram q) (hk : s.kernel.Hosts q) : SlotKept q s t := by
  induction h with
  | done => exact ⟨hs, .refl _, fun _ _ _ _ _ _ => rfl⟩
  | own hstep _ ih =>
    have hkept := hstep.kept hs
    exact hkept.trans (ih hkept.program (hk.resident hkept.resident))
  | call hcall hrun _ ih =>
    have hkept := hcall.kept hgates hC hs hk.lt hrun
    exact hkept.trans (ih hkept.program (hk.resident hkept.resident))
  | execute _ hparent hstart _ henters hend _ ihchild ih =>
    obtain ⟨hw, hhosts, -⟩ := Processor.child_hosts hs hk hparent hstart
    have hchild := ihchild hw hhosts
    have hback := Processor.execute_returns hgates hs hk hparent hstart hchild.program
      hchild.resident hchild.spared henters hend
    have hkept : SlotKept _ _ _ := ⟨hback.program, hback.resident, hback.spared⟩
    exact hkept.trans (ih hkept.program (hk.resident hkept.resident))

end

end MyLinuxOS
