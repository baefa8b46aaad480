import MyLinuxOS.Kernel.Terminal

/-! What one call of `syscall_execute` or `syscall_halt` can do. The later modules argue from these
case lemmas and from the field lemmas below, never from the bodies of the calls. -/

namespace MyLinuxOS
open Foundation

/-! ### The program a command names -/

/-- The entry of the executable a command names, `none` if `execute` gives up on it, or the reason
why its parsing never comes to an end. -/
def commandTarget (img : Image) (junk : StackBytes) (command : CString) :
    Except Stuck (Option Dentry) := do
  let parsed ← parseCommand command fun _ => 0
  .ok (findExecutable img junk parsed.exeName)

def Loads (img : Image) (junk : StackBytes) (command : CString) : Prop :=
  ∃ d, commandTarget img junk command = .ok (some d)

theorem target_of_isSome {target : Except Stuck (Option Dentry)} {b : Bool}
    (h : target.toOption.map Option.isSome = some b) : ∃ d, target = .ok d ∧ d.isSome = b := by
  cases target with
  | error e => exact absurd h nofun
  | ok d => exact ⟨d, rfl, Option.some.inj h⟩

theorem loads_of_isSome {img : Image} {junk : StackBytes} {command : CString}
    (h : (commandTarget img junk command).toOption.map Option.isSome = some true) :
    Loads img junk command := by
  obtain ⟨target, htarget, hsome⟩ := target_of_isSome h
  obtain ⟨d, rfl⟩ := Option.isSome_iff_exists.mp hsome
  exact ⟨d, htarget⟩

theorem copyArguments_map {α : Type} (command : CString) (x : α) (fuel : Nat) (k : UInt8)
    (c c' : Nat) (args args' : Nat → UInt8) :
    (copyArguments command fuel k c args).map (fun _ => x) =
      (copyArguments command fuel k c' args').map fun _ => x := by
  induction fuel generalizing k c c' args args' with
  | zero => rfl
  | succ fuel ih =>
    rw [copyArguments, copyArguments]
    split
    · exact ih ..
    · rfl

theorem parseCommand_exeName (command : CString) (args args' : Nat → UInt8) :
    (parseCommand command args).map Parsed.exeName =
      (parseCommand command args').map Parsed.exeName := by
  unfold parseCommand
  generalize parseName command 256 0 0 (fun _ => 0) = named
  cases named with
  | error e => simp only [bind, Except.bind]
  | ok r =>
    obtain ⟨name, j⟩ := r
    have h := copyArguments_map command name 257 j 0 0
      (fun i => if i < argLength then 0 else args i)
      (fun i => if i < argLength then 0 else args' i)
    simp only [bind, Except.bind]
    generalize copyArguments command 257 j 0 (fun i => if i < argLength then 0 else args i) = x at h
    generalize
      copyArguments command 257 j 0 (fun i => if i < argLength then 0 else args' i) = y at h
    cases x with
    | error e =>
      cases y with
      | error e' => rw [Except.error.inj h]
      | ok b => exact absurd h (by simp [Except.map])
    | ok a =>
      cases y with
      | error e' => exact absurd h (by simp [Except.map])
      | ok b => rfl

theorem commandTarget_of_parse (img : Image) (junk : StackBytes) {command : CString}
    {args : Nat → UInt8} {parsed : Parsed} (h : parseCommand command args = .ok parsed) :
    commandTarget img junk command = .ok (findExecutable img junk parsed.exeName) := by
  have hname := parseCommand_exeName command (fun _ => 0) args
  rw [h] at hname
  unfold commandTarget
  cases h0 : parseCommand command fun _ => 0 with
  | error e => rw [h0] at hname; exact absurd hname (by simp [Except.map])
  | ok p =>
    rw [h0] at hname
    have he : p.exeName = parsed.exeName := Except.ok.inj hname
    simp only [bind, Except.bind, he]

theorem parse_of_commandTarget {img : Image} {junk : StackBytes} {command : CString}
    {t : Option Dentry} (h : commandTarget img junk command = .ok t) (args : Nat → UInt8) :
    ∃ parsed, parseCommand command args = .ok parsed := by
  have hname := parseCommand_exeName command (fun _ => 0) args
  unfold commandTarget at h
  cases h0 : parseCommand command fun _ => 0 with
  | error e => rw [h0] at h; exact absurd h (by simp [bind, Except.bind])
  | ok p =>
    rw [h0] at hname
    cases h1 : parseCommand command args with
    | error e => rw [h1] at hname; exact absurd hname (by simp [Except.map])
    | ok parsed => exact ⟨parsed, rfl⟩

/-! ### Execute -/

namespace Kernel

def prepared (k : Kernel) (slot : Nat) (args : Nat → UInt8) : Kernel :=
  let k := (k.assignPid slot).allocatePcb
  k.setPcb k.pid { k.currPcb with args := args }

def abandoned (k : Kernel) (slot : Nat) (args : Nat → UInt8) : Kernel :=
  let k := k.prepared slot args
  { k with pidArray := Function.update k.pidArray k.pid 0 }

section fields
variable (k : Kernel) (slot : Nat) (args : Nat → UInt8)

@[simp] theorem prepared_pid : (k.prepared slot args).pid = slot := rfl

@[simp] theorem prepared_pidArray :
    (k.prepared slot args).pidArray = Function.update k.pidArray slot 1 := rfl

@[simp] theorem prepared_parentPid :
    (k.prepared slot args).parentPid = if slot = 0 then k.parentPid else slot := rfl

theorem prepared_processActive :
    ((k.prepared slot args).termBlk k.currActiveTerminal).processActive =
      (k.termBlk k.currActiveTerminal).processActive + 1 := by
  change (Function.update k.termBlk k.currActiveTerminal _ k.currActiveTerminal).processActive = _
  rw [Function.update_self]

theorem prepared_pcb_self : (k.prepared slot args).pcb slot =
    { k.pcb slot with
      pid := slot
      parentPid := if slot = 0 then 0 else k.parentPid
      fdArray := Function.update (Function.update (k.pcb slot).fdArray 0 stdinEntry) 1 stdoutEntry
      args := args } := by
  simp only [prepared, allocatePcb, assignPid, addProcessActive, currPcb, setPcb,
    Function.update_self]
  rfl

theorem prepared_pcb_of_ne {p : Nat} (h : p ≠ slot) : (k.prepared slot args).pcb p = k.pcb p := by
  simp only [prepared, allocatePcb, assignPid, addProcessActive, currPcb, setPcb,
    Function.update_of_ne h]

end fields

theorem freeSlot_eq_some {k : Kernel} {slot : Nat} (h : k.freeSlot = some slot) :
    slot < maxPid ∧ k.pidArray slot = 0 ∧ ∀ p < slot, k.pidArray p ≠ 0 := by
  obtain ⟨-, hlt, hfree, hmin⟩ := firstFrom_eq_some_iff.mp h
  exact ⟨by omega, hfree, fun p hp => hmin p (Nat.zero_le _) hp⟩

end Kernel

theorem syscallWrite_kernel {junk : StackBytes} {fd : Int32} {buf : UInt32} {mem : Nat → UInt8}
    {nbytes : Int32} {k : Kernel} {left : Left}
    (h : syscallWrite junk fd buf mem nbytes k = .ok left) :
    ∃ dev, left.kernel = { k with dev := dev } := by
  have same : ∀ r, k.returns r = .ok left → ∃ dev, left.kernel = { k with dev := dev } :=
    fun r hr => ⟨k.dev, (congrArg Left.kernel (Except.ok.inj hr)).symm⟩
  unfold syscallWrite at h
  split at h
  · exact same _ h
  · split at h
    · exact same _ h
    · rename_i i e _
      unfold writeFn at h
      split at h
      · exact ⟨_, (congrArg Left.kernel (Except.ok.inj h)).symm⟩
      · exact ⟨_, (congrArg Left.kernel (Except.ok.inj h)).symm⟩
      · exact same _ h
      · exact same _ h
      · exact same _ h
      · exact absurd h (by simp)

theorem syscallExecute_cases {img : Image} {junk : StackBytes} {frame : Frame} {command : CString}
    {k : Kernel} {left : Left} (h : syscallExecute img junk frame command k = .ok left) :
    (k.freeSlot = none ∧ left.exit = .ret 0 ∧ ∃ dev, left.kernel = { k with dev := dev }) ∨
    (∃ slot args, k.freeSlot = some slot ∧ commandTarget img junk command = .ok none ∧
      left = ⟨.ret (-1), k.abandoned slot args, []⟩) ∨
    (∃ slot args d, k.freeSlot = some slot ∧ commandTarget img junk command = .ok (some d) ∧
      left = (k.prepared slot args).enterProgram img junk frame d) := by
  unfold syscallExecute at h
  cases hslot : k.freeSlot with
  | none =>
    -- all slots are taken: the message goes to the screen, and the call returns 0
    rw [hslot] at h
    simp only [bind, Except.bind] at h
    split at h
    · exact absurd h (by simp)
    · rename_i left' hw
      obtain ⟨dev, hdev⟩ := syscallWrite_kernel hw
      obtain rfl := Except.ok.inj h
      exact .inl ⟨rfl, rfl, dev, hdev⟩
  | some slot =>
    rw [hslot] at h
    simp only [bind, Except.bind] at h
    split at h
    · exact absurd h (by simp)
    · rename_i parsed hparse
      have htarget := commandTarget_of_parse img junk hparse
      right
      split at h
      · rename_i hfind
        rw [hfind] at htarget
        exact .inl ⟨slot, parsed.args, rfl, htarget, (Except.ok.inj h).symm⟩
      · rename_i d hfind
        rw [hfind] at htarget
        exact .inr ⟨slot, parsed.args, d, rfl, htarget, (Except.ok.inj h).symm⟩

section outcomes
variable {img : Image} {junk : StackBytes} {frame : Frame} {command : CString} {k : Kernel}
  {left : Left}

theorem syscallExecute_cases_of_slot {slot : Nat} (hslot : k.freeSlot = some slot)
    (h : syscallExecute img junk frame command k = .ok left) :
    (∃ args, commandTarget img junk command = .ok none ∧
      left = ⟨.ret (-1), k.abandoned slot args, []⟩) ∨
    (∃ args d, commandTarget img junk command = .ok (some d) ∧
      left = (k.prepared slot args).enterProgram img junk frame d) := by
  rcases syscallExecute_cases h with ⟨hfull, -⟩ | ⟨slot', args, hs, ht, hleft⟩ |
    ⟨slot', args, d, hs, ht, hleft⟩
  · exact absurd (hslot.symm.trans hfull) (by simp)
  · obtain rfl := Option.some.inj (hslot.symm.trans hs)
    exact .inl ⟨args, ht, hleft⟩
  · obtain rfl := Option.some.inj (hslot.symm.trans hs)
    exact .inr ⟨args, d, ht, hleft⟩

theorem syscallExecute_entered (h : syscallExecute img junk frame command k = .ok left)
    (hexit : left.exit = .iret) : ∃ slot args d, k.freeSlot = some slot ∧
      commandTarget img junk command = .ok (some d) ∧
      left = (k.prepared slot args).enterProgram img junk frame d := by
  rcases syscallExecute_cases h with ⟨-, hret, -⟩ | ⟨_, _, -, -, rfl⟩ | hentered
  · rw [hret] at hexit
    exact absurd hexit (by simp)
  · exact absurd hexit (by simp)
  · exact hentered

theorem Boots.started (h : Boots img k) : ∃ hw junk frame args d,
    k = (((initTerminal hw).prepared 0 args).enterProgram img junk frame d).kernel := by
  obtain ⟨hw, junk, frame, stores, hexec⟩ := h
  have hfree : (initTerminal hw).freeSlot = some 0 := rfl
  obtain ⟨slot, args, d, hslot, -, hleft⟩ := syscallExecute_entered hexec rfl
  obtain rfl := Option.some.inj (hslot.symm.trans hfree)
  exact ⟨hw, junk, frame, args, d, congrArg Left.kernel hleft⟩

end outcomes

theorem syscallExecute_of_freeSlot {img : Image} {junk : StackBytes} (frame : Frame)
    {command : CString} {k : Kernel} {slot : Nat} {t : Option Dentry}
    (hslot : k.freeSlot = some slot) (ht : commandTarget img junk command = .ok t) :
    ∃ args, syscallExecute img junk frame command k = .ok
      (match t with
      | none => ⟨.ret (-1), k.abandoned slot args, []⟩
      | some d => (k.prepared slot args).enterProgram img junk frame d) := by
  obtain ⟨parsed, hparse⟩ :=
    parse_of_commandTarget ht ((k.assignPid slot).allocatePcb.currPcb.args)
  refine ⟨parsed.args, ?_⟩
  have htarget := commandTarget_of_parse img junk hparse
  rw [ht] at htarget
  unfold syscallExecute
  rw [hslot]
  simp only [bind, Except.bind, hparse]
  rw [← Except.ok.inj htarget]
  cases t <;> rfl

section enterProgram
variable (img : Image) (junk : StackBytes) (frame : Frame) (d : Dentry) (k : Kernel)

@[simp] theorem Kernel.enterProgram_pid :
    (k.enterProgram img junk frame d).kernel.pid = k.pid := rfl

@[simp] theorem Kernel.enterProgram_parentPid :
    (k.enterProgram img junk frame d).kernel.parentPid = k.parentPid := rfl

@[simp] theorem Kernel.enterProgram_pidArray :
    (k.enterProgram img junk frame d).kernel.pidArray = k.pidArray := rfl

theorem Kernel.enterProgram_esp0 :
    (k.enterProgram img junk frame d).kernel.tss.esp0 = kernelStackTop k.pid := rfl

theorem Kernel.enterProgram_pcb_field {α : Type} (f : Pcb → α)
    (h : ∀ (b : Pcb) (esp ebp flag : UInt32),
      f { b with executeEsp := esp, executeEbp := ebp, exceptionFlag := flag } = f b)
    (p : Nat) : f ((k.enterProgram img junk frame d).kernel.pcb p) = f (k.pcb p) :=
  k.setPcb_field f (h ..) p

theorem Kernel.enterProgram_addr :
    ((k.enterProgram img junk frame d).kernel.paging.pageDirectory userProgramIndex).addr =
      frameOf (k.pid * pageSize4MB + kpageSize) := Paging.syscallHelper_addr ..

end enterProgram

/-! ### Halt -/

section halt
variable (k : Kernel)

theorem Kernel.closeFiles_pcb_field {α : Type} (f : Pcb → α)
    (h : ∀ (b : Pcb) fds, f { b with fdArray := fds } = f b) (p : Nat) :
    f (k.closeFiles.pcb p) = f (k.pcb p) := k.setPcb_field f (h ..) p

theorem Kernel.closeFiles_currPcb_pid : (k.closeFiles.pcb k.pid).pid = k.currPcb.pid :=
  k.closeFiles_pcb_field Pcb.pid (fun _ _ => rfl) k.pid

theorem Kernel.backToParent_pcb_field {α : Type} (f : Pcb → α)
    (h : ∀ (b : Pcb) flag, f { b with exceptionFlag := flag } = f b) (curr : Nat) (status : UInt8)
    (p : Nat) : f ((k.backToParent curr status).kernel.pcb p) = f (k.pcb p) :=
  k.setPcb_field f (h ..) p

theorem syscallHalt_of_ne {img : Image} {junk : StackBytes} {frame : Frame} {status : UInt8}
    {k : Kernel} (h : k.currPcb.pid ≠ 0) :
    syscallHalt img junk frame status k = .ok (k.closeFiles.backToParent k.pid status) := by
  have hp : (k.closeFiles.pcb k.pid).pid ≠ 0 := k.closeFiles_currPcb_pid.trans_ne h
  simp only [syscallHalt, if_neg hp]

def Kernel.vacated : Kernel :=
  { k.closeFiles with pid := pidHaltVal, pidArray := Function.update k.pidArray 0 0 }

theorem Kernel.vacated_freeSlot : k.vacated.freeSlot = some 0 := by
  have hfree : k.vacated.pidArray 0 = 0 := by
    change Function.update k.pidArray 0 0 0 = 0
    exact Function.update_self ..
  exact firstFrom_eq_some_iff.mpr
    ⟨Nat.le_refl _, by decide, hfree, fun j _ hj => absurd hj (Nat.not_lt_zero j)⟩

/-- The base shell is replaced by a new one, or by nothing when the shell does not load. -/
theorem syscallHalt_of_eq {img : Image} {junk : StackBytes} {frame : Frame} {status : UInt8}
    {k : Kernel} {left : Left} (h : k.currPcb.pid = 0)
    (hl : syscallHalt img junk frame status k = .ok left) :
    (∃ args d, commandTarget img junk shellCommand = .ok (some d) ∧
      left = (k.vacated.prepared 0 args).enterProgram img junk frame d) ∨
    (∃ args, commandTarget img junk shellCommand = .ok none ∧
      left = (k.vacated.abandoned 0 args).backToParent k.pid status) := by
  have hp : (k.closeFiles.pcb k.pid).pid = 0 := k.closeFiles_currPcb_pid.trans h
  unfold syscallHalt at hl
  simp only [if_pos hp, bind, Except.bind] at hl
  split at hl
  · exact absurd hl (by simp)
  · rename_i left' hexec
    rcases syscallExecute_cases_of_slot k.vacated_freeSlot hexec with ⟨args, ht, rfl⟩ |
      ⟨args, d, ht, rfl⟩
    · exact .inr ⟨args, ht, (Except.ok.inj hl).symm⟩
    · exact .inl ⟨args, d, ht, (Except.ok.inj hl).symm⟩

theorem syscallHalt_restarts {img : Image} {junk : StackBytes} (frame : Frame) (status : UInt8)
    {k : Kernel} {d : Dentry} (h : k.currPcb.pid = 0)
    (ht : commandTarget img junk shellCommand = .ok (some d)) :
    ∃ args, syscallHalt img junk frame status k =
      .ok ((k.vacated.prepared 0 args).enterProgram img junk frame d) := by
  have hp : (k.closeFiles.pcb k.pid).pid = 0 := k.closeFiles_currPcb_pid.trans h
  obtain ⟨args, hexec⟩ := syscallExecute_of_freeSlot frame k.vacated_freeSlot ht
  refine ⟨args, ?_⟩
  change syscallExecute img junk frame shellCommand
    { k.closeFiles with pid := pidHaltVal, pidArray := Function.update k.pidArray 0 0 } = _ at hexec
  have harray : k.closeFiles.pidArray = k.pidArray := rfl
  simp only [syscallHalt, if_pos hp, bind, Except.bind, harray, hexec]
  rfl

theorem syscallHalt_cases {img : Image} {junk : StackBytes} {frame : Frame} {status : UInt8}
    {k : Kernel} {left : Left} (hpcb : k.currPcb.pid = k.pid)
    (hl : syscallHalt img junk frame status k = .ok left) :
    (k.pid ≠ 0 ∧ left = k.closeFiles.backToParent k.pid status) ∨
    (k.pid = 0 ∧ ∃ args d, commandTarget img junk shellCommand = .ok (some d) ∧
      left = (k.vacated.prepared 0 args).enterProgram img junk frame d) ∨
    (k.pid = 0 ∧ ∃ args, commandTarget img junk shellCommand = .ok none ∧
      left = (k.vacated.abandoned 0 args).backToParent k.pid status) := by
  by_cases hp : k.pid = 0
  · rcases syscallHalt_of_eq (hpcb.trans hp) hl with hstart | hlost
    · exact .inr (.inl ⟨hp, hstart⟩)
    · exact .inr (.inr ⟨hp, hlost⟩)
  · rw [syscallHalt_of_ne (hpcb.trans_ne hp)] at hl
    exact .inl ⟨hp, (Except.ok.inj hl).symm⟩

def Kernel.raised (k : Kernel) (entry : Nat) : Kernel :=
  { k with
    dev := { k.dev with
      console := k.dev.console.puts k.currActiveTerminal (exceptionText entry) }
    globalflag := 1 }

theorem exceptions_eq (img : Image) (junk : StackBytes) (frame : Frame) (entry : Nat) (k : Kernel) :
    exceptions img junk frame entry k = syscallHalt img junk frame 0 (k.raised entry) := rfl

end halt

end MyLinuxOS
