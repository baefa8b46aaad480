import MyLinuxOS.Process.Calls

/-! What a call of `execute` leaves behind when it starts no program. The slot is given back, but
the running process has become the one that was never started: of the globals only `pid_array` is
restored. With a full table nothing is touched and the call reports success. -/

namespace MyLinuxOS
open Foundation

/-- The state by which the caller keeps running as itself. -/
structure Untouched (before after : Kernel) : Prop where
  pid : after.pid = before.pid
  parentPid : after.parentPid = before.parentPid
  pidArray : after.pidArray = before.pidArray
  fdArray : ∀ p, before.pidArray p = 1 → (after.pcb p).fdArray = (before.pcb p).fdArray
  processActive : ∀ t, (after.termBlk t).processActive = (before.termBlk t).processActive
  pageDirectory : after.paging.pageDirectory = before.paging.pageDirectory
  esp0 : after.tss.esp0 = before.tss.esp0

section
variable {img : Image} {junk : StackBytes} {frame : Frame} {command : CString} {k : Kernel}
  {left : Left}

theorem abandoned_pidArray {slot : Nat} (args : Nat → UInt8) (hslot : k.freeSlot = some slot) :
    (k.abandoned slot args).pidArray = k.pidArray := by
  have hfree := (Kernel.freeSlot_eq_some hslot).2.1
  change Function.update (Function.update k.pidArray slot 1) slot 0 = k.pidArray
  rw [Function.update_idem, ← hfree, Function.update_eq_self]

theorem abandoned_effects {slot : Nat} (args : Nat → UInt8) (hslot : k.freeSlot = some slot) :
    (k.abandoned slot args).pid = slot ∧
    (k.abandoned slot args).parentPid = (if slot = 0 then k.parentPid else slot) ∧
    (k.abandoned slot args).pidArray = k.pidArray ∧
    (∀ p, k.pidArray p = 1 → (k.abandoned slot args).pcb p = k.pcb p) ∧
    ((k.abandoned slot args).termBlk k.currActiveTerminal).processActive =
      (k.termBlk k.currActiveTerminal).processActive + 1 ∧
    (k.abandoned slot args).paging = k.paging ∧ (k.abandoned slot args).tss = k.tss := by
  have hfree := (Kernel.freeSlot_eq_some hslot).2.1
  refine ⟨rfl, rfl, abandoned_pidArray args hslot, ?_, k.prepared_processActive slot args, rfl, rfl⟩
  intro p hlive
  have hne : p ≠ slot := by
    rintro rfl
    rw [hfree] at hlive
    exact absurd hlive (by decide)
  exact k.prepared_pcb_of_ne slot args hne

theorem failed_execute_cases (h : syscallExecute img junk frame command k = .ok left)
    (hfail : left.exit ≠ .iret) :
    (left.exit = .ret 0 ∧ Untouched k left.kernel) ∨
    ∃ slot args, k.freeSlot = some slot ∧ left.exit = .ret (-1) ∧
      left.kernel = k.abandoned slot args := by
  rcases syscallExecute_cases h with ⟨-, hexit, dev, hk⟩ | ⟨slot, args, hslot, -, rfl⟩ |
    ⟨slot, args, d, -, -, rfl⟩
  · left
    rw [hk]
    exact ⟨hexit, ⟨rfl, rfl, rfl, fun _ _ => rfl, fun _ => rfl, rfl, rfl⟩⟩
  · exact .inr ⟨slot, args, hslot, rfl, rfl⟩
  · exact absurd rfl hfail

end

/-- No failing call is atomic: it does not return -1, or it has counted a process that is not
there. -/
theorem failed_execute_is_not_atomic {img : Image} {junk : StackBytes} {frame : Frame}
    {command : CString} {k : Kernel} {left : Left}
    (h : syscallExecute img junk frame command k = .ok left) (hfail : left.exit ≠ .iret) :
    ¬ (left.exit = .ret (-1) ∧ Untouched k left.kernel) := by
  rintro ⟨hexit, hsame⟩
  rcases failed_execute_cases h hfail with ⟨hzero, -⟩ | ⟨slot, args, hslot, -, hk⟩
  · rw [hzero] at hexit
    exact absurd hexit (by simp)
  · have hcount := hsame.processActive k.currActiveTerminal
    obtain ⟨-, -, -, -, hactive, -, -⟩ := abandoned_effects args hslot
    rw [hk, hactive] at hcount
    omega

def missingCommand : CString := ⟨[120], CString.noNul_of_all rfl⟩

theorem sampleImage_misses :
    commandTarget sampleImage sampleJunk missingCommand = .ok none := by
  have h : (commandTarget sampleImage sampleJunk missingCommand).toOption.map Option.isSome =
      some false := by decide +kernel
  obtain ⟨target, htarget, hnone⟩ := target_of_isSome h
  obtain rfl : target = none := Option.isNone_iff_eq_none.mp (Option.isSome_eq_false_iff.mp hnone)
  exact htarget

theorem sampleImage_abandons (k : Kernel) (slot : Nat) (hslot : k.freeSlot = some slot) :
    ∃ args, syscallExecute sampleImage sampleJunk sampleFrame missingCommand k =
      .ok ⟨.ret (-1), k.abandoned slot args, []⟩ :=
  syscallExecute_of_freeSlot sampleFrame hslot sampleImage_misses

theorem missing_command_is_not_atomic : ∃ k left, Boots sampleImage k ∧
    syscallExecute sampleImage sampleJunk sampleFrame missingCommand k = .ok left ∧
    left.exit = .ret (-1) ∧ ¬ (left.exit = .ret (-1) ∧ Untouched k left.kernel) := by
  obtain ⟨args, d, hboot⟩ := sampleImage_boots
  obtain ⟨args', h⟩ :=
    sampleImage_abandons (sampleShell (initTerminal samplePowerOn) 0 args d) 1 rfl
  exact ⟨_, _, hboot, h, rfl, failed_execute_is_not_atomic h (by simp)⟩

/-- After a name that does not exist, the base shell runs under the pid of a process that was never
started, as the parent of the next one. -/
theorem missing_command_renames_the_base_shell : ∃ k left, Boots sampleImage k ∧
    syscallExecute sampleImage sampleJunk sampleFrame missingCommand k = .ok left ∧
    left.exit = .ret (-1) ∧ k.pid = 0 ∧ left.kernel.pid = 1 ∧ left.kernel.pidArray 1 = 0 ∧
    left.kernel.parentPid = 1 ∧ ¬ Untouched k left.kernel := by
  obtain ⟨args, d, hboot⟩ := sampleImage_boots
  let k := sampleShell (initTerminal samplePowerOn) 0 args d
  have hslot : k.freeSlot = some 1 := rfl
  obtain ⟨args', h⟩ := sampleImage_abandons k 1 hslot
  have hpid : (k.abandoned 1 args').pid = 1 := rfl
  have harray := abandoned_pidArray args' hslot
  exact ⟨k, _, hboot, h, rfl, rfl, hpid, congrFun harray 1, rfl,
    fun hsame => absurd (hpid.symm.trans hsame.pid) Nat.one_ne_zero⟩

end MyLinuxOS
