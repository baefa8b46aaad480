import MyLinuxOS.Process.CleanDescriptors
import MyLinuxOS.Programs.Copying

/-! A program from the `execute` that starts it to the `halt` that ends it. -/

namespace MyLinuxOS
open Foundation

/-! ### What a program leaves alone -/

def Kernel.OnlyFiles (k k' : Kernel) : Prop :=
  ∃ fds dev, k' = { k.setPcb k.pid { k.currPcb with fdArray := fds } with dev := dev }

section
variable {img : Image} {k k' : Kernel}

theorem Kernel.onlyFiles_withDev (k : Kernel) (dev : Devices) : k.OnlyFiles (k.withDev dev) := by
  refine ⟨k.currPcb.fdArray, dev, ?_⟩
  have hsame : k.setPcb k.pid { k.currPcb with fdArray := k.currPcb.fdArray } = k := by
    unfold Kernel.setPcb Kernel.currPcb
    rw [Function.update_eq_self]
  rw [hsame]
  rfl

theorem Kernel.onlyFiles_refl (k : Kernel) : k.OnlyFiles k := k.onlyFiles_withDev k.dev

theorem Kernel.onlyFiles_trans (k k₁ k₂ : Kernel) (h : k.OnlyFiles k₁) (h' : k₁.OnlyFiles k₂) :
    k.OnlyFiles k₂ := by
  obtain ⟨fds, dev, rfl⟩ := h
  obtain ⟨fds', dev', rfl⟩ := h'
  refine ⟨fds', dev', ?_⟩
  simp only [Kernel.setPcb, Kernel.currPcb, Function.update_self, Function.update_idem]

theorem Kernel.onlyFiles_setFd (k : Kernel) {i : Nat} (h8 : i < 8) (e : FileDescriptor)
    (dev : Devices) : k.OnlyFiles ((k.setFd i e).withDev dev) := by
  refine ⟨Function.update k.currPcb.fdArray ⟨i, h8⟩ e, dev, ?_⟩
  simp only [Kernel.setFd, Pcb.setFdEntry, dif_pos h8]
  rfl

theorem userWorld_onlyFiles (k : Kernel) (c : UserCall) (a : Answer) (k' : Kernel)
    (h : userWorld img k c a k') : k.OnlyFiles k' := by
  obtain ⟨dev, junk, h⟩ := h
  refine Kernel.onlyFiles_trans _ _ _ (k.onlyFiles_withDev dev) ?_
  have file : ∀ {c : FileCall} {r : Int} {stores : List Store},
      c.enter img (k.withDev dev) = .ok ⟨.ret r, k', stores⟩ → (k.withDev dev).OnlyFiles k' := by
    intro c r stores hc
    obtain ⟨i, e, dev', h8, rfl, -⟩ := fileCalls_effect (fileCalls_of_enter hc)
    exact Kernel.onlyFiles_setFd _ h8 e dev'
  cases c with
  | openName name => exact file (c := .openName name) h
  | closeFd fd => exact file (c := .closeFd fd) h
  | readFd fd buf nbytes => exact file (c := .readFd fd buf.word nbytes junk) h
  | writeFd fd buf mem nbytes =>
    obtain ⟨r, dev', hleft⟩ := syscallWrite_cases h
    obtain rfl : k' = _ := congrArg Left.kernel hleft
    exact Kernel.onlyFiles_withDev _ dev'
  | getargs buf nbytes =>
    simp only [UserCall.enter, syscallGetargs, if_neg buf.ne_zero] at h
    split at h
    · obtain rfl : k.withDev dev = k' := congrArg Left.kernel (Except.ok.inj h)
      exact Kernel.onlyFiles_refl _
    · obtain rfl : k.withDev dev = k' := congrArg Left.kernel (Except.ok.inj h)
      exact Kernel.onlyFiles_refl _

end

/-! ### The start -/

section start
variable {img : Image} {junk : StackBytes} {k : Kernel} {slot : Nat} {d : Dentry}

theorem entered_currPcb (frame : Frame) (args : Nat → UInt8) :
    ((k.prepared slot args).enterProgram img junk frame d).kernel.currPcb =
      { (k.prepared slot args).pcb slot with
        executeEsp := frame.esp, executeEbp := frame.ebp, exceptionFlag := 0 } :=
  Kernel.setPcb_pcb_self ..

theorem entered_pcb_of_ne (frame : Frame) (args : Nat → UInt8) {p : Nat} (hp : p ≠ slot) :
    ((k.prepared slot args).enterProgram img junk frame d).kernel.pcb p = k.pcb p := by
  rw [← Kernel.prepared_pcb_of_ne k slot args hp]
  exact Kernel.setPcb_pcb_of_ne _ hp _

end start

/-! ### The end -/

/-- `halt` takes the low byte of what `main` returns. -/
def statusByte (status : Int) : UInt8 := UInt8.ofInt status

/-- A slot is given back to its parent, which has its page and its kernel stack: every other process
is as it was, and nothing is open in the block of the slot. -/
structure GivenBack (k : Kernel) (slot : Nat) (k' : Kernel) : Prop where
  pid : k'.pid = k.parentPid
  parentPid : k'.parentPid = (k'.pcb k'.pid).parentPid
  pidArray : k'.pidArray = k.pidArray
  others : ∀ p, p ≠ slot → k'.pcb p = k.pcb p
  closed : ∀ i, ((k'.pcb slot).fdArray i).flags = 0
  globalflag : k'.globalflag = 0
  page : (k'.paging.pageDirectory userProgramIndex).addr =
    frameOf (k'.pid * pageSize4MB + kpageSize)
  esp0 : k'.tss.esp0 = Kernel.kernelStackTop k'.pid

/-- The `halt` resumes the frame of the `execute` that took the slot, which returns 0 or 1. -/
structure Returned (k : Kernel) (slot : Nat) (frame : Frame) (status : Int) (left : Left) : Prop
    extends GivenBack k slot left.kernel where
  exit : left.exit = .resume frame (Kernel.statusFlag (statusByte status))
  stores : left.stores = []

section halt
variable {img : Image} {junk : StackBytes} {frame : Frame} {d : Dentry} {k t : Kernel} {slot : Nat}
  {args : Nat → UInt8}

theorem Kernel.OnlyFiles.pcb_of_ne (h : k.OnlyFiles t) {p : Nat} (hp : p ≠ k.pid) :
    t.pcb p = k.pcb p := by
  obtain ⟨fds, dev, rfl⟩ := h
  exact k.setPcb_pcb_of_ne hp _

theorem Kernel.OnlyFiles.currPcb_field (h : k.OnlyFiles t) {α : Type} (f : Pcb → α)
    (hf : ∀ (b : Pcb) fds, f { b with fdArray := fds } = f b) : f t.currPcb = f k.currPcb := by
  obtain ⟨fds, dev, rfl⟩ := h
  change f ((k.setPcb k.pid { k.currPcb with fdArray := fds }).pcb k.pid) = _
  rw [k.setPcb_pcb_self, hf]

theorem closeFiles_pcb_of_ne {p : Nat} (hp : p ≠ k.pid) : k.closeFiles.pcb p = k.pcb p :=
  k.setPcb_pcb_of_ne hp _

theorem Kernel.OnlyFiles.halt (hslot : k.freeSlot = some slot) (hroot : slot ≠ 0)
    (hflag : k.globalflag = 0)
    (ht : ((k.prepared slot args).enterProgram img junk frame d).kernel.OnlyFiles t)
    (img' : Image) (junk' : StackBytes) (frame' : Frame) (status : Int) :
    ∃ left, syscallHalt img' junk' frame' (statusByte status) t = .ok left ∧
      Returned k slot frame status left := by
  obtain ⟨-, hfree, -⟩ := Kernel.freeSlot_eq_some hslot
  have hpid : t.pid = slot := by
    obtain ⟨fds, dev, rfl⟩ := ht
    rfl
  have harray : t.pidArray = Function.update k.pidArray slot 1 := by
    obtain ⟨fds, dev, rfl⟩ := ht
    rfl
  have hclear : t.globalflag = 0 := by
    obtain ⟨fds, dev, rfl⟩ := ht
    exact hflag
  have hblock := Kernel.prepared_pcb_self k slot args
  have hown : t.currPcb.pid = slot := by
    rw [ht.currPcb_field Pcb.pid fun _ _ => rfl, entered_currPcb, hblock]
  have hparent : t.currPcb.parentPid = k.parentPid := by
    rw [ht.currPcb_field Pcb.parentPid fun _ _ => rfl, entered_currPcb, hblock]
    exact if_neg hroot
  have hframe : t.currPcb.savedFrame = frame := by
    rw [ht.currPcb_field Pcb.savedFrame fun _ _ => rfl, entered_currPcb]
    rfl
  obtain ⟨hexit, hkept⟩ := backToParent_of_clear (k := t.closeFiles) hclear t.pid (statusByte status)
  refine ⟨_, syscallHalt_of_ne (hown.trans_ne hroot), ⟨?_, ?_, ?_, ?_, ?_, hkept, Paging.syscallHelper_addr .., rfl⟩,
    ?_, rfl⟩
  · exact (Lineage.backToParent_pid t _).trans hparent
  · exact (t.closeFiles.backToParent_pcb_field Pcb.parentPid (fun _ _ => rfl) t.pid
      (statusByte status) _).symm
  · rw [Lineage.backToParent_pidArray, hpid, harray, Function.update_idem, ← hfree,
      Function.update_eq_self]
  · intro p hp
    have hne : p ≠ t.pid := hpid ▸ hp
    calc (t.closeFiles.backToParent t.pid (statusByte status)).kernel.pcb p
        = t.closeFiles.pcb p := Kernel.setPcb_pcb_of_ne _ hne _
      _ = t.pcb p := closeFiles_pcb_of_ne hne
      _ = k.pcb p := (ht.pcb_of_ne hp).trans (entered_pcb_of_ne frame args hp)
  · intro i
    have hself : t.closeFiles.pcb slot = { t.currPcb with
        fdArray := fun j => { t.currPcb.fdArray j with flags := 0 } } := by
      rw [← hpid]
      exact t.setPcb_pcb_self ..
    rw [t.closeFiles.backToParent_pcb_field Pcb.fdArray (fun _ _ => rfl) t.pid (statusByte status)
      slot, hself]
  · have hsaved : (t.closeFiles.pcb t.pid).savedFrame = t.currPcb.savedFrame :=
      t.closeFiles_pcb_field Pcb.savedFrame (fun _ _ => rfl) t.pid
    rw [hexit, hsaved, hframe]

end halt
end MyLinuxOS
