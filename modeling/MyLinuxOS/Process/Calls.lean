import MyLinuxOS.Foundation.Runs
import MyLinuxOS.Process.Lineage

/-! The kernel as a machine whose inputs are the entries that start and end processes. Each entry
carries the stack memory and the stack registers it happens to find. -/

namespace MyLinuxOS
open Foundation

inductive KernelOp
  | execute (command : CString)
  | halt (status : UInt8)
  | exception (entry : Nat)
  | swap (newTermVal : Int)

structure KernelCall where
  op : KernelOp
  junk : StackBytes
  frame : Frame

def KernelCall.enter (img : Image) (c : KernelCall) (k : Kernel) : Entry :=
  match c.op with
  | .execute command => syscallExecute img c.junk c.frame command k
  | .halt status => syscallHalt img c.junk c.frame status k
  | .exception entry => exceptions img c.junk c.frame entry k
  | .swap newTermVal => terminalSwap img c.junk c.frame newTermVal k

def kernelCalls (img : Image) : Machine Kernel KernelCall Exit := fun k c =>
  match c.enter img k with
  | .ok left => some (left.exit, left.kernel)
  | .error _ => none

theorem kernelCalls_eq_some {img : Image} {k k' : Kernel} {c : KernelCall} {o : Exit} :
    kernelCalls img k c = some (o, k') ↔ ∃ stores, c.enter img k = .ok ⟨o, k', stores⟩ := by
  unfold kernelCalls
  split
  · rename_i left h
    rw [h]
    constructor
    · intro he
      cases he
      exact ⟨left.stores, rfl⟩
    · rintro ⟨stores, he⟩
      rw [Except.ok.inj he]
  · rename_i e h
    rw [h]
    constructor
    · intro he; exact absurd he (by simp)
    · rintro ⟨stores, he⟩; exact absurd he (by simp)

/-! ### A sample run -/

def sampleJunk : StackBytes := ⟨[], fun _ => 0, fun _ => 0, 0⟩
def sampleFrame : Frame := ⟨0x7FFF00, 0x7FFF40⟩
def samplePowerOn : PowerOn := ⟨fun _ => 0, 0, fun _ => 0, 0x401000, 0x402000⟩
def executeShell : KernelCall := ⟨.execute shellCommand, sampleJunk, sampleFrame⟩
def haltWith (status : UInt8) : KernelCall := ⟨.halt status, sampleJunk, sampleFrame⟩

theorem kernelCalls_haltWith (img : Image) {k : Kernel} (hpcb : k.currPcb.pid ≠ 0)
    (status : UInt8) : kernelCalls img k (haltWith status) =
      some ((k.closeFiles.backToParent k.pid status).exit,
        (k.closeFiles.backToParent k.pid status).kernel) :=
  kernelCalls_eq_some.mpr
    ⟨[], show (haltWith status).enter img k = _ from syscallHalt_of_ne hpcb⟩

theorem sampleImage_loads : Loads sampleImage sampleJunk shellCommand :=
  loads_of_isSome (by decide +kernel)

def sampleShell (k : Kernel) (slot : Nat) (args : Nat → UInt8) (d : Dentry) : Kernel :=
  ((k.prepared slot args).enterProgram sampleImage sampleJunk sampleFrame d).kernel

theorem sampleImage_starts (k : Kernel) (slot : Nat) (h : k.freeSlot = some slot) :
    ∃ args d stores, executeShell.enter sampleImage k =
      .ok ⟨.iret, sampleShell k slot args d, stores⟩ := by
  obtain ⟨d, hd⟩ := sampleImage_loads
  obtain ⟨args, hexec⟩ := syscallExecute_of_freeSlot sampleFrame h hd
  exact ⟨args, d, _, hexec⟩

theorem sampleImage_boots :
    ∃ args d, Boots sampleImage (sampleShell (initTerminal samplePowerOn) 0 args d) := by
  obtain ⟨args, d, stores, h⟩ := sampleImage_starts (initTerminal samplePowerOn) 0 rfl
  exact ⟨args, d, samplePowerOn, sampleJunk, sampleFrame, stores, h⟩

end MyLinuxOS
