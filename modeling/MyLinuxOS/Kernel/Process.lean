import MyLinuxOS.Kernel.Filesys
import MyLinuxOS.Kernel.Keyboard
import MyLinuxOS.Kernel.Rtc
import MyLinuxOS.Kernel.Paging

/-! The process control blocks and the global state of the kernel. -/

namespace MyLinuxOS
open Foundation

def kstackSize : Nat := 8192
def memFence : Nat := 4
def maxPid : Nat := 6
def pidHaltVal : Nat := 4294967295
def maxNumFd : Nat := 8
def startFd : Nat := 2
def argLength : Nat := 128
def maxTerminals : Nat := 3

inductive OpsTable
  | rtc
  | dir
  | file
  | stdin
  | stdout
  deriving DecidableEq

/-- A value of type `ops_table_t*`: the address of one of the tables, or any other word. -/
inductive OpsPtr
  | table (t : OpsTable)
  | raw (word : UInt32)
  deriving DecidableEq

structure FileDescriptor where
  fileOpsTable : OpsPtr
  inode : UInt32
  filePos : UInt32
  flags : UInt32
  deriving DecidableEq

structure Pcb where
  fdArray : Fin 8 → FileDescriptor
  pid : Nat
  parentPid : Nat
  exceptionFlag : UInt32
  executeEsp : UInt32
  executeEbp : UInt32
  /-- The 128 bytes of the array, followed by the kernel stack memory that comes after the block. -/
  args : Nat → UInt8

namespace Pcb

/-- What `fd_array[i]` denotes for the indices that pass the checks of the system calls: entry 8
is past the array and overlays `pid`, `parent_pid`, `exception_flag` and `execute_esp`. -/
def fdEntry (pcb : Pcb) (i : Nat) : FileDescriptor :=
  if h : i < 8 then pcb.fdArray ⟨i, h⟩
  else
    { fileOpsTable := .raw (UInt32.ofNat pcb.pid)
      inode := UInt32.ofNat pcb.parentPid
      filePos := pcb.exceptionFlag
      flags := pcb.executeEsp }

/-- Assignment to the fields of `fd_array[i]`; the calls that reach entry 8 leave its operations
pointer, and with it `pid`, as it is. -/
def setFdEntry (pcb : Pcb) (i : Nat) (e : FileDescriptor) : Pcb :=
  if h : i < 8 then { pcb with fdArray := Function.update pcb.fdArray ⟨i, h⟩ e }
  else { pcb with parentPid := e.inode.toNat, exceptionFlag := e.filePos, executeEsp := e.flags }

end Pcb

structure Tss where
  ss0 : Nat
  esp0 : Nat
  deriving DecidableEq

structure Terminal where
  processActive : Int
  cursorX : Int
  cursorY : Int
  videoMem : Int

structure Devices where
  console : Console
  keyboard : Keyboard
  rtc : Rtc

structure Kernel where
  pid : Nat
  parentPid : Nat
  pidArray : Nat → UInt8
  pcb : Nat → Pcb
  globalflag : Int
  entryPoint : UInt32
  entryStackLocation : UInt32
  paging : Paging
  tss : Tss
  currActiveTerminal : Nat
  termBlk : Nat → Terminal
  dev : Devices

/-- What uninitialised locals and the memory around them happen to hold during a call. -/
structure StackBytes where
  afterName : List UInt8
  buffer : Fin 4 → UInt8
  execBuffer : Fin 4 → UInt8
  regATemp : UInt8

structure Frame where
  esp : UInt32
  ebp : UInt32
  deriving DecidableEq

/-- How a kernel entry ends: it returns to its caller, enters user code at `entry_point`,
continues after `return_label` on the frame of an earlier `execute`, which returns `eax`, or is left
by a page fault of its own, so that exception 14 is next and the caller gets no answer. -/
inductive Exit
  | ret (value : Int)
  | iret
  | resume (frame : Frame) (eax : UInt32)
  | fault
  deriving DecidableEq

/-- The kernel after an entry, with the bytes that the code stores through pointers into user
memory; the last store of an entry that faults does not come about. -/
structure Left where
  exit : Exit
  kernel : Kernel
  stores : List Store

inductive Stuck
  | nameOverflow
  /-- A parsing loop whose 8-bit counter wraps for ever. -/
  | endless
  /-- A call through an operations table at an address that is not mapped. -/
  | wildCall
  | waiting
  deriving DecidableEq

abbrev Entry := Except Stuck Left

namespace Kernel
variable (k : Kernel)

def currPcb : Pcb := k.pcb k.pid

def setPcb (p : Nat) (b : Pcb) : Kernel := { k with pcb := Function.update k.pcb p b }

/-- `KPAGE_SIZE - pid * KSTACK_SIZE - MEM_FENCE` in 32-bit arithmetic. -/
def kernelStackTop (pid : Nat) : Nat :=
  (((kpageSize : Int) - pid * kstackSize - memFence) % 4294967296).toNat

@[simp] theorem setPcb_pcb_self (p : Nat) (b : Pcb) : (k.setPcb p b).pcb p = b :=
  Function.update_self ..

theorem setPcb_pcb_of_ne {p q : Nat} (h : q ≠ p) (b : Pcb) : (k.setPcb p b).pcb q = k.pcb q :=
  Function.update_of_ne h ..

theorem setPcb_field {α : Type} (f : Pcb → α) {q : Nat} {b : Pcb} (h : f b = f (k.pcb q))
    (p : Nat) : f ((k.setPcb q b).pcb p) = f (k.pcb p) := by
  by_cases hp : p = q
  · subst hp; rw [setPcb_pcb_self, h]
  · rw [setPcb_pcb_of_ne k hp]

def returns (value : Int) : Entry := .ok ⟨.ret value, k, []⟩

end Kernel
end MyLinuxOS
