import MyLinuxOS.Kernel.Syscall

/-! `syscall_execute`, `syscall_halt` and the exception handler: how processes start and end. -/

namespace MyLinuxOS
open Foundation

def exceptHalt : UInt32 := 256
def execStart : UInt32 := 24
def imageAddress : UInt32 := 0x08048000
def kernelDs : Nat := 0x0018

/-! ### Parsing the command -/

/-- What the parsing step leaves: `exe_name`, and `pcb->args` with the memory behind it. -/
structure Parsed where
  exeName : Fin 32 → UInt8
  args : Nat → UInt8

/-- `while (command[i] == ' ') i++` with an 8-bit `i`: after 256 spaces it runs for ever. -/
def skipSpaces (command : CString) : (fuel : Nat) → UInt8 → Except Stuck UInt8
  | 0, _ => .error .endless
  | fuel + 1, i =>
    if command.charAt i.toNat = 32 then skipSpaces command fuel (i + 1) else .ok i

def skipSeparators (command : CString) : (fuel : Nat) → UInt8 → Except Stuck UInt8
  | 0, _ => .error .endless
  | fuel + 1, j =>
    if j.toNat < command.strlen then
      if command.charAt j.toNat ≠ 32 then .ok j else skipSeparators command fuel (j + 1)
    else .ok j

/-- The loop over the name: the name and the start of the arguments, which stays 0 when a newline
ends the name. -/
def parseName (command : CString) :
    (fuel : Nat) → (i k : UInt8) → (Fin 32 → UInt8) → Except Stuck ((Fin 32 → UInt8) × UInt8)
  | 0, _, _, _ => .error .endless
  | fuel + 1, i, k, exeName =>
    if i.toNat < command.strlen + 1 then do
      let i ← if i = 0 then skipSpaces command 256 i else .ok i
      let c := command.charAt i.toNat
      if c ≠ 32 ∧ c ≠ 0 ∧ c ≠ 10 then
        if h : k.toNat < 32 then
          parseName command fuel (i + 1) (k + 1) (Function.update exeName ⟨k.toNat, h⟩ c)
        else .error .nameOverflow
      else if c = 32 ∨ c = 0 then do
        let j ← skipSeparators command 256 i
        .ok (exeName, j)
      else .ok (exeName, 0)
    else .ok (exeName, 0)

def copyArguments (command : CString) :
    (fuel : Nat) → (k : UInt8) → (counter : Nat) → (Nat → UInt8) → Except Stuck (Nat → UInt8)
  | 0, _, _, _ => .error .endless
  | fuel + 1, k, counter, args =>
    if k.toNat < command.strlen then
      copyArguments command fuel (k + 1) (counter + 1)
        (Function.update args counter (command.charAt k.toNat))
    else .ok args

def parseCommand (command : CString) (args : Nat → UInt8) : Except Stuck Parsed := do
  let args := fun i => if i < argLength then 0 else args i
  let (exeName, j) ← parseName command 256 0 0 fun _ => 0
  let args ← copyArguments command 257 j 0 args
  .ok ⟨exeName, args⟩

/-! ### Execute -/

def overBuffer (bytes : List UInt8) (buffer : Fin 4 → UInt8) : Fin 4 → UInt8 :=
  fun i => bytes.getD i (buffer i)

/-- The address of a stack buffer, which is only compared with NULL. -/
def stackBuffer : UInt32 := 0x7F0000

/-- Step 4: the directory entry of an executable, or `none` where the call gives up. -/
def findExecutable (img : Image) (junk : StackBytes) (exeName : Fin 32 → UInt8) :
    Option Dentry :=
  match readDentryByName img (some (.ofBuffer (List.ofFn exeName ++ junk.afterName))) with
  | none => none
  | some exeDentry =>
    match readData img exeDentry.inode 0 stackBuffer 4 with
    | none => none
    | some bytes =>
      let buffer := overBuffer bytes junk.buffer
      if buffer 0 ≠ 0x7F ∨ buffer 1 ≠ 0x45 ∨ buffer 2 ≠ 0x4c ∨ buffer 3 ≠ 0x46 then none
      else some exeDentry

namespace Kernel
variable (k : Kernel)

def freeSlot : Option Nat := firstFrom (fun i => k.pidArray i = 0) maxPid 0

def addProcessActive (k : Kernel) : Kernel :=
  let t := k.termBlk k.currActiveTerminal
  { k with
    termBlk := Function.update k.termBlk k.currActiveTerminal
      { t with processActive := t.processActive + 1 } }

def assignPid (slot : Nat) : Kernel :=
  { k with pidArray := Function.update k.pidArray slot 1, pid := slot }.addProcessActive

def stdinEntry : FileDescriptor := ⟨.table .stdin, 0, 0, 1⟩
def stdoutEntry : FileDescriptor := ⟨.table .stdout, 0, 0, 1⟩

/-- Step 2: the block of the new process, linked to `parent_pid`, and its two open descriptors. -/
def allocatePcb : Kernel :=
  let slot := k.pid
  let pcb := k.pcb slot
  let pcb := { pcb with
    pid := slot
    parentPid := if slot = 0 then 0 else k.parentPid
    fdArray := Function.update (Function.update pcb.fdArray 0 stdinEntry) 1 stdoutEntry }
  { k.setPcb slot pcb with parentPid := if slot = 0 then k.parentPid else slot }

/-- Steps 5 to 9 for an executable: paging, loading, the stack for the next kernel entry, the saved
frame, and the jump to user code. -/
def enterProgram (img : Image) (junk : StackBytes) (frame : Frame) (exeDentry : Dentry) : Left :=
  let inode := exeDentry.inode
  let program := (readData img inode 0 imageAddress (img.inodeLength inode.toNat)).getD []
  let exec := overBuffer ((readData img inode execStart stackBuffer 4).getD []) junk.execBuffer
  let pcb := { k.currPcb with
    executeEsp := frame.esp, executeEbp := frame.ebp, exceptionFlag := 0 }
  { exit := .iret
    kernel := { k.setPcb k.pid pcb with
      paging := k.paging.syscallHelper k.pid
      tss := { ss0 := kernelDs, esp0 := kernelStackTop k.pid }
      entryPoint := le32 (exec 0) (exec 1) (exec 2) (exec 3)
      entryStackLocation := UInt32.ofNat (userLocation + pageSize4MB - 4) }
    stores := storesAt imageAddress program }

end Kernel

def reachedMaxAmount : List UInt8 :=
  [114, 101, 97, 99, 104, 101, 100, 32, 109, 97, 120, 32, 97, 109, 111, 117, 110, 116, 10]

def kernelString : UInt32 := 0x400000

def syscallExecute (img : Image) (junk : StackBytes) (frame : Frame) (command : CString)
    (k : Kernel) : Entry :=
  match k.freeSlot with
  | none => do
    let left ← syscallWrite junk 1 kernelString (fun i => reachedMaxAmount.getD i 0) 19 k
    .ok { left with exit := .ret 0 }
  | some slot => do
    let k := (k.assignPid slot).allocatePcb
    let parsed ← parseCommand command k.currPcb.args
    let k := k.setPcb k.pid { k.currPcb with args := parsed.args }
    match findExecutable img junk parsed.exeName with
    | none => Kernel.returns { k with pidArray := Function.update k.pidArray k.pid 0 } (-1)
    | some exeDentry => .ok (k.enterProgram img junk frame exeDentry)

def shellCommand : CString := ⟨[115, 104, 101, 108, 108], CString.noNul_of_all rfl⟩

/-! ### Halt -/

namespace Kernel
variable (k : Kernel)

def closeFiles : Kernel :=
  let pcb := k.currPcb
  k.setPcb k.pid { pcb with fdArray := fun i => { pcb.fdArray i with flags := 0 } }

/-- The status that reaches the parent: `(uint32_t)(status) && 0xF`. -/
def statusFlag (status : UInt8) : UInt32 := if status ≠ 0 then 1 else 0

/-- The part of `syscall_halt` that goes back to the parent; `curr` is the slot of `curr_pcb`, fixed
when the call began. -/
def backToParent (curr : Nat) (status : UInt8) : Left :=
  let currPcb := k.pcb curr
  let parent := currPcb.parentPid
  let byException := status = 0 ∧ k.globalflag = 1
  let exceptionFlag := if byException then exceptHalt else statusFlag status
  { exit := .resume ⟨currPcb.executeEsp, currPcb.executeEbp⟩ exceptionFlag
    kernel := { k.setPcb curr { currPcb with exceptionFlag := exceptionFlag } with
      pidArray := Function.update k.pidArray k.pid 0
      pid := parent
      parentPid := (k.pcb parent).parentPid
      paging := k.paging.syscallHelper parent
      tss := { ss0 := kernelDs, esp0 := kernelStackTop parent }
      globalflag := if byException then 0 else k.globalflag }
    stores := [] }

end Kernel

def syscallHalt (img : Image) (junk : StackBytes) (frame : Frame) (status : UInt8) (k : Kernel) :
    Entry :=
  let curr := k.pid
  let k := k.closeFiles
  if (k.pcb curr).pid = 0 then do
    -- the base shell is started again on its own slot
    let left ← syscallExecute img junk frame shellCommand
      { k with pid := pidHaltVal, pidArray := Function.update k.pidArray 0 0 }
    match left.exit with
    | .ret retCheck =>
      if retCheck ≠ -1 then .ok { left with exit := .iret }
      else .ok (left.kernel.backToParent curr status)
    | _ => .ok left
  else .ok (k.backToParent curr status)

/-! ### Exceptions -/

def exceptionMessage (entry : Nat) : String :=
  match entry with
  | 0 => "EXCEPTION: Divide by Zero"
  | 1 => "EXCEPTION: Debug"
  | 2 => "EXCEPTION: NMI Interrupt"
  | 3 => "EXCEPTION: Breakpoint"
  | 4 => "EXCEPTION: OverFlow"
  | 5 => "EXCEPTION: BOUND Range Exceed"
  | 6 => "EXCEPTION: Invalid Opcode"
  | 7 => "EXCEPTION: Device Not Available"
  | 8 => "EXCEPTION: Double Fault"
  | 9 => "EXCEPTION: Coprocessor Segment Overrun"
  | 10 => "EXCEPTION: Invalid TSS"
  | 11 => "EXCEPTION: Segment Not Present"
  | 12 => "EXCEPTION: Stack Fault"
  | 13 => "EXCEPTION: General Protection"
  | 14 => "EXCEPTION: Page-Fault Exception"
  | 15 => "EXCEPTION: Intel Reserved"
  | 16 => "EXCEPTION: FPU Floating Point"
  | 17 => "EXCEPTION: Alignment Check"
  | 18 => "EXCEPTION: Machine-Check"
  | 19 => "EXCEPTION: SIMD Floatin Point"
  | _ => ""

def exceptionText (entry : Nat) : List UInt8 :=
  (exceptionMessage entry).toList.map (fun c => UInt8.ofNat c.toNat) ++ [10]

def exceptions (img : Image) (junk : StackBytes) (frame : Frame) (entry : Nat) (k : Kernel) :
    Entry :=
  let console := k.dev.console.puts k.currActiveTerminal (exceptionText entry)
  syscallHalt img junk frame 0
    { k with dev := { k.dev with console := console }, globalflag := 1 }

end MyLinuxOS
