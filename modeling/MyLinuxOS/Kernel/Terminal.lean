import MyLinuxOS.Kernel.Execute

/-! The virtual terminals of `terminal.c`: switching between them, and the boot of the first one. -/

namespace MyLinuxOS
open Foundation

namespace Kernel
variable (k : Kernel)

def saveVisibleTerminal (terminalOld : Nat) : Kernel :=
  let t := k.termBlk terminalOld
  let console := k.dev.console
  { k with
    termBlk := Function.update k.termBlk terminalOld
      { t with cursorX := console.screenX, cursorY := console.screenY }
    dev := { k.dev with
      console := console.copyPage t.videoMem video
      keyboard := k.dev.keyboard.clearKeyboardBuffer } }

def restoreNewTerminal (terminalNew : Nat) : Kernel :=
  let t := k.termBlk terminalNew
  let console := { k.dev.console with screenX := t.cursorX, screenY := t.cursorY }.updateCursor
  { k with dev := { k.dev with console := console.copyPage video t.videoMem } }

def switchTerminal (newTermVal : Nat) : Kernel :=
  { (k.saveVisibleTerminal k.currActiveTerminal).restoreNewTerminal newTermVal with
    currActiveTerminal := newTermVal }

end Kernel

/-- The result of starting the shell on a new terminal is ignored when it comes back. -/
def terminalSwap (img : Image) (junk : StackBytes) (frame : Frame) (newTermVal : Int)
    (k : Kernel) : Entry :=
  if newTermVal < 0 ∨ newTermVal ≥ maxTerminals then k.returns (-1)
  else if newTermVal = k.currActiveTerminal then k.returns 0
  else
    let k' := k.switchTerminal newTermVal.toNat
    if (k.termBlk newTermVal.toNat).processActive = -1 then do
      let left ← syscallExecute img junk frame shellCommand k'
      match left.exit with
      | .ret _ => .ok { left with exit := .ret 0 }
      | _ => .ok left
    else k'.returns 0

/-- What the machine holds before the kernel has run: the screen, the clock, the memory behind the
keyboard buffer, and where the linker put two tables. -/
structure PowerOn where
  vram : Int → UInt8
  statusA : UInt8
  afterKeyBuffer : Nat → UInt8
  pageTableAddr : Nat
  pageVidmapAddr : Nat

def zeroFd : FileDescriptor := ⟨.raw 0, 0, 0, 0⟩

def zeroPcb : Pcb where
  fdArray := fun _ => zeroFd
  pid := 0
  parentPid := 0
  exceptionFlag := 0
  executeEsp := 0
  executeEbp := 0
  args := fun _ => 0

def zeroPaging (hw : PowerOn) : Paging where
  pageDirectory := fun _ => ⟨false, false, false, false, false, false, false, false, false, 0, 0⟩
  pageTable := fun _ => ⟨false, false, false, false, false, false, false, false, false, 0, 0⟩
  pageVidmap := fun _ => ⟨false, false, false, false, false, false, false, false, false, 0, 0⟩
  pageTableAddr := hw.pageTableAddr
  pageVidmapAddr := hw.pageVidmapAddr

def bootTerminal (i : Nat) : Terminal where
  processActive := if i = 0 then 0 else -1
  cursorX := 0
  cursorY := 0
  videoMem := 4096 * (addrVideo / bytesToAlignTo + i + 1)

def initTerminal (hw : PowerOn) : Kernel where
  pid := 0
  parentPid := 0
  pidArray := fun _ => 0
  pcb := fun _ => zeroPcb
  globalflag := 0
  entryPoint := 0
  entryStackLocation := 0
  paging := (zeroPaging hw).initializePaging
  tss := { ss0 := kernelDs, esp0 := kpageSize }
  currActiveTerminal := 0
  termBlk := bootTerminal
  dev := {
    console := { vram := hw.vram, screenX := 0, screenY := 0, crtcCursor := 0 : Console }.clear 0
    keyboard := Keyboard.initKeyboard hw.afterKeyBuffer
    rtc := { statusA := hw.statusA, interruptFlag := 0 } }

def Boots (img : Image) (k : Kernel) : Prop :=
  ∃ hw junk frame stores,
    syscallExecute img junk frame shellCommand (initTerminal hw) = .ok ⟨.iret, k, stores⟩

end MyLinuxOS
