import MyLinuxOS.Kernel.Process

/-! The system calls of `syscall.c` that work on descriptors, arguments and the video mapping,
with the drivers of `terminal.c` and `filesys.c` behind the jump tables. -/

namespace MyLinuxOS
open Foundation

namespace Kernel
variable (k : Kernel)

def fdIndex (lo : Int) (fd : Int32) : Option Nat :=
  if fd.toInt < lo ∨ fd.toInt > maxNumFd then none else some fd.toInt.toNat

def dispatch (fd : Int32) : Option (Nat × FileDescriptor) :=
  match fdIndex 0 fd with
  | none => none
  | some i => if (k.currPcb.fdEntry i).flags = 0 then none else some (i, k.currPcb.fdEntry i)

def setFd (i : Nat) (e : FileDescriptor) : Kernel := k.setPcb k.pid (k.currPcb.setFdEntry i e)

end Kernel

/-! ### Drivers -/

def copyLine (keyBuffer : Nat → UInt8) : (n i : Nat) → List UInt8
  | 0, _ => []
  | n + 1, i => if keyBuffer i = 10 then [] else keyBuffer i :: copyLine keyBuffer n (i + 1)

/-- `terminal_read`, from the moment its wait for `enter_flag` is over. The count of the loop is
unsigned, and the newline is stored after the loop whether or not one was found. -/
def terminalRead (buf : UInt32) (nbytes : Int32) (k : Kernel) : Entry :=
  if k.dev.keyboard.enterFlag = 0 then .error .waiting
  else
    let nbytes := if nbytes > 128 then 128 else nbytes
    let line := copyLine k.dev.keyboard.keyBuffer nbytes.toUInt32.toNat 0
    let kb := { k.dev.keyboard with enterFlag := 0, bufferIndex := -1 }.clearKeyboardBuffer
    .ok ⟨.ret (Int.bmod (line.length + 1) 4294967296),
      { k with dev := { k.dev with keyboard := kb } }, storesAt buf (line ++ [10])⟩

def terminalWrite (mem : Nat → UInt8) (nbytes : Int32) (k : Kernel) : Entry :=
  let text := ((List.range nbytes.toInt.toNat).map mem).filter (· ≠ 0)
  let console := k.dev.console.puts k.currActiveTerminal text
  Kernel.returns { k with dev := { k.dev with console := console } } 0

def fileRead (img : Image) (fname : Nat) (buf : UInt32) (nbytes : Int32) (k : Kernel) : Entry :=
  if buf = 0 ∨ nbytes < 0 ∨ fname > maxNumFd then k.returns (-1)
  else
    let e := k.currPcb.fdEntry fname
    match readData img e.inode e.filePos buf nbytes.toUInt32 with
    | none => k.returns (-1)
    | some bytes =>
      .ok ⟨.ret bytes.length,
        k.setFd fname { e with filePos := e.filePos + UInt32.ofNat bytes.length },
        storesAt buf bytes⟩

/-- `strlen` of a name that may have no NUL, cut at 32: what follows the name in the entry is
scanned, what follows the entry is not needed to know that the length exceeds 32. -/
def Dentry.nameLength (d : Dentry) : Nat :=
  let retval := (d.bytes.takeWhile (· ≠ 0)).length
  if retval > filenameMaxLength then filenameMaxLength else retval

/-- All 32 bytes of the name are copied, whatever `nbytes` is. -/
def dirRead (img : Image) (fd : Nat) (buf : UInt32) (k : Kernel) : Entry :=
  let e := k.currPcb.fdEntry fd
  match readDentryByIndex img e.filePos with
  | none => k.returns (-1)
  | some dentry =>
    .ok ⟨.ret dentry.nameLength, k.setFd fd { e with filePos := e.filePos + 1 },
      storesAt buf (List.ofFn dentry.fileName)⟩

def readFn (img : Image) (junk : StackBytes) (ops : OpsPtr) (fd : Nat) (buf : UInt32)
    (nbytes : Int32) (k : Kernel) : Entry :=
  match ops with
  | .table .rtc =>
    match k.dev.rtc.readRtc junk.regATemp with
    | none => .error .waiting
    | some (r, rtc) => Kernel.returns { k with dev := { k.dev with rtc := rtc } } r
  | .table .dir => dirRead img fd buf k
  | .table .file => fileRead img fd buf nbytes k
  | .table .stdin => terminalRead buf nbytes k
  | .table .stdout => k.returns (-1)
  | .raw _ => .error .wildCall

def writeFn (junk : StackBytes) (ops : OpsPtr) (buf : UInt32) (mem : Nat → UInt8)
    (nbytes : Int32) (k : Kernel) : Entry :=
  match ops with
  | .table .rtc =>
    let (r, rtc) :=
      k.dev.rtc.writeRtc junk.regATemp buf (le32 (mem 0) (mem 1) (mem 2) (mem 3)) nbytes
    Kernel.returns { k with dev := { k.dev with rtc := rtc } } r
  | .table .stdout => terminalWrite mem nbytes k
  | .table .dir | .table .file | .table .stdin => k.returns (-1)
  | .raw _ => .error .wildCall

/-- The `close_fn` of a jump table; those of stdin and stdout are null. -/
def closeFn (ops : OpsPtr) (k : Kernel) : Entry :=
  match ops with
  | .table .rtc | .table .dir | .table .file => k.returns 0
  | .table .stdin | .table .stdout | .raw _ => .error .wildCall

/-! ### System calls -/

def syscallRead (img : Image) (junk : StackBytes) (fd : Int32) (buf : UInt32) (nbytes : Int32)
    (k : Kernel) : Entry :=
  if buf = 0 then k.returns (-1)
  else
    match k.dispatch fd with
    | none => k.returns (-1)
    | some (i, e) => readFn img junk e.fileOpsTable i buf nbytes k

def syscallWrite (junk : StackBytes) (fd : Int32) (buf : UInt32) (mem : Nat → UInt8)
    (nbytes : Int32) (k : Kernel) : Entry :=
  if nbytes < 0 ∨ buf = 0 then k.returns (-1)
  else
    match k.dispatch fd with
    | none => k.returns (-1)
    | some (_, e) => writeFn junk e.fileOpsTable buf mem nbytes k

/-- The table chosen for a file type; for any other type the pointer stays what it was. -/
def opsTableFor (type : UInt32) (previous : OpsPtr) : OpsPtr :=
  if type = 0 then .table .rtc
  else if type = 1 then .table .dir
  else if type = 2 then .table .file
  else previous

def syscallOpen (img : Image) (filename : Option CString) (k : Kernel) : Entry :=
  match filename with
  | none => k.returns (-1)
  | some name =>
    if name.strlen = 0 then k.returns (-1)
    else
      match readDentryByName img (some name) with
      | none => k.returns (-1)
      | some entry =>
        match firstFrom (fun i => (k.currPcb.fdEntry i).flags = 0) (maxNumFd - startFd) startFd with
        | none => k.returns (-1)
        | some fd =>
          (k.setFd fd
            { fileOpsTable := opsTableFor entry.type (k.currPcb.fdEntry fd).fileOpsTable
              inode := entry.inode
              filePos := 0
              flags := 1 }).returns fd

def syscallClose (fd : Int32) (k : Kernel) : Entry :=
  match Kernel.fdIndex startFd fd with
  | none => k.returns (-1)
  | some i =>
    let e := k.currPcb.fdEntry i
    if e.flags = 1 then
      closeFn e.fileOpsTable (k.setFd i { e with flags := 0, inode := 0, filePos := 0 })
    else k.returns (-1)

def copyArgs (args : Nat → UInt8) : (n i : Nat) → List UInt8
  | 0, _ => []
  | n + 1, i =>
    if args i = 32 then copyArgs args n (i + 1)
    else if args (i + 1) = 32 then args i :: 32 :: copyArgs args n (i + 1)
    else args i :: copyArgs args n (i + 1)

def syscallGetargs (buf : UInt32) (nbytes : Int32) (k : Kernel) : Entry :=
  if buf = 0 then k.returns (-1)
  else if k.currPcb.args 0 = 0 then k.returns (-1)
  else
    .ok ⟨.ret 0, k, storesAt buf (copyArgs k.currPcb.args nbytes.toInt.toNat 0 ++ [0])⟩

def virtualVidmap : UInt32 := 0x8800000

/-- The page behind the program's is never mapped: a pointer that passes the check and reaches it is
stored through after the helper, and the store faults. -/
def syscallVidmap (screenStart : UInt32) (k : Kernel) : Entry :=
  if screenStart = 0 then k.returns (-1)
  else if screenStart.toNat ≤ userLocation ∨ screenStart.toNat > userLocation + pageSize4MB then
    k.returns (-1)
  else
    let exit := if screenStart.toNat + 4 ≤ userLocation + pageSize4MB then .ret 0 else .fault
    .ok ⟨exit, { k with paging := k.paging.syscallVidmapHelper },
      storesAt screenStart (le32Bytes virtualVidmap)⟩

end MyLinuxOS
