import MyLinuxOS.Process.Executables
import MyLinuxOS.Programs.Lifecycle
import MyLinuxOS.Terminal.TypedLines

/-! The shell over whole sessions: the lines that are typed, the programs that run, and what a
command that does not exist does to the ones behind it. -/

namespace MyLinuxOS
open Foundation

namespace Shell

/-! ### The program -/

inductive ShellCall
  | user (c : UserCall)
  | execute (command : CString)

/-- `while (*s1 == *s2)`, from byte `i` on. -/
def ece391Strcmp (s₁ s₂ : Nat → UInt8) : (fuel i : Nat) → Option Int
  | 0, _ => none
  | fuel + 1, i =>
    if s₁ i = s₂ i then if s₁ i = 0 then some 0 else ece391Strcmp s₁ s₂ fuel (i + 1)
    else some ((s₁ i).toNat - (s₂ i).toNat)

def startingShell : CString := literal "Starting 391 Shell\n" rfl
def prompt : CString := literal "391OS> " rfl
def keyboardFailed : CString := literal "read from keyboard failed\n" rfl
def exitCommand : CString := literal "exit" rfl
def noSuchCommand : CString := literal "no such command\n" rfl
def byException : CString := literal "program terminated by exception\n" rfl
def abnormally : CString := literal "program terminated abnormally\n" rfl

def say (s : CString) : Program ShellCall Answer Unit :=
  (ece391Fdputs 1 textAddress s).through .user

def report (rval : Int) : Program ShellCall Answer Unit :=
  if rval = -1 then say noSuchCommand
  else if rval = 256 then say byException
  else if rval ≠ 0 then say abnormally
  else .ret ()

def afterRead (buf : Buffer) (cnt : Int) : Program ShellCall Answer (Buffer ⊕ Int) :=
  let last := if 0 < cnt ∧ buf (cnt.toNat - 1) = 10 then cnt.toNat - 1 else cnt.toNat
  let buf := Function.update buf last 0
  if ece391Strcmp buf exitCommand.charAt 1024 0 = some 0 then .ret (.inr 0)
  else if buf 0 = 0 then .ret (.inl buf)
  else .call (.execute (arrayString buf 1024)) fun r =>
    (report r.1).bind fun _ => .ret (.inl buf)

def shellTurn (bufAt : Address) (buf : Buffer) : Program ShellCall Answer (Buffer ⊕ Int) :=
  (say prompt).bind fun _ =>
    .call (.user (.readFd 0 bufAt 1023)) fun a =>
      if a.1 = -1 then (say keyboardFailed).bind fun _ => .ret (.inr 3)
      else afterRead (storeChunk buf 0 a.2) a.1

def shell (bufAt : Address) (buf : Buffer) (turns : Nat) :
    Program ShellCall Answer (Buffer ⊕ Int) :=
  (say startingShell).bind fun _ => .iterate (shellTurn bufAt) turns buf

/-! ### The world -/

structure Sitting where
  kernel : Kernel
  lines : List CString

def Waiting (kb : Keyboard) (line : CString) : Prop :=
  kb.enterFlag ≠ 0 ∧ ∀ i ≤ line.strlen, kb.keyBuffer i = (line.bytes ++ [10]).getD i 0

def ReadsKeyboard (k : Kernel) : UserCall → Prop
  | .readFd fd _ _ => ∃ i e, k.dispatch fd = some (i, e) ∧ e.fileOpsTable = .table .stdin
  | .openName _ | .closeFd _ | .writeFd _ _ _ _ | .getargs _ _ => False

def programPage (k : Kernel) : Nat := (k.paging.pageDirectory userProgramIndex).addr

section world
variable (img : Image) (programs : Dentry → Program UserCall Answer Int)

/-- A call of the shell. A program that is executed runs to its `halt`, and what it writes is part
of the answer. The shell goes on only if its own page is back in place: otherwise the processor
returns to its addresses in the memory of another program. -/
inductive shellWorld : World Sitting ShellCall Answer
  | user {k k' : Kernel} {lines : List CString} {c : UserCall} {a : Answer} {dev : Devices}
      {junk : StackBytes} : ¬ ReadsKeyboard k c →
      c.enter img junk (k.withDev dev) = .ok ⟨.ret a.1, k', storesAt c.dest a.2⟩ →
      shellWorld ⟨k, lines⟩ (.user c) a ⟨k', lines⟩
  | typed {k k' : Kernel} {line : CString} {lines : List CString} {c : UserCall} {a : Answer}
      {dev : Devices} {junk : StackBytes} : ReadsKeyboard k c → Waiting dev.keyboard line →
      c.enter img junk (k.withDev dev) = .ok ⟨.ret a.1, k', storesAt c.dest a.2⟩ →
      shellWorld ⟨k, line :: lines⟩ (.user c) a ⟨k', lines⟩
  | refused {k k' : Kernel} {lines : List CString} {command : CString} {r : Int}
      {stores : List Store} {dev : Devices} {junk : StackBytes} {frame : Frame} :
      syscallExecute img junk frame command (k.withDev dev) = .ok ⟨.ret r, k', stores⟩ →
      shellWorld ⟨k, lines⟩ (.execute command) (r, []) ⟨k', lines⟩
  | ran {k k₁ t k' : Kernel} {lines : List CString} {command : CString} {d : Dentry}
      {stores stores' : List Store} {dev dev' : Devices} {junk junk' : StackBytes}
      {frame frame' : Frame} {trace : List (UserCall × Answer)} {status : Int} {flag : UInt32} :
      commandTarget img junk command = .ok (some d) →
      syscallExecute img junk frame command (k.withDev dev) = .ok ⟨.iret, k₁, stores⟩ →
      (programs d).Runs (userWorld img) k₁ trace status t →
      syscallHalt img junk' frame' (statusByte status) (t.withDev dev') =
        .ok ⟨.resume frame flag, k', stores'⟩ →
      programPage k' = programPage k →
      shellWorld ⟨k, lines⟩ (.execute command) (flag.toNat, written trace) ⟨k', lines⟩

end world

def shown (trace : List (ShellCall × Answer)) : List UInt8 :=
  trace.flatMap fun
    | (.user c, a) => written [(c, a)]
    | (.execute _, a) => a.2

/-! ### Strings -/

section calls
variable {img : Image} {programs : Dentry → Program UserCall Answer Int} {k : Kernel}
  {lines : List CString}

def Passed (k k' : Kernel) : Prop := ∃ dev, k' = k.withDev dev

section execute
variable {slot : Nat} {command : CString} {d : Dentry}

end execute

/-! ### Messages -/

def Shows {α : Type} (img : Image) (programs : Dentry → Program UserCall Answer Int)
    (p : Program ShellCall Answer α) (k : Kernel) (text : List UInt8) : Prop :=
  ∀ lines, p.Ensures (shellWorld img programs) (fun trace _ t =>
    shown trace = text ∧ Passed k t.kernel ∧ t.lines = lines) ⟨k, lines⟩

/-- `home`: it runs as itself. `astray`: a command was not found, and it runs as the process that
was never started. -/
inductive Mode
  | home
  | astray
deriving DecidableEq

/-- The first shell is in its own page, its terminal is open, and the next program has a slot. -/
structure Serving (k : Kernel) (slot : Nat) : Prop where
  tidy : TidyRun k
  stdio : StdioOnly k
  free : k.freeSlot = some slot
  clear : k.globalflag = 0
  page : programPage k = frameOf (0 * pageSize4MB + kpageSize)

def InMode (slot : Nat) (k : Kernel) : Mode → Prop
  | .home => Serving k slot ∧ k.pid = 0 ∧ k.parentPid = 0 ∧ (k.pcb 0).parentPid = 0
  | .astray => Serving k slot ∧ k.pid = slot ∧ k.parentPid = slot

theorem Serving.abandoned {slot : Nat} (h : Serving k slot) (hroot : slot ≠ 0)
    (args : Nat → UInt8) : InMode slot (k.abandoned slot args) .astray := by
  have hfree := (Kernel.freeSlot_eq_some h.free).2.1
  obtain ⟨-, hparent, harray, -⟩ := abandoned_effects args h.free
  have htidy : TidyRun (k.abandoned slot args) := h.tidy.toTidy.abandoned hfree
  have hblock : (k.abandoned slot args).currPcb.fdArray =
      Function.update (Function.update (k.pcb slot).fdArray 0 Kernel.stdinEntry) 1
        Kernel.stdoutEntry := by
    change ((k.prepared slot args).pcb slot).fdArray = _
    rw [Kernel.prepared_pcb_self]
  have hslot : (k.abandoned slot args).freeSlot = k.freeSlot := by
    unfold Kernel.freeSlot
    rw [harray]
  refine ⟨⟨htidy, stdioOnly_of ?_ ?_ (htidy.closed slot abandoned_free), hslot.trans h.free, h.clear,
    h.page⟩, rfl, hparent.trans (if_neg hroot)⟩
  · rw [hblock]
    rfl
  · rw [hblock]
    rfl

end calls

/-! ### Sessions -/

section sessions
variable (target : CString → Option Dentry) (outcome : Dentry → CString → List UInt8 × Int)

def Mode.after (mode : Mode) : Option Dentry → Mode
  | none => .astray
  | some _ => mode

def behind (text : List UInt8) (later : List UInt8 × Option Int) : List UInt8 × Option Int :=
  (text ++ later.1, later.2)

end sessions

section turns
variable {img : Image} {programs : Dentry → Program UserCall Answer Int} {k : Kernel}
  {lines : List CString} {target : CString → Option Dentry}
  {outcome : Dentry → CString → List UInt8 × Int} {slot : Nat} {mode : Mode}

end turns

/-! ### A sample session -/

end Shell
end MyLinuxOS
