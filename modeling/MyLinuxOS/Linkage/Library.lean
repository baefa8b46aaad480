import MyLinuxOS.Linkage.Calls

/-! The system call library: a call of a wrapper is the call of the kernel that the wrapper is named
after, and the wrapper keeps what a C function has to keep. -/

namespace MyLinuxOS
open Foundation

/-- The calls that return to the program that makes them; `execute` does when it starts nothing. -/
inductive ProgramCall
  | execute (command : CString)
  | user (c : UserCall)
  | vidmap (screenStart : UInt32)
  | setHandler (signum handlerAddress : UInt32)
  | sigreturn

namespace ProgramCall

def number : ProgramCall → UInt32
  | .execute _ => 2
  | .user (.readFd ..) => 3
  | .user (.writeFd ..) => 4
  | .user (.openName _) => 5
  | .user (.closeFd _) => 6
  | .user (.getargs ..) => 7
  | .vidmap _ => 8
  | .setHandler .. => 9
  | .sigreturn => 10

def enter (img : Image) (junk : StackBytes) (frame : Frame) (k : Kernel) : ProgramCall → Entry
  | .execute command => syscallExecute img junk frame command k
  | .user c => c.enter img junk k
  | .vidmap screenStart => syscallVidmap screenStart k
  | .setHandler .. | .sigreturn => k.returns (-1)

def dest : ProgramCall → UInt32
  | .user c => c.dest
  | .vidmap screenStart => screenStart
  | .execute _ | .setHandler .. | .sigreturn => 0

def object (c : ProgramCall) (a : UInt32) : Nat × List UInt8 :=
  match c with
  | .execute name | .user (.openName name) => (a.toNat, name.bytes ++ [0])
  | .user (.writeFd _ buf mem nbytes) =>
    (buf.word.toNat, (List.range nbytes.toInt.toNat).map mem)
  | _ => (0, [])

def words (c : ProgramCall) (a b d : UInt32) : Prop :=
  match c with
  | .execute _ | .user (.openName _) => a ≠ 0
  | .user (.closeFd fd) => a = fd.toUInt32
  | .user (.readFd fd buf nbytes) | .user (.writeFd fd buf _ nbytes) =>
    a = fd.toUInt32 ∧ b = buf.word ∧ d = nbytes.toUInt32
  | .user (.getargs buf nbytes) => a = buf.word ∧ b = nbytes.toUInt32
  | .vidmap screenStart => a = screenStart
  | .setHandler signum handlerAddress => a = signum ∧ b = handlerAddress
  | .sigreturn => True

/-- `execute` returns at once when no slot is free, or when there is nothing to load. -/
def Returns (img : Image) (k : Kernel) (c : ProgramCall) : Prop :=
  match c with
  | .execute command => k.freeSlot = none ∨ ∀ junk, commandTarget img junk command = .ok none
  | _ => True

end ProgramCall

def Lies (view : Nat → UInt8) (o : Nat × List UInt8) : Prop :=
  ∀ i (h : i < o.2.length), view (o.1 + i) = o.2[i]

def programWorld (img : Image) : World Kernel ProgramCall Answer := fun k c a k' =>
  ∃ dev junk frame,
    c.enter img junk frame (k.withDev dev) = .ok ⟨.ret a.1, k', storesAt c.dest a.2⟩

/-- Bytes that only the kernel's own stores into the program change: the pages of the programs, the
kernel stacks of the other slots, and the slot's own stack from `sp` up. -/
def Guarded (q sp a : Nat) : Prop :=
  (∃ p < maxPid, (programWindow p).Covers a) ∨
    (∃ p < maxPid, p ≠ q ∧ (kernelWindow p).Covers a) ∨ (sp ≤ a ∧ a < Kernel.kernelStackTop q)

/-- What a compiled function does from its first instruction to its return: the call, and what the
calling convention asks of it. -/
structure Performs (img : Image) (q : Nat) (c : ProgramCall) (a : Answer) (u v : Processor) :
    Prop where
  world : programWorld img u.kernel c a v.kernel
  eax : v.reg.eax = UInt32.ofInt a.1
  eip : v.reg.eip = u.load u.reg.esp
  esp : v.reg.esp = u.reg.esp + 4
  cs : v.reg.cs = u.reg.cs
  memory : ∀ addr, Guarded q (u.reg.esp.toNat + 16) addr →
    v.phys addr =
      applyStores u.phys ((storesAt c.dest a.2).map fun st => (u.physical st.1, st.2)) addr

def InPage (start len : Nat) : Prop :=
  len ≠ 0 → userLocation ≤ start ∧ start + len ≤ userLocation + pageSize4MB

/-- The functions in `jump_table` are those of `syscall.c`, as far as they return at once and what
they deliver goes to the page of the caller. Interrupts in them change devices only. -/
def Compiles (img : Image) (C : Compiled) : Prop :=
  ∀ q < maxPid, ∀ (c : ProgramCall) (i : Fin 10) (u v : Processor) (x y z : UInt32),
    c.number.toNat = i + 1 → u.kernel.tss.esp0 = Kernel.kernelStackTop q →
    u.load (u.reg.esp + 4) = x → u.load (u.reg.esp + 8) = y → u.load (u.reg.esp + 12) = z →
    c.words x y z → Lies u.view (c.object x) → c.Returns img u.kernel →
    (∀ a k', programWorld img u.kernel c a k' → InPage c.dest.toNat a.2.length) → C i u v →
      ∃ a, Performs img q c a u v

/-! ### Through the interrupt -/

section
variable {img : Image} {L : Linked} {C : Compiled} {k k' : Kernel} {c : ProgramCall} {a : Answer}

theorem programWorld_kept (h : programWorld img k c a k') :
    k'.tss = k.tss ∧ k'.programBase = k.programBase := by
  obtain ⟨dev, junk, frame, h⟩ := h
  cases c with
  | execute command =>
    rcases syscallExecute_cases h with ⟨-, -, dev', hk⟩ | ⟨slot, args, -, -, hleft⟩ |
      ⟨slot, args, d, -, -, hleft⟩
    · obtain rfl : k' = _ := hk
      exact ⟨rfl, rfl⟩
    · obtain rfl : k' = _ := congrArg Left.kernel hleft
      exact ⟨rfl, rfl⟩
    · exact absurd (congrArg Left.exit hleft) (by simp [Kernel.enterProgram])
  | user c =>
    obtain ⟨fds, dev', rfl⟩ := userWorld_onlyFiles k c a k' ⟨dev, junk, h⟩
    exact ⟨rfl, rfl⟩
  | vidmap screenStart =>
    rcases syscallVidmap_cases h with ⟨-, hleft⟩ | ⟨-, exit, -, hleft⟩
    · obtain rfl : k' = _ := congrArg Left.kernel hleft
      exact ⟨rfl, rfl⟩
    · obtain rfl : k' = _ := congrArg Left.kernel hleft
      refine ⟨rfl, ?_⟩
      have hother : ∀ i ≠ vidmapIndex,
          k.paging.syscallVidmapHelper.pageDirectory i = k.paging.pageDirectory i :=
        fun i hi => Function.update_of_ne hi ..
      exact congrArg (fun e : PageDirectoryEntry => e.addr * bytesToAlignTo)
        (hother userProgramIndex (by decide))
  | setHandler signum handlerAddress =>
    obtain rfl : k.withDev dev = k' := congrArg Left.kernel (Except.ok.inj h)
    exact ⟨rfl, rfl⟩
  | sigreturn =>
    obtain rfl : k.withDev dev = k' := congrArg Left.kernel (Except.ok.inj h)
    exact ⟨rfl, rfl⟩

theorem covers_apart {q p addr : Nat} (hq : q < maxPid) (hp : p < maxPid)
    (h : (programWindow p).Covers addr ∨ p ≠ q ∧ (kernelWindow p).Covers addr) :
    ¬ (kernelWindow q).Covers addr := by
  obtain ⟨hlo, hbase, hhi⟩ := kernelWindow_bounds hq
  obtain ⟨hlo', hbase', hhi'⟩ := kernelWindow_bounds hp
  obtain ⟨hlo'', hbase'', hhi''⟩ := programWindow_bounds p
  unfold maxPid at hq hp
  unfold Window.Covers at h ⊢
  omega

namespace Processor
variable {s t u v : Processor} {q : Nat}

theorem inFunction_phys (hs : s.InProgram q) (hq : q < maxPid) (next : UInt32) {p addr : Nat}
    (hp : p < maxPid)
    (h : (programWindow p).Covers addr ∨ p ≠ q ∧ (kernelWindow p).Covers addr) :
    (s.inFunction L next).phys addr = s.phys addr :=
  (inFunction_frame hs hq next).outside addr (covers_apart hq hp h)

theorem inFunction_view (hs : s.InProgram q) (hq : q < maxPid) (next : UInt32) {w : Nat}
    (hl : userLocation ≤ w) (hh : w < userLocation + pageSize4MB) :
    (s.inFunction L next).view w = s.view w := by
  have hmaps := (maps_programWindow hs.page).physical w hl hh
  have hcovers : (programWindow q).Covers ((programWindow q).phys w) := by
    obtain ⟨hlo, hbase, hhi⟩ := programWindow_bounds q
    unfold userLocation at hl hh
    unfold pageSize4MB at hh
    unfold Window.Covers Window.phys
    omega
  have hsame : (s.inFunction L next).physical w = s.physical w := by
    rw [Processor.physical, (inFunction_frame hs hq next).kernel, Processor.physical]
  rw [view, hsame, hmaps, s.inFunction_phys hs hq next hq (.inl hcovers), view, hmaps]

theorem entryRegisters_args (hs : s.InProgram q) (next : UInt32) :
    (s.entryRegisters L next).ebx = s.reg.ebx ∧ (s.entryRegisters L next).ecx = s.reg.ecx ∧
      (s.entryRegisters L next).edx = s.reg.edx := by
  rw [entryRegisters, comparedRegs, interrupt_reg hs.user]
  exact ⟨rfl, rfl, rfl⟩

theorem inFunction_load (hs : s.InProgram q) (hq : q < maxPid) (next : UInt32) :
    (s.inFunction L next).load ((s.inFunction L next).reg.esp + 4) = s.reg.ebx ∧
      (s.inFunction L next).load ((s.inFunction L next).reg.esp + 8) = s.reg.ecx ∧
      (s.inFunction L next).load ((s.inFunction L next).reg.esp + 12) = s.reg.edx := by
  obtain ⟨hebx, hecx, hedx⟩ := s.entryRegisters_args (L := L) hs next
  obtain ⟨ws, hframe⟩ : ∃ ws, OnStack (kernelWindow q) s.kernel s.phys 1 (s.inFunction L next)
      (L.callReturn :: (s.entryRegisters L next).ebx :: (s.entryRegisters L next).ecx ::
        (s.entryRegisters L next).edx :: ws) := ⟨_, s.inFunction_frame hs hq next⟩
  rw [hebx, hecx, hedx] at hframe
  exact ⟨hframe.load_at (i := 1) (by simp) (by decide),
    hframe.load_at (i := 2) (by simp) (by decide), hframe.load_at (i := 3) (by simp) (by decide)⟩

theorem number_valid (h : s.reg.eax = c.number) :
    s.invalidCall = false ∧ c.number.toNat = s.tableIndex + 1 := by
  simp only [invalidCall, tableIndex, h]
  cases c with
  | execute command => exact ⟨rfl, rfl⟩
  | user c => cases c <;> exact ⟨rfl, rfl⟩
  | vidmap screenStart => exact ⟨rfl, rfl⟩
  | setHandler signum handlerAddress => exact ⟨rfl, rfl⟩
  | sigreturn => exact ⟨rfl, rfl⟩

theorem syscallAsm_valid (h : s.invalidCall = false) :
    s.SyscallAsm L C t ↔ ∃ v, C s.tableIndex (s.callFunction L) v ∧ t = v.popRegisters.iret := by
  unfold SyscallAsm
  rw [h, if_neg (by decide)]

theorem interrupt_eax (hs : s.InProgram q) (next : UInt32) :
    (s.interrupt L.syscallAsm next).reg.eax = s.reg.eax := by
  rw [interrupt_reg hs.user]

theorem storesAt_inPage {buf : UInt32} {bytes : List UInt8}
    (hpage : InPage buf.toNat bytes.length) :
    ∀ st ∈ storesAt buf bytes, userLocation ≤ st.1 ∧ st.1 < userLocation + pageSize4MB ∧
      buf.toNat ≤ st.1 ∧ st.1 < buf.toNat + bytes.length := by
  intro st hst
  obtain ⟨i, hi, rfl⟩ := mem_storesAt.mp hst
  obtain ⟨hl, hh⟩ := hpage (by omega)
  have hmod : (buf.toNat + i) % 4294967296 = buf.toNat + i := by
    unfold userLocation pageSize4MB at hh
    omega
  simp only [hmod]
  omega

theorem physical_eq (hpage : s.kernel.programBase = programMemory q) {w : Nat}
    (hl : userLocation ≤ w) (hh : w < userLocation + pageSize4MB) :
    s.physical w = q * 4194304 + 8388608 + (w - 134217728) :=
  (maps_programWindow hpage).physical w hl hh

theorem mapped_ne (hs : s.InProgram q) {buf : UInt32} {bytes : List UInt8}
    (hpage : InPage buf.toNat bytes.length) {addr : Nat} (haddr : ¬ (programWindow q).Covers addr) :
    ∀ st ∈ (storesAt buf bytes).map fun st => (s.physical st.1, st.2), st.1 ≠ addr := by
  rintro st hst rfl
  obtain ⟨st', hst', rfl⟩ := List.mem_map.mp hst
  obtain ⟨hl, hh, -⟩ := storesAt_inPage hpage st' hst'
  have hphysical := physical_eq hs.page hl hh
  obtain ⟨hlo, hbase, hhi⟩ := programWindow_bounds q
  unfold userLocation at hl hh
  unfold pageSize4MB at hh
  unfold Window.Covers at haddr
  simp only [hphysical] at haddr
  omega

theorem int_call (hlevel : level L.syscallAsm.selector = 0) (hC : Compiles img C) (hq : q < maxPid)
    (hs : s.InProgram q) (heax : s.reg.eax = c.number)
    (hwords : c.words s.reg.ebx s.reg.ecx s.reg.edx) (hlies : Lies s.view (c.object s.reg.ebx))
    (hpage : InPage (c.object s.reg.ebx).1 (c.object s.reg.ebx).2.length)
    (hdest : ∀ a k', programWorld img s.kernel c a k' → InPage c.dest.toNat a.2.length)
    (hreturns : c.Returns img s.kernel) {next : UInt32}
    (hrun : (s.interrupt L.syscallAsm next).SyscallAsm L C t) :
    ∃ a, programWorld img s.kernel c a t.kernel ∧ t.InProgram q ∧
      (∃ x y z, t.reg = { s.reg with
        eax := UInt32.ofInt a.1, ebx := x, ecx := y, edx := z, eip := next }) ∧
      ∀ p < maxPid, ∀ addr,
        (programWindow p).Covers addr ∨ p ≠ q ∧ (kernelWindow p).Covers addr →
          t.phys addr = applyStores s.phys
            ((storesAt c.dest a.2).map fun st => (s.physical st.1, st.2)) addr := by
  have hframe := s.inFunction_frame (L := L) hs hq next
  obtain ⟨hvalid, hindex⟩ := number_valid ((s.interrupt_eax (L := L) hs next).trans heax)
  obtain ⟨v, hcall, rfl⟩ := (syscallAsm_valid hvalid).mp hrun
  obtain ⟨h1, h2, h3⟩ := s.inFunction_load (L := L) hs hq next
  have hlies' : Lies (s.inFunction L next).view (c.object s.reg.ebx) := by
    intro i hi
    obtain ⟨hl, hh⟩ := hpage (by omega)
    rw [s.inFunction_view hs hq next (by omega) (by omega), hlies i hi]
  obtain ⟨a, hperf⟩ := hC q hq c _ _ v _ _ _ hindex (by rw [hframe.kernel, hs.tss]) h1 h2 h3
    hwords hlies' (hframe.kernel.symm ▸ hreturns) (hframe.kernel.symm ▸ hdest) hcall
  have hworld : programWorld img s.kernel c a v.kernel := hframe.kernel ▸ hperf.world
  obtain ⟨htss, hbase⟩ := programWorld_kept hworld
  have hphysical : (s.inFunction L next).physical = s.physical := by
    funext w
    rw [Processor.physical, hframe.kernel, Processor.physical]
  have hmemory := hperf.memory
  rw [hphysical] at hmemory
  have htop := kernelStackTop_eq hq
  have hreturned : Returned q (s.inFunction L next) v := by
    refine ⟨hperf.esp, ?_, fun addr hl hh => ?_⟩
    · rw [hperf.cs]
      exact (congrArg level (congrArg Registers.cs (interrupt_reg hs.user L.syscallAsm next))).trans
        hlevel
    · rw [hmemory addr (.inr (.inr ⟨hl, hh⟩))]
      refine applyStores_of_ne (mapped_ne hs (hdest a _ hworld) ?_)
      obtain ⟨-, hbase', -⟩ := programWindow_bounds q
      unfold Window.Covers
      omega
  obtain ⟨x, y, z, hreg⟩ := return_reg hs hq hreturned
  refine ⟨a, ?_, ⟨?_, ?_, ?_⟩, ⟨x, y, z, ?_⟩, fun p hp addr haddr => ?_⟩
  · rw [iret_kernel, popRegisters_kernel]
    exact hworld
  · rw [iret_kernel, popRegisters_kernel]
    exact htss.trans hs.tss
  · rw [iret_kernel, popRegisters_kernel]
    exact hbase.trans hs.page
  · rw [hreg]
    exact hs.user
  · rw [hreg, hperf.eax]
  · have hguarded : Guarded q ((s.inFunction L next).reg.esp.toNat + 16) addr := by
      rcases haddr with haddr | ⟨hne, haddr⟩
      · exact .inl ⟨p, hp, haddr⟩
      · exact .inr (.inl ⟨p, hp, hne, haddr⟩)
    rw [iret_phys, popRegisters_phys]
    exact (hmemory addr hguarded).trans
      (applyStores_congr (s.inFunction_phys hs hq next hp haddr))

/-! ### Through the wrapper -/

/-- Bytes in the program's page that are not in the frame of a wrapper: neither the word that it
pushes below `sp` nor its return address. -/
def Clear (sp start len : Nat) : Prop :=
  len ≠ 0 → userLocation ≤ start ∧ start + len ≤ userLocation + pageSize4MB ∧
    (start + len + 4 ≤ sp ∨ sp + 4 ≤ start)

theorem Clear.inPage {sp start len : Nat} (h : Clear sp start len) : InPage start len :=
  fun hlen => ⟨(h hlen).1, (h hlen).2.1⟩

section
variable {w : Window} {m : Nat → UInt8} {ra x y z : UInt32} {ws : List UInt32}

end

end Processor
end

end MyLinuxOS
