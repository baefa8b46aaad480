import MyLinuxOS.Process.SystemCalls

/-! What a new process finds in its descriptors. `execute` fills in the first two entries of the
block and relies on the rest being closed: `halt` closes all of them, and a slot that has never been
used is zero. What breaks this is an `open` made under the pid of a slot that is free, where a
failed `execute` leaves its caller. -/

namespace MyLinuxOS
open Foundation

def Pcb.Closed (b : Pcb) : Prop := ∀ i : Fin 8, 2 ≤ i.val → (b.fdArray i).flags = 0

structure Tidy (k : Kernel) : Prop where
  parentPid : Named k.pcb k.parentPid
  parents : ∀ p, Named k.pcb p → Named k.pcb (k.pcb p).parentPid
  closed : ∀ p, k.pidArray p = 0 → (k.pcb p).Closed

structure TidyRun (k : Kernel) : Prop extends Tidy k where
  pid : Named k.pcb k.pid

section
variable {k k' : Kernel} {img : Image} {junk : StackBytes} {frame : Frame} {slot : Nat}
  {args : Nat → UInt8} {left : Left}

theorem Tidy.congr (h : Tidy k) (hpid : ∀ p, (k'.pcb p).pid = (k.pcb p).pid)
    (hparents : ∀ p, (k'.pcb p).parentPid = (k.pcb p).parentPid)
    (hparent : Named k.pcb k'.parentPid) (hclosed : ∀ p, k'.pidArray p = 0 → (k'.pcb p).Closed) :
    Tidy k' where
  parentPid := (hpid _).trans hparent
  parents := by
    intro p hp
    rw [hparents p]
    exact (hpid _).trans (h.parents p ((hpid p).symm.trans hp))
  closed := hclosed

theorem Tidy.ready (h : Tidy k) : Ready k Watch.powerOn where
  parentPid := h.parentPid
  blocks := ⟨h.parents, fun _ _ he => absurd he (by simp [Watch.powerOn]),
    fun _ _ he => absurd he (by simp [Watch.powerOn])⟩

theorem Tidy.prepared (h : Tidy k) (hslot : k.pidArray slot = 0) :
    TidyRun (k.prepared slot args) ∧ ((k.prepared slot args).pcb slot).Closed := by
  obtain ⟨hpid, hready⟩ := h.ready.prepared slot args
  have hself : ((k.prepared slot args).pcb slot).Closed := by
    intro i hi
    have h1 : i ≠ 1 := by rintro rfl; exact absurd hi (by decide)
    have h0 : i ≠ 0 := by rintro rfl; exact absurd hi (by decide)
    rw [Kernel.prepared_pcb_self]
    change (Function.update (Function.update (k.pcb slot).fdArray 0 _) 1 _ i).flags = 0
    rw [Function.update_of_ne h1, Function.update_of_ne h0]
    exact h.closed slot hslot i hi
  refine ⟨⟨⟨hready.parentPid, hready.blocks.parents, ?_⟩, hpid⟩, hself⟩
  intro p hp
  by_cases hps : p = slot
  · rw [hps]; exact hself
  · rw [Kernel.prepared_pidArray, Function.update_of_ne hps] at hp
    rw [Kernel.prepared_pcb_of_ne k slot args hps]
    exact h.closed p hp

theorem Tidy.abandoned (h : Tidy k) (hslot : k.pidArray slot = 0) :
    TidyRun (k.abandoned slot args) := by
  obtain ⟨hrun, hself⟩ : TidyRun (k.prepared slot args) ∧
      ((k.prepared slot args).pcb slot).Closed := h.prepared hslot
  refine ⟨⟨hrun.parentPid, hrun.parents, ?_⟩, hrun.pid⟩
  intro p hp
  by_cases hps : p = slot
  · rw [hps]; exact hself
  · apply hrun.closed p
    change Function.update (k.prepared slot args).pidArray slot 0 p = 0 at hp
    rwa [Function.update_of_ne hps] at hp

theorem Pcb.fdEntry_of_lt (b : Pcb) {i : Nat} (h : i < 8) : b.fdEntry i = b.fdArray ⟨i, h⟩ :=
  dif_pos h

theorem stdioOnly_of (h0 : k.currPcb.fdArray 0 = Kernel.stdinEntry)
    (h1 : k.currPcb.fdArray 1 = Kernel.stdoutEntry) (hclosed : k.currPcb.Closed) : StdioOnly k where
  stdin := h0
  stdout := h1
  closed := fun i h2 h8 => by
    rw [Pcb.fdEntry_of_lt _ h8]
    exact hclosed ⟨i, h8⟩ h2

theorem Tidy.started (h : Tidy k) (hslot : k.pidArray slot = 0) (d : Dentry) :
    TidyRun ((k.prepared slot args).enterProgram img junk frame d).kernel ∧
      StdioOnly ((k.prepared slot args).enterProgram img junk frame d).kernel := by
  obtain ⟨hrun, hself⟩ : TidyRun (k.prepared slot args) ∧
      ((k.prepared slot args).pcb slot).Closed := h.prepared hslot
  let k₁ := k.prepared slot args
  have hpid : ∀ p, ((k₁.enterProgram img junk frame d).kernel.pcb p).pid = (k₁.pcb p).pid :=
    fun p => k₁.enterProgram_pcb_field img junk frame d Pcb.pid (fun _ _ _ _ => rfl) p
  have hparents : ∀ p, ((k₁.enterProgram img junk frame d).kernel.pcb p).parentPid =
      (k₁.pcb p).parentPid :=
    fun p => k₁.enterProgram_pcb_field img junk frame d Pcb.parentPid (fun _ _ _ _ => rfl) p
  have hfds : ∀ p, ((k₁.enterProgram img junk frame d).kernel.pcb p).fdArray =
      (k₁.pcb p).fdArray :=
    fun p => k₁.enterProgram_pcb_field img junk frame d Pcb.fdArray (fun _ _ _ _ => rfl) p
  have hclosed : ∀ p, (k₁.pcb p).Closed →
      ((k₁.enterProgram img junk frame d).kernel.pcb p).Closed := by
    intro p hp i hi
    rw [hfds p]
    exact hp i hi
  refine ⟨⟨hrun.toTidy.congr hpid hparents hrun.parentPid fun p hp => hclosed p (hrun.closed p hp),
    (hpid _).trans hrun.pid⟩, stdioOnly_of ?_ ?_ (hclosed slot hself)⟩
  · change ((k₁.enterProgram img junk frame d).kernel.pcb slot).fdArray 0 = _
    rw [hfds slot, Kernel.prepared_pcb_self]
    rfl
  · change ((k₁.enterProgram img junk frame d).kernel.pcb slot).fdArray 1 = _
    rw [hfds slot, Kernel.prepared_pcb_self]
    rfl

theorem Tidy.execute {command : CString} (h : TidyRun k)
    (hexec : syscallExecute img junk frame command k = .ok left) :
    TidyRun left.kernel ∧ (left.exit = .iret → StdioOnly left.kernel) := by
  rcases syscallExecute_cases hexec with ⟨-, hexit, dev, hk⟩ | ⟨slot, args, hslot, -, rfl⟩ |
    ⟨slot, args, d, hslot, -, rfl⟩
  · rw [hk, hexit]
    exact ⟨⟨⟨h.parentPid, h.parents, h.closed⟩, h.pid⟩, fun he => absurd he (by simp)⟩
  · exact ⟨h.toTidy.abandoned (Kernel.freeSlot_eq_some hslot).2.1, fun he => absurd he (by simp)⟩
  · obtain ⟨hrun, hstdio⟩ := h.toTidy.started (Kernel.freeSlot_eq_some hslot).2.1 d
    exact ⟨hrun, fun _ => hstdio⟩

/-! ### Halt -/

theorem closeFiles_closed : (k.closeFiles.pcb k.pid).Closed := by
  intro i _
  rw [Kernel.closeFiles, Kernel.setPcb_pcb_self]

theorem TidyRun.closeFiles (h : TidyRun k) : TidyRun k.closeFiles := by
  have hpid := k.closeFiles_pcb_field Pcb.pid fun _ _ => rfl
  have hparents := k.closeFiles_pcb_field Pcb.parentPid fun _ _ => rfl
  refine ⟨h.toTidy.congr hpid hparents h.parentPid fun p hp => ?_, (hpid _).trans h.pid⟩
  by_cases hps : p = k.pid
  · rw [hps]
    exact closeFiles_closed
  · rw [Kernel.closeFiles, Kernel.setPcb_pcb_of_ne k hps]
    exact h.closed p hp

theorem Tidy.back (h : Tidy k) {curr : Nat} (hcurr : Named k.pcb curr)
    (hclosed : (k.pcb k.pid).Closed) (status : UInt8) :
    TidyRun (k.backToParent curr status).kernel := by
  have hpid := k.backToParent_pcb_field Pcb.pid (fun _ _ => rfl) curr status
  have hparents := k.backToParent_pcb_field Pcb.parentPid (fun _ _ => rfl) curr status
  have hfds := k.backToParent_pcb_field Pcb.fdArray (fun _ _ => rfl) curr status
  have hparent : Named k.pcb (k.pcb curr).parentPid := h.parents curr hcurr
  refine ⟨h.congr hpid hparents (h.parents _ hparent) fun p hp i hi => ?_,
    (hpid _).trans hparent⟩
  rw [hfds p]
  change Function.update k.pidArray k.pid 0 p = 0 at hp
  by_cases hps : p = k.pid
  · rw [hps]
    exact hclosed i hi
  · rw [Function.update_of_ne hps] at hp
    exact h.closed p hp i hi

theorem TidyRun.vacated (h : TidyRun k) (hp : k.pid = 0) : Tidy k.vacated := by
  refine ⟨h.closeFiles.parentPid, h.closeFiles.parents, fun p hfree => ?_⟩
  change Function.update k.pidArray 0 0 p = 0 at hfree
  by_cases hps : p = 0
  · rw [hps, ← hp]
    exact closeFiles_closed
  · rw [Function.update_of_ne hps] at hfree
    exact h.closeFiles.closed p hfree

theorem vacated_free : k.vacated.pidArray 0 = 0 := by
  change Function.update k.pidArray 0 0 0 = 0
  exact Function.update_self ..

theorem abandoned_free : (k.abandoned slot args).pidArray slot = 0 := by
  change Function.update (k.prepared slot args).pidArray slot 0 slot = 0
  exact Function.update_self ..

theorem TidyRun.halt {status : UInt8} (h : TidyRun k)
    (hhalt : syscallHalt img junk frame status k = .ok left) :
    TidyRun left.kernel ∧ (left.exit = .iret → StdioOnly left.kernel) := by
  rcases syscallHalt_cases h.pid hhalt with ⟨-, rfl⟩ | ⟨hp, args, d, -, rfl⟩ | ⟨hp, args, -, rfl⟩
  · exact ⟨h.closeFiles.toTidy.back h.closeFiles.pid closeFiles_closed status,
      fun he => absurd he (by simp [Kernel.backToParent])⟩
  · obtain ⟨hrun, hstdio⟩ := (h.vacated hp).started vacated_free d
    exact ⟨hrun, fun _ => hstdio⟩
  · have hlost : TidyRun (k.vacated.abandoned 0 args) :=
      (h.vacated hp).abandoned vacated_free
    refine ⟨hlost.toTidy.back ?_ (hlost.closed _ abandoned_free) status,
      fun he => absurd he (by simp [Kernel.backToParent])⟩
    rw [hp]
    exact hlost.pid

theorem TidyRun.of_eq (h : TidyRun k) (hpid : k'.pid = k.pid) (hparent : k'.parentPid = k.parentPid)
    (harray : k'.pidArray = k.pidArray) (hpcb : k'.pcb = k.pcb) : TidyRun k' := by
  refine ⟨⟨?_, ?_, ?_⟩, ?_⟩
  · rw [hpcb, hparent]; exact h.parentPid
  · rw [hpcb]; exact h.parents
  · rw [hpcb, harray]; exact h.closed
  · rw [hpcb, hpid]; exact h.pid

theorem TidyRun.swap {newTermVal : Int} (h : TidyRun k)
    (hswap : terminalSwap img junk frame newTermVal k = .ok left) :
    TidyRun left.kernel ∧ (left.exit = .iret → StdioOnly left.kernel) := by
  have hswitch : TidyRun (k.switchTerminal newTermVal.toNat) := h.of_eq rfl rfl rfl rfl
  rcases terminalSwap_cases hswap with ⟨-, hexit, hk⟩ | ⟨-, left', hk, hexit, hexec⟩
  · refine ⟨?_, fun he => ?_⟩
    · rcases hk with hk | hk
      · rw [hk]; exact h
      · rw [hk]; exact hswitch
    · rcases hexit with hexit | hexit
      · exact absurd (hexit.symm.trans he) (by simp)
      · exact absurd (hexit.symm.trans he) (by simp)
  · obtain ⟨hrun, hstdio⟩ := Tidy.execute hswitch hexec
    rw [hk]
    refine ⟨hrun, fun he => hstdio ?_⟩
    rcases hexit with hexit | ⟨hexit, -⟩
    · exact hexit.symm.trans he
    · exact absurd (hexit.symm.trans he) (by simp)

end

/-! ### Runs -/

def OpensOwnFiles (img : Image) (k : Kernel) (c : SystemCall) : Prop :=
  ∀ name, c = .file (.openName name) → k.pidArray k.pid ≠ 0 ∨ k.CannotOpen img name

theorem TidyRun.file {img : Image} {k k' : Kernel} {c : FileCall} {o : Int × List Store}
    (h : TidyRun k) (hown : OpensOwnFiles img k (.file c))
    (hstep : fileCalls img k c = some (o, k')) : TidyRun k' := by
  obtain ⟨i, e, dev, hi, rfl, hflags⟩ := fileCalls_effect hstep
  have hfield : ∀ {α : Type} (f : Pcb → α), (∀ (b : Pcb) fds, f { b with fdArray := fds } = f b) →
      ∀ p, f ((k.setFd i e).pcb p) = f (k.pcb p) := by
    intro α f hf p
    refine k.setPcb_field f ?_ p
    rw [Pcb.setFdEntry, dif_pos hi]
    exact hf _ _
  have hpid := hfield Pcb.pid fun _ _ => rfl
  have hparents := hfield Pcb.parentPid fun _ _ => rfl
  refine ⟨h.toTidy.congr hpid hparents h.parentPid fun p hp => ?_, (hpid _).trans h.pid⟩
  by_cases hps : p = k.pid
  · -- the block of a slot that was given back: only an open could leave a descriptor open in it
    have hp' : k.pidArray k.pid = 0 := hps ▸ hp
    rw [hps]
    intro j hj
    change (((k.setPcb k.pid (k.currPcb.setFdEntry i e)).pcb k.pid).fdArray j).flags = 0
    rw [Kernel.setPcb_pcb_self, Pcb.setFdEntry, dif_pos hi]
    change (Function.update k.currPcb.fdArray ⟨i, hi⟩ e j).flags = 0
    by_cases hji : j = ⟨i, hi⟩
    · subst hji
      rw [Function.update_self]
      rcases hflags with hsame | hzero | ⟨name, rfl, hopens⟩
      · rw [hsame, Pcb.fdEntry_of_lt _ hi]
        exact h.closed k.pid hp' _ hj
      · exact hzero
      · rcases hown name rfl with hlive | hcannot
        · exact absurd hp' hlive
        · exact absurd hcannot hopens
    · rw [Function.update_of_ne hji]
      exact h.closed k.pid hp' j hj
  · change ((k.setPcb k.pid (k.currPcb.setFdEntry i e)).pcb p).Closed
    rw [Kernel.setPcb_pcb_of_ne k hps]
    exact h.closed p hp

theorem TidyRun.step {img : Image} {k k' : Kernel} {c : SystemCall} {o : Exit} (h : TidyRun k)
    (hown : OpensOwnFiles img k c) (hstep : systemCalls img k c = some (o, k')) :
    TidyRun k' ∧ (o = .iret → StdioOnly k') := by
  cases c with
  | process c =>
    obtain ⟨stores, henter⟩ := systemCalls_eq_some.mp hstep
    change c.enter img k = _ at henter
    unfold KernelCall.enter at henter
    split at henter
    · exact Tidy.execute h henter
    · exact h.halt henter
    · rename_i entry _
      rw [exceptions_eq] at henter
      have hraised : TidyRun (k.raised entry) := h.of_eq rfl rfl rfl rfl
      exact hraised.halt henter
    · exact h.swap henter
  | file c =>
    obtain ⟨r, stores, rfl, hfile⟩ := systemCalls_file hstep
    exact ⟨h.file hown hfile, fun he => absurd he (by simp)⟩
  | vidmap screenStart =>
    obtain ⟨stores, henter⟩ := systemCalls_eq_some.mp hstep
    rcases syscallVidmap_cases henter with ⟨-, he⟩ | ⟨-, exit, hexit, he⟩
    · obtain ⟨rfl, rfl, -⟩ := Left.mk.inj he
      exact ⟨h, fun he => absurd he (by simp)⟩
    · obtain ⟨rfl, rfl, -⟩ := Left.mk.inj he
      refine ⟨h.of_eq rfl rfl rfl rfl, fun he => ?_⟩
      rcases hexit with rfl | rfl
      · exact absurd he (by simp)
      · exact absurd he (by simp)

theorem Boots.tidy {img : Image} {k : Kernel} (h : Boots img k) : TidyRun k ∧ StdioOnly k := by
  obtain ⟨hw, junk, frame, stores, hexec⟩ := h
  have hstart : TidyRun (initTerminal hw) :=
    ⟨⟨rfl, fun _ _ => rfl, fun _ _ _ _ => rfl⟩, rfl⟩
  obtain ⟨hrun, hstdio⟩ := Tidy.execute hstart hexec
  exact ⟨hrun, hstdio rfl⟩

/-- As long as no `open` takes a descriptor of a free slot, every process starts with stdin, stdout
and six closed descriptors. What the calls in between read goes to the pages of their programs. -/
theorem started_clean {img : Image} {k₀ : Kernel} {calls : List SystemCall} (hboot : Boots img k₀)
    (hown : (systemCalls img).Always (fun k c _ _ => OpensOwnFiles img k c) k₀ calls) :
    StdioOnly k₀ ∧
      (systemCalls img).Always (fun _ _ o k' => o = .iret → StdioOnly k') k₀ calls := by
  obtain ⟨htidy, hstdio⟩ := hboot.tidy
  refine ⟨hstdio, Machine.always_mono TidyRun ?_ htidy hown⟩
  intro k c o k' h hstep hopens
  exact (h.step hopens hstep).symm

/-! ### A sample run -/

def executeMissing : SystemCall := .process ⟨.execute missingCommand, sampleJunk, sampleFrame⟩

theorem sampleImage_starts_clean : ∃ k₀, Boots sampleImage k₀ ∧
    (systemCalls sampleImage).Always (fun _ _ o k' => o = .iret → StdioOnly k') k₀
      [executeMissing, .process executeShell] := by
  obtain ⟨args, d, hboot⟩ := sampleImage_boots
  have hown : (systemCalls sampleImage).Always (fun k c _ _ => OpensOwnFiles sampleImage k c)
      (sampleShell (initTerminal samplePowerOn) 0 args d)
      [executeMissing, .process executeShell] := by
    refine fun o k' _ => ⟨fun name he => ?_, fun o' k'' _ => ⟨fun name he => ?_, trivial⟩⟩
    · exact absurd he (by simp [executeMissing])
    · exact absurd he (by simp)
  exact ⟨_, hboot, (started_clean hboot hown).2⟩

/-- A command that does not exist, an `open`, and a program: the program starts with descriptor 2
open, which it has never opened. -/
theorem failed_execute_dirties_next : ∃ k₀ k₁ k₂ k₃, Boots sampleImage k₀ ∧
    systemCalls sampleImage k₀ executeMissing = some (.ret (-1), k₁) ∧
    systemCalls sampleImage k₁ (.file (.openName dotName)) = some (.ret 2, k₂) ∧
    systemCalls sampleImage k₂ (.process executeShell) = some (.iret, k₃) ∧
    (k₃.currPcb.fdEntry 2).flags = 1 ∧ ¬ StdioOnly k₃ := by
  obtain ⟨args, d, hboot⟩ := sampleImage_boots
  let k₀ := sampleShell (initTerminal samplePowerOn) 0 args d
  have hslot : k₀.freeSlot = some 1 := rfl
  obtain ⟨args₁, h₁⟩ := sampleImage_abandons k₀ 1 hslot
  let k₁ := k₀.abandoned 1 args₁
  have hstdio : StdioOnly k₁ := by
    have htidy : TidyRun k₁ :=
      hboot.tidy.1.toTidy.abandoned (Kernel.freeSlot_eq_some hslot).2.1
    exact stdioOnly_of rfl rfl (htidy.closed 1 abandoned_free)
  have hopen := hstdio.open_eq sampleImage (by decide) sampleImage_dot
  generalize he : ({
    fileOpsTable := opsTableFor (sampleImage.denPtr 0).type (k₁.currPcb.fdEntry 2).fileOpsTable
    inode := (sampleImage.denPtr 0).inode
    filePos := 0
    flags := 1 } : FileDescriptor) = e at hopen
  obtain ⟨args₃, d₃, stores, hstart⟩ := sampleImage_starts (k₁.setFd 2 e) 1 rfl
  have hflags : ((sampleShell (k₁.setFd 2 e) 1 args₃ d₃).currPcb.fdEntry 2).flags = 1 := by
    change e.flags = 1
    rw [← he]
  refine ⟨k₀, k₁, _, _, hboot, systemCalls_eq_some.mpr ⟨[], h₁⟩,
    systemCalls_eq_some.mpr ⟨[], hopen⟩, systemCalls_eq_some.mpr ⟨stores, hstart⟩, hflags, ?_⟩
  intro hclean
  have hclosed := hclean.closed 2 (Nat.le_refl _) (by decide)
  rw [hflags] at hclosed
  exact absurd hclosed (by decide)

end MyLinuxOS
