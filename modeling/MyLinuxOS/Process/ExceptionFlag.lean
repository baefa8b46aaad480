import MyLinuxOS.Process.Identity

/-! Which `execute` is told that its child died by an exception. The cause of death travels through
`globalflag`, which the halt of a base shell does not clear, and reaches the call whose frame is
saved in the block of the global `pid`. A watch that numbers the processes in the order in which
they are started says whether that is the right one. -/

namespace MyLinuxOS
open Foundation

/-! ### The watch -/

/-- A record of the run that the kernel itself does not keep. A process has the number of the call
of `execute` that started it. -/
structure Watch where
  running : Nat
  owner : Nat → Option Nat
  caller : Nat → Nat
  frame : Nat → Frame
  started : Nat

namespace Watch
variable (g : Watch)

def entered (slot : Nat) (frame : Frame) : Watch where
  running := g.started
  owner := Function.update g.owner slot (some g.started)
  caller := Function.update g.caller g.started g.running
  frame := Function.update g.frame g.started frame
  started := g.started + 1

theorem entered_owner_self (slot : Nat) (frame : Frame) :
    (g.entered slot frame).owner slot = some g.started := Function.update_self ..

theorem entered_owner_of_ne {slot p : Nat} (h : p ≠ slot) (frame : Frame) :
    (g.entered slot frame).owner p = g.owner p := Function.update_of_ne h ..

theorem entered_frame_self (slot : Nat) (frame : Frame) :
    (g.entered slot frame).frame g.started = frame := Function.update_self ..

theorem entered_frame_of_lt {e : Nat} (h : e < g.started) (slot : Nat) (frame : Frame) :
    (g.entered slot frame).frame e = g.frame e := Function.update_of_ne (Nat.ne_of_lt h) ..

def resumed (slot : Nat) : Watch :=
  { g with running := ((g.owner slot).map g.caller).getD g.running }

def after (pid pid' : Nat) (frame : Frame) : Exit → Watch
  | .ret _ | .fault => g
  | .iret => g.entered pid' frame
  | .resume _ _ => g.resumed pid

end Watch

def Pcb.savedFrame (b : Pcb) : Frame := ⟨b.executeEsp, b.executeEbp⟩

def Watch.powerOn : Watch where
  running := 0
  owner := fun _ => none
  caller := fun _ => 0
  frame := fun _ => ⟨0, 0⟩
  started := 0

def Watch.boot (k : Kernel) : Watch := Watch.powerOn.entered 0 (k.pcb 0).savedFrame

def watched (img : Image) : Machine (Kernel × Watch) KernelCall Exit := fun s c =>
  (kernelCalls img s.1 c).map fun r => (r.1, r.2, s.2.after s.1.pid r.2.pid c.frame r.1)

theorem watched_eq_some {img : Image} {s s' : Kernel × Watch} {c : KernelCall} {o : Exit} :
    watched img s c = some (o, s') ↔ kernelCalls img s.1 c = some (o, s'.1) ∧
      s'.2 = s.2.after s.1.pid s'.1.pid c.frame o := by
  obtain ⟨k', g'⟩ := s'
  simp only [watched, Option.map_eq_some_iff, Prod.exists, Prod.mk.injEq]
  constructor
  · rintro ⟨o, k', h, rfl, rfl, rfl⟩
    exact ⟨h, rfl⟩
  · rintro ⟨h, rfl⟩
    exact ⟨o, k', h, rfl, rfl, rfl⟩

def KernelCall.IsException (c : KernelCall) : Prop := ∃ entry, c.op = .exception entry

theorem not_isException_of_op {c : KernelCall} {op : KernelOp} (hop : c.op = op)
    (hne : ∀ entry, op ≠ .exception entry) : ¬ c.IsException := by
  rintro ⟨entry, he⟩
  exact hne entry (hop.symm.trans he)

/-- After an entry the flag is clear, and the exit is right: a call of `execute` gets its own frame
back, it is told 256 exactly when an exception has ended the process it started, and an exception
always is reported to a call. -/
structure Attributed (s : Kernel × Watch) (c : KernelCall) (o : Exit) (s' : Kernel × Watch) :
    Prop where
  flag : s'.1.globalflag = 0
  ret : ∀ r, o = .ret r → r ≠ 256
  frame : ∀ f eax, o = .resume f eax → ∀ e, s.2.owner s.1.pid = some e → f = s.2.frame e
  told : ∀ f eax, o = .resume f eax →
    (eax = exceptHalt ↔ c.IsException ∧ s.2.owner s.1.pid = some s.2.running)
  reported : c.IsException → ∃ f, o = .resume f exceptHalt

/-- An exception is raised by the process whose call `execute` has saved its frame in the block of
the global `pid`, and it does not restart the base shell. -/
def RaisedBelowBase (img : Image) (s : Kernel × Watch) (c : KernelCall) : Prop :=
  c.IsException → s.2.owner s.1.pid = some s.2.running ∧
    (s.1.pid = 0 → ¬ Loads img c.junk shellCommand)

/-! ### The invariant -/

structure Links where
  pid : Nat
  parentPid : Nat
  frame : Frame

def Pcb.links (b : Pcb) : Links := ⟨b.pid, b.parentPid, b.savedFrame⟩

def Named (pcb : Nat → Pcb) (p : Nat) : Prop := (pcb p).pid = p

structure Blocks (pcb : Nat → Pcb) (g : Watch) : Prop where
  parents : ∀ p, Named pcb p → Named pcb (pcb p).parentPid
  frames : ∀ p e, g.owner p = some e → (pcb p).savedFrame = g.frame e
  fresh : ∀ p e, g.owner p = some e → e < g.started

structure Watched (k : Kernel) (g : Watch) : Prop where
  flag : k.globalflag = 0
  pid : Named k.pcb k.pid
  parentPid : Named k.pcb k.parentPid
  blocks : Blocks k.pcb g

section
variable {pcb pcb' : Nat → Pcb} {g : Watch} {slot : Nat}

theorem Named.congr {p : Nat} (h : Named pcb p) (hl : ∀ p, (pcb' p).links = (pcb p).links) :
    Named pcb' p := (congrArg Links.pid (hl p)).trans h

theorem Blocks.congr (h : Blocks pcb g) (hl : ∀ p, (pcb' p).links = (pcb p).links) :
    Blocks pcb' g where
  parents := fun p hp => by
    have hparent : (pcb' p).parentPid = (pcb p).parentPid := congrArg Links.parentPid (hl p)
    rw [hparent]
    exact (h.parents p (hp.congr fun q => (hl q).symm)).congr hl
  frames := fun p e he => (congrArg Links.frame (hl p)).trans (h.frames p e he)
  fresh := h.fresh

theorem Blocks.taken (h : Blocks pcb g) {parent : Nat} (hparent : Named pcb parent ∨ parent = slot)
    (hself : (pcb' slot).links = ⟨slot, parent, (pcb slot).savedFrame⟩)
    (hne : ∀ p, p ≠ slot → pcb' p = pcb p) :
    Blocks pcb' g ∧ Named pcb' slot ∧ ∀ p, Named pcb p → Named pcb' p := by
  have hslot : Named pcb' slot := congrArg Links.pid hself
  have hkeep : ∀ p, Named pcb p → Named pcb' p := by
    intro p hp
    by_cases hps : p = slot
    · rw [hps]; exact hslot
    · exact (congrArg Pcb.pid (hne p hps)).trans hp
  refine ⟨⟨?_, ?_, h.fresh⟩, hslot, hkeep⟩
  · intro p hp
    by_cases hps : p = slot
    · have hnew : (pcb' p).parentPid = parent := by rw [hps]; exact congrArg Links.parentPid hself
      rw [hnew]
      rcases hparent with hused | hs
      · exact hkeep _ hused
      · rw [hs]; exact hslot
    · have hold : Named pcb p := (congrArg Pcb.pid (hne p hps)).symm.trans hp
      rw [hne p hps]
      exact hkeep _ (h.parents p hold)
  · intro p e he
    by_cases hps : p = slot
    · rw [hps] at he ⊢
      exact (congrArg Links.frame hself).trans (h.frames slot e he)
    · rw [hne p hps]
      exact h.frames p e he

theorem Blocks.entered (h : Blocks pcb g) {frame : Frame}
    (hpid : ∀ p, (pcb' p).pid = (pcb p).pid) (hparent : ∀ p, (pcb' p).parentPid = (pcb p).parentPid)
    (hself : (pcb' slot).savedFrame = frame) (hne : ∀ p, p ≠ slot → pcb' p = pcb p) :
    Blocks pcb' (g.entered slot frame) := by
  constructor
  · intro p hp
    have hold := h.parents p ((hpid p).symm.trans hp)
    rw [hparent p]
    exact (hpid _).trans hold
  · intro p e he
    by_cases hps : p = slot
    · subst hps
      rw [Watch.entered_owner_self] at he
      obtain rfl := Option.some.inj he
      rw [hself, Watch.entered_frame_self]
    · rw [Watch.entered_owner_of_ne g hps] at he
      rw [hne p hps, Watch.entered_frame_of_lt g (h.fresh p e he)]
      exact h.frames p e he
  · intro p e he
    by_cases hps : p = slot
    · subst hps
      rw [Watch.entered_owner_self] at he
      obtain rfl := Option.some.inj he
      exact Nat.lt_succ_self _
    · rw [Watch.entered_owner_of_ne g hps] at he
      exact Nat.lt_succ_of_lt (h.fresh p e he)

end

section
variable {img : Image} {junk : StackBytes} {frame : Frame} {k : Kernel} {g : Watch} {slot : Nat}
  {args : Nat → UInt8}

/-- The invariant for a kernel about to execute, which after the halt of a base shell has no
`pid`. -/
structure Ready (k : Kernel) (g : Watch) : Prop where
  parentPid : Named k.pcb k.parentPid
  blocks : Blocks k.pcb g

theorem Ready.prepared (h : Ready k g) (slot : Nat) (args : Nat → UInt8) :
    Named (k.prepared slot args).pcb slot ∧ Ready (k.prepared slot args) g := by
  have hlinks : ((k.prepared slot args).pcb slot).links =
      ⟨slot, if slot = 0 then 0 else k.parentPid, (k.pcb slot).savedFrame⟩ := by
    rw [Kernel.prepared_pcb_self]
    rfl
  have hparent : Named k.pcb (if slot = 0 then 0 else k.parentPid) ∨
      (if slot = 0 then 0 else k.parentPid) = slot := by
    by_cases h0 : slot = 0
    · exact .inr (by rw [if_pos h0, h0])
    · exact .inl (by rw [if_neg h0]; exact h.parentPid)
  obtain ⟨hb, hslot, hkeep⟩ := h.blocks.taken hparent hlinks fun p hp =>
    Kernel.prepared_pcb_of_ne k slot args hp
  refine ⟨hslot, ?_, hb⟩
  rw [Kernel.prepared_parentPid]
  by_cases h0 : slot = 0
  · rw [if_pos h0]; exact hkeep _ h.parentPid
  · rw [if_neg h0]; exact hslot

theorem Ready.abandoned (h : Ready k g) (hflag : k.globalflag = 0) :
    Watched (k.abandoned slot args) g := by
  obtain ⟨hslot, hready⟩ := h.prepared slot args
  exact ⟨hflag, hslot, hready.parentPid, hready.blocks⟩

theorem Ready.entered (h : Ready k g) (hflag : k.globalflag = 0) (d : Dentry) :
    Watched ((k.prepared slot args).enterProgram img junk frame d).kernel
      (g.entered slot frame) := by
  obtain ⟨hslot, hready⟩ := h.prepared slot args
  let k₁ := k.prepared slot args
  have hpid : ∀ p, ((k₁.enterProgram img junk frame d).kernel.pcb p).pid = (k₁.pcb p).pid :=
    fun p => k₁.enterProgram_pcb_field img junk frame d Pcb.pid (fun _ _ _ _ => rfl) p
  have hparent : ∀ p, ((k₁.enterProgram img junk frame d).kernel.pcb p).parentPid =
      (k₁.pcb p).parentPid :=
    fun p => k₁.enterProgram_pcb_field img junk frame d Pcb.parentPid (fun _ _ _ _ => rfl) p
  have hself : ((k₁.enterProgram img junk frame d).kernel.pcb slot).savedFrame = frame :=
    congrArg Pcb.savedFrame (k₁.setPcb_pcb_self ..)
  have hne : ∀ p, p ≠ slot → (k₁.enterProgram img junk frame d).kernel.pcb p = k₁.pcb p :=
    fun p hp => k₁.setPcb_pcb_of_ne hp _
  refine ⟨hflag, (hpid _).trans hslot, ?_, hready.blocks.entered hpid hparent hself hne⟩
  exact (hpid _).trans hready.parentPid

theorem Blocks.back (h : Blocks k.pcb g) {curr : Nat} (hcurr : Named k.pcb curr) {status : UInt8}
    (hflag : (k.backToParent curr status).kernel.globalflag = 0) (pid : Nat) :
    Watched (k.backToParent curr status).kernel (g.resumed pid) := by
  have hlinks : ∀ p, ((k.backToParent curr status).kernel.pcb p).links = (k.pcb p).links :=
    fun p => k.backToParent_pcb_field Pcb.links (fun _ _ => rfl) curr status p
  have hparent : Named k.pcb (k.pcb curr).parentPid := h.parents curr hcurr
  obtain ⟨hparents, hframes, hfresh⟩ := h.congr hlinks
  exact ⟨hflag, hparent.congr hlinks, (h.parents _ hparent).congr hlinks,
    ⟨hparents, hframes, hfresh⟩⟩

theorem statusFlag_ne (status : UInt8) : Kernel.statusFlag status ≠ exceptHalt := by
  unfold Kernel.statusFlag
  split <;> decide

/-! ### Steps -/

variable {c : KernelCall} {left : Left}

theorem Watched.ready (h : Watched k g) : Ready k g := ⟨h.parentPid, h.blocks⟩

def Quiet (g : Watch) (frame : Frame) (left : Left) : Prop :=
  (∃ r, left.exit = .ret r ∧ r ≠ 256 ∧ Watched left.kernel g) ∨
    (left.exit = .iret ∧ Watched left.kernel (g.entered left.kernel.pid frame))

def Settled (k : Kernel) (g : Watch) (c : KernelCall) (left : Left) : Prop :=
  Attributed (k, g) c left.exit
      (left.kernel, g.after k.pid left.kernel.pid c.frame left.exit) ∧
    Watched left.kernel (g.after k.pid left.kernel.pid c.frame left.exit)

theorem Quiet.settled (h : Quiet g c.frame left) (hc : ¬ c.IsException) : Settled k g c left := by
  rcases h with ⟨r, hexit, hr, hw⟩ | ⟨hexit, hw⟩
  · unfold Settled
    rw [hexit]
    refine ⟨⟨hw.flag, fun r' he => ?_, fun _ _ he => ?_, fun _ _ he => ?_,
      fun h => absurd h hc⟩, hw⟩
    · obtain rfl := Exit.ret.inj he
      exact hr
    · exact absurd he (by simp)
    · exact absurd he (by simp)
  · unfold Settled
    rw [hexit]
    refine ⟨⟨hw.flag, fun _ he => ?_, fun _ _ he => ?_, fun _ _ he => ?_, fun h => absurd h hc⟩, hw⟩
    · exact absurd he (by simp)
    · exact absurd he (by simp)
    · exact absurd he (by simp)

theorem Watched.execute {command : CString} (h : Watched k g)
    (hexec : syscallExecute img junk frame command k = .ok left) : Quiet g frame left := by
  rcases syscallExecute_cases hexec with ⟨-, hexit, dev, hk⟩ | ⟨slot, args, -, -, rfl⟩ |
    ⟨slot, args, d, -, -, rfl⟩
  · refine .inl ⟨0, hexit, by decide, ?_⟩
    rw [hk]
    exact ⟨h.flag, h.pid, h.parentPid, h.blocks⟩
  · exact .inl ⟨-1, rfl, by decide, h.ready.abandoned h.flag⟩
  · exact .inr ⟨rfl, h.ready.entered h.flag d⟩

theorem Watched.swap {newTermVal : Int} (h : Watched k g)
    (hswap : terminalSwap img junk frame newTermVal k = .ok left) : Quiet g frame left := by
  have hswitch : Watched (k.switchTerminal newTermVal.toNat) g :=
    ⟨h.flag, h.pid, h.parentPid, h.blocks⟩
  rcases terminalSwap_cases hswap with ⟨-, hexit, hk⟩ | ⟨-, left', hk, hexit, hexec⟩
  · have hw : Watched left.kernel g := by
      rcases hk with hk | hk
      · rw [hk]; exact h
      · rw [hk]; exact hswitch
    rcases hexit with hexit | hexit
    · exact .inl ⟨0, hexit, by decide, hw⟩
    · exact .inl ⟨-1, hexit, by decide, hw⟩
  · unfold Quiet
    rw [hk]
    rcases hswitch.execute hexec with ⟨r, hr, hne, hw⟩ | ⟨hiret, hw⟩
    · rcases hexit with hexit | ⟨hexit, -⟩
      · exact .inl ⟨r, hexit.trans hr, hne, hw⟩
      · exact .inl ⟨0, hexit, by decide, hw⟩
    · rcases hexit with hexit | ⟨-, r, hr⟩
      · exact .inr ⟨hexit.trans hiret, hw⟩
      · rw [hiret] at hr
        exact absurd hr (by simp)

theorem backToParent_of_clear {k : Kernel} (h : k.globalflag = 0) (p : Nat) (status : UInt8) :
    (k.backToParent p status).exit =
        .resume (k.pcb p).savedFrame (Kernel.statusFlag status) ∧
      (k.backToParent p status).kernel.globalflag = 0 := by
  have hclear : ¬(status = 0 ∧ k.globalflag = 1) := by
    rintro ⟨-, hone⟩
    rw [h] at hone
    exact absurd hone (by decide)
  exact ⟨congrArg (Exit.resume _) (if_neg hclear), (if_neg hclear).trans h⟩

theorem Ready.halt {status : UInt8} (h : Ready k g) (hpid : Named k.pcb k.pid)
    (hhalt : syscallHalt img junk frame status k = .ok left) :
    (∃ k₂ : Kernel, left = k₂.backToParent k.pid status ∧ Blocks k₂.pcb g ∧ Named k₂.pcb k.pid ∧
      k₂.globalflag = k.globalflag ∧ (k.pid = 0 → ¬ Loads img junk shellCommand)) ∨
    ∃ args d, left = (k.vacated.prepared 0 args).enterProgram img junk frame d ∧ k.pid = 0 ∧
      Loads img junk shellCommand ∧ Ready k.vacated g := by
  have hlinks : ∀ p, (k.closeFiles.pcb p).links = (k.pcb p).links :=
    fun p => k.closeFiles_pcb_field Pcb.links (fun _ _ => rfl) p
  have hvacated : Ready k.vacated g := ⟨h.parentPid.congr hlinks, h.blocks.congr hlinks⟩
  rcases syscallHalt_cases hpid hhalt with ⟨hp, he⟩ | ⟨hp, args, d, ht, he⟩ | ⟨hp, args, ht, he⟩
  · exact .inl ⟨k.closeFiles, he, h.blocks.congr hlinks, hpid.congr hlinks, rfl,
      fun h0 => absurd h0 hp⟩
  · exact .inr ⟨args, d, he, hp, ⟨d, ht⟩, hvacated⟩
  · obtain ⟨hnamed, hready⟩ := hvacated.prepared 0 args
    refine .inl ⟨k.vacated.abandoned 0 args, he, hready.blocks, ?_, rfl, fun _ ⟨d, hd⟩ => ?_⟩
    · rw [hp]
      exact hnamed
    · rw [ht] at hd
      exact absurd hd (by simp)

theorem Watched.halt {status : UInt8} (h : Watched k g) (hc : ¬ c.IsException)
    (hhalt : syscallHalt img junk c.frame status k = .ok left) : Settled k g c left := by
  rcases h.ready.halt h.pid hhalt with ⟨k₂, rfl, hb, hcurr, hflag, -⟩ | ⟨args, d, rfl, -, -, hready⟩
  · obtain ⟨hexit, hflag'⟩ := backToParent_of_clear (hflag.trans h.flag) k.pid status
    unfold Settled
    rw [hexit]
    refine ⟨⟨hflag', fun _ he => absurd he (by simp), ?_, ?_, fun he => absurd he hc⟩,
      hb.back hcurr hflag' k.pid⟩
    · intro f eax he e howner
      obtain ⟨rfl, -⟩ := Exit.resume.inj he
      exact hb.frames _ e howner
    · intro f eax he
      obtain ⟨-, rfl⟩ := Exit.resume.inj he
      exact iff_of_false (statusFlag_ne status) fun hx => hc hx.1
  · exact Quiet.settled (.inr ⟨rfl, hready.entered h.flag d⟩) hc

theorem Watched.exception {entry : Nat} (h : Watched k g) (hop : c.op = .exception entry)
    (hexc : exceptions img c.junk c.frame entry k = .ok left) :
    (Attributed (k, g) c left.exit
        (left.kernel, g.after k.pid left.kernel.pid c.frame left.exit) ↔
      RaisedBelowBase img (k, g) c) ∧
    (RaisedBelowBase img (k, g) c →
      Watched left.kernel (g.after k.pid left.kernel.pid c.frame left.exit)) := by
  have hc : c.IsException := ⟨entry, hop⟩
  have hready : Ready (k.raised entry) g := ⟨h.parentPid, h.blocks⟩
  rw [exceptions_eq] at hexc
  rcases hready.halt h.pid hexc with ⟨k₂, rfl, hb, hcurr, hflag, hlost⟩ |
    ⟨args, d, rfl, hp, hloads, -⟩
  · have hset : (0 : UInt8) = 0 ∧ k₂.globalflag = 1 := ⟨rfl, hflag⟩
    have hflag' : (k₂.backToParent k.pid 0).kernel.globalflag = 0 := if_pos hset
    have hexit : (k₂.backToParent k.pid 0).exit =
        .resume (k₂.pcb k.pid).savedFrame exceptHalt := congrArg (Exit.resume _) (if_pos hset)
    change (Attributed (k, g) c (k₂.backToParent k.pid 0).exit _ ↔ _) ∧ (_ → Watched _
      (g.after k.pid _ c.frame (k₂.backToParent k.pid 0).exit))
    rw [hexit]
    refine ⟨⟨fun ha _ => ⟨?_, hlost⟩, fun hq => ?_⟩, fun _ => hb.back hcurr hflag' k.pid⟩
    · exact ((ha.told _ _ rfl).mp rfl).2
    · refine ⟨hflag', fun _ he => absurd he (by simp), ?_, ?_, fun _ => ⟨_, rfl⟩⟩
      · intro f eax he e howner
        obtain ⟨rfl, -⟩ := Exit.resume.inj he
        exact hb.frames _ e howner
      · intro f eax he
        obtain ⟨-, rfl⟩ := Exit.resume.inj he
        exact iff_of_true rfl ⟨hc, (hq hc).1⟩
  · have hno : ¬ RaisedBelowBase img (k, g) c := fun hq => (hq hc).2 hp hloads
    refine ⟨iff_of_false (fun ha => ?_) hno, fun hq => absurd hq hno⟩
    -- the flag is still set when the new base shell is entered
    have hset : (1 : Int) = 0 := ha.flag
    exact absurd hset (by decide)

end

theorem Watched.step {img : Image} {s s' : Kernel × Watch} {c : KernelCall} {o : Exit}
    (h : Watched s.1 s.2) (hstep : watched img s c = some (o, s')) :
    (Attributed s c o s' ↔ RaisedBelowBase img s c) ∧
      (RaisedBelowBase img s c → Watched s'.1 s'.2) := by
  obtain ⟨k, g⟩ := s
  obtain ⟨k', g'⟩ := s'
  obtain ⟨hcall, hg⟩ := watched_eq_some.mp hstep
  change g' = g.after k.pid k'.pid c.frame o at hg
  subst hg
  obtain ⟨stores, henter⟩ := kernelCalls_eq_some.mp hcall
  have quiet : ¬ c.IsException → Settled k g c ⟨o, k', stores⟩ → _ := fun hc hs =>
    (show (Attributed (k, g) c o (k', g.after k.pid k'.pid c.frame o) ↔
        RaisedBelowBase img (k, g) c) ∧ (RaisedBelowBase img (k, g) c →
        Watched k' (g.after k.pid k'.pid c.frame o)) from
      ⟨iff_of_true hs.1 fun he => absurd he hc, fun _ => hs.2⟩)
  cases hop : c.op with
  | execute command =>
    simp only [KernelCall.enter, hop] at henter
    have hc : ¬ c.IsException := not_isException_of_op hop (by simp)
    exact quiet hc ((h.execute henter).settled hc)
  | halt status =>
    simp only [KernelCall.enter, hop] at henter
    have hc : ¬ c.IsException := not_isException_of_op hop (by simp)
    exact quiet hc (h.halt hc henter)
  | exception entry =>
    simp only [KernelCall.enter, hop] at henter
    exact h.exception hop henter
  | swap newTermVal =>
    simp only [KernelCall.enter, hop] at henter
    have hc : ¬ c.IsException := not_isException_of_op hop (by simp)
    exact quiet hc ((h.swap henter).settled hc)

theorem initTerminal_ready (hw : PowerOn) : Ready (initTerminal hw) Watch.powerOn where
  parentPid := rfl
  blocks :=
    { parents := fun _ _ => rfl
      frames := fun _ _ he => absurd he (by simp [Watch.powerOn])
      fresh := fun _ _ he => absurd he (by simp [Watch.powerOn]) }

theorem Boots.watched {img : Image} {k : Kernel} (h : Boots img k) : Watched k (Watch.boot k) := by
  obtain ⟨hw, junk, frame, args, d, rfl⟩ := h.started
  exact (initTerminal_ready hw).entered rfl d

/-- Along any run from boot, deaths are attributed rightly exactly when every exception is raised by
the process that the global `pid` stands for, and not by the base shell. -/
theorem attributed_iff_raisedBelowBase {img : Image} {k₀ : Kernel} {calls : List KernelCall}
    (hboot : Boots img k₀) : k₀.globalflag = 0 ∧
      ((watched img).Always Attributed (k₀, Watch.boot k₀) calls ↔
        (watched img).Always (fun s c _ _ => RaisedBelowBase img s c) (k₀, Watch.boot k₀)
          calls) := by
  refine ⟨hboot.watched.flag, Machine.always_iff (fun s => Watched s.1 s.2) ?_ hboot.watched⟩
  intro s c o s' hs hstep
  exact hs.step hstep

def raise (entry : Nat) : KernelCall := ⟨.exception entry, sampleJunk, sampleFrame⟩

theorem page_fault_of_child_is_attributed : ∃ k₀, Boots sampleImage k₀ ∧ k₀.globalflag = 0 ∧
    (watched sampleImage).Always Attributed (k₀, Watch.boot k₀) [executeShell, raise 14] := by
  obtain ⟨args, d, hboot⟩ := sampleImage_boots
  obtain ⟨hflag, hiff⟩ := attributed_iff_raisedBelowBase hboot
  let k₀ := sampleShell (initTerminal samplePowerOn) 0 args d
  refine ⟨k₀, hboot, hflag, hiff.mpr ?_⟩
  intro o s' hstep
  have hquiet : ¬ executeShell.IsException :=
    not_isException_of_op (show _ = KernelOp.execute shellCommand from rfl) (by simp)
  refine ⟨fun he => absurd he hquiet, fun _ _ _ => ⟨fun _ => ?_, trivial⟩⟩
  obtain ⟨args₁, d₁, stores, hstart⟩ := sampleImage_starts k₀ 1 rfl
  obtain ⟨hcall, hg⟩ := watched_eq_some.mp hstep
  obtain ⟨stores', henter⟩ := kernelCalls_eq_some.mp hcall
  have hleft := Except.ok.inj (hstart.symm.trans henter)
  obtain rfl : Exit.iret = o := congrArg Left.exit hleft
  have hk : sampleShell k₀ 1 args₁ d₁ = s'.1 := congrArg Left.kernel hleft
  have hpid : s'.1.pid = 1 := by rw [← hk]; rfl
  constructor
  · rw [hg]
    exact Watch.entered_owner_self ..
  · intro h0
    rw [hpid] at h0
    exact absurd h0 Nat.one_ne_zero

/-- An exception of the base shell leaves the flag set, and the next child that halts with status 0
is reported as dead by an exception. -/
theorem stale_flag_is_reported : ∃ k₀ s, Boots sampleImage k₀ ∧
    (watched sampleImage).run (k₀, Watch.boot k₀) [raise 0, executeShell, haltWith 0] =
      some ([.iret, .iret, .resume sampleFrame 256], s) ∧
    ¬ (watched sampleImage).Always Attributed (k₀, Watch.boot k₀)
      [raise 0, executeShell, haltWith 0] := by
  obtain ⟨args, d, hboot⟩ := sampleImage_boots
  obtain ⟨d', hloads⟩ := sampleImage_loads
  let k₀ := sampleShell (initTerminal samplePowerOn) 0 args d
  obtain ⟨args₁, hhalt⟩ := syscallHalt_restarts (k := k₀.raised 0) sampleFrame 0 rfl hloads
  let k₁ := sampleShell (k₀.raised 0).vacated 0 args₁ d'
  obtain ⟨args₂, d₂, stores₂, hstart⟩ := sampleImage_starts k₁ 1 rfl
  let k₂ := sampleShell k₁ 1 args₂ d₂
  have hpid : k₂.currPcb.pid = 1 := rfl
  let k₃ := (k₂.closeFiles.backToParent k₂.pid 0).kernel
  have hcall₁ : kernelCalls sampleImage k₀ (raise 0) = some (.iret, k₁) :=
    kernelCalls_eq_some.mpr ⟨_, hhalt⟩
  have hcall₂ : kernelCalls sampleImage k₁ executeShell = some (.iret, k₂) :=
    kernelCalls_eq_some.mpr ⟨_, hstart⟩
  have hcall₃ : kernelCalls sampleImage k₂ (haltWith 0) = some (.resume sampleFrame 256, k₃) :=
    kernelCalls_haltWith sampleImage (hpid.trans_ne Nat.one_ne_zero) 0
  let g₁ := (Watch.boot k₀).entered 0 sampleFrame
  let g₂ := g₁.entered 1 sampleFrame
  refine ⟨k₀, (k₃, g₂.resumed 1), hboot, ?_, ?_⟩
  · refine Machine.run_cons_eq_some.mpr ⟨_, (k₁, g₁), _, watched_eq_some.mpr ⟨hcall₁, rfl⟩, ?_, rfl⟩
    refine Machine.run_cons_eq_some.mpr ⟨_, (k₂, g₂), _, watched_eq_some.mpr ⟨hcall₂, rfl⟩, ?_, rfl⟩
    exact Machine.run_cons_eq_some.mpr ⟨_, _, [], watched_eq_some.mpr ⟨hcall₃, rfl⟩, rfl, rfl⟩
  · intro halways
    have hfirst := (halways _ (k₁, g₁) (watched_eq_some.mpr ⟨hcall₁, rfl⟩)).1.flag
    exact absurd (show (1 : Int) = 0 from hfirst) (by decide)

end MyLinuxOS
