import MyLinuxOS.Foundation.Brackets
import MyLinuxOS.Process.Calls

/-! Execute and halt as call and return. A successful `execute` pushes a slot on the chain of
parents and `halt` pops one, but only while `parent_pid` is up to date: after a child has halted it
names the grandparent, and a further child of the same process is linked past its caller. -/

namespace MyLinuxOS
open Foundation

def lifecycle (img : Image) : Machine Kernel KernelCall Exit := fun k c =>
  match c.op with
  | .execute _ => (kernelCalls img k c).filter fun r => r.1 = .iret
  | .halt _ => if k.pid = 0 then none else kernelCalls img k c
  | .exception _ | .swap _ => none

def KernelCall.IsExecute (c : KernelCall) : Prop := ∃ command, c.op = .execute command
def KernelCall.IsHalt (c : KernelCall) : Prop := ∃ status, c.op = .halt status

def ReachedByLifecycle (img : Image) (k : Kernel) : Prop :=
  ∃ k₀ cs os, Boots img k₀ ∧ (lifecycle img).run k₀ cs = some (os, k)

/-- What a bracket around a child should guarantee: `before` is the state of the caller, `child`
the state in which the child is entered and `after` the state once it has halted. -/
structure Bracketed (before child after : Kernel) : Prop where
  parent : (child.pcb child.pid).parentPid = before.pid
  pid : after.pid = before.pid
  parentPid : after.parentPid = before.parentPid
  pidArray : after.pidArray = before.pidArray
  addr : (after.paging.pageDirectory userProgramIndex).addr =
    (before.paging.pageDirectory userProgramIndex).addr
  esp0 : after.tss.esp0 = before.tss.esp0

theorem lifecycle_execute {img : Image} {k k' : Kernel} {c : KernelCall} {o : Exit}
    (hc : c.IsExecute) (h : lifecycle img k c = some (o, k')) :
    ∃ slot args d, k.freeSlot = some slot ∧
      k' = ((k.prepared slot args).enterProgram img c.junk c.frame d).kernel := by
  obtain ⟨command, hop⟩ := hc
  simp only [lifecycle, hop, Option.filter_eq_some_iff] at h
  obtain ⟨hcall, hiret⟩ := h
  obtain rfl : o = .iret := of_decide_eq_true hiret
  obtain ⟨stores, henter⟩ := kernelCalls_eq_some.mp hcall
  simp only [KernelCall.enter, hop] at henter
  obtain ⟨slot, args, d, hslot, -, hleft⟩ := syscallExecute_entered henter rfl
  exact ⟨slot, args, d, hslot, congrArg Left.kernel hleft⟩

theorem lifecycle_halt {img : Image} {k k' : Kernel} {c : KernelCall} {o : Exit} {l : List Nat}
    (hk : Lineage k l) (hc : c.IsHalt) (h : lifecycle img k c = some (o, k')) :
    k.pid ≠ 0 ∧ ∃ status, k' = (k.closeFiles.backToParent k.pid status).kernel := by
  obtain ⟨status, hop⟩ := hc
  simp only [lifecycle, hop] at h
  split at h
  · exact absurd h (by simp)
  · rename_i hne
    obtain ⟨stores, henter⟩ := kernelCalls_eq_some.mp h
    simp only [KernelCall.enter, hop] at henter
    have hpcb : k.currPcb.pid ≠ 0 := by rw [hk.currPcb_pid]; exact hne
    rw [syscallHalt_of_ne hpcb] at henter
    exact ⟨hne, status, (congrArg Left.kernel (Except.ok.inj henter)).symm⟩

def Occupies (k : Kernel) (b : List Nat × (Nat → UInt8)) : Prop :=
  Lineage k b.1 ∧ k.pidArray = b.2

theorem Occupies.execute {img : Image} {k k' : Kernel} {c : KernelCall} {o : Exit}
    {b : List Nat × (Nat → UInt8)} (hk : Occupies k b) (hc : c.IsExecute)
    (h : lifecycle img k c = some (o, k')) : ∃ slot, b.2 slot = 0 ∧
      (k.parentPid = k.pid ∧ Occupies k' (slot :: b.1, Function.update b.2 slot 1) ∨
        ∃ l', b.1 = k.pid :: l' ∧ Occupies k' (slot :: l', Function.update b.2 slot 1)) := by
  obtain ⟨l, pa⟩ := b
  obtain ⟨hlin, rfl⟩ := hk
  obtain ⟨slot, args, d, hslot, rfl⟩ := lifecycle_execute hc h
  refine ⟨slot, (Kernel.freeSlot_eq_some hslot).2.1, ?_⟩
  rcases hlin.started_cases hslot with ⟨hpp, hnew⟩ | ⟨-, l', rfl, hnew⟩
  · exact .inl ⟨hpp, hnew, rfl⟩
  · exact .inr ⟨l', rfl, hnew, rfl⟩

theorem Occupies.halt {img : Image} {k k' : Kernel} {c : KernelCall} {o : Exit}
    {b : List Nat × (Nat → UInt8)} (hk : Occupies k b) (hc : c.IsHalt)
    (h : lifecycle img k c = some (o, k')) :
    ∃ p l', b.1 = p :: l' ∧ p ≠ 0 ∧ Occupies k' (l', Function.update b.2 p 0) := by
  obtain ⟨l, pa⟩ := b
  obtain ⟨hlin, rfl⟩ := hk
  obtain ⟨hne, status, rfl⟩ := lifecycle_halt hlin hc h
  obtain ⟨l', rfl, hnew⟩ := hlin.halted status hne
  exact ⟨k.pid, l', rfl, hne, hnew, rfl⟩

theorem lifecycle_nesting (img : Image) :
    Nesting (lifecycle img) KernelCall.IsExecute KernelCall.IsHalt Occupies
      (fun b => b.1.length) where
  opening := by
    rintro k ⟨l, pa⟩ c o k' hk hc h
    obtain ⟨slot, hfree, ⟨-, hnew⟩ | ⟨l', hl, hnew⟩⟩ := hk.execute hc h
    · refine ⟨_, hnew, .inr ⟨rfl, ?_⟩⟩
      intro t c' o' t' ht hc' h'
      obtain ⟨p, l', hl, -, hpop⟩ := ht.halt hc' h'
      obtain ⟨rfl, rfl⟩ := List.cons.inj hl
      have hback : Function.update (Function.update pa slot 1) slot 0 = pa := by
        rw [Function.update_idem, ← hfree, Function.update_eq_self]
      rwa [hback] at hpop
    · refine ⟨_, hnew, .inl ?_⟩
      simp only at hl
      simp only [hl, List.length_cons, Nat.le_refl]
  closing := by
    rintro k ⟨l, pa⟩ c o k' hk hc h
    obtain ⟨p, l', rfl, -, hnew⟩ := hk.halt hc h
    exact ⟨_, hnew, rfl⟩

theorem Lineage.lifecycle_step {img : Image} {k k' : Kernel} {c : KernelCall} {o : Exit}
    (hk : ∃ l, Lineage k l) (h : lifecycle img k c = some (o, k')) : ∃ l, Lineage k' l := by
  obtain ⟨l, hl⟩ := hk
  have hocc : Occupies k (l, k.pidArray) := ⟨hl, rfl⟩
  cases hop : c.op with
  | execute command =>
    obtain ⟨slot, -, ⟨-, hnew, -⟩ | ⟨l', -, hnew, -⟩⟩ := hocc.execute ⟨command, hop⟩ h
    · exact ⟨_, hnew⟩
    · exact ⟨_, hnew⟩
  | halt status =>
    obtain ⟨p, l', -, -, hnew, -⟩ := hocc.halt ⟨status, hop⟩ h
    exact ⟨_, hnew⟩
  | exception entry => simp only [lifecycle, hop] at h; exact absurd h (by simp)
  | swap t => simp only [lifecycle, hop] at h; exact absurd h (by simp)

theorem ReachedByLifecycle.lineage {img : Image} {k : Kernel} (h : ReachedByLifecycle img k) :
    ∃ l, Lineage k l := by
  obtain ⟨k₀, cs, os, hboot, hrun⟩ := h
  exact Machine.run_invariant (fun k => ∃ l, Lineage k l)
    (fun _ _ _ _ hk hstep => Lineage.lifecycle_step hk hstep) ⟨_, hboot.lineage⟩ hrun

/-- Every bracket the base shell opens is restored: with the excluded halt of slot 0 ruled out, no
child inside it can have been linked past its caller. -/
theorem bracketed_of_base {img : Image} {k k₁ k₂ k₃ : Kernel} {call ret : KernelCall}
    {w : List KernelCall} {os : List Exit} {o o' : Exit} {l : List Nat} (hk : Lineage k l)
    (hbase : k.pid = 0) (hcall : call.IsExecute) (hexec : lifecycle img k call = some (o, k₁))
    (hw : Balanced KernelCall.IsExecute KernelCall.IsHalt w)
    (hrun : (lifecycle img).run k₁ w = some (os, k₂)) (hret : ret.IsHalt)
    (hhalt : lifecycle img k₂ ret = some (o', k₃)) : Bracketed k k₁ k₃ := by
  have hpp : k.parentPid = k.pid := (hk.parentPid_of_root hbase).trans hbase.symm
  obtain ⟨slot, args, d, hslot, rfl⟩ := lifecycle_execute hcall hexec
  have hfree := (Kernel.freeSlot_eq_some hslot).2.1
  have hl : l = [0] := by
    have hchain := hk.chain
    rw [hbase] at hchain
    cases hchain with
    | root => rfl
    | child hne => exact absurd rfl hne
  subst hl
  have hparent := Lineage.started_parentOf k img call.junk call.frame d slot args slot
  have hne : slot ≠ 0 := fun he => hk.not_mem_of_free hfree (he ▸ List.mem_cons_self ..)
  have hchild : Occupies ((k.prepared slot args).enterProgram img call.junk call.frame d).kernel
      ([slot, 0], Function.update k.pidArray slot 1) := by
    rcases hk.started_cases hslot with ⟨-, hnew⟩ | ⟨hstale, -⟩
    · exact ⟨hnew, rfl⟩
    · exact absurd hpp hstale
  -- at the final halt the chain has at least two slots, so nothing was lost inside
  have hsame : Occupies k₂ ([slot, 0], Function.update k.pidArray slot 1) := by
    rcases (lifecycle_nesting img).balanced hw hchild hrun with hsame | ⟨b', hlow, hlt⟩
    · exact hsame
    · have hroot := hlow.1.chain.eq_root_of_length (Nat.le_of_lt_succ hlt)
      exact absurd hroot (lifecycle_halt hlow.1 hret hhalt).1
  obtain ⟨p, l', hl, -, hafter⟩ := hsame.halt hret hhalt
  obtain ⟨rfl, rfl⟩ := List.cons.inj hl
  have hpid : k₃.pid = 0 := (hafter.1.chain.eq_root_of_length (Nat.le_refl _))
  constructor
  · rw [if_pos rfl, if_neg hne, hpp] at hparent
    exact hparent
  · rw [hpid, hbase]
  · rw [hafter.1.parentPid_of_root hpid, hk.parentPid_of_root hbase]
  · rw [hafter.2, Function.update_idem, ← hfree, Function.update_eq_self]
  · rw [hafter.1.addr, hk.addr, hpid, hbase]
  · rw [hafter.1.esp0, hk.esp0, hpid, hbase]

/-- No bracket of another process is restored: either its child is linked elsewhere, or the halt
leaves `parent_pid` on the parent of the process instead of the process itself. -/
theorem not_bracketed_of_ne {img : Image} {k k₁ k₂ k₃ : Kernel} {call ret : KernelCall}
    {w : List KernelCall} {os : List Exit} {o o' : Exit} {l : List Nat} (hk : Lineage k l)
    (hne : k.pid ≠ 0) (hcall : call.IsExecute) (hexec : lifecycle img k call = some (o, k₁))
    (hrun : (lifecycle img).run k₁ w = some (os, k₂)) (hret : ret.IsHalt)
    (hhalt : lifecycle img k₂ ret = some (o', k₃)) : ¬ Bracketed k k₁ k₃ := by
  intro hb
  obtain ⟨l₂, hl₂⟩ := Machine.run_invariant (fun k => ∃ l, Lineage k l)
    (fun _ _ _ _ h hstep => Lineage.lifecycle_step h hstep)
    (Lineage.lifecycle_step ⟨l, hk⟩ hexec) hrun
  obtain ⟨hne₂, status, rfl⟩ := lifecycle_halt hl₂ hret hhalt
  obtain ⟨l₃, -, hl₃⟩ := hl₂.halted status hne₂
  have hpp : k.parentPid = k.pid := by
    obtain ⟨slot, args, d, hslot, rfl⟩ := lifecycle_execute hcall hexec
    have hfree := (Kernel.freeSlot_eq_some hslot).2.1
    have hslot0 : slot ≠ 0 := fun he => hk.not_mem_of_free hfree (he ▸ hk.chain.root_mem)
    have hparent := Lineage.started_parentOf k img call.junk call.frame d slot args slot
    rw [if_pos rfl, if_neg hslot0] at hparent
    exact hparent.symm.trans hb.parent
  have hown : k.pid = (k₂.closeFiles.backToParent k₂.pid status).kernel.parentOf k.pid := by
    rw [Lineage.backToParent_parentOf, ← hb.pid, Lineage.backToParent_pid,
      ← Lineage.backToParent_parentPid k₂ status, hb.parentPid, hpp, ← hb.pid,
      Lineage.backToParent_pid]
  rw [← hb.pid] at hown hne
  exact hl₃.chain.parent_ne hne hown.symm

theorem sampleImage_lifecycle (k : Kernel) (slot : Nat) (h : k.freeSlot = some slot) :
    ∃ args d, lifecycle sampleImage k executeShell = some (.iret, sampleShell k slot args d) := by
  obtain ⟨args, d, stores, hstart⟩ := sampleImage_starts k slot h
  refine ⟨args, d, ?_⟩
  have hcall := kernelCalls_eq_some.mpr ⟨stores, hstart⟩
  simp only [lifecycle, executeShell] at hcall ⊢
  rw [hcall]
  rfl

theorem lifecycle_haltWith (img : Image) {k : Kernel} (hne : k.pid ≠ 0) (hpcb : k.currPcb.pid ≠ 0)
    (status : UInt8) : ∃ o, lifecycle img k (haltWith status) =
      some (o, (k.closeFiles.backToParent k.pid status).kernel) := by
  refine ⟨(k.closeFiles.backToParent k.pid status).exit, ?_⟩
  have hcall := kernelCalls_haltWith img hpcb status
  simp only [lifecycle, haltWith, if_neg hne] at hcall ⊢
  exact hcall

theorem executeShell_isExecute : executeShell.IsExecute := ⟨shellCommand, rfl⟩

theorem haltWith_isHalt (status : UInt8) : (haltWith status).IsHalt := ⟨status, rfl⟩

/-- A bracket restores the caller exactly when the caller is the base shell. -/
theorem bracketed_iff {img : Image} {k k₁ k₂ k₃ : Kernel} {call ret : KernelCall}
    {w : List KernelCall} {os : List Exit} {o o' : Exit} (hk : ReachedByLifecycle img k)
    (hcall : call.IsExecute) (hexec : lifecycle img k call = some (o, k₁))
    (hw : Balanced KernelCall.IsExecute KernelCall.IsHalt w)
    (hrun : (lifecycle img).run k₁ w = some (os, k₂)) (hret : ret.IsHalt)
    (hhalt : lifecycle img k₂ ret = some (o', k₃)) : Bracketed k k₁ k₃ ↔ k.pid = 0 := by
  obtain ⟨l, hl⟩ := hk.lineage
  constructor
  · intro hb
    by_contra hne
    exact not_bracketed_of_ne hl hne hcall hexec hrun hret hhalt hb
  · intro hbase
    exact bracketed_of_base hl hbase hcall hexec hw hrun hret hhalt

theorem bracketed_iff_base_shell : ∃ k k₁ k₃ o,
    ReachedByLifecycle sampleImage k ∧ lifecycle sampleImage k executeShell = some (.iret, k₁) ∧
      lifecycle sampleImage k₁ (haltWith 7) = some (o, k₃) ∧ Bracketed k k₁ k₃ := by
  obtain ⟨args, d, hboot⟩ := sampleImage_boots
  let k := sampleShell (initTerminal samplePowerOn) 0 args d
  have hk : ReachedByLifecycle sampleImage k := ⟨k, [], [], hboot, rfl⟩
  obtain ⟨args₁, d₁, hexec⟩ := sampleImage_lifecycle k 1 rfl
  let k₁ := sampleShell k 1 args₁ d₁
  have hpid : k₁.pid = 1 := rfl
  have hpcb : k₁.currPcb.pid = 1 := rfl
  obtain ⟨o, hhalt⟩ := lifecycle_haltWith sampleImage (hpid.trans_ne Nat.one_ne_zero)
    (hpcb.trans_ne Nat.one_ne_zero) 7
  exact ⟨k, k₁, _, o, hk, hexec, hhalt, (bracketed_iff hk executeShell_isExecute hexec .nil rfl
    (haltWith_isHalt 7) hhalt).mpr rfl⟩

/-- A child shell runs two children: after the first, `parent_pid` no longer names the child shell,
and the second is linked to the base shell. -/
theorem second_child_is_linked_past_its_caller : ∃ k k₁ k₂ k₃ o,
    ReachedByLifecycle sampleImage k ∧ lifecycle sampleImage k executeShell = some (.iret, k₁) ∧
      lifecycle sampleImage k₁ (haltWith 0) = some (o, k₂) ∧ ¬ Bracketed k k₁ k₂ ∧
      lifecycle sampleImage k₂ executeShell = some (.iret, k₃) ∧
      k₂.pid = 1 ∧ (k₃.pcb k₃.pid).parentPid = 0 := by
  obtain ⟨args, d, hboot⟩ := sampleImage_boots
  let k₀ := sampleShell (initTerminal samplePowerOn) 0 args d
  obtain ⟨args₁, d₁, hexec₁⟩ := sampleImage_lifecycle k₀ 1 rfl
  let k := sampleShell k₀ 1 args₁ d₁
  have hk : ReachedByLifecycle sampleImage k :=
    ⟨k₀, [executeShell], [.iret], hboot, Machine.run_cons_eq_some.mpr ⟨_, _, _, hexec₁, rfl, rfl⟩⟩
  obtain ⟨args₂, d₂, hexec₂⟩ := sampleImage_lifecycle k 2 rfl
  let k₁ := sampleShell k 2 args₂ d₂
  have hpid : k₁.pid = 2 := rfl
  have hpcb : k₁.currPcb.pid = 2 := rfl
  obtain ⟨o, hhalt⟩ := lifecycle_haltWith sampleImage (hpid.trans_ne (Nat.succ_ne_zero 1))
    (hpcb.trans_ne (Nat.succ_ne_zero 1)) 0
  let k₂ := (k₁.closeFiles.backToParent k₁.pid 0).kernel
  obtain ⟨args₃, d₃, hexec₃⟩ := sampleImage_lifecycle k₂ 2 rfl
  have hstale : k₂.parentPid = 0 := rfl
  have hown : k.parentPid = 1 := rfl
  exact ⟨k, k₁, k₂, sampleShell k₂ 2 args₃ d₃, o, hk, hexec₂, hhalt,
    fun hb => absurd (hown.symm.trans (hb.parentPid.symm.trans hstale)) Nat.one_ne_zero,
    hexec₃, rfl, rfl⟩

end MyLinuxOS
