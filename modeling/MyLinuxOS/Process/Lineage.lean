import MyLinuxOS.Foundation.ParentChain
import MyLinuxOS.Process.ExecuteSpec

/-! The invariant of process creation: the parent links of the blocks lead from the running
process through live slots to the base shell, and everything that names the running process
agrees. The global `parent_pid` names the running process or, after a child has halted, its
parent; which of the two decides the link of the next child. -/

namespace MyLinuxOS
open Foundation

def Kernel.parentOf (k : Kernel) (p : Nat) : Nat := (k.pcb p).parentPid

structure Lineage (k : Kernel) (l : List Nat) : Prop where
  chain : ParentChain k.parentOf 0 k.pid l
  live : ∀ p ∈ l, p < maxPid ∧ k.pidArray p = 1
  pidOf : ∀ p ∈ l, (k.pcb p).pid = p
  root : k.parentOf 0 = 0
  parentPid : k.parentPid = k.pid ∨ k.parentPid = k.parentOf k.pid
  addr : (k.paging.pageDirectory userProgramIndex).addr =
    frameOf (k.pid * pageSize4MB + kpageSize)
  esp0 : k.tss.esp0 = Kernel.kernelStackTop k.pid

namespace Lineage
variable {k : Kernel} {l : List Nat}

theorem pid_mem (h : Lineage k l) : k.pid ∈ l := h.chain.mem_self

theorem currPcb_pid (h : Lineage k l) : k.currPcb.pid = k.pid := h.pidOf _ h.pid_mem

theorem parentPid_of_root (h : Lineage k l) (hp : k.pid = 0) : k.parentPid = 0 := by
  rcases h.parentPid with he | he
  · rw [he, hp]
  · rw [he, hp, h.root]

theorem not_mem_of_free (h : Lineage k l) {slot : Nat} (hfree : k.pidArray slot = 0) :
    slot ∉ l := by
  intro hmem
  have hone := (h.live slot hmem).2
  rw [hfree] at hone
  exact absurd hone (by decide)

theorem of_eq (h : Lineage k l) {k' : Kernel} (hpid : k'.pid = k.pid)
    (hpp : k'.parentPid = k.parentPid) (harr : k'.pidArray = k.pidArray) (hpcb : k'.pcb = k.pcb)
    (hpg : k'.paging = k.paging) (htss : k'.tss = k.tss) : Lineage k' l := by
  have hparent : k'.parentOf = k.parentOf := by
    funext p
    rw [Kernel.parentOf, Kernel.parentOf, hpcb]
  constructor
  · rw [hparent, hpid]; exact h.chain
  · rw [harr]; exact h.live
  · rw [hpcb]; exact h.pidOf
  · rw [hparent]; exact h.root
  · rw [hparent, hpid, hpp]; exact h.parentPid
  · rw [hpg, hpid]; exact h.addr
  · rw [htss, hpid]; exact h.esp0

section started
variable {img : Image} {junk : StackBytes} {frame : Frame} {d : Dentry} {slot : Nat}
  {args : Nat → UInt8}

theorem started_parentOf (k : Kernel) (img : Image) (junk : StackBytes) (frame : Frame) (d : Dentry)
    (slot : Nat) (args : Nat → UInt8) (p : Nat) :
    (((k.prepared slot args).enterProgram img junk frame d).kernel).parentOf p =
      if p = slot then (if slot = 0 then 0 else k.parentPid) else k.parentOf p := by
  have h := (k.prepared slot args).enterProgram_pcb_field img junk frame d Pcb.parentPid
    (fun _ _ _ _ => rfl) p
  rw [Kernel.parentOf, h]
  by_cases hp : p = slot
  · subst hp
    rw [Kernel.prepared_pcb_self, if_pos rfl]
  · rw [Kernel.prepared_pcb_of_ne _ _ _ hp, if_neg hp, Kernel.parentOf]

theorem started_pidOf (p : Nat) :
    ((((k.prepared slot args).enterProgram img junk frame d).kernel).pcb p).pid =
      if p = slot then slot else (k.pcb p).pid := by
  have h := (k.prepared slot args).enterProgram_pcb_field img junk frame d Pcb.pid
    (fun _ _ _ _ => rfl) p
  rw [h]
  by_cases hp : p = slot
  · subst hp
    rw [Kernel.prepared_pcb_self, if_pos rfl]
  · rw [Kernel.prepared_pcb_of_ne _ _ _ hp, if_neg hp]

theorem started (h : Lineage k l) (hslot : k.freeSlot = some slot) {l' : List Nat}
    (hchain : ParentChain k.parentOf 0 k.parentPid l') (hsub : ∀ p ∈ l', p ∈ l) :
    Lineage ((k.prepared slot args).enterProgram img junk frame d).kernel (slot :: l') := by
  obtain ⟨hlt, hfree, -⟩ := Kernel.freeSlot_eq_some hslot
  have hnot : ∀ p ∈ l', p ≠ slot := fun p hp he => h.not_mem_of_free hfree (he ▸ hsub p hp)
  -- slot 0 is at the end of every chain, so it is not the free one
  have hne : slot ≠ 0 := fun he => hnot 0 hchain.root_mem he.symm
  constructor
  · refine .child hne (fun hmem => hnot _ hmem rfl) ?_
    have hnew := started_parentOf k img junk frame d slot args
    rw [hnew, Kernel.enterProgram_pid, Kernel.prepared_pid, if_pos rfl, if_neg hne]
    exact hchain.congr fun p hp => by rw [hnew, if_neg (hnot p hp)]
  · intro p hp
    rw [Kernel.enterProgram_pidArray, Kernel.prepared_pidArray]
    rcases List.mem_cons.mp hp with rfl | hmem
    · exact ⟨hlt, Function.update_self ..⟩
    · rw [Function.update_of_ne (hnot p hmem)]
      exact h.live p (hsub p hmem)
  · intro p hp
    rw [started_pidOf]
    rcases List.mem_cons.mp hp with rfl | hmem
    · rw [if_pos rfl]
    · rw [if_neg (hnot p hmem)]
      exact h.pidOf p (hsub p hmem)
  · rw [started_parentOf, if_neg (Ne.symm hne)]
    exact h.root
  · left
    rw [Kernel.enterProgram_parentPid, Kernel.prepared_parentPid, if_neg hne]
    rfl
  · exact Kernel.enterProgram_addr ..
  · exact Kernel.enterProgram_esp0 ..

theorem started_base (hpp : k.parentPid = 0) :
    Lineage ((k.prepared 0 args).enterProgram img junk frame d).kernel [0] := by
  constructor
  · exact .root
  · intro p hmem
    obtain rfl := List.mem_singleton.mp hmem
    rw [Kernel.enterProgram_pidArray, Kernel.prepared_pidArray, Function.update_self]
    exact ⟨by decide, rfl⟩
  · intro p hmem
    obtain rfl := List.mem_singleton.mp hmem
    rw [started_pidOf, if_pos rfl]
  · rw [started_parentOf, if_pos rfl, if_pos rfl]
  · left
    rw [Kernel.enterProgram_parentPid, Kernel.prepared_parentPid, if_pos rfl, hpp]
    rfl
  · exact Kernel.enterProgram_addr ..
  · exact Kernel.enterProgram_esp0 ..

/-- The two cases of a start: `parent_pid` is up to date, or names the caller's parent. -/
theorem started_cases (h : Lineage k l) (hslot : k.freeSlot = some slot) :
    k.parentPid = k.pid ∧
      Lineage ((k.prepared slot args).enterProgram img junk frame d).kernel (slot :: l) ∨
    k.parentPid ≠ k.pid ∧ ∃ l', l = k.pid :: l' ∧
      Lineage ((k.prepared slot args).enterProgram img junk frame d).kernel (slot :: l') := by
  by_cases hpp : k.parentPid = k.pid
  · refine .inl ⟨hpp, h.started hslot ?_ fun _ hp => hp⟩
    rw [hpp]
    exact h.chain
  · refine .inr ⟨hpp, ?_⟩
    have hparent : k.parentPid = k.parentOf k.pid := h.parentPid.resolve_left hpp
    have hne : k.pid ≠ 0 := fun h0 => hpp ((h.parentPid_of_root h0).trans h0.symm)
    have hchain := h.chain
    generalize hp : k.pid = p at hchain hne
    cases hchain with
    | root => exact absurd rfl hne
    | @child _ l' _ _ htail =>
      refine ⟨l', rfl, h.started hslot ?_ fun _ hmem => List.mem_cons_of_mem _ hmem⟩
      rw [hparent, hp]
      exact htail

end started

section halted

theorem backToParent_parentOf (k : Kernel) (status : UInt8) (p : Nat) :
    (k.closeFiles.backToParent k.pid status).kernel.parentOf p = k.parentOf p := by
  have h := k.closeFiles.backToParent_pcb_field Pcb.parentPid (fun _ _ => rfl) k.pid status p
  exact h.trans (k.closeFiles_pcb_field Pcb.parentPid (fun _ _ => rfl) p)

theorem backToParent_pidOf (k : Kernel) (status : UInt8) (p : Nat) :
    ((k.closeFiles.backToParent k.pid status).kernel.pcb p).pid = (k.pcb p).pid := by
  have h := k.closeFiles.backToParent_pcb_field Pcb.pid (fun _ _ => rfl) k.pid status p
  exact h.trans (k.closeFiles_pcb_field Pcb.pid (fun _ _ => rfl) p)

theorem backToParent_pid (k : Kernel) (status : UInt8) :
    (k.closeFiles.backToParent k.pid status).kernel.pid = k.parentOf k.pid :=
  k.closeFiles_pcb_field Pcb.parentPid (fun _ _ => rfl) k.pid

theorem backToParent_parentPid (k : Kernel) (status : UInt8) :
    (k.closeFiles.backToParent k.pid status).kernel.parentPid = k.parentOf (k.parentOf k.pid) := by
  have h : (k.closeFiles.pcb k.pid).parentPid = k.parentOf k.pid :=
    k.closeFiles_pcb_field Pcb.parentPid (fun _ _ => rfl) k.pid
  change (k.closeFiles.pcb (k.closeFiles.pcb k.pid).parentPid).parentPid = _
  rw [h]
  exact k.closeFiles_pcb_field Pcb.parentPid (fun _ _ => rfl) _

theorem backToParent_pidArray (k : Kernel) (status : UInt8) :
    (k.closeFiles.backToParent k.pid status).kernel.pidArray =
      Function.update k.pidArray k.pid 0 := rfl

theorem halted (h : Lineage k l) (status : UInt8) (hne : k.pid ≠ 0) :
    ∃ l', l = k.pid :: l' ∧ Lineage (k.closeFiles.backToParent k.pid status).kernel l' := by
  have hchain := h.chain
  have hnot : ∀ l', l = k.pid :: l' → k.pid ∉ l' → ∀ p ∈ l', p ≠ k.pid :=
    fun l' _ hn p hp he => hn (he ▸ hp)
  generalize hp : k.pid = c at hchain hne
  cases hchain with
  | root => exact absurd rfl hne
  | @child _ l' _ hn htail =>
    subst hp
    have hne' : ∀ p ∈ l', p ≠ k.pid := hnot l' rfl hn
    refine ⟨l', rfl, ?_⟩
    constructor
    · rw [backToParent_pid]
      exact htail.congr fun p _ => backToParent_parentOf k status p
    · intro p hp
      rw [backToParent_pidArray, Function.update_of_ne (hne' p hp)]
      exact h.live p (List.mem_cons_of_mem _ hp)
    · intro p hp
      rw [backToParent_pidOf]
      exact h.pidOf p (List.mem_cons_of_mem _ hp)
    · rw [backToParent_parentOf]
      exact h.root
    · right
      rw [backToParent_parentPid, backToParent_parentOf, backToParent_pid]
    · exact (Paging.syscallHelper_addr ..)
    · rfl

end halted

end Lineage

theorem Boots.lineage {img : Image} {k : Kernel} (h : Boots img k) : Lineage k [0] := by
  obtain ⟨hw, junk, frame, args, d, rfl⟩ := h.started
  exact Lineage.started_base rfl

end MyLinuxOS
