import MyLinuxOS.Process.FailedExecute

/-! Agreement of everything that names the running process. It holds exactly as long as every
`execute` that has taken a slot also starts its program, the shells that `syscall_halt` and
`terminal_swap` start included: a failed one leaves the kernel running under a free slot. -/

namespace MyLinuxOS
open Foundation

structure Coherent (k : Kernel) : Prop where
  pid_lt : k.pid < maxPid
  live : k.pidArray k.pid = 1
  pcb_pid : k.currPcb.pid = k.pid
  addr : (k.paging.pageDirectory userProgramIndex).addr =
    (kpageSize + k.pid * pageSize4MB) / bytesToAlignTo
  esp0 : (k.tss.esp0 : Int) = (kpageSize : Int) - k.pid * kstackSize - memFence
  lookup : ∀ p < maxPid, (k.paging.pageDirectory userProgramIndex).addr =
    (kpageSize + p * pageSize4MB) / bytesToAlignTo → k.currPcb = k.pcb p

def OpensTerminal (k : Kernel) (newTermVal : Int) : Prop :=
  0 ≤ newTermVal ∧ newTermVal < maxTerminals ∧ newTermVal ≠ k.currActiveTerminal ∧
    (k.termBlk newTermVal.toNat).processActive = -1

/-- An `execute` that takes a slot also starts its program. -/
def KeepsSlot (img : Image) (junk : StackBytes) (command : CString) (k : Kernel) : Prop :=
  k.freeSlot = none ∨ Loads img junk command

def StartsCleanly (img : Image) (k : Kernel) (c : KernelCall) : Prop :=
  match c.op with
  | .execute command => KeepsSlot img c.junk command k
  | .halt _ | .exception _ => k.pid = 0 → Loads img c.junk shellCommand
  | .swap newTermVal => OpensTerminal k newTermVal → KeepsSlot img c.junk shellCommand k

/-- An entry that starts cleanly keeps the invariant, and any other leaves a free slot running. -/
def Settles (clean : Prop) (k : Kernel) : Prop :=
  clean ∧ (∃ l, Lineage k l) ∨ ¬ clean ∧ k.pidArray k.pid = 0

theorem Lineage.coherent {k : Kernel} {l : List Nat} (h : Lineage k l) : Coherent k := by
  obtain ⟨hlt, hlive⟩ := h.live _ h.pid_mem
  have haddr : (k.paging.pageDirectory userProgramIndex).addr =
      (kpageSize + k.pid * pageSize4MB) / bytesToAlignTo := by
    rw [h.addr]
    simp only [frameOf, maxPid, kpageSize, pageSize4MB, bytesToAlignTo] at hlt ⊢
    omega
  constructor
  · exact hlt
  · exact hlive
  · exact h.currPcb_pid
  · exact haddr
  · rw [h.esp0]
    simp only [Kernel.kernelStackTop, maxPid, kpageSize, kstackSize, memFence] at hlt ⊢
    omega
  · intro p _ hp
    have hsame : p = k.pid := by
      rw [haddr] at hp
      simp only [kpageSize, pageSize4MB, bytesToAlignTo] at hp
      omega
    rw [hsame]
    rfl

theorem Settles.coherent_iff {clean : Prop} {k : Kernel} (h : Settles clean k) :
    (Coherent k ↔ clean) ∧ (clean → ∃ l, Lineage k l) := by
  rcases h with ⟨hc, l, hl⟩ | ⟨hn, hfree⟩
  · exact ⟨iff_of_true hl.coherent hc, fun _ => ⟨l, hl⟩⟩
  · refine ⟨iff_of_false (fun hco => ?_) hn, fun hc => absurd hc hn⟩
    have hlive := hco.live
    rw [hfree] at hlive
    exact absurd hlive (by decide)

section
variable {img : Image} {junk : StackBytes} {frame : Frame} {k : Kernel} {l : List Nat} {left : Left}

theorem Lineage.execute_settles {command : CString} (hl : Lineage k l)
    (h : syscallExecute img junk frame command k = .ok left) :
    Settles (KeepsSlot img junk command k) left.kernel := by
  rcases syscallExecute_cases h with ⟨hfull, -, dev, hk⟩ | ⟨slot, args, hslot, ht, rfl⟩ |
    ⟨slot, args, d, hslot, ht, rfl⟩
  · exact .inl ⟨.inl hfull, l, hk ▸ hl.of_eq rfl rfl rfl rfl rfl rfl⟩
  · refine .inr ⟨?_, Function.update_self ..⟩
    rintro (hfull | ⟨d, hd⟩)
    · rw [hslot] at hfull
      exact absurd hfull (by simp)
    · rw [ht] at hd
      exact absurd hd (by simp)
  · refine .inl ⟨.inr ⟨d, ht⟩, ?_⟩
    rcases hl.started_cases hslot with ⟨-, hnew⟩ | ⟨-, l', -, hnew⟩
    · exact ⟨_, hnew⟩
    · exact ⟨_, hnew⟩

theorem Lineage.halt_settles {status : UInt8} (hl : Lineage k l)
    (h : syscallHalt img junk frame status k = .ok left) :
    Settles (k.pid = 0 → Loads img junk shellCommand) left.kernel := by
  rcases syscallHalt_cases hl.currPcb_pid h with ⟨hp, rfl⟩ | ⟨hp, args, d, ht, rfl⟩ |
    ⟨hp, args, ht, rfl⟩
  · obtain ⟨l', -, hl'⟩ := hl.halted status hp
    exact .inl ⟨fun h0 => absurd h0 hp, l', hl'⟩
  · refine .inl ⟨fun _ => ⟨d, ht⟩, [0], Lineage.started_base ?_⟩
    exact hl.parentPid_of_root hp
  · refine .inr ⟨fun hclean => ?_, ?_⟩
    · obtain ⟨d, hd⟩ := hclean hp
      rw [ht] at hd
      exact absurd hd (by simp)
    · -- the parent of slot 0 is slot 0 itself, which has just been given back
      have hparent : ((k.vacated.abandoned 0 args).pcb k.pid).parentPid = 0 := by
        rw [hp]
        change ((k.vacated.prepared 0 args).pcb 0).parentPid = 0
        rw [Kernel.prepared_pcb_self, if_pos rfl]
      change Function.update _ 0 0 ((k.vacated.abandoned 0 args).pcb k.pid).parentPid = 0
      rw [hparent, Function.update_self]

theorem Lineage.exception_settles {entry : Nat} (hl : Lineage k l)
    (h : exceptions img junk frame entry k = .ok left) :
    Settles (k.pid = 0 → Loads img junk shellCommand) left.kernel := by
  rw [exceptions_eq] at h
  have hraised : Lineage (k.raised entry) l := hl.of_eq rfl rfl rfl rfl rfl rfl
  exact hraised.halt_settles h

theorem terminalSwap_cases {newTermVal : Int}
    (h : terminalSwap img junk frame newTermVal k = .ok left) :
    (¬ OpensTerminal k newTermVal ∧ (left.exit = .ret 0 ∨ left.exit = .ret (-1)) ∧
      (left.kernel = k ∨ left.kernel = k.switchTerminal newTermVal.toNat)) ∨
    OpensTerminal k newTermVal ∧ ∃ left', left.kernel = left'.kernel ∧
      (left.exit = left'.exit ∨ left.exit = .ret 0 ∧ ∃ r, left'.exit = .ret r) ∧
      syscallExecute img junk frame shellCommand (k.switchTerminal newTermVal.toNat) =
        .ok left' := by
  unfold terminalSwap at h
  split at h
  · rename_i hout
    obtain rfl := Except.ok.inj h
    refine .inl ⟨fun hopen => ?_, .inr rfl, .inl rfl⟩
    obtain ⟨h0, h3, -⟩ := hopen
    omega
  · rename_i hin
    split at h
    · rename_i hsame
      obtain rfl := Except.ok.inj h
      exact .inl ⟨fun hopen => hopen.2.2.1 hsame, .inl rfl, .inl rfl⟩
    · rename_i hne
      split at h
      · rename_i hact
        refine .inr ⟨⟨by omega, by omega, hne, hact⟩, ?_⟩
        simp only [bind, Except.bind] at h
        split at h
        · exact absurd h (by simp)
        · rename_i left' hexec
          refine ⟨left', ?_, ?_, hexec⟩
          · split at h
            · exact (congrArg Left.kernel (Except.ok.inj h)).symm
            · exact (congrArg Left.kernel (Except.ok.inj h)).symm
          · split at h
            · rename_i r hr
              exact .inr ⟨(congrArg Left.exit (Except.ok.inj h)).symm, r, hr⟩
            · exact .inl (congrArg Left.exit (Except.ok.inj h)).symm
      · rename_i hact
        obtain rfl := Except.ok.inj h
        exact .inl ⟨fun hopen => hact hopen.2.2.2, .inl rfl, .inr rfl⟩

theorem Lineage.swap_settles {newTermVal : Int} (hl : Lineage k l)
    (h : terminalSwap img junk frame newTermVal k = .ok left) :
    Settles (OpensTerminal k newTermVal → KeepsSlot img junk shellCommand k) left.kernel := by
  have hswitch : Lineage (k.switchTerminal newTermVal.toNat) l := hl.of_eq rfl rfl rfl rfl rfl rfl
  rcases terminalSwap_cases h with ⟨hnot, -, hk⟩ | ⟨hopen, left', hk, -, hexec⟩
  · refine .inl ⟨fun hopen => absurd hopen hnot, l, ?_⟩
    rcases hk with hk | hk
    · rw [hk]; exact hl
    · rw [hk]; exact hswitch
  · rw [hk]
    rcases hswitch.execute_settles hexec with ⟨hkeep, hnew⟩ | ⟨hlost, hfree⟩
    · exact .inl ⟨fun _ => hkeep, hnew⟩
    · exact .inr ⟨fun hclean => hlost (hclean hopen), hfree⟩

end

theorem Lineage.step_settles {img : Image} {k k' : Kernel} {c : KernelCall} {o : Exit}
    {l : List Nat} (hl : Lineage k l) (h : kernelCalls img k c = some (o, k')) :
    Settles (StartsCleanly img k c) k' := by
  obtain ⟨stores, henter⟩ := kernelCalls_eq_some.mp h
  unfold StartsCleanly
  cases hop : c.op with
  | execute command =>
    simp only [KernelCall.enter, hop] at henter
    exact hl.execute_settles henter
  | halt status =>
    simp only [KernelCall.enter, hop] at henter
    exact hl.halt_settles henter
  | exception entry =>
    simp only [KernelCall.enter, hop] at henter
    exact hl.exception_settles henter
  | swap newTermVal =>
    simp only [KernelCall.enter, hop] at henter
    exact hl.swap_settles henter

/-- Along any run from boot, all states are coherent exactly when no entry takes a slot in vain. -/
theorem coherent_iff_startsCleanly {img : Image} {k₀ : Kernel} {calls : List KernelCall}
    (hboot : Boots img k₀) : Coherent k₀ ∧
      ((kernelCalls img).Always (fun _ _ _ k' => Coherent k') k₀ calls ↔
        (kernelCalls img).Always (fun k c _ _ => StartsCleanly img k c) k₀ calls) := by
  refine ⟨hboot.lineage.coherent, Machine.always_iff (fun k => ∃ l, Lineage k l) ?_
    ⟨[0], hboot.lineage⟩⟩
  rintro k c o k' ⟨l, hl⟩ hstep
  exact (hl.step_settles hstep).coherent_iff

theorem sampleImage_stays_coherent : ∃ k₀, Boots sampleImage k₀ ∧ Coherent k₀ ∧
    (kernelCalls sampleImage).Always (fun _ _ _ k' => Coherent k') k₀
      [executeShell, haltWith 0, haltWith 3] := by
  obtain ⟨args, d, hboot⟩ := sampleImage_boots
  obtain ⟨hstart, hiff⟩ := coherent_iff_startsCleanly hboot
  have hloads := sampleImage_loads
  exact ⟨_, hboot, hstart, hiff.mpr fun _ _ _ => ⟨.inr hloads, fun _ _ _ => ⟨fun _ => hloads,
    fun _ _ _ => ⟨fun _ => hloads, trivial⟩⟩⟩⟩

/-- After a name that does not exist, the kernel runs the base shell under a slot marked free, with
the base shell's program page and kernel stack. -/
theorem missing_command_is_incoherent : ∃ k₀ k₁,
    Boots sampleImage k₀ ∧
    kernelCalls sampleImage k₀ ⟨.execute missingCommand, sampleJunk, sampleFrame⟩ =
      some (.ret (-1), k₁) ∧
    k₁.pid = 1 ∧ k₁.pidArray k₁.pid = 0 ∧ ¬ Coherent k₁ := by
  obtain ⟨args, d, hboot⟩ := sampleImage_boots
  let k₀ := sampleShell (initTerminal samplePowerOn) 0 args d
  have hslot : k₀.freeSlot = some 1 := rfl
  obtain ⟨args', h⟩ := sampleImage_abandons k₀ 1 hslot
  have hfree : (k₀.abandoned 1 args').pidArray 1 = 0 :=
    congrFun (abandoned_pidArray args' hslot) 1
  refine ⟨k₀, k₀.abandoned 1 args', hboot, kernelCalls_eq_some.mpr ⟨[], h⟩, rfl, hfree, ?_⟩
  intro hco
  have hlive : (k₀.abandoned 1 args').pidArray 1 = 1 := hco.live
  rw [hfree] at hlive
  exact absurd hlive (by decide)

end MyLinuxOS
