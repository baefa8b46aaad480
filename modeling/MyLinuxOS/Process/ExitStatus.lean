import MyLinuxOS.Process.ExceptionFlag

/-! Which value `execute` returns when the program it started halts: the status goes through a
logical `&&`, so only 0 and 1 come out as they went in. -/

namespace MyLinuxOS
open Foundation

/-- When a process other than the base shell halts, the call that started it gets its own frame back
and returns the status. -/
def Delivered (s : Kernel × Watch) (c : KernelCall) (o : Exit) (_ : Kernel × Watch) : Prop :=
  ∀ status, c.op = .halt status → s.2.owner 0 ≠ some s.2.running →
    s.2.owner s.1.pid = some s.2.running ∧
      o = .resume (s.2.frame s.2.running) (status.toUInt32)

/-- The status is 0 or 1, and the block of the global `pid` holds the frame of the call that started
the halting process. -/
def HaltsPlainly (s : Kernel × Watch) (c : KernelCall) (_ : Exit) (_ : Kernel × Watch) : Prop :=
  ∀ status, c.op = .halt status → s.2.owner 0 ≠ some s.2.running →
    s.2.owner s.1.pid = some s.2.running ∧ status ≤ 1

theorem statusFlag_eq_iff {status : UInt8} :
    Kernel.statusFlag status = status.toUInt32 ↔ status ≤ 1 := by
  rw [← UInt32.toNat_inj, UInt8.toNat_toUInt32, UInt8.le_iff_toNat_le, Kernel.statusFlag]
  by_cases h : status = 0
  · simp [h]
  · have hne : status.toNat ≠ 0 := fun h0 => h (UInt8.toNat_inj.mp h0)
    rw [if_pos h]
    simp only [UInt32.toNat_one, UInt8.toNat_one]
    omega

section
variable {img : Image} {junk : StackBytes} {frame : Frame} {k : Kernel} {g : Watch} {left : Left}

theorem Watched.halt_exit {status : UInt8} (h : Watched k g) (hp : k.pid ≠ 0) {e : Nat}
    (howner : g.owner k.pid = some e)
    (hhalt : syscallHalt img junk frame status k = .ok left) :
    left.exit = .resume (g.frame e) (Kernel.statusFlag status) := by
  rcases h.ready.halt h.pid hhalt with ⟨k₂, rfl, hb, -, hflag, -⟩ | ⟨_, _, -, h0, -⟩
  · obtain ⟨hexit, -⟩ := backToParent_of_clear (hflag.trans h.flag) k.pid status
    rw [hexit, hb.frames _ e howner]
  · exact absurd h0 hp

end

theorem Watched.delivered_iff {img : Image} {s s' : Kernel × Watch} {c : KernelCall} {o : Exit}
    (h : Watched s.1 s.2) (hstep : watched img s c = some (o, s')) :
    Delivered s c o s' ↔ HaltsPlainly s c o s' := by
  obtain ⟨hcall, -⟩ := watched_eq_some.mp hstep
  obtain ⟨stores, henter⟩ := kernelCalls_eq_some.mp hcall
  refine forall_congr' fun status => forall_congr' fun hop => forall_congr' fun hroot => ?_
  refine and_congr_right fun howner => ?_
  -- the base shell's slot is another one
  have hp : s.1.pid ≠ 0 := fun h0 => hroot (by rw [← h0]; exact howner)
  simp only [KernelCall.enter, hop] at henter
  have hexit := h.halt_exit hp howner henter
  change o = _ at hexit
  rw [hexit, ← statusFlag_eq_iff]
  constructor
  · exact fun he => (Exit.resume.inj he).2
  · exact fun he => congrArg _ he

/-- Along every run from boot without exceptions, the statuses of the children are delivered
unchanged exactly when every one of them is 0 or 1 and every child halts as the process that `pid`
stands for. -/
theorem delivered_iff_haltsPlainly {img : Image} {k₀ : Kernel} {calls : List KernelCall}
    (hboot : Boots img k₀) (hquiet : ∀ c ∈ calls, ¬c.IsException) :
    (watched img).Always Delivered (k₀, Watch.boot k₀) calls ↔
      (watched img).Always HaltsPlainly (k₀, Watch.boot k₀) calls := by
  refine Machine.always_iff_on (fun s => Watched s.1 s.2) ?_ hboot.watched
    (Machine.always_of_forall (P := fun _ c _ _ => ¬c.IsException)
      (fun c hc _ _ _ => hquiet c hc) _)
  intro s c o s' h hstep hc
  exact ⟨h.delivered_iff hstep, fun _ => (h.step hstep).2 fun he => absurd he hc⟩

theorem sample_child_halts (status : UInt8) : ∃ k₀ s₁ s₂, Boots sampleImage k₀ ∧
    watched sampleImage (k₀, Watch.boot k₀) executeShell = some (.iret, s₁) ∧
    watched sampleImage s₁ (haltWith status) =
      some (.resume sampleFrame (Kernel.statusFlag status), s₂) ∧
    s₁.2.owner 0 ≠ some s₁.2.running ∧ s₁.2.owner s₁.1.pid = some s₁.2.running ∧
      s₁.2.frame s₁.2.running = sampleFrame := by
  obtain ⟨args, d, hboot⟩ := sampleImage_boots
  let k₀ := sampleShell (initTerminal samplePowerOn) 0 args d
  obtain ⟨args₁, d₁, stores, hstart⟩ := sampleImage_starts k₀ 1 rfl
  let k₁ := sampleShell k₀ 1 args₁ d₁
  let g₁ := (Watch.boot k₀).entered 1 sampleFrame
  have hcall : kernelCalls sampleImage k₀ executeShell = some (.iret, k₁) :=
    kernelCalls_eq_some.mpr ⟨_, hstart⟩
  have hpid : k₁.currPcb.pid = 1 := rfl
  have hhalt := kernelCalls_haltWith sampleImage (hpid.trans_ne Nat.one_ne_zero) status
  have hflag : k₁.closeFiles.globalflag = 0 := rfl
  have hexit : (k₁.closeFiles.backToParent k₁.pid status).exit =
      .resume sampleFrame (Kernel.statusFlag status) :=
    (backToParent_of_clear hflag k₁.pid status).1
  rw [hexit] at hhalt
  let k₂ := (k₁.closeFiles.backToParent k₁.pid status).kernel
  refine ⟨k₀, (k₁, g₁), (k₂, g₁.resumed k₁.pid), hboot, watched_eq_some.mpr ⟨hcall, rfl⟩,
    watched_eq_some.mpr ⟨hhalt, rfl⟩, ?_, ?_, ?_⟩
  · have hbase : g₁.owner 0 = some 0 := rfl
    have hchild : g₁.running = 1 := rfl
    change g₁.owner 0 ≠ some g₁.running
    rw [hbase, hchild]
    decide
  · exact Watch.entered_owner_self ..
  · exact Watch.entered_frame_self ..

theorem status_one_is_delivered : ∃ k₀, Boots sampleImage k₀ ∧
    (watched sampleImage).Always Delivered (k₀, Watch.boot k₀) [executeShell, haltWith 1] := by
  obtain ⟨k₀, s₁, s₂, hboot, hstart, hhalt, -, howner, -⟩ := sample_child_halts 1
  refine ⟨k₀, hboot, (delivered_iff_haltsPlainly hboot ?_).mpr ?_⟩
  · intro c hc
    obtain rfl | rfl : c = executeShell ∨ c = haltWith 1 := by simpa using hc
    · exact not_isException_of_op (show _ = KernelOp.execute shellCommand from rfl) (by simp)
    · exact not_isException_of_op (show _ = KernelOp.halt 1 from rfl) (by simp)
  · intro o s hstep
    rw [hstart] at hstep
    obtain ⟨rfl, rfl⟩ := Prod.mk.inj (Option.some.inj hstep)
    refine ⟨?_, fun o' s' _ => ⟨?_, trivial⟩⟩
    · rintro status ⟨⟩
    · rintro status ⟨⟩ -
      exact ⟨howner, by decide⟩

/-- A child that halts with status 2 makes the `execute` of its parent return 1. -/
theorem status_two_is_not_delivered : ∃ k₀, Boots sampleImage k₀ ∧
    ¬(watched sampleImage).Always Delivered (k₀, Watch.boot k₀) [executeShell, haltWith 2] := by
  obtain ⟨k₀, s₁, s₂, hboot, hstart, hhalt, hroot, -, -⟩ := sample_child_halts 2
  refine ⟨k₀, hboot, fun halways => ?_⟩
  obtain ⟨hdelivered, -⟩ := (halways _ _ hstart).2 _ _ hhalt
  obtain ⟨-, hexit⟩ := hdelivered 2 rfl hroot
  exact absurd (Exit.resume.inj hexit).2 (by decide)

end MyLinuxOS
