import MyLinuxOS.Memory.Translation
import MyLinuxOS.Process.SystemCalls

/-! Who can write to the screen through `vidmap`. There is one page directory, `vidmap` adds a
mapping to it, and nothing takes the mapping away: from the first call on it is there for every
process. -/

namespace MyLinuxOS
open Foundation

/-- A call of `vidmap` with a pointer that passes the check. -/
def Maps (c : SystemCall) : Prop := ∃ screenStart, c = .vidmap screenStart ∧
  userLocation < screenStart.toNat ∧ screenStart.toNat ≤ userLocation + pageSize4MB

theorem layout_walk {p : Paging} {program : Nat} {vidmap : Bool} (h : p.Layout program vidmap)
    {mem : Nat → Nat} {dir : Nat} (hm : p.Holds mem dir) : walk mem dir virtualVidmap.toNat =
      if vidmap = true then some ⟨addrVideo, true, true⟩ else none := by
  rw [h.walk_vidmap hm rfl]
  cases vidmap <;> rfl

/-! ### What the entries do to the directory -/

def KeepsVideo (before after : Paging) : Prop :=
  after = before ∨ ∃ pid, after = before.syscallHelper pid

section
variable {img : Image} {junk : StackBytes} {frame : Frame} {k : Kernel} {left : Left}

theorem execute_keepsVideo {command : CString}
    (h : syscallExecute img junk frame command k = .ok left) :
    KeepsVideo k.paging left.kernel.paging := by
  rcases syscallExecute_cases h with ⟨-, -, dev, hk⟩ | ⟨slot, args, -, -, rfl⟩ |
    ⟨slot, args, d, -, -, rfl⟩
  · rw [hk]; exact .inl rfl
  · exact .inl rfl
  · exact .inr ⟨slot, rfl⟩

theorem halt_keepsVideo {status : UInt8} (h : syscallHalt img junk frame status k = .ok left) :
    KeepsVideo k.paging left.kernel.paging := by
  by_cases hp : k.currPcb.pid = 0
  · rcases syscallHalt_of_eq hp h with ⟨args, d, -, rfl⟩ | ⟨args, -, rfl⟩
    · exact .inr ⟨0, rfl⟩
    · exact .inr ⟨_, rfl⟩
  · rw [syscallHalt_of_ne hp] at h
    obtain rfl := Except.ok.inj h
    exact .inr ⟨_, rfl⟩

theorem swap_keepsVideo {newTermVal : Int}
    (h : terminalSwap img junk frame newTermVal k = .ok left) :
    KeepsVideo k.paging left.kernel.paging := by
  rcases terminalSwap_cases h with ⟨-, -, hk⟩ | ⟨-, left', hk, -, hexec⟩
  · rcases hk with hk | hk
    · rw [hk]; exact .inl rfl
    · rw [hk]; exact .inl rfl
  · have hkept : KeepsVideo (k.switchTerminal newTermVal.toNat).paging left'.kernel.paging :=
      execute_keepsVideo hexec
    rw [hk]
    exact hkept

theorem KeepsVideo.layout {before after : Paging} (h : KeepsVideo before after) {program : Nat}
    {vidmap : Bool} (hl : before.Layout program vidmap) :
    ∃ program', after.Layout program' vidmap := by
  rcases h with rfl | ⟨pid, rfl⟩
  · exact ⟨program, hl⟩
  · exact ⟨_, hl.syscallHelper pid⟩

theorem process_keepsVideo {c : KernelCall} (h : c.enter img k = .ok left) :
    KeepsVideo k.paging left.kernel.paging := by
  unfold KernelCall.enter at h
  split at h
  · exact execute_keepsVideo h
  · exact halt_keepsVideo h
  · rename_i entry _
    exact halt_keepsVideo (k := k.raised entry) h
  · exact swap_keepsVideo h

end

/-- One step: the mapping is there afterwards if it was there before, or if the step is a call of
`vidmap` that gets as far as the helper. -/
theorem systemCalls_layout {img : Image} {k k' : Kernel} {c : SystemCall} {o : Exit}
    {program : Nat} {vidmap : Bool} (hl : k.paging.Layout program vidmap)
    (h : systemCalls img k c = some (o, k')) :
    ∃ program', (Maps c ∧ k'.paging.Layout program' true) ∨
      (¬ Maps c ∧ k'.paging.Layout program' vidmap) := by
  cases c with
  | process c =>
    obtain ⟨stores, henter⟩ := systemCalls_eq_some.mp h
    obtain ⟨program', hl'⟩ := (process_keepsVideo (c := c) henter).layout hl
    exact ⟨program', .inr ⟨by rintro ⟨s, he⟩; exact absurd he (by simp), hl'⟩⟩
  | file c =>
    obtain ⟨r, stores, -, hfile⟩ := systemCalls_file h
    obtain ⟨i, e, dev, -, rfl, -⟩ := fileCalls_effect hfile
    exact ⟨program, .inr ⟨by rintro ⟨s, he⟩; exact absurd he (by simp), hl⟩⟩
  | vidmap screenStart =>
    obtain ⟨stores, henter⟩ := systemCalls_eq_some.mp h
    rcases syscallVidmap_cases henter with ⟨hout, he⟩ | ⟨hin, exit, -, he⟩
    · obtain ⟨rfl, rfl, -⟩ := Left.mk.inj he
      have hnot : ¬ Maps (.vidmap screenStart) := by
        rintro ⟨start, hstart, hin⟩
        obtain rfl := SystemCall.vidmap.inj hstart
        omega
      exact ⟨program, .inr ⟨hnot, hl⟩⟩
    · obtain ⟨rfl, rfl, -⟩ := Left.mk.inj he
      exact ⟨program, .inl ⟨⟨screenStart, rfl, hin⟩, hl.syscallVidmapHelper⟩⟩

theorem run_layout {img : Image} {k k' : Kernel} {calls : List SystemCall} {os : List Exit}
    {program : Nat} {vidmap : Bool} (hl : k.paging.Layout program vidmap)
    (hrun : (systemCalls img).run k calls = some (os, k')) :
    ∃ program' vidmap', k'.paging.Layout program' vidmap' ∧
      (vidmap' = true ↔ vidmap = true ∨ ∃ c ∈ calls, Maps c) := by
  induction calls generalizing k os program vidmap with
  | nil =>
    cases hrun
    exact ⟨program, vidmap, hl, by simp⟩
  | cons c calls ih =>
    obtain ⟨o, k₁, os', hstep, hrest, rfl⟩ := Machine.run_cons_eq_some.mp hrun
    simp only [List.mem_cons, exists_eq_or_imp]
    obtain ⟨program₁, ⟨hmaps, hl₁⟩ | ⟨hmaps, hl₁⟩⟩ := systemCalls_layout hl hstep
    · obtain ⟨program', vidmap', hl', hiff⟩ := ih hl₁ hrest
      exact ⟨program', vidmap', hl', iff_of_true (hiff.mpr (.inl rfl)) (.inr (.inl hmaps))⟩
    · obtain ⟨program', vidmap', hl', hiff⟩ := ih hl₁ hrest
      refine ⟨program', vidmap', hl', hiff.trans ?_⟩
      simp only [hmaps, false_or]

theorem Boots.layout {img : Image} {k : Kernel} (h : Boots img k) :
    ∃ program, k.paging.Layout program false := by
  obtain ⟨hw, junk, frame, stores, hexec⟩ := h
  exact (execute_keepsVideo hexec).layout (zeroPaging hw).initializePaging_layout

/-- Along every run from boot the running process can write to the screen exactly if some process
has called `vidmap` before with a pointer that passes the check. -/
theorem videoMapped_iff {img : Image} {k₀ k : Kernel} {calls : List SystemCall} {os : List Exit}
    (hboot : Boots img k₀) (hrun : (systemCalls img).run k₀ calls = some (os, k)) {mem : Nat → Nat}
    {dir : Nat} (hm : k.paging.Holds mem dir) :
    (∃ m, walk mem dir virtualVidmap.toNat = some m ∧ m.user = true) ↔
      ∃ c ∈ calls, Maps c := by
  obtain ⟨program₀, hl₀⟩ := hboot.layout
  obtain ⟨program, vidmap, hl, hiff⟩ := run_layout hl₀ hrun
  simp only [Bool.false_eq_true, false_or] at hiff
  rw [← hiff, layout_walk hl hm]
  cases vidmap with
  | true => exact iff_of_true ⟨_, rfl, rfl⟩ rfl
  | false => exact iff_of_false (by rintro ⟨m, he, -⟩; exact absurd he (by simp)) (by simp)

/-! ### A sample run -/

theorem samplePaging_holds {p : Paging} (htable : p.pageTableAddr = 0x401000)
    (hvidmap : p.pageVidmapAddr = 0x402000) : p.Holds (p.image 0x400000) 0x400000 := by
  apply Paging.image_holds
  · rw [htable]
  · rw [htable, hvidmap]
  · rw [htable, hvidmap]
    decide
  · rw [hvidmap]
    decide

def sampleVidmap : SystemCall := .vidmap 0x8000010

theorem sampleImage_video_mapped : ∃ k₀ k mem dir, Boots sampleImage k₀ ∧
    (systemCalls sampleImage).run k₀ [sampleVidmap] = some ([.ret 0], k) ∧
    k.paging.Holds mem dir ∧ ∃ m, walk mem dir virtualVidmap.toNat = some m ∧ m.user = true := by
  obtain ⟨args, d, hboot⟩ := sampleImage_boots
  let k₀ := sampleShell (initTerminal samplePowerOn) 0 args d
  have hrun : (systemCalls sampleImage).run k₀ [sampleVidmap] =
      some ([.ret 0], { k₀ with paging := k₀.paging.syscallVidmapHelper }) := rfl
  have hm := samplePaging_holds (p := k₀.paging.syscallVidmapHelper) rfl rfl
  have hcalled : ∃ c ∈ [sampleVidmap], Maps c :=
    ⟨_, List.mem_singleton_self _, _, rfl, by decide⟩
  exact ⟨k₀, _, _, _, hboot, hrun, hm, (videoMapped_iff hboot hrun hm).mpr hcalled⟩

/-- A child of a shell that has called `vidmap` starts with the screen mapped. -/
theorem child_inherits_video : ∃ k₀ k₁ k₂ mem dir, Boots sampleImage k₀ ∧
    systemCalls sampleImage k₀ sampleVidmap = some (.ret 0, k₁) ∧
    systemCalls sampleImage k₁ (.process executeShell) = some (.iret, k₂) ∧
    k₁.pid = 0 ∧ k₂.pid = 1 ∧ k₂.paging.Holds mem dir ∧
    walk mem dir virtualVidmap.toNat = some ⟨addrVideo, true, true⟩ := by
  obtain ⟨args, d, hboot⟩ := sampleImage_boots
  let k₀ := sampleShell (initTerminal samplePowerOn) 0 args d
  let k₁ := { k₀ with paging := k₀.paging.syscallVidmapHelper }
  obtain ⟨args₂, d₂, stores, hstart⟩ := sampleImage_starts k₁ 1 rfl
  obtain ⟨program, hl⟩ := hboot.layout
  have hl₂ : (sampleShell k₁ 1 args₂ d₂).paging.Layout _ true :=
    hl.syscallVidmapHelper.syscallHelper 1
  have hm := samplePaging_holds (p := (sampleShell k₁ 1 args₂ d₂).paging) rfl rfl
  exact ⟨k₀, k₁, _, _, _, hboot, rfl, systemCalls_eq_some.mpr ⟨stores, hstart⟩, rfl, rfl, hm,
    layout_walk hl₂ hm⟩

end MyLinuxOS
