import MyLinuxOS.Process.Calls
import MyLinuxOS.Memory.Tables

/-! The translation of every 32-bit virtual address after `initialize_paging` and any sequence of
the two patches that follow it. -/

namespace MyLinuxOS
open Foundation

def programMemory (pid : Nat) : Nat := pid * pageSize4MB + kpageSize

def vidmapLocation : Nat := 0x8800000

inductive PagingUpdate
  | helper (pid : Nat)
  | vidmapHelper
  deriving DecidableEq

def PagingUpdate.apply (u : PagingUpdate) (p : Paging) : Paging :=
  match u with
  | .helper pid => p.syscallHelper pid
  | .vidmapHelper => p.syscallVidmapHelper

def lastHelper : List PagingUpdate → Option Nat
  | [] => none
  | .helper pid :: us => some ((lastHelper us).getD pid)
  | .vidmapHelper :: us => lastHelper us

/-- The memory map the kernel means to give to the program in slot `pid`. -/
def intended (program : Nat) (vidmap : Bool) (v : Nat) : Option Mapping :=
  if kernelLocation ≤ v ∧ v < kpageSize then some ⟨v, true, false⟩
  else if addrVideo ≤ v ∧ v < 0xBC000 then some ⟨v, true, false⟩
  else if userLocation ≤ v ∧ v < userLocation + pageSize4MB then
    some ⟨program + (v - userLocation), true, true⟩
  else if vidmap = true ∧ vidmapLocation ≤ v ∧ v < vidmapLocation + bytesToAlignTo then
    some ⟨addrVideo + (v - vidmapLocation), true, true⟩
  else none

namespace Paging
variable {p : Paging} {mem : Nat → Nat} {dir v : Nat}

def updated (p : Paging) (us : List PagingUpdate) : Paging := us.foldl (fun p u => u.apply p) p

theorem Layout.updated {program : Nat} {vidmap : Bool} (h : p.Layout program vidmap)
    (us : List PagingUpdate) : (p.updated us).Layout ((lastHelper us).elim program programMemory)
      (vidmap || decide (.vidmapHelper ∈ us)) := by
  induction us generalizing p program vidmap with
  | nil => simpa only [Paging.updated, List.foldl_nil, lastHelper, Option.elim_none,
      List.not_mem_nil, decide_false, Bool.or_false] using h
  | cons u us ih =>
    cases u with
    | helper pid =>
      have hrest := ih (h.syscallHelper pid)
      have hlast : (lastHelper (.helper pid :: us)).elim program programMemory =
          (lastHelper us).elim (programMemory pid) programMemory := by
        rw [lastHelper]
        cases lastHelper us <;> rfl
      have hmem : PagingUpdate.vidmapHelper ∈ .helper pid :: us ↔ .vidmapHelper ∈ us := by
        simp only [List.mem_cons, reduceCtorEq, false_or]
      rw [hlast]
      simp only [hmem]
      exact hrest
    | vidmapHelper =>
      have hrest := ih h.syscallVidmapHelper
      rw [Bool.true_or] at hrest
      simp only [List.mem_cons, true_or, decide_true, Bool.or_true]
      exact hrest

/-! ### One address -/

namespace Holds
variable (hm : p.Holds mem dir)
include hm

theorem directory_word (hv : v < 2 ^ 32) :
    mem (dir + 4 * (v / 2 ^ 22)) = (p.pageDirectory (v / 2 ^ 22)).word := by
  apply hm.directory
  unfold maxPageEntries
  omega

theorem walk_absent (hv : v < 2 ^ 32) (h : (p.pageDirectory (v / 2 ^ 22)).present = false) :
    walk mem dir v = none := by
  apply Foundation.walk_absent
  rw [hm.directory_word hv, PageDirectoryEntry.word_present, h]

theorem walk_large (hv : v < 2 ^ 32) {user : Bool} {base : Nat}
    (h : (p.pageDirectory (v / 2 ^ 22)).Points user true (frameOf base))
    (hbase : base % pageSize4MB = 0 ∧ base < 2 ^ 32) :
    walk mem dir v = some ⟨base + v % 2 ^ 22, true, user⟩ := by
  have haddr := (p.pageDirectory (v / 2 ^ 22)).word_div
  rw [h.addr] at haddr
  rw [Foundation.walk_large (hm.directory_word hv), PageDirectoryEntry.word_rw,
    PageDirectoryEntry.word_user, h.rw, h.user]
  · unfold frameOf bytesToAlignTo at haddr
    unfold pageSize4MB at hbase
    have hpage : 2 ^ 22 * ((p.pageDirectory (v / 2 ^ 22)).word / 2 ^ 22) = base := by omega
    rw [hpage]
  · rw [PageDirectoryEntry.word_present, h.present]
  · rw [PageDirectoryEntry.word_size, h.size]

theorem walk_table (hv : v < 2 ^ 32) {user : Bool} {base : Nat} {e : PageTableEntry}
    (h : (p.pageDirectory (v / 2 ^ 22)).Points user false (frameOf base))
    (hbase : base % bytesToAlignTo = 0 ∧ base < 2 ^ 32)
    (he : mem (base + 4 * (v / 2 ^ 12 % 2 ^ 10)) = e.word) (hrw : e.rw = true) :
    walk mem dir v =
      if e.present = false then none
      else some ⟨2 ^ 12 * (e.addr % 2 ^ 20) + v % 2 ^ 12, true, user && e.user⟩ := by
  have haddr := (p.pageDirectory (v / 2 ^ 22)).word_div
  rw [h.addr] at haddr
  have htable : 2 ^ 12 * ((p.pageDirectory (v / 2 ^ 22)).word / 2 ^ 12) = base := by
    unfold frameOf bytesToAlignTo at haddr
    unfold bytesToAlignTo at hbase
    omega
  rw [Foundation.walk_table (hm.directory_word hv), PageDirectoryEntry.word_rw,
    PageDirectoryEntry.word_user, h.rw, h.user, htable, he]
  · simp only [PageTableEntry.word_present, PageTableEntry.word_rw, PageTableEntry.word_user,
      PageTableEntry.word_div, hrw, Bool.and_self]
  · rw [PageDirectoryEntry.word_present, h.present]
  · rw [PageDirectoryEntry.word_size, h.size]

end Holds

theorem bounds : kernelLocation = 2 ^ 22 ∧ kpageSize = 2 ^ 23 ∧ addrVideo = 0xB8000 ∧
    userLocation = 2 ^ 27 ∧ pageSize4MB = 2 ^ 22 ∧ vidmapLocation = 34 * 2 ^ 22 ∧
    bytesToAlignTo = 2 ^ 12 ∧ userProgramIndex = 32 ∧ vidmapIndex = 34 ∧ maxPageEntries = 2 ^ 10 :=
  ⟨rfl, rfl, rfl, rfl, rfl, rfl, rfl, rfl, rfl, rfl⟩

section walk
variable {program : Nat} {vidmap : Bool} (h : p.Layout program vidmap) (hm : p.Holds mem dir)
include h hm

theorem Layout.walk_low (hv : v / 2 ^ 22 = 0) :
    walk mem dir v = intended program vidmap v := by
  obtain ⟨e₁, e₂, e₃, e₄, e₅, e₆, e₇, -, -, e₁₀⟩ := bounds
  have hpage : v / 2 ^ 12 % 2 ^ 10 = v / 2 ^ 12 := by omega
  have hlt : v / 2 ^ 12 % 2 ^ 10 < maxPageEntries := by omega
  have hword := hm.table _ hlt
  rw [h.table _ hlt] at hword
  rw [hm.walk_table (by omega) (hv ▸ h.low) hm.table_aligned hword (videoTableEntry_rw _)]
  simp only [videoTableEntry_present, videoTableEntry_addr, videoTableEntry_user, hpage]
  unfold intended
  rw [if_neg (by omega : ¬ (kernelLocation ≤ v ∧ v < kpageSize))]
  by_cases hscreen : addrVideo ≤ v ∧ v < 0xBC000
  · have haddr : 2 ^ 12 * (v / 2 ^ 12 % 2 ^ 20) + v % 2 ^ 12 = v := by omega
    rw [if_neg (by omega), if_pos hscreen, haddr]
    rfl
  · rw [if_pos (by omega), if_neg hscreen, if_neg (by omega), if_neg (by omega)]

theorem Layout.walk_kernel (hv : v / 2 ^ 22 = 1) :
    walk mem dir v = intended program vidmap v := by
  obtain ⟨e₁, e₂, -, -, e₅, -⟩ := bounds
  have haddr : kernelLocation + v % 2 ^ 22 = v := by omega
  rw [hm.walk_large (by omega) (hv ▸ h.kernel) (by decide), haddr]
  unfold intended
  rw [if_pos (by omega)]

theorem Layout.walk_program (hprogram : program % pageSize4MB = 0 ∧ program < 2 ^ 32)
    (hv : v / 2 ^ 22 = userProgramIndex) : walk mem dir v = intended program vidmap v := by
  obtain ⟨e₁, e₂, e₃, e₄, e₅, -, -, e₈, -⟩ := bounds
  have haddr : program + v % 2 ^ 22 = program + (v - userLocation) := by omega
  rw [hm.walk_large (by omega) (hv ▸ h.program) hprogram, haddr]
  unfold intended
  rw [if_neg (by omega), if_neg (by omega), if_pos (by omega)]

theorem Layout.walk_vidmap (hv : v / 2 ^ 22 = vidmapIndex) :
    walk mem dir v = intended program vidmap v := by
  obtain ⟨e₁, e₂, e₃, e₄, e₅, e₆, e₇, -, e₉, e₁₀⟩ := bounds
  unfold intended
  rw [if_neg (by omega), if_neg (by omega), if_neg (by omega)]
  cases vidmap with
  | false => rw [hm.walk_absent (by omega) (hv ▸ h.unmapped rfl), if_neg (by simp)]
  | true =>
    have hlt : v / 2 ^ 12 % 2 ^ 10 < maxPageEntries := by omega
    have hword := hm.vidmap _ hlt
    by_cases h0 : v / 2 ^ 12 % 2 ^ 10 = 0
    · rw [h0, h.screen, if_pos rfl] at hword
      have haddr : v % 2 ^ 12 = v - vidmapLocation := by omega
      rw [hm.walk_table (by omega) (hv ▸ h.mapped rfl) hm.vidmap_aligned (h0 ▸ hword) rfl,
        if_neg (by simp), if_pos ⟨rfl, by omega⟩, haddr]
      rfl
    · rw [h.vidmap_rest _ hlt h0] at hword
      have habsent : (tableEntry (v / 2 ^ 12 % 2 ^ 10)).present = false := rfl
      rw [hm.walk_table (by omega) (hv ▸ h.mapped rfl) hm.vidmap_aligned hword rfl,
        if_pos habsent, if_neg (by omega)]

theorem Layout.walk_eq (hprogram : program % pageSize4MB = 0 ∧ program < 2 ^ 32)
    (hv : v < 2 ^ 32) : walk mem dir v = intended program vidmap v := by
  obtain ⟨e₁, e₂, e₃, e₄, e₅, e₆, e₇, e₈, e₉, e₁₀⟩ := bounds
  by_cases h0 : v / 2 ^ 22 = 0
  · exact h.walk_low hm h0
  by_cases h1 : v / 2 ^ 22 = 1
  · exact h.walk_kernel hm h1
  by_cases h32 : v / 2 ^ 22 = userProgramIndex
  · exact h.walk_program hm hprogram h32
  by_cases h34 : v / 2 ^ 22 = vidmapIndex
  · exact h.walk_vidmap hm h34
  · rw [hm.walk_absent hv (h.absent _ (by omega) h0 h1 h32 h34)]
    unfold intended
    rw [if_neg (by omega), if_neg (by omega), if_neg (by omega), if_neg (by omega)]

end walk

end Paging

theorem mem_of_lastHelper {us : List PagingUpdate} {pid : Nat} (h : lastHelper us = some pid) :
    .helper pid ∈ us := by
  induction us with
  | nil => exact absurd h (by simp [lastHelper])
  | cons u us ih =>
    cases u with
    | vidmapHelper => exact List.mem_cons_of_mem _ (ih h)
    | helper q =>
      rw [lastHelper] at h
      cases hrest : lastHelper us with
      | none =>
        rw [hrest] at h
        obtain rfl := Option.some.inj h
        exact List.mem_cons_self ..
      | some r =>
        rw [hrest] at h
        obtain rfl := Option.some.inj h
        exact List.mem_cons_of_mem _ (ih hrest)

/-- No user mapping leads to the kernel's page or to the page of another slot. -/
theorem intended_isolates {pid : Nat} {vidmap : Bool} {v : Nat} {m : Mapping}
    (h : intended (programMemory pid) vidmap v = some m) (huser : m.user = true) :
    ¬ (kernelLocation ≤ m.addr ∧ m.addr < kpageSize) ∧
      ∀ q < maxPid, q ≠ pid →
        ¬ (programMemory q ≤ m.addr ∧ m.addr < programMemory q + pageSize4MB) := by
  obtain ⟨e₁, e₂, e₃, e₄, e₅, e₆, e₇, -⟩ := Paging.bounds
  unfold intended programMemory at h
  unfold maxPid programMemory
  split at h
  · obtain rfl := Option.some.inj h
    exact absurd huser (by simp)
  · split at h
    · obtain rfl := Option.some.inj h
      exact absurd huser (by simp)
    · split at h
      · obtain rfl := Option.some.inj h
        refine ⟨fun hk => ?_, fun q hq hne hpage => ?_⟩
        · simp only at hk
          omega
        · simp only [e₅] at hpage
          omega
      · split at h
        · obtain rfl := Option.some.inj h
          refine ⟨fun hk => ?_, fun q hq hne hpage => ?_⟩
          · simp only at hk
            omega
          · simp only [e₅] at hpage
            omega
        · exact absurd h (by simp)

theorem translation_is_intended {p₀ : Paging} {us : List PagingUpdate} {pid : Nat}
    {mem : Nat → Nat} {dir : Nat} (hpids : ∀ q, .helper q ∈ us → q < maxPid)
    (hlast : lastHelper us = some pid) (hm : (p₀.initializePaging.updated us).Holds mem dir)
    (v : UInt32) :
    walk mem dir v.toNat =
        intended (programMemory pid) (decide (.vidmapHelper ∈ us)) v.toNat ∧
      ∀ m, walk mem dir v.toNat = some m → m.user = true →
        ¬ (kernelLocation ≤ m.addr ∧ m.addr < kpageSize) ∧
          ∀ q < maxPid, q ≠ pid →
            ¬ (programMemory q ≤ m.addr ∧ m.addr < programMemory q + pageSize4MB) := by
  have hpid : pid < maxPid := hpids pid (mem_of_lastHelper hlast)
  have hlayout := p₀.initializePaging_layout.updated us
  rw [hlast, Option.elim_some, Bool.false_or] at hlayout
  have hprogram : programMemory pid % pageSize4MB = 0 ∧ programMemory pid < 2 ^ 32 := by
    unfold programMemory pageSize4MB kpageSize
    unfold maxPid at hpid
    omega
  have hwalk := hlayout.walk_eq hm hprogram v.toNat_lt
  refine ⟨hwalk, fun m hmap huser => ?_⟩
  rw [hwalk] at hmap
  exact intended_isolates hmap huser

/-! ### Memory that holds the tables -/

def Paging.image (p : Paging) (dir a : Nat) : Nat :=
  if dir ≤ a ∧ a < dir + 4 * maxPageEntries then (p.pageDirectory ((a - dir) / 4)).word
  else if p.pageTableAddr ≤ a ∧ a < p.pageTableAddr + 4 * maxPageEntries then
    (p.pageTable ((a - p.pageTableAddr) / 4)).word
  else (p.pageVidmap ((a - p.pageVidmapAddr) / 4)).word

theorem Paging.image_holds {p : Paging} {dir : Nat} (hdir : dir + 4096 ≤ p.pageTableAddr)
    (htable : p.pageTableAddr + 4096 ≤ p.pageVidmapAddr)
    (haligned : p.pageTableAddr % bytesToAlignTo = 0 ∧ p.pageVidmapAddr % bytesToAlignTo = 0)
    (hlt : p.pageVidmapAddr < 2 ^ 32) : p.Holds (p.image dir) dir := by
  have hindex : ∀ base i : Nat, (base + 4 * i - base) / 4 = i := by omega
  constructor
  · intro i hi
    unfold maxPageEntries at hi
    rw [image, if_pos (by unfold maxPageEntries; omega), hindex]
  · intro i hi
    unfold maxPageEntries at hi
    rw [image, if_neg (by unfold maxPageEntries; omega), if_pos (by unfold maxPageEntries; omega),
      hindex]
  · intro i hi
    unfold maxPageEntries at hi
    rw [image, if_neg (by unfold maxPageEntries; omega), if_neg (by unfold maxPageEntries; omega),
      hindex]
  · exact ⟨haligned.1, by omega⟩
  · exact ⟨haligned.2, hlt⟩

theorem translation_after_two_helpers : ∃ mem dir,
    ((zeroPaging samplePowerOn).initializePaging.updated
      [.helper 0, .vidmapHelper, .helper 2]).Holds mem dir ∧
    walk mem dir 0x8048000 = some ⟨0x1048000, true, true⟩ ∧
    walk mem dir 0x8800010 = some ⟨0xB8010, true, true⟩ := by
  let us : List PagingUpdate := [.helper 0, .vidmapHelper, .helper 2]
  have hm : ((zeroPaging samplePowerOn).initializePaging.updated us).Holds
      (((zeroPaging samplePowerOn).initializePaging.updated us).image 0x400000) 0x400000 :=
    Paging.image_holds (by decide) (by decide) (by decide) (by decide)
  have hpids : ∀ q, .helper q ∈ us → q < maxPid := by
    intro q hq
    simp only [us, List.mem_cons, PagingUpdate.helper.injEq, reduceCtorEq, List.not_mem_nil,
      or_false, false_or] at hq
    unfold maxPid
    omega
  have htranslate := translation_is_intended hpids rfl hm
  exact ⟨_, _, hm, (htranslate 0x8048000).1, (htranslate 0x8800010).1⟩

end MyLinuxOS
