import MyLinuxOS.Memory.VideoMapping
import MyLinuxOS.Process.Executables

/-! Where the bytes of a program go when it is loaded. The loader stores as many bytes as the inode
says, and the format allows more of them than there is room for behind the load address. -/

namespace MyLinuxOS
open Foundation

def physicalStores (mem : Nat → Nat) (dir : Nat) (stores : List Store) : List Store :=
  stores.filterMap fun s => (walk mem dir s.1).map fun m => (m.addr, s.2)

def InProgramPage (slot a : Nat) : Prop :=
  programMemory slot ≤ a ∧ a < programMemory slot + pageSize4MB

/-- The program is loaded within the page of its slot. The kernel and the image of the file system
lie below `kpageSize`. -/
structure LoadsInPage (img : Image) (d : Dentry) (slot : Nat) (left : Left) : Prop where
  contents : left.stores = storesAt imageAddress (img.fileContents d.inode.toNat)
  inPage : ∀ s ∈ left.stores, userLocation ≤ s.1 ∧ s.1 < userLocation + pageSize4MB
  mapped : ∀ mem dir, left.kernel.paging.Holds mem dir → ∀ s ∈ left.stores,
    ∃ m, walk mem dir s.1 = some m ∧ InProgramPage slot m.addr
  unchanged : ∀ mem dir, left.kernel.paging.Holds mem dir → ∀ (memory : Nat → UInt8) (a : Nat),
    (a < kpageSize ∨ ∃ q < maxPid, q ≠ slot ∧ InProgramPage q a) →
      applyStores memory (physicalStores mem dir left.stores) a = memory a

/-- The page tables of a kernel that has just been set up, or of one that a run from boot
reaches. -/
def ReachedPaging (img : Image) (p : Paging) : Prop :=
  (∃ hw, p = (initTerminal hw).paging) ∨
    ∃ k₀ k calls os, Boots img k₀ ∧ (systemCalls img).run k₀ calls = some (os, k) ∧ p = k.paging

def programRoom : Nat := 0x3B8000

theorem ReachedPaging.layout {img : Image} {p : Paging} (h : ReachedPaging img p) :
    ∃ program vidmap, p.Layout program vidmap := by
  rcases h with ⟨hw, rfl⟩ | ⟨k₀, k, calls, os, hboot, hrun, rfl⟩
  · exact ⟨_, _, (zeroPaging hw).initializePaging_layout⟩
  · obtain ⟨program₀, hl₀⟩ := hboot.layout
    obtain ⟨program, vidmap, hl, -⟩ := run_layout hl₀ hrun
    exact ⟨program, vidmap, hl⟩

theorem inProgramPage_unique {slot q a : Nat} (h : InProgramPage slot a)
    (hq : InProgramPage q a) : q = slot := by
  unfold InProgramPage programMemory pageSize4MB at h hq
  omega

theorem InProgramPage.kernel_le {slot a : Nat} (h : InProgramPage slot a) : kpageSize ≤ a := by
  unfold InProgramPage programMemory at h
  omega

theorem walk_program_page {p : Paging} {slot : Nat} {vidmap : Bool}
    (h : p.Layout (programMemory slot) vidmap) (hslot : slot < maxPid) {mem : Nat → Nat} {dir : Nat}
    (hm : p.Holds mem dir) {v : Nat} (hv : userLocation ≤ v ∧ v < userLocation + pageSize4MB) :
    ∃ m, walk mem dir v = some m ∧ InProgramPage slot m.addr := by
  obtain ⟨-, -, -, e₄, e₅, -, -, e₈, -⟩ := Paging.bounds
  have hprogram : programMemory slot % pageSize4MB = 0 ∧ programMemory slot < 2 ^ 32 := by
    unfold programMemory pageSize4MB kpageSize
    unfold maxPid at hslot
    omega
  have hindex : v / 2 ^ 22 = userProgramIndex := by omega
  refine ⟨_, hm.walk_large (by omega) (hindex ▸ h.program) hprogram, ?_⟩
  unfold InProgramPage
  simp only
  omega

section load
variable {img : Image} {junk : StackBytes} {frame : Frame} {command : CString} {k : Kernel}
  {left : Left} {slot : Nat} {d : Dentry}

theorem execute_loads (h : img.WellFormed) (hslot : k.freeSlot = some slot)
    (htarget : commandTarget img junk command = .ok (some d))
    (hexec : syscallExecute img junk frame command k = .ok left) :
    left.stores = storesAt imageAddress (img.fileContents d.inode.toNat) ∧
      left.kernel.paging = k.paging.syscallHelper slot := by
  obtain ⟨args, hentered⟩ : ∃ args, syscallExecute img junk frame command k = .ok
      ((k.prepared slot args).enterProgram img junk frame d) :=
    syscallExecute_of_freeSlot frame hslot htarget
  rw [hexec] at hentered
  obtain rfl := Except.ok.inj hentered
  obtain ⟨-, -, -, hpos, hlt, -⟩ := (commandTarget_eq_some h).mp htarget
  have hlt' := UInt32.lt_iff_toNat_lt.mp hlt
  refine ⟨?_, rfl⟩
  have hread : readData img d.inode 0 imageAddress (img.inodeLength d.inode.toNat) =
      some (img.fileContents d.inode.toNat) := by
    have h0 : d.inode ≠ 0 := fun he => absurd (he ▸ hpos) (UInt32.lt_irrefl 0)
    have hwhole : ((img.fileContents d.inode.toNat).drop (0 : UInt32).toNat).take
        (img.inodeLength d.inode.toNat).toNat = img.fileContents d.inode.toNat :=
      List.take_of_length_le (h.fileContents_length hlt').le
    rw [readData_eq h h0 (by decide) hlt, hwhole]
  change storesAt imageAddress _ = _
  rw [hread, Option.getD_some]

/-- A program stays within its page if and only if it is not longer than the room behind the load
address. -/
theorem loads_in_page_iff (h : img.WellFormed) (hp : ReachedPaging img k.paging)
    (hslot : k.freeSlot = some slot) (htarget : commandTarget img junk command = .ok (some d))
    (hexec : syscallExecute img junk frame command k = .ok left) :
    LoadsInPage img d slot left ↔ (img.inodeLength d.inode.toNat).toNat ≤ programRoom := by
  obtain ⟨hstores, hpaging⟩ := execute_loads h hslot htarget hexec
  obtain ⟨-, -, -, -, hlt, -⟩ := (commandTarget_eq_some h).mp htarget
  have hlength : (img.fileContents d.inode.toNat).length = (img.inodeLength d.inode.toNat).toNat :=
    h.fileContents_length (UInt32.lt_iff_toNat_lt.mp hlt)
  have hrange : (∀ s ∈ left.stores, userLocation ≤ s.1 ∧ s.1 < userLocation + pageSize4MB) ↔
      (img.inodeLength d.inode.toNat).toNat ≤ programRoom := by
    have haddr : imageAddress.toNat = 0x08048000 := rfl
    rw [hstores, storesAt_range_iff (by decide), hlength, haddr]
    unfold userLocation pageSize4MB programRoom
    omega
  rw [← hrange]
  refine ⟨LoadsInPage.inPage, fun hin => ?_⟩
  obtain ⟨program, vidmap, hl⟩ := hp.layout
  have hl' : left.kernel.paging.Layout (programMemory slot) vidmap :=
    hpaging ▸ hl.syscallHelper slot
  have hmapped : ∀ mem dir, left.kernel.paging.Holds mem dir → ∀ s ∈ left.stores,
      ∃ m, walk mem dir s.1 = some m ∧ InProgramPage slot m.addr :=
    fun mem dir hm s hs => walk_program_page hl' (Kernel.freeSlot_eq_some hslot).1 hm (hin s hs)
  -- every store is mapped to the page of the slot, so no address elsewhere changes
  refine ⟨hstores, hin, hmapped, fun mem dir hm memory a ha => applyStores_of_ne fun s hs he => ?_⟩
  obtain ⟨s', hs', hs⟩ := List.mem_filterMap.mp hs
  obtain ⟨m, hwalk, hpage⟩ := hmapped mem dir hm s' hs'
  rw [hwalk, Option.map_some, Option.some_inj] at hs
  subst hs
  obtain rfl : m.addr = a := he
  rcases ha with hlow | ⟨q, -, hne, hq⟩
  · exact absurd hpage.kernel_le (Nat.not_le.mpr hlow)
  · exact hne (inProgramPage_unique hpage hq)

end load

/-- The first shell of the sample image is loaded within its page. -/
theorem sampleImage_loads_in_page : ∃ d left,
    syscallExecute sampleImage sampleJunk sampleFrame shellCommand (initTerminal samplePowerOn) =
      .ok left ∧ LoadsInPage sampleImage d 0 left := by
  have htarget : commandTarget sampleImage sampleJunk shellCommand =
      .ok (some (sampleImage.dentries 1)) := by
    refine (commandTarget_eq_some sampleImage_wellFormed).mpr
      ⟨by decide, .inl (by decide), ⟨1, by decide, sampleImage_shell_slot, rfl⟩, ?_, ?_, ?_⟩
    · decide +kernel
    · decide +kernel
    · intro n
      decide +revert +kernel
  have hslot : (initTerminal samplePowerOn).freeSlot = some 0 := rfl
  obtain ⟨args, hexec⟩ := syscallExecute_of_freeSlot sampleFrame hslot htarget
  refine ⟨_, _, hexec, (loads_in_page_iff sampleImage_wellFormed ?_ hslot htarget hexec).mpr ?_⟩
  · exact .inl ⟨samplePowerOn, rfl⟩
  · decide +kernel

/-! ### A program that is too long -/

def largeImage : Image where
  mem := fun x =>
    if 8196 ≤ x ∧ x < 12288 then 0
    else if x = 8192 then 0x01 else if x = 8193 then 0x80 else if x = 8194 then 0x3B
    else sampleImage.mem x

theorem largeImage_table {x : Nat} (hlo : 8196 ≤ x) (hhi : x < 12288) :
    largeImage.byte x = 0 := by
  have hx : x % 4294967296 = x := by omega
  rw [Image.byte, hx]
  exact if_pos ⟨hlo, hhi⟩

theorem largeImage_wellFormed : largeImage.WellFormed where
  fits := by decide +kernel
  length_le := by decide +kernel
  block_lt := by
    intro k hk j hj
    have htotal : largeImage.totalInodes.toNat = 2 := by decide +kernel
    have hfirst : (largeImage.inodeLength 0).toNat = 0 := by decide +kernel
    have hsecond : (largeImage.inodeLength 1).toNat = programRoom + 1 := by decide +kernel
    have hblocks : largeImage.totalDatablock.toNat = 1 := by decide +kernel
    rw [htotal] at hk
    have hcases : k = 0 ∨ k = 1 := by omega
    rcases hcases with rfl | rfl
    · rw [hfirst] at hj
      exact absurd hj (Nat.not_lt_zero _)
    · rw [hsecond] at hj
      unfold programRoom block4KB at hj
      have hat : Image.inodeBlock 1 = 8192 := rfl
      have hzero : largeImage.dataBlock 1 j = 0 := by
        rw [Image.dataBlock, Image.word, hat, largeImage_table (by omega) (by omega),
          largeImage_table (by omega) (by omega), largeImage_table (by omega) (by omega),
          largeImage_table (by omega) (by omega)]
        rfl
      rw [hzero, hblocks]
      decide

theorem largeImage_shell_slot : FirstSlot largeImage (firstWord shellCommand) 1 := by
  refine ⟨by decide +kernel, fun j hj => ?_⟩
  obtain rfl : j = 0 := by omega
  decide +kernel

/-- The first shell of the large image is accepted, its last byte is meant for the address behind
the page, and no page is mapped there. -/
theorem large_program_leaves_page : largeImage.WellFormed ∧ ∃ d left,
    syscallExecute largeImage sampleJunk sampleFrame shellCommand (initTerminal samplePowerOn) =
      .ok left ∧ left.exit = .iret ∧ (∃ s ∈ left.stores, s.1 = userLocation + pageSize4MB) ∧
      (∀ mem dir, left.kernel.paging.Holds mem dir →
        walk mem dir (userLocation + pageSize4MB) = none) ∧ ¬LoadsInPage largeImage d 0 left := by
  have htarget : commandTarget largeImage sampleJunk shellCommand =
      .ok (some (largeImage.dentries 1)) := by
    refine (commandTarget_eq_some largeImage_wellFormed).mpr
      ⟨by decide, .inl (by decide), ⟨1, by decide, largeImage_shell_slot, rfl⟩, ?_, ?_, ?_⟩
    · decide +kernel
    · decide +kernel
    · intro n
      decide +revert +kernel
  have hslot : (initTerminal samplePowerOn).freeSlot = some 0 := rfl
  have hpaging : ReachedPaging largeImage (initTerminal samplePowerOn).paging :=
    .inl ⟨samplePowerOn, rfl⟩
  obtain ⟨args, hexec⟩ : ∃ args, syscallExecute largeImage sampleJunk sampleFrame shellCommand
      (initTerminal samplePowerOn) =
        .ok (((initTerminal samplePowerOn).prepared 0 args).enterProgram
          largeImage sampleJunk sampleFrame (largeImage.dentries 1)) :=
    syscallExecute_of_freeSlot sampleFrame hslot htarget
  obtain ⟨hstores, htables⟩ := execute_loads largeImage_wellFormed hslot htarget hexec
  have hinode : (largeImage.dentries 1).inode.toNat = 1 := by decide +kernel
  have hlength : (largeImage.inodeLength 1).toNat = programRoom + 1 := by decide +kernel
  -- the file is one byte longer than the room behind the load address
  have hlast : ∃ s ∈ (((initTerminal samplePowerOn).prepared 0 args).enterProgram
      largeImage sampleJunk sampleFrame (largeImage.dentries 1)).stores,
        s.1 = userLocation + pageSize4MB := by
    have hcontents : (largeImage.fileContents 1).length = programRoom + 1 := by
      rw [largeImage_wellFormed.fileContents_length (by decide +kernel), hlength]
    rw [hstores, hinode]
    exact ⟨_, mem_storesAt.mpr ⟨programRoom, by rw [hcontents]; omega, rfl⟩, rfl⟩
  refine ⟨largeImage_wellFormed, largeImage.dentries 1, _, hexec, rfl, hlast, fun mem dir hm => ?_,
    fun hin => ?_⟩
  · obtain ⟨program, vidmap, hl⟩ := hpaging.layout
    have hl' := hl.syscallHelper 0
    rw [← htables] at hl'
    exact hm.walk_absent (by decide) (hl'.absent 33 (by decide) (by decide) (by decide) (by decide)
      (by decide))
  · obtain ⟨s, hs, haddr⟩ := hlast
    have hlt := (hin.inPage s hs).2
    omega

end MyLinuxOS
