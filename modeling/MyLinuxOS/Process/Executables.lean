import MyLinuxOS.Files.Lookup
import MyLinuxOS.Files.ReadData
import MyLinuxOS.Process.Calls
import MyLinuxOS.Process.ParsingLimits

/-! Which files `execute` takes for programs. The magic number and the entry point are read into
buffers on the stack, and a read that is cut short by the end of the file leaves in them what was
there before. -/

namespace MyLinuxOS
open Foundation

def elfMagic : List UInt8 := [0x7F, 0x45, 0x4c, 0x46]

def fileWord (contents : List UInt8) (p : Nat) : UInt32 :=
  le32 (contents.getD p 0) (contents.getD (p + 1) 0) (contents.getD (p + 2) 0)
    (contents.getD (p + 3) 0)

section image
variable (img : Image)

def FirstSlot (name : List UInt8) (i : Nat) : Prop :=
  (img.dentries i).storedName = name ∧ ∀ j < i, (img.dentries j).storedName ≠ name

def GenuineStart (command : CString) (entryPoint : UInt32) : Prop :=
  ∃ i < img.totalDentries.toNat, FirstSlot img (firstWord command) i ∧
    28 ≤ (img.fileContents (img.dentries i).inode.toNat).length ∧
    (img.fileContents (img.dentries i).inode.toNat).take 4 = elfMagic ∧
    entryPoint = fileWord (img.fileContents (img.dentries i).inode.toNat) 24

variable (junk : StackBytes)

/-- No state of the kernel enters anything else for this command. -/
def StartsOnlyPrograms (command : CString) : Prop :=
  ∀ (frame : Frame) (k : Kernel) (left : Left),
    syscallExecute img junk frame command k = .ok left → left.exit = .iret →
      GenuineStart img command left.kernel.entryPoint

/-- What the check sees of a file: the first four bytes, or as many as there are and behind them
what the buffer held before. -/
def LooksExecutable (inode : UInt32) : Prop :=
  ∀ n : Fin 4, overBuffer ((img.fileContents inode.toNat).take 4) junk.buffer n =
    elfMagic.getD n 0

/-- A name of 32 bytes fills its buffer, and ends with it only if a NUL comes next. -/
def NameEnds (command : CString) : Prop :=
  (firstWord command).length < 32 ∨
    (firstWord command).length = 32 ∧ junk.afterName.takeWhile (· ≠ 0) = []

/-- If a command that can be parsed leads to a file that looks executable, then through a counted
entry, and the file is long enough to hold its entry point. -/
def LeadsToPrograms (command : CString) : Prop :=
  command.strlen ≤ 255 → NameEnds junk command →
    ∀ i < bootSize, FirstSlot img (firstWord command) i →
      0 < (img.dentries i).inode → (img.dentries i).inode < img.totalInodes →
        LooksExecutable img junk (img.dentries i).inode →
          i < img.totalDentries.toNat ∧ 28 ≤ (img.inodeLength (img.dentries i).inode.toNat).toNat

end image

/-! ### The name that is looked up -/

section name
variable {command : CString} {junk : StackBytes} {exeName : Fin 32 → UInt8}

theorem ofFn_exeName (hword : (firstWord command).length ≤ 32)
    (hname : ∀ n : Fin 32, exeName n = (firstWord command).getD n 0) :
    List.ofFn exeName =
      firstWord command ++ List.replicate (32 - (firstWord command).length) 0 := by
  refine List.ext_getElem ?_ fun n h₁ h₂ => ?_
  · rw [List.length_ofFn, List.length_append, List.length_replicate]
    omega
  · rw [List.getElem_ofFn, hname]
    by_cases hn : n < (firstWord command).length
    · rw [List.getD_eq_getElem _ _ hn, List.getElem_append_left hn]
    · rw [List.getD_eq_default _ _ (Nat.not_lt.mp hn), List.getElem_append_right (Nat.not_lt.mp hn),
        List.getElem_replicate]

theorem firstWord_takeWhile (l : List UInt8) : (firstWord command ++ l).takeWhile (· ≠ 0) =
    firstWord command ++ l.takeWhile (· ≠ 0) := by
  refine List.takeWhile_append_of_pos fun c hc => ?_
  simpa using (firstWord_plain command hc).2.1

theorem lookup_name (hends : NameEnds junk command)
    (hname : ∀ n : Fin 32, exeName n = (firstWord command).getD n 0) :
    (CString.ofBuffer (List.ofFn exeName ++ junk.afterName)).bytes = firstWord command := by
  have hbytes : (CString.ofBuffer (List.ofFn exeName ++ junk.afterName)).bytes =
      (List.ofFn exeName ++ junk.afterName).takeWhile (· ≠ 0) := rfl
  rcases hends with hlt | ⟨hfull, hnul⟩
  · obtain ⟨m, hm⟩ : ∃ m, 32 - (firstWord command).length = m + 1 :=
      ⟨31 - (firstWord command).length, by omega⟩
    rw [hbytes, ofFn_exeName (by omega) hname, hm, List.append_assoc, firstWord_takeWhile,
      List.replicate_succ, List.cons_append, List.takeWhile_cons_of_neg (by simp), List.append_nil]
  · rw [hbytes, ofFn_exeName (by omega) hname, hfull, Nat.sub_self, List.replicate_zero,
      List.append_nil, firstWord_takeWhile, hnul, List.append_nil]

theorem lookup_name_long (hword : (firstWord command).length ≤ 32) (hends : ¬NameEnds junk command)
    (hname : ∀ n : Fin 32, exeName n = (firstWord command).getD n 0) :
    32 < (CString.ofBuffer (List.ofFn exeName ++ junk.afterName)).bytes.length := by
  have hbytes : (CString.ofBuffer (List.ofFn exeName ++ junk.afterName)).bytes =
      (List.ofFn exeName ++ junk.afterName).takeWhile (· ≠ 0) := rfl
  obtain ⟨hlt, hnul⟩ := not_or.mp hends
  have hfull : (firstWord command).length = 32 := by omega
  have hpos : 0 < (junk.afterName.takeWhile (· ≠ 0)).length :=
    List.length_pos_of_ne_nil fun hnil => hnul ⟨hfull, hnil⟩
  rw [hbytes, ofFn_exeName hword hname, hfull, Nat.sub_self, List.replicate_zero, List.append_nil,
    firstWord_takeWhile, List.length_append]
  omega

end name

/-! ### The file that is found -/

section target
variable {img : Image} {junk : StackBytes} {command : CString} {d : Dentry}

theorem readData_eq_some (h : img.WellFormed) {inode offset length : UInt32} {bytes : List UInt8}
    (hlen : length ≠ 0) : readData img inode offset stackBuffer length = some bytes ↔
      0 < inode ∧ inode < img.totalInodes ∧
        bytes = ((img.fileContents inode.toNat).drop offset.toNat).take length.toNat := by
  have hbuf : stackBuffer ≠ 0 := by decide
  by_cases hargs : inode = 0 ∨ inode ≥ img.totalInodes
  · have hnone : readData img inode offset stackBuffer length = none := by
      rw [readData, if_neg hlen, if_pos]
      tauto
    rw [hnone]
    refine iff_of_false (by simp) ?_
    rintro ⟨hpos, hlt, -⟩
    rcases hargs with rfl | hge
    · exact absurd hpos (UInt32.lt_irrefl 0)
    · exact absurd hlt (UInt32.not_lt.mpr hge)
  · obtain ⟨h0, hi⟩ := not_or.mp hargs
    have hlt := UInt32.not_le.mp hi
    have hpos : 0 < inode := by
      rw [UInt32.lt_iff_toNat_lt]
      exact toNat_pos h0
    rw [readData_eq h h0 hbuf hlt, Option.some_inj, and_iff_right hpos, and_iff_right hlt, eq_comm]

theorem looksExecutable_iff {inode : UInt32} : LooksExecutable img junk inode ↔
    ¬(overBuffer ((img.fileContents inode.toNat).take 4) junk.buffer 0 ≠ 0x7F ∨
      overBuffer ((img.fileContents inode.toNat).take 4) junk.buffer 1 ≠ 0x45 ∨
      overBuffer ((img.fileContents inode.toNat).take 4) junk.buffer 2 ≠ 0x4c ∨
      overBuffer ((img.fileContents inode.toNat).take 4) junk.buffer 3 ≠ 0x46) := by
  simp only [not_or, not_not]
  constructor
  · intro h
    exact ⟨h 0, h 1, h 2, h 3⟩
  · rintro ⟨h0, h1, h2, h3⟩ n
    have hcases : n = 0 ∨ n = 1 ∨ n = 2 ∨ n = 3 := by omega
    rcases hcases with rfl | rfl | rfl | rfl
    · exact h0
    · exact h1
    · exact h2
    · exact h3

theorem findExecutable_eq_some (h : img.WellFormed) {exeName : Fin 32 → UInt8} :
    findExecutable img junk exeName = some d ↔
      readDentryByName img (some (.ofBuffer (List.ofFn exeName ++ junk.afterName))) = some d ∧
        0 < d.inode ∧ d.inode < img.totalInodes ∧ LooksExecutable img junk d.inode := by
  rw [findExecutable]
  cases hlookup : readDentryByName img (some (.ofBuffer (List.ofFn exeName ++ junk.afterName))) with
  | none => exact iff_of_false (by simp) (by simp)
  | some e =>
    simp only [Option.some_inj]
    cases hread : readData img e.inode 0 stackBuffer 4 with
    | none =>
      refine iff_of_false (by simp) ?_
      rintro ⟨rfl, hpos, hlt, -⟩
      have hsome : readData img e.inode 0 stackBuffer 4 = some _ :=
        (readData_eq_some h (by decide)).mpr ⟨hpos, hlt, rfl⟩
      rw [hread] at hsome
      exact absurd hsome (by simp)
    | some bytes =>
      obtain ⟨hpos, hlt, hbytes⟩ := (readData_eq_some h (by decide)).mp hread
      have hfour : bytes = (img.fileContents e.inode.toNat).take 4 := hbytes
      subst hfour
      dsimp only
      have hlooks : LooksExecutable img junk e.inode ↔ _ := looksExecutable_iff
      by_cases hlook : LooksExecutable img junk e.inode
      · rw [if_neg (hlooks.mp hlook), Option.some_inj]
        constructor
        · rintro rfl
          exact ⟨rfl, hpos, hlt, hlook⟩
        · exact And.left
      · rw [if_pos (not_not.mp (mt hlooks.mpr hlook))]
        refine iff_of_false (by simp) ?_
        rintro ⟨rfl, -, -, hlook'⟩
        exact hlook hlook'

theorem commandTarget_eq_some (h : img.WellFormed) :
    commandTarget img junk command = .ok (some d) ↔
      command.strlen ≤ 255 ∧ NameEnds junk command ∧
        (∃ i < bootSize, FirstSlot img (firstWord command) i ∧ img.dentries i = d) ∧
          0 < d.inode ∧ d.inode < img.totalInodes ∧ LooksExecutable img junk d.inode := by
  by_cases hparses : command.strlen ≤ 255 ∧ (firstWord command).length ≤ 32
  · obtain ⟨hlen, hword⟩ := hparses
    obtain ⟨parsed, hparse, hname, -⟩ := parseCommand_eq hlen hword fun _ => 0
    rw [commandTarget_of_parse img junk hparse, Except.ok.injEq, findExecutable_eq_some h,
      readDentryByName_eq_some, and_iff_right hlen]
    simp only [denPtr_eq_dentries]
    by_cases hends : NameEnds junk command
    · rw [and_iff_right hends, lookup_name hends hname]
      simp only [FirstSlot, and_assoc]
    · have hlong := lookup_name_long hword hends hname
      refine iff_of_false ?_ fun hnot => hends hnot.1
      rintro ⟨⟨i, -, hstored, -⟩, -⟩
      have hle := storedName_length_le (img.dentries i)
      rw [hstored] at hle
      exact absurd hle (Nat.not_le.mpr hlong)
  · refine iff_of_false (fun htarget => ?_) fun hnot => hparses ⟨hnot.1, ?_⟩
    · obtain ⟨parsed, hparse⟩ := parse_of_commandTarget htarget fun _ => 0
      exact hparses ⟨counted_of_parse hparse, name_le_of_parse hparse⟩
    · rcases hnot.2.1 with hlt | ⟨hfull, -⟩
      · exact Nat.le_of_lt hlt
      · exact Nat.le_of_eq hfull

theorem LooksExecutable.take_eq {inode : UInt32} (h : LooksExecutable img junk inode)
    (hlen : 28 ≤ (img.fileContents inode.toNat).length) :
    (img.fileContents inode.toNat).take 4 = elfMagic := by
  have hfour : ((img.fileContents inode.toNat).take 4).length = 4 := by
    rw [List.length_take]
    omega
  refine List.ext_getElem hfour fun n h₁ h₂ => ?_
  have hn : n < 4 := by rwa [hfour] at h₁
  have hat := h ⟨n, hn⟩
  rw [overBuffer, List.getD_eq_getElem _ _ h₁, List.getD_eq_getElem _ _ h₂] at hat
  exact hat

theorem entryPoint_eq (h : img.WellFormed) (frame : Frame) (k : Kernel) (hpos : 0 < d.inode)
    (hlt : d.inode < img.totalInodes) (hlen : 28 ≤ (img.fileContents d.inode.toNat).length) :
    (k.enterProgram img junk frame d).kernel.entryPoint =
      fileWord (img.fileContents d.inode.toNat) 24 := by
  have hread : readData img d.inode execStart stackBuffer 4 =
      some (((img.fileContents d.inode.toNat).drop 24).take 4) :=
    (readData_eq_some h (by decide)).mpr ⟨hpos, hlt, rfl⟩
  have hbyte : ∀ n : Fin 4, overBuffer (((img.fileContents d.inode.toNat).drop 24).take 4)
      junk.execBuffer n = (img.fileContents d.inode.toNat).getD (24 + n) 0 := by
    intro n
    have hin : (n : Nat) < (((img.fileContents d.inode.toNat).drop 24).take 4).length := by
      rw [List.length_take, List.length_drop]
      omega
    rw [overBuffer, List.getD_eq_getElem _ _ hin, List.getElem_take, List.getElem_drop,
      List.getD_eq_getElem _ _ (by omega)]
  have hentry : (k.enterProgram img junk frame d).kernel.entryPoint =
      le32 (overBuffer ((readData img d.inode execStart stackBuffer 4).getD []) junk.execBuffer 0)
        (overBuffer ((readData img d.inode execStart stackBuffer 4).getD []) junk.execBuffer 1)
        (overBuffer ((readData img d.inode execStart stackBuffer 4).getD []) junk.execBuffer 2)
        (overBuffer ((readData img d.inode execStart stackBuffer 4).getD []) junk.execBuffer 3) :=
    rfl
  rw [hentry, hread, Option.getD_some, hbyte, hbyte, hbyte, hbyte]
  rfl

end target

/-! ### What is entered -/

section entered
variable {img : Image} {junk : StackBytes} {command : CString}

theorem FirstSlot.unique {name : List UInt8} {i j : Nat} (hi : FirstSlot img name i)
    (hj : FirstSlot img name j) : i = j := by
  rcases Nat.lt_trichotomy i j with h | h | h
  · exact absurd hi.1 (hj.2 i h)
  · exact h
  · exact absurd hj.1 (hi.2 j h)

/-- Only programs are started if and only if every file that looks executable, with the help of
what the stack holds, is long enough for its entry point and found through a counted entry. -/
theorem starts_only_programs_iff (h : img.WellFormed) :
    StartsOnlyPrograms img junk command ↔ LeadsToPrograms img junk command := by
  have hlength : ∀ {inode : UInt32}, inode < img.totalInodes →
      (img.fileContents inode.toNat).length = (img.inodeLength inode.toNat).toNat :=
    fun hlt => h.fileContents_length (UInt32.lt_iff_toNat_lt.mp hlt)
  constructor
  · intro hgenuine hlen hends i hi hslot hpos hlt hlooks
    have htarget : commandTarget img junk command = .ok (some (img.dentries i)) :=
      (commandTarget_eq_some h).mpr ⟨hlen, hends, ⟨i, hi, hslot, rfl⟩, hpos, hlt, hlooks⟩
    obtain ⟨args, hexec⟩ := syscallExecute_of_freeSlot sampleFrame
      (show (initTerminal samplePowerOn).freeSlot = some 0 from rfl) htarget
    obtain ⟨j, hj, hslot', hlong, -⟩ := hgenuine _ _ _ hexec rfl
    obtain rfl := hslot.unique hslot'
    rw [hlength hlt] at hlong
    exact ⟨hj, hlong⟩
  · intro hleads frame k left hexec hexit
    obtain ⟨slot, args, d, -, htarget, rfl⟩ := syscallExecute_entered hexec hexit
    obtain ⟨hlen, hends, ⟨i, hi, hslot, rfl⟩, hpos, hlt, hlooks⟩ :=
      (commandTarget_eq_some h).mp htarget
    obtain ⟨hcounted, hlong⟩ := hleads hlen hends i hi hslot hpos hlt hlooks
    rw [← hlength hlt] at hlong
    exact ⟨i, hcounted, hslot, hlong, hlooks.take_eq hlong,
      entryPoint_eq h frame _ hpos hlt hlong⟩

end entered

/-! ### Two images -/

theorem sampleImage_shell_slot : FirstSlot sampleImage (firstWord shellCommand) 1 := by
  refine ⟨by decide +kernel, fun j hj => ?_⟩
  obtain rfl : j = 0 := by omega
  decide +kernel

theorem sampleImage_starts_only_programs :
    StartsOnlyPrograms sampleImage sampleJunk shellCommand := by
  refine (starts_only_programs_iff sampleImage_wellFormed).mpr fun _ _ i _ hslot _ _ _ => ?_
  obtain rfl := hslot.unique sampleImage_shell_slot
  exact ⟨by decide +kernel, by decide +kernel⟩

def emptyImage : Image where
  mem := fun x => if x = 8192 then 0 else sampleImage.mem x

theorem emptyImage_lengths : ∀ k < emptyImage.totalInodes.toNat,
    (emptyImage.inodeLength k).toNat = 0 := by decide +kernel

theorem emptyImage_wellFormed : emptyImage.WellFormed where
  fits := by decide +kernel
  length_le := by
    intro k hk
    rw [emptyImage_lengths k hk]
    exact Nat.zero_le _
  block_lt := by
    intro k hk j hj
    rw [emptyImage_lengths k hk] at hj
    exact absurd hj (Nat.not_lt_zero _)

theorem emptyImage_shell_slot : FirstSlot emptyImage (firstWord shellCommand) 1 := by
  refine ⟨by decide +kernel, fun j hj => ?_⟩
  obtain rfl : j = 0 := by omega
  decide +kernel

/-- A stack on which the magic number was left by the check of another file. -/
def staleJunk : StackBytes := ⟨[], fun n => elfMagic.getD n 0, fun _ => 0x41, 0⟩

/-- The empty file passes the check and is entered, at an address from the stack. -/
theorem empty_file_is_entered : emptyImage.WellFormed ∧
    (∃ left, syscallExecute emptyImage staleJunk sampleFrame shellCommand
      (initTerminal samplePowerOn) = .ok left ∧ left.exit = .iret ∧
        left.kernel.entryPoint = 0x41414141) ∧
    ¬StartsOnlyPrograms emptyImage staleJunk shellCommand := by
  have hinode : (emptyImage.dentries 1).inode = 1 := by decide +kernel
  have hlt : (1 : UInt32) < emptyImage.totalInodes := by decide +kernel
  have hempty : emptyImage.fileContents (1 : UInt32).toNat = [] := by
    apply List.eq_nil_of_length_eq_zero
    rw [emptyImage_wellFormed.fileContents_length (UInt32.lt_iff_toNat_lt.mp hlt)]
    exact emptyImage_lengths _ (UInt32.lt_iff_toNat_lt.mp hlt)
  have htarget : commandTarget emptyImage staleJunk shellCommand =
      .ok (some (emptyImage.dentries 1)) := by
    refine (commandTarget_eq_some emptyImage_wellFormed).mpr
      ⟨by decide, .inl (by decide), ⟨1, by decide, emptyImage_shell_slot, rfl⟩, ?_, ?_, ?_⟩
    · rw [hinode]
      decide
    · rwa [hinode]
    · intro n
      rw [hinode, hempty]
      rfl
  obtain ⟨args, hexec⟩ := syscallExecute_of_freeSlot sampleFrame
    (show (initTerminal samplePowerOn).freeSlot = some 0 from rfl) htarget
  refine ⟨emptyImage_wellFormed, ⟨_, hexec, rfl, ?_⟩, fun hgenuine => ?_⟩
  · have hread : readData emptyImage (emptyImage.dentries 1).inode execStart stackBuffer 4 =
        some [] := by
      rw [hinode]
      refine (readData_eq_some emptyImage_wellFormed (by decide)).mpr ⟨by decide, hlt, ?_⟩
      rw [hempty]
      rfl
    simp only [Kernel.enterProgram, hread]
    rfl
  · obtain ⟨i, -, hslot, hlong, -⟩ := hgenuine _ _ _ hexec rfl
    obtain rfl := hslot.unique emptyImage_shell_slot
    rw [hinode, hempty] at hlong
    exact absurd hlong (by decide)

end MyLinuxOS
