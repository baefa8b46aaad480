import MyLinuxOS.Files.SequentialRead

/-! Listing the directory. Reads return the names of the entries in order, but the bound of
`read_dentry_by_index` lets the index after the last entry through, and past it the reads fail
instead of staying at the end of the file. -/

namespace MyLinuxOS
open Foundation

structure ListingRead where
  buf : UInt32
  nbytes : Int32
  junk : StackBytes
  buf_ne : buf ≠ 0
  room : 32 ≤ nbytes

def ListingRead.call (fd : Int32) (r : ListingRead) : FileCall := .readFd fd r.buf r.nbytes r.junk

def Dentry.name (d : Dentry) : List UInt8 := (List.ofFn d.fileName).takeWhile (· ≠ 0)

def entryAnswer (img : Image) (i : Nat) (r : ListingRead) : Int × List Store :=
  ((img.dentries i).name.length, storesAt r.buf (List.ofFn (img.dentries i).fileName))

def listingAnswer (img : Image) (i : Nat) (r : ListingRead) : Int × List Store :=
  if i < img.totalDentries.toNat then entryAnswer img i r else (0, [])

/-- Reads of a freshly opened directory list its entries and then stay at the end. -/
def DirectoryListed (img : Image) (k : Kernel) (fd : Int32) : Prop :=
  ∀ (reads : List ListingRead) (answers : List (Int × List Store)) (k' : Kernel),
    (fileCalls img).run k (reads.map (ListingRead.call fd)) = some (answers, k') →
      answers = reads.mapIdx (listingAnswer img)

def dirAnswer (img : Image) (i : Nat) (r : ListingRead) : Int × List Store :=
  if i ≤ img.totalDentries.toNat then entryAnswer img i r else (-1, [])

def DirAt (k : Kernel) (fd : Int32) (inode : UInt32) (pos : Nat) : Prop :=
  ∃ i : Nat, fd.toInt = i ∧ i < 8 ∧ k.currPcb.fdEntry i = ⟨.table .dir, inode, UInt32.ofNat pos, 1⟩

theorem Dentry.nameLength_eq (d : Dentry) : d.nameLength = d.name.length := by
  have hlen : (List.ofFn d.fileName).length = 32 := List.length_ofFn
  have hle : d.name.length ≤ 32 := (List.takeWhile_prefix _).length_le.trans hlen.le
  have hbytes : (d.bytes.takeWhile (· ≠ 0)).length = d.name.length ∨
      d.name.length = 32 ∧ 32 ≤ (d.bytes.takeWhile (· ≠ 0)).length := by
    unfold Dentry.bytes Dentry.name
    rw [List.append_assoc, List.append_assoc, List.takeWhile_append]
    split
    · rename_i hfull
      exact .inr ⟨hfull.trans hlen, by rw [List.length_append, hlen]; exact Nat.le_add_right ..⟩
    · exact .inl rfl
  unfold Dentry.nameLength
  rcases hbytes with heq | ⟨hfull, hlong⟩
  · rw [heq]
    exact if_neg (Nat.not_lt.mpr hle)
  · rw [hfull]
    by_cases h : (d.bytes.takeWhile (· ≠ 0)).length > filenameMaxLength
    · exact if_pos h
    · exact (if_neg h).trans (Nat.le_antisymm (Nat.not_lt.mp h) hlong)

section
variable {img : Image} {fd : Int32} {inode : UInt32}

theorem DirAt.read {k : Kernel} {pos : Nat} (h : DirAt k fd inode pos) (hpos : pos < 4294967296)
    (r : ListingRead) : ∃ k',
      fileCalls img k (r.call fd) = some (dirAnswer img pos r, k') ∧
      DirAt k' fd inode (if pos ≤ img.totalDentries.toNat then pos + 1 else pos) := by
  obtain ⟨i, hfd, h8, hentry⟩ := id h
  have hread : (r.call fd).enter img k = dirRead img i r.buf k :=
    syscallRead_eq img r.junk r.nbytes r.buf_ne (dispatch_of_entry hfd h8 hentry) rfl
  have hnat : (UInt32.ofNat pos).toNat = pos := UInt32.toNat_ofNat_of_lt' hpos
  obtain ⟨v, k', stores, hdir⟩ := dirRead_ok img i r.buf k
  unfold dirAnswer
  rcases dirRead_cases hdir with ⟨hend, he⟩ | ⟨hin, he⟩
  · rw [hentry] at hend
    have hout : ¬ pos ≤ img.totalDentries.toNat := by
      have hlt := UInt32.lt_iff_toNat_lt.mp hend
      rw [hnat] at hlt
      omega
    rw [if_neg hout, if_neg hout]
    refine ⟨k, fileCalls_eq_some.mpr ?_, h⟩
    rw [hread, hdir, he]
  · rw [hentry] at hin he
    have hle : pos ≤ img.totalDentries.toNat := by
      have hle := UInt32.le_iff_toNat_le.mp hin
      rwa [hnat] at hle
    rw [hnat, Dentry.nameLength_eq] at he
    rw [if_pos hle, if_pos hle]
    obtain ⟨hr, hk, hs⟩ := Left.mk.inj he
    obtain rfl := Exit.ret.inj hr
    unfold entryAnswer
    refine ⟨k', fileCalls_eq_some.mpr ?_, i, hfd, h8, ?_⟩
    · rw [hread, hdir, hs]
    · rw [hk, Kernel.setFd_entry_self h8, UInt32.ofNat_add]
      rfl

theorem DirAt.run (reads : List ListingRead) {k : Kernel} {pos : Nat} (h : DirAt k fd inode pos)
    (htotal : img.totalDentries.toNat ≤ 63) (hpos : pos ≤ img.totalDentries.toNat + 1) :
    ∃ k', (fileCalls img).run k (reads.map (ListingRead.call fd)) =
      some (reads.mapIdx fun i r => dirAnswer img (pos + i) r, k') := by
  induction reads generalizing k pos with
  | nil => exact ⟨k, rfl⟩
  | cons r rs ih =>
    have hsmall : pos < 4294967296 := by omega
    obtain ⟨k₁, hstep, hat⟩ := h.read hsmall r
    rw [List.map_cons, List.mapIdx_cons, Nat.add_zero]
    by_cases hle : pos ≤ img.totalDentries.toNat
    · rw [if_pos hle] at hat
      obtain ⟨k', hrun⟩ := ih hat (by omega)
      refine ⟨k', Machine.run_cons_eq_some.mpr ⟨_, k₁, _, hstep, hrun, ?_⟩⟩
      simp only [Nat.add_assoc, Nat.add_comm 1]
    · -- past the last index the position stays where it is
      rw [if_neg hle] at hat
      obtain ⟨k', hrun⟩ := ih hat hpos
      refine ⟨k', Machine.run_cons_eq_some.mpr ⟨_, k₁, _, hstep, hrun, ?_⟩⟩
      have hfail : ∀ i, dirAnswer img (pos + i) = fun _ => (-1, []) := by
        intro i
        funext r
        exact if_neg (by omega)
      simp only [hfail]

theorem DirAt.listing {k : Kernel} (h : DirAt k fd inode 0) (htotal : img.totalDentries.toNat ≤ 63)
    (reads : List ListingRead) : ∃ k', (fileCalls img).run k (reads.map (ListingRead.call fd)) =
      some (reads.mapIdx (dirAnswer img), k') := by
  obtain ⟨k', hrun⟩ := DirAt.run reads h htotal (Nat.zero_le _)
  simp only [Nat.zero_add] at hrun
  exact ⟨k', hrun⟩

theorem not_listed_of_run {k k' : Kernel} {reads : List ListingRead}
    (hrun : (fileCalls img).run k (reads.map (ListingRead.call fd)) =
      some (reads.mapIdx (dirAnswer img), k'))
    (hlong : img.totalDentries.toNat + 1 < reads.length) : ¬ DirectoryListed img k fd := by
  intro hlisted
  have heq := congrArg (·[img.totalDentries.toNat + 1]?) (hlisted _ _ _ hrun)
  simp only [List.getElem?_mapIdx, List.getElem?_eq_getElem hlong, Option.map_some,
    Option.some_inj] at heq
  have hpast : ¬ img.totalDentries.toNat + 1 ≤ img.totalDentries.toNat := by omega
  have hend : ¬ img.totalDentries.toNat + 1 < img.totalDentries.toNat := by omega
  rw [dirAnswer, if_neg hpast, listingAnswer, if_neg hend] at heq
  exact absurd (congrArg Prod.fst heq) (by decide)

end

def sampleRead : ListingRead where
  buf := 0x8050000
  nbytes := 32
  junk := sampleJunk
  buf_ne := by decide
  room := by decide

/-- The reads up to the number of entries copy an entry, also the one after the last, and all later
ones fail. No directory is listed as it should be. -/
theorem directory_not_listed {img : Image} {k : Kernel} {fd : Int32} {inode : UInt32}
    (htotal : img.totalDentries.toNat ≤ 63) (h : DirAt k fd inode 0) :
    (∀ reads : List ListingRead, ∃ k',
      (fileCalls img).run k (reads.map (ListingRead.call fd)) =
        some (reads.mapIdx (dirAnswer img), k')) ∧
    ¬ DirectoryListed img k fd := by
  refine ⟨h.listing htotal, ?_⟩
  obtain ⟨k', hrun⟩ := h.listing htotal
    (List.replicate (img.totalDentries.toNat + 2) sampleRead)
  refine not_listed_of_run hrun ?_
  rw [List.length_replicate]
  exact Nat.lt_succ_self _

theorem sampleImage_totalDentries : sampleImage.totalDentries.toNat = 2 := by decide +kernel

theorem sampleImage_totalDentries_le : sampleImage.totalDentries.toNat ≤ 63 :=
  sampleImage_totalDentries.trans_le (by decide)

theorem sample_directory_not_listed : ∃ k₀ k, Boots sampleImage k₀ ∧
    syscallOpen sampleImage (some dotName) k₀ = .ok ⟨.ret 2, k, []⟩ ∧
    ¬ DirectoryListed sampleImage k 2 := by
  obtain ⟨k₀, k, hboot, hopen, hentry⟩ := sampleImage_opens_dir
  have hdir : DirAt k 2 0 0 := ⟨2, rfl, by decide, hentry⟩
  have htotal := sampleImage_totalDentries_le
  exact ⟨k₀, k, hboot, hopen, (directory_not_listed htotal hdir).2⟩

/-- On the two entries of the sample image, the third read of the booted shell copies an unused
entry and the fourth returns -1. -/
theorem fourth_directory_read_fails : sampleImage.WellFormed ∧
    sampleImage.totalDentries.toNat = 2 ∧ ∃ k₀ k k', Boots sampleImage k₀ ∧
      syscallOpen sampleImage (some dotName) k₀ = .ok ⟨.ret 2, k, []⟩ ∧
      (fileCalls sampleImage).run k (List.replicate 4 (sampleRead.call 2)) =
        some ([entryAnswer sampleImage 0 sampleRead, entryAnswer sampleImage 1 sampleRead,
          entryAnswer sampleImage 2 sampleRead, (-1, [])], k') ∧
      ¬ DirectoryListed sampleImage k 2 := by
  obtain ⟨k₀, k, hboot, hopen, hentry⟩ := sampleImage_opens_dir
  have hdir : DirAt k 2 0 0 := ⟨2, rfl, by decide, hentry⟩
  have htotal := sampleImage_totalDentries_le
  obtain ⟨k', hrun⟩ := hdir.listing htotal (List.replicate 4 sampleRead)
  have hnot : ¬ DirectoryListed sampleImage k 2 := by
    refine not_listed_of_run hrun ?_
    rw [sampleImage_totalDentries]
    decide
  have hanswers : (List.replicate 4 sampleRead).mapIdx (dirAnswer sampleImage) =
      [entryAnswer sampleImage 0 sampleRead, entryAnswer sampleImage 1 sampleRead,
        entryAnswer sampleImage 2 sampleRead, (-1, [])] := by
    simp [List.replicate, dirAnswer, sampleImage_totalDentries]
  rw [List.map_replicate, hanswers] at hrun
  exact ⟨sampleImage_wellFormed, sampleImage_totalDentries, k₀, k, k', hboot, hopen, hrun, hnot⟩

end MyLinuxOS
