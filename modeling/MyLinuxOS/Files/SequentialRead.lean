import MyLinuxOS.Files.ReadData
import MyLinuxOS.Files.FdTable

/-! Reading a file piece by piece. Whatever the sizes of the pieces and whatever happens to other
descriptors between them, the bytes returned are the contents of the file from the start on, and at
the end of the file a read returns 0 and leaves the kernel as it was. -/

namespace MyLinuxOS
open Foundation

def FileAt (k : Kernel) (fd : Int32) (inode : UInt32) (pos : Nat) : Prop :=
  ∃ i : Nat, fd.toInt = i ∧ i < 8 ∧
    k.currPcb.fdEntry i = ⟨.table .file, inode, UInt32.ofNat pos, 1⟩

/-- A call that leaves the position of a descriptor to its own reads of non-negative size. -/
def FileCall.Allowed (fd : Int32) : FileCall → Prop
  | .openName _ | .interrupt _ => True
  | .closeFd fd' => fd' ≠ fd
  | .readFd fd' buf nbytes _ => fd' = fd → buf ≠ 0 ∧ 0 ≤ nbytes

def requested (fd : Int32) : List FileCall → Nat
  | [] => 0
  | .readFd fd' _ nbytes _ :: cs =>
    if fd' = fd then nbytes.toInt.toNat + requested fd cs else requested fd cs
  | .openName _ :: cs | .closeFd _ :: cs | .interrupt _ :: cs => requested fd cs

def readBytes (fd : Int32) : List FileCall → List (Int × List Store) → List UInt8
  | .readFd fd' _ _ _ :: cs, o :: os =>
    if fd' = fd then o.2.map Prod.snd ++ readBytes fd cs os else readBytes fd cs os
  | .openName _ :: cs, _ :: os | .closeFd _ :: cs, _ :: os | .interrupt _ :: cs, _ :: os =>
    readBytes fd cs os
  | [], _ | _ :: _, [] => []

theorem toUInt32_toNat {n : Int32} (h : 0 ≤ n) : n.toUInt32.toNat = n.toInt.toNat := by
  have hpos : 0 ≤ n.toInt := Int32.le_iff_toInt_le.mp h
  have hmod : n.toInt = Int.bmod n.toUInt32.toNat (2 ^ 32) := n.toBitVec.toInt_eq_toNat_bmod
  have hlt := n.toUInt32.toNat_lt
  rw [Int.bmod_def] at hmod
  split at hmod <;> omega

theorem FileAt.read {img : Image} (hwf : img.WellFormed) {k : Kernel} {fd : Int32} {inode : UInt32}
    {pos : Nat} (h0 : inode ≠ 0) (hN : inode < img.totalInodes) (h : FileAt k fd inode pos)
    (hpos : pos ≤ (img.fileContents inode.toNat).length) (junk : StackBytes) {buf : UInt32}
    {nbytes : Int32} (hb : buf ≠ 0) (hn : 0 ≤ nbytes) {bytes : List UInt8}
    (hbytes : bytes = ((img.fileContents inode.toNat).drop pos).take nbytes.toInt.toNat) :
    ∃ k', syscallRead img junk fd buf nbytes k = .ok ⟨.ret bytes.length, k', storesAt buf bytes⟩ ∧
      FileAt k' fd inode (pos + bytes.length) ∧ (bytes = [] → k' = k) := by
  obtain ⟨i, hfd, h8, hentry⟩ := h
  have hlt : pos < 4294967296 := by
    rw [hwf.fileContents_length (UInt32.lt_iff_toNat_lt.mp hN)] at hpos
    exact Nat.lt_of_le_of_lt hpos (UInt32.toNat_lt _)
  have hdata : readData img inode (UInt32.ofNat pos) buf nbytes.toUInt32 = some bytes := by
    rw [readData_eq hwf h0 hb hN, toUInt32_toNat hn, UInt32.toNat_ofNat_of_lt' hlt, hbytes]
  let e : FileDescriptor := ⟨.table .file, inode, UInt32.ofNat pos + UInt32.ofNat bytes.length, 1⟩
  have hfile : fileRead img i buf nbytes k =
      .ok ⟨.ret bytes.length, k.setFd i e, storesAt buf bytes⟩ := by
    rw [fileRead_eq hb hn h8 (by rw [hentry]; exact hdata), hentry]
  refine ⟨k.setFd i e, ?_, ⟨i, hfd, h8, ?_⟩, ?_⟩
  · exact (syscallRead_eq img junk nbytes hb (dispatch_of_entry hfd h8 hentry) rfl).trans hfile
  · rw [Kernel.setFd_entry_self h8, UInt32.ofNat_add]
  · intro hnil
    have hsame : e = k.currPcb.fdEntry i := by
      have hzero : UInt32.ofNat 0 = 0 := rfl
      rw [hentry]
      simp only [e, hnil, List.length_nil, hzero, UInt32.add_zero]
    rw [hsame, Kernel.setFd_entry h8]

theorem FileAt.of_open {img : Image} {k k' : Kernel} {name : CString} {d : Dentry}
    {o : Int × List Store} {fd : Int32} (hd : readDentryByName img (some name) = some d)
    (htype : d.type = 2) (hstep : fileCalls img k (.openName name) = some (o, k'))
    (hok : o.1 ≠ -1) (hfd : fd.toInt = o.1) : FileAt k' fd d.inode 0 := by
  rcases syscallOpen_cases (fileCalls_eq_some.mp hstep) with ⟨-, he⟩ |
    ⟨d', i, -, hd', ⟨-, h8, -, -⟩, he⟩
  · exact absurd (Exit.ret.inj (congrArg Left.exit he)) hok
  · obtain rfl := Option.some.inj (hd.symm.trans hd')
    obtain ⟨hr, rfl, -⟩ := Left.mk.inj he
    refine ⟨i, hfd.trans (Exit.ret.inj hr), h8, ?_⟩
    rw [Kernel.setFd_entry_self h8, opsTableFor_eq (by rw [htype]; decide), htype]
    rfl

theorem take_add_piece (l : List UInt8) (n m : Nat) :
    l.take n ++ (l.drop (l.take n).length).take m = l.take (n + m) := by
  rw [List.take_add]
  rcases Nat.le_total n l.length with h | h
  · rw [List.length_take_of_le h]
  · have hnone : l.drop n = [] := List.drop_eq_nil_of_le h
    rw [List.take_of_length_le h, List.drop_length, hnone]

theorem FileAt.run {img : Image} (hwf : img.WellFormed) {fd : Int32} {inode : UInt32}
    (h0 : inode ≠ 0) (hN : inode < img.totalInodes) {calls : List FileCall} {k k' : Kernel}
    {pos : Nat} {answers : List (Int × List Store)} (h : FileAt k fd inode pos)
    (hpos : pos ≤ (img.fileContents inode.toNat).length) (hcalls : ∀ c ∈ calls, c.Allowed fd)
    (hrun : (fileCalls img).run k calls = some (answers, k')) :
    readBytes fd calls answers =
        ((img.fileContents inode.toNat).drop pos).take (requested fd calls) ∧
      FileAt k' fd inode (pos + (readBytes fd calls answers).length) := by
  induction calls generalizing k pos answers with
  | nil =>
    cases hrun
    exact ⟨rfl, h⟩
  | cons c cs ih =>
    obtain ⟨o, k₁, os, hstep, hrest, rfl⟩ := Machine.run_cons_eq_some.mp hrun
    have hc := hcalls c (List.mem_cons_self ..)
    have htail : ∀ c ∈ cs, c.Allowed fd := fun c hmem => hcalls c (List.mem_cons_of_mem _ hmem)
    -- a call on another descriptor leaves the position where it is
    have other : ∀ i : Nat, fd.toInt = i → c.Spares i → FileAt k₁ fd inode pos := by
      intro i hi hspare
      obtain ⟨i', hi', h8, hentry⟩ := h
      obtain rfl : i = i' := by omega
      have hopen : (k.currPcb.fdEntry i).flags ≠ 0 := by
        rw [hentry]; exact (by decide : (1 : UInt32) ≠ 0)
      exact ⟨i, hi, h8, (hspare.entry hopen hstep).trans hentry⟩
    obtain ⟨i, hi, -⟩ := id h
    cases c with
    | openName name => exact ih (other i hi trivial) hpos htail hrest
    | interrupt dev => exact ih (other i hi trivial) hpos htail hrest
    | closeFd fd' =>
      have hne : fd'.toInt ≠ i := fun he => hc (Int32.toInt_inj.mp (he.trans hi.symm))
      exact ih (other i hi hne) hpos htail hrest
    | readFd fd' buf nbytes junk =>
      by_cases hfd : fd' = fd
      · obtain ⟨hb, hn⟩ := hc hfd
        subst hfd
        obtain ⟨k₂, hread, hat, -⟩ := h.read hwf h0 hN hpos junk hb hn rfl
        have hanswer := (fileCalls_eq_some.mp hstep).symm.trans hread
        obtain ⟨-, rfl, hstores⟩ := Left.mk.inj (Except.ok.inj hanswer)
        have hlen : pos + (((img.fileContents inode.toNat).drop pos).take nbytes.toInt.toNat).length
            ≤ (img.fileContents inode.toNat).length := by
          rw [List.length_take, List.length_drop]
          omega
        obtain ⟨hbytes, hend⟩ := ih hat hlen htail hrest
        simp only [readBytes, requested, if_pos, hstores, storesAt_snd]
        constructor
        · rw [hbytes, ← List.drop_drop, take_add_piece]
        · rw [List.length_append, ← Nat.add_assoc]
          exact hend
      · have hne : fd'.toInt ≠ i := fun he => hfd (Int32.toInt_inj.mp (he.trans hi.symm))
        simp only [readBytes, requested, if_neg hfd]
        exact ih (other i hi hne) hpos htail hrest

/-- After any run, the bytes read are the first ones of the file, and the next read returns what is
left of it up to its size. All buffers lie in the page of the program. -/
theorem sequential_reads {img : Image} (hwf : img.WellFormed) {k k' : Kernel} {fd : Int32}
    {inode : UInt32} (h0 : 0 < inode) (hN : inode < img.totalInodes) (hfresh : FileAt k fd inode 0)
    {calls : List FileCall} {answers : List (Int × List Store)}
    (hcalls : ∀ c ∈ calls, c.Allowed fd)
    (hrun : (fileCalls img).run k calls = some (answers, k')) :
    readBytes fd calls answers = (img.fileContents inode.toNat).take (requested fd calls) ∧
      ∀ (junk : StackBytes) (buf : UInt32) (nbytes : Int32), buf ≠ 0 → 0 ≤ nbytes →
        ∃ k'' bytes,
          syscallRead img junk fd buf nbytes k' =
            .ok ⟨.ret bytes.length, k'', storesAt buf bytes⟩ ∧
          bytes = ((img.fileContents inode.toNat).drop (requested fd calls)).take
            nbytes.toInt.toNat ∧
          bytes.length = min nbytes.toInt.toNat
            ((img.inodeLength inode.toNat).toNat - requested fd calls) ∧
          ((img.inodeLength inode.toNat).toNat ≤ requested fd calls → bytes = [] ∧ k'' = k') := by
  have hne : inode ≠ 0 := by
    rintro rfl
    exact absurd h0 (by decide)
  have hfile := hwf.fileContents_length (UInt32.lt_iff_toNat_lt.mp hN)
  obtain ⟨hbytes, hat⟩ := hfresh.run hwf hne hN (Nat.zero_le _) hcalls hrun
  rw [List.drop_zero] at hbytes
  refine ⟨hbytes, fun junk buf nbytes hb hn => ?_⟩
  rw [hbytes, Nat.zero_add] at hat
  have hpiece := take_add_piece (img.fileContents inode.toNat) (requested fd calls)
    nbytes.toInt.toNat
  rw [List.take_add] at hpiece
  have hsame := List.append_cancel_left hpiece
  obtain ⟨k'', hread, -, hidle⟩ :=
    hat.read hwf hne hN (List.length_take_le' ..) junk hb hn hsame.symm
  refine ⟨k'', _, hread, rfl, ?_, fun hend => ?_⟩
  · rw [List.length_take, List.length_drop, hfile]
  · have hnil : ((img.fileContents inode.toNat).drop (requested fd calls)).take
        nbytes.toInt.toNat = [] := by
      rw [List.drop_eq_nil_of_le (hfile.le.trans hend), List.take_nil]
    exact ⟨hnil, hidle hnil⟩

/-- The shell that has just booted opens the 28 bytes of its own program file: after 16 of them, a
read of 16 returns the other 12. -/
theorem sample_file_ends_after_28 : ∃ k₀ k k' answers, Boots sampleImage k₀ ∧
    syscallOpen sampleImage (some shellCommand) k₀ = .ok ⟨.ret 2, k, []⟩ ∧
    (fileCalls sampleImage).run k [.readFd 2 0x8050000 16 sampleJunk] = some (answers, k') ∧
    ∃ k'' bytes, syscallRead sampleImage sampleJunk 2 0x8050000 16 k' =
      .ok ⟨.ret bytes.length, k'', storesAt 0x8050000 bytes⟩ ∧ bytes.length = 12 := by
  have htype : (sampleImage.denPtr 1).type = 2 := by decide +kernel
  have hinode : (sampleImage.denPtr 1).inode = 1 := by decide +kernel
  obtain ⟨k₀, k, hboot, hopen, -⟩ := sampleImage_opens (by decide) sampleImage_shell
  have hstep : fileCalls sampleImage k₀ (.openName shellCommand) = some ((2, []), k) :=
    fileCalls_eq_some.mpr hopen
  have hfresh : FileAt k 2 1 0 := by
    rw [← hinode]
    exact FileAt.of_open sampleImage_shell htype hstep (by decide) rfl
  have hN : (1 : UInt32) < sampleImage.totalInodes := by decide +kernel
  have hfirst : ∃ r k' stores, syscallRead sampleImage sampleJunk 2 0x8050000 16 k =
      .ok ⟨.ret r, k', stores⟩ := by
    have hb : (0x8050000 : UInt32) ≠ 0 := by decide
    have hn : (0 : Int32) ≤ 16 := by decide
    obtain ⟨k', hread, -⟩ := hfresh.read sampleImage_wellFormed (by decide) hN (Nat.zero_le _)
      sampleJunk hb hn rfl
    exact ⟨_, k', _, hread⟩
  obtain ⟨r, k', stores, hread⟩ := hfirst
  have hrun : (fileCalls sampleImage).run k [.readFd 2 0x8050000 16 sampleJunk] =
      some ([(r, stores)], k') :=
    Machine.run_cons_eq_some.mpr ⟨(r, stores), k', [], fileCalls_eq_some.mpr hread, rfl, rfl⟩
  have hcalls : ∀ c ∈ [FileCall.readFd 2 0x8050000 16 sampleJunk], c.Allowed 2 := by
    intro c hc
    obtain rfl := List.mem_singleton.mp hc
    exact fun _ => ⟨by decide, by decide⟩
  obtain ⟨-, hnext⟩ := sequential_reads sampleImage_wellFormed (by decide) hN hfresh hcalls hrun
  obtain ⟨k'', bytes, hread', -, hlen, -⟩ := hnext sampleJunk 0x8050000 16 (by decide) (by decide)
  refine ⟨k₀, k, k', _, hboot, hopen, hrun, k'', bytes, hread', hlen.trans ?_⟩
  decide +kernel

end MyLinuxOS
