import MyLinuxOS.Programs.World

/-! `cat` and `ls`: the programs that copy what a descriptor delivers to the terminal. -/

namespace MyLinuxOS
open Foundation

/-! ### The programs -/

/-- One turn of the loop that `ece391cat.c` and `ece391ls.c` share: `tail` is what the program puts
behind the bytes read before it writes them. -/
def copyTurn (fd : Int32) (buf : Address) (size : Int32) (tail : List UInt8) (failure : CString)
    (data : Buffer) : Program UserCall Answer (Buffer ⊕ Int) :=
  .call (.readFd fd buf size) fun a =>
    let cnt := a.1
    let data := storeChunk data 0 a.2
    if cnt = 0 then .ret (.inr 0)
    else if cnt = -1 then (ece391Fdputs 1 textAddress failure).bind fun _ => .ret (.inr 3)
    else
      let data := storeChunk data cnt.toNat tail
      .call (.writeFd 1 buf data (Int32.ofInt (cnt + tail.length))) fun w =>
        .ret (if w.1 = -1 then .inr 3 else .inl data)

def couldNotReadArguments : CString := literal "could not read arguments\n" rfl
def fileNotFound : CString := literal "file not found\n" rfl
def fileReadFailed : CString := literal "file read failed\n" rfl
def directoryOpenFailed : CString := literal "directory open failed\n" rfl
def directoryEntryReadFailed : CString := literal "directory entry read failed\n" rfl

/-- `main` of `ece391cat.c`. `buf` is the address of its array, `data` what it holds. -/
def cat (buf : Address) (data : Buffer) (turns : Nat) : Program UserCall Answer Int :=
  .call (.getargs buf 1024) fun a =>
    let data := storeChunk data 0 a.2
    if a.1 ≠ 0 then (ece391Fdputs 1 textAddress couldNotReadArguments).bind fun _ => .ret 3
    else
      .call (.openName (arrayString data 1024)) fun f =>
        if f.1 = -1 then (ece391Fdputs 1 textAddress fileNotFound).bind fun _ => .ret 2
        else .loop (copyTurn (Int32.ofInt f.1) buf 1024 [] fileReadFailed) turns data

def ls (buf : Address) (data : Buffer) (turns : Nat) : Program UserCall Answer Int :=
  .call (.openName dotName) fun f =>
    if f.1 = -1 then (ece391Fdputs 1 textAddress directoryOpenFailed).bind fun _ => .ret 2
    else .loop (copyTurn (Int32.ofInt f.1) buf 32 [10] directoryEntryReadFailed) turns data

/-! ### What a descriptor delivers -/

section
variable (img : Image) (fd : Int32) (buf : Address) (size : Int32) (final : Int)

/-- The reads of a descriptor answer one of these after the other, and then `final`, whatever else
happens to devices between them. -/
def Supplies : List Answer → Kernel → Prop
  | [], k => ∀ k₁, k.SameTable k₁ →
      Program.Answers (userWorld img) k₁ (.readFd fd buf size) fun a _ => a.1 = final
  | c :: cs, k => ∀ k₁, k.SameTable k₁ →
      Program.Answers (userWorld img) k₁ (.readFd fd buf size) fun a k₂ => a = c ∧ Supplies cs k₂

end

structure FitsRead (size : Int32) (c : Answer) : Prop where
  pos : 0 < c.1
  le_size : c.1 ≤ size.toInt
  le_length : c.1 ≤ c.2.length

def copied (tail : List UInt8) (c : Answer) : List UInt8 := c.2.take c.1.toNat ++ tail

def copyOutcome (tail : List UInt8) (failure : CString) (cs : List Answer) (final : Int) :
    List UInt8 × Int :=
  (cs.flatMap (copied tail) ++ if final = 0 then [] else failure.bytes, if final = 0 then 0 else 3)

section
variable {img : Image} {fd : Int32} {buf : Address} {size : Int32} {final : Int}
  {tail : List UInt8} {failure : CString} {k : Kernel}

theorem Supplies.sameTable {cs : List Answer} {k₁ : Kernel}
    (h : Supplies img fd buf size final cs k) (hsame : k.SameTable k₁) :
    Supplies img fd buf size final cs k₁ := by
  cases cs with
  | nil => exact fun k₂ h₂ => h k₂ (hsame.trans h₂)
  | cons c cs => exact fun k₂ h₂ => h k₂ (hsame.trans h₂)

theorem map_storeChunk_tail (data : Buffer) (bytes tail : List UInt8) {n : Nat}
    (hn : n ≤ bytes.length) :
    (List.range (n + tail.length)).map (storeChunk (storeChunk data 0 bytes) n tail) =
      bytes.take n ++ tail := by
  rw [List.range_add, List.map_append, ← map_storeChunk data bytes hn, List.map_map]
  congr 1
  · refine List.map_congr_left fun i hi => ?_
    rw [storeChunk, if_neg (Nat.not_le.mpr (List.mem_range.mp hi))]
  · refine List.ext_getElem (by simp) fun i h₁ h₂ => ?_
    rw [List.getElem_map, List.getElem_range, Function.comp_apply, storeChunk,
      if_pos (Nat.le_add_right ..), Nat.add_sub_cancel_left, List.getD_eq_getElem _ _ h₂]

/-- The loop writes each piece and comes back with 0 at the end of the file, and with 3 behind the
message if a read fails. -/
theorem copies_all (htypes : ∀ name d, readDentryByName img (some name) = some d → d.type ≤ 2)
    (hsize : size.toInt + tail.length < 2147483648) (hfailure : failure.strlen < 2147483648)
    (hfinal : final = 0 ∨ final = -1) {cs : List Answer} (hcs : ∀ c ∈ cs, FitsRead size c)
    (hk : FdInv k) (hsup : Supplies img fd buf size final cs k) {turns : Nat}
    (hturns : cs.length < turns) (data : Buffer) :
    (Program.loop (copyTurn fd buf size tail failure) turns data).Ensures (userWorld img)
      (fun trace status _ => (written trace, status) = copyOutcome tail failure cs final) k := by
  let Inv : Nat → List (UserCall × Answer) → Buffer → Kernel → Prop := fun n past _ k =>
    ∃ done rest, rest.length = n ∧ cs = done ++ rest ∧ written past = done.flatMap (copied tail) ∧
      FdInv k ∧ Supplies img fd buf size final rest k
  refine Program.ensures_loop Inv _ ?_ ⟨[], cs, rfl, rfl, rfl, hk, hsup⟩ hturns
  rintro n past data k ⟨done, rest, rfl, rfl, hpast, hk, hsup⟩
  cases rest with
  | nil =>
    refine Program.Answers.call (hk.answers htypes (hsup k fun _ => rfl)) ?_
    rintro a k₁ ⟨ha, hk₁⟩
    rw [List.append_nil] at *
    simp only
    rcases hfinal with rfl | rfl
    · rw [if_pos ha]
      change (written (past ++ [_]), (0 : Int)) = _
      rw [written_append, hpast, written_readFd]
      rfl
    · rw [if_neg (by omega), if_pos ha]
      refine Program.Ensures.bind ((ensures_fdputs htypes hk₁ _ hfailure).mono ?_)
      rintro trace - k₂ ⟨htrace, -⟩
      change (written (past ++ (_ :: (trace ++ []))), (3 : Int)) = _
      rw [List.append_nil, written_append, hpast, written_readFd, htrace]
      rfl
  | cons c rest =>
    have hc := hcs c (by rw [List.mem_append]; exact .inr (List.mem_cons_self ..))
    refine Program.Answers.call (hk.answers htypes (hsup k fun _ => rfl)) ?_
    rintro a k₁ ⟨⟨rfl, hrest⟩, hk₁⟩
    have hpos := hc.pos
    have hle := hc.le_size
    have hlen := hc.le_length
    simp only
    rw [if_neg (by omega), if_neg (by omega)]
    have hcount : (Int32.ofInt (a.1 + tail.length)).toInt = a.1 + tail.length :=
      Int32.toInt_ofInt_of_le (by omega) (by omega)
    have hn : (0 : Int32) ≤ Int32.ofInt (a.1 + tail.length) := by
      rw [Int32.le_iff_toInt_le, hcount]
      exact Int.add_nonneg (by omega) (Int.natCast_nonneg _)
    refine Program.Answers.call (hk₁.answers htypes (answers_write hk₁.stdout hn)) ?_
    rintro w k₂ ⟨⟨rfl, hsame⟩, hk₂⟩
    rw [if_neg (by decide)]
    refine ⟨rest.length, Nat.lt_succ_self _, done ++ [a], rest, rfl, by simp, ?_, hk₂,
      hrest.sameTable hsame⟩
    have hnat : (a.1 + (tail.length : Int)).toNat = a.1.toNat + tail.length := by omega
    rw [written_append, hpast, List.flatMap_append, List.flatMap_singleton, written_readFd,
      written_writeFd, written_nil, List.append_nil, hcount, hnat,
      map_storeChunk_tail _ _ _ (by omega)]
    rfl

/-! ### Files, directories and the clock -/

theorem FileAt.sameTable {inode : UInt32} {pos : Nat} {k₁ : Kernel} (h : FileAt k fd inode pos)
    (hsame : k.SameTable k₁) : FileAt k₁ fd inode pos := by
  obtain ⟨i, hfd, h8, hentry⟩ := h
  exact ⟨i, hfd, h8, (hsame i).trans hentry⟩

theorem DirAt.sameTable {inode : UInt32} {pos : Nat} {k₁ : Kernel} (h : DirAt k fd inode pos)
    (hsame : k.SameTable k₁) : DirAt k₁ fd inode pos := by
  obtain ⟨i, hfd, h8, hentry⟩ := h
  exact ⟨i, hfd, h8, (hsame i).trans hentry⟩

def pieces (size : Nat) : (n : Nat) → List UInt8 → List Answer
  | 0, _ => []
  | n + 1, rest =>
    if rest = [] then []
    else (((rest.take size).length : Int), rest.take size) :: pieces size n (rest.drop size)

theorem pieces_length (size n : Nat) (rest : List UInt8) : (pieces size n rest).length ≤ n := by
  induction n generalizing rest with
  | zero => exact Nat.le_refl _
  | succ n ih =>
    rw [pieces]
    split
    · exact Nat.zero_le _
    · exact Nat.succ_le_succ (ih _)

theorem pieces_copied {size n : Nat} (hsize : 0 < size) {rest : List UInt8}
    (hn : rest.length ≤ n) : (pieces size n rest).flatMap (copied []) = rest := by
  induction n generalizing rest with
  | zero => exact (List.length_eq_zero_iff.mp (Nat.le_zero.mp hn)).symm
  | succ n ih =>
    rw [pieces]
    split
    · rename_i hnil
      exact hnil.symm
    · have hdrop : (rest.drop size).length ≤ n := by
        rw [List.length_drop]
        omega
      rw [List.flatMap_cons, ih hdrop, copied, Int.toNat_natCast, List.take_length,
        List.append_nil, List.take_append_drop]

theorem pieces_fit {size : Int32} (hsize : 0 < size.toInt) (n : Nat) (rest : List UInt8) :
    ∀ c ∈ pieces size.toInt.toNat n rest, FitsRead size c := by
  induction n generalizing rest with
  | zero => exact fun c hc => absurd hc List.not_mem_nil
  | succ n ih =>
    rw [pieces]
    split
    · exact fun c hc => absurd hc List.not_mem_nil
    · rename_i hne
      have hrest := List.length_pos_of_ne_nil hne
      refine List.forall_mem_cons.mpr ⟨⟨?_, ?_, Int.le_refl _⟩, ih _⟩
      · rw [List.length_take]
        omega
      · rw [List.length_take]
        omega

theorem supplies_file (buf : Address) (hwf : img.WellFormed) {inode : UInt32} (h0 : inode ≠ 0)
    (hN : inode < img.totalInodes) (hsize : 0 < size.toInt) {n pos : Nat}
    (hn : ((img.fileContents inode.toNat).drop pos).length ≤ n)
    (hpos : pos ≤ (img.fileContents inode.toNat).length) (h : FileAt k fd inode pos) :
    Supplies img fd buf size 0
      (pieces size.toInt.toNat n ((img.fileContents inode.toNat).drop pos)) k := by
  have hn0 : (0 : Int32) ≤ size := by
    rw [Int32.le_iff_toInt_le]
    exact Int.le_of_lt hsize
  have hread : ∀ {k : Kernel} {pos : Nat}, FileAt k fd inode pos →
      pos ≤ (img.fileContents inode.toNat).length → ∀ k₁, k.SameTable k₁ → _ :=
    fun h hpos _ hsame => answers_read_file buf hwf h0 hN (h.sameTable hsame) hpos hn0 rfl
  induction n generalizing k pos with
  | zero =>
    have hnil := List.length_eq_zero_iff.mp (Nat.le_zero.mp hn)
    refine fun k₁ hsame => (hread h hpos k₁ hsame).mono ?_
    rintro a k₂ ⟨rfl, -⟩
    rw [hnil, List.take_nil]
    rfl
  | succ n ih =>
    rw [pieces]
    split
    · rename_i hnil
      refine fun k₁ hsame => (hread h hpos k₁ hsame).mono ?_
      rintro a k₂ ⟨rfl, -⟩
      rw [hnil, List.take_nil]
      rfl
    · rename_i hne
      refine fun k₁ hsame => (hread h hpos k₁ hsame).mono ?_
      rintro a k₂ ⟨rfl, hat, -⟩
      have hlength := List.length_drop (i := pos) (l := img.fileContents inode.toNat)
      have hrest := List.length_pos_of_ne_nil hne
      refine ⟨rfl, ?_⟩
      -- a short piece is the last one
      have hnext : (img.fileContents inode.toNat).drop (pos + (((img.fileContents
          inode.toNat).drop pos).take size.toInt.toNat).length) =
          ((img.fileContents inode.toNat).drop pos).drop size.toInt.toNat := by
        rw [← List.drop_drop, List.length_take]
        rcases Nat.le_total size.toInt.toNat
          ((img.fileContents inode.toNat).drop pos).length with hle | hge
        · rw [Nat.min_eq_left hle]
        · rw [Nat.min_eq_right hge, List.drop_length, List.drop_eq_nil_of_le hge]
      rw [← hnext]
      refine ih ?_ ?_ hat
      all_goals
        simp only [List.length_drop, List.length_take] at *
        omega

def entryAnswers (img : Image) (pos n : Nat) : List Answer :=
  ((List.range' pos n).map fun i =>
    (((img.dentries i).name.length : Int), List.ofFn (img.dentries i).fileName)).takeWhile
      fun a => decide (a.1 ≠ 0)

def entryFinal (img : Image) (pos n : Nat) : Int :=
  if ∃ i ∈ List.range' pos n, (img.dentries i).name = [] then 0 else -1

theorem supplies_dir {inode : UInt32} {n pos : Nat} (htotal : img.totalDentries.toNat ≤ 63)
    (hn : pos + n = img.totalDentries.toNat + 1) (h : DirAt k fd inode pos) :
    Supplies img fd buf size (entryFinal img pos n) (entryAnswers img pos n) k := by
  have hread : ∀ {k : Kernel} {pos : Nat}, DirAt k fd inode pos → pos < 4294967296 →
      ∀ k₁, k.SameTable k₁ → _ :=
    fun h hpos _ hsame => answers_read_dir img buf size (h.sameTable hsame) hpos
  induction n generalizing k pos with
  | zero =>
    refine fun k₁ hsame => (hread h (by omega) k₁ hsame).mono ?_
    rintro a k₂ ⟨ha, -⟩
    rw [if_neg (by omega)] at ha
    rw [ha, entryFinal, if_neg (by simp)]
  | succ n ih =>
    have hle : pos ≤ img.totalDentries.toNat := by omega
    by_cases hempty : (img.dentries pos).name = []
    · have hnone : entryAnswers img pos (n + 1) = [] := by
        rw [entryAnswers, List.range'_succ, List.map_cons, List.takeWhile_cons_of_neg]
        simp [hempty]
      rw [hnone, entryFinal, if_pos ⟨pos, by simp, hempty⟩]
      refine fun k₁ hsame => (hread h (by omega) k₁ hsame).mono ?_
      rintro a k₂ ⟨ha, -⟩
      rw [if_pos hle] at ha
      rw [ha.1, hempty]
      rfl
    · have hcons : entryAnswers img pos (n + 1) = (((img.dentries pos).name.length : Int),
          List.ofFn (img.dentries pos).fileName) :: entryAnswers img (pos + 1) n := by
        rw [entryAnswers, List.range'_succ, List.map_cons, List.takeWhile_cons_of_pos]
        · rfl
        · simpa using hempty
      have hfinal : entryFinal img pos (n + 1) = entryFinal img (pos + 1) n := by
        refine if_congr ?_ rfl rfl
        rw [List.range'_succ, List.exists_mem_cons_iff]
        exact or_iff_right hempty
      rw [hcons, hfinal]
      refine fun k₁ hsame => (hread h (by omega) k₁ hsame).mono ?_
      rintro a k₂ ⟨ha, -⟩
      rw [if_pos hle] at ha
      exact ⟨ha.1, ih (by omega) ha.2⟩

theorem entryAnswers_length (img : Image) (pos n : Nat) : (entryAnswers img pos n).length ≤ n := by
  refine (List.takeWhile_prefix _).length_le.trans ?_
  rw [List.length_map, List.length_range']

theorem Dentry.name_le (d : Dentry) : d.name.length ≤ 32 := by
  have hlen : (List.ofFn d.fileName).length = 32 := List.length_ofFn
  exact (List.takeWhile_prefix _).length_le.trans hlen.le

theorem entryAnswers_fit (hsize : 32 ≤ size.toInt) (pos n : Nat) :
    ∀ c ∈ entryAnswers img pos n, FitsRead size c := by
  intro c hc
  have hne : c.1 ≠ 0 := by simpa using List.mem_takeWhile_imp hc
  obtain ⟨i, -, rfl⟩ := List.mem_map.mp (List.takeWhile_subset _ hc)
  have hle := (img.dentries i).name_le
  refine ⟨?_, ?_, ?_⟩
  · simp only at hne ⊢
    omega
  · simp only
    omega
  · rw [List.length_ofFn]
    exact Int.ofNat_le.mpr hle

def Image.listed (img : Image) : List (List UInt8) :=
  ((List.range (img.totalDentries.toNat + 1)).map fun i => (img.dentries i).name).takeWhile
    fun name => decide (name ≠ [])

def listing (img : Image) (tail : List UInt8) (failure : CString) : List UInt8 × Int :=
  if ∃ i ∈ List.range (img.totalDentries.toNat + 1), (img.dentries i).name = [] then
    (img.listed.flatMap (· ++ tail), 0)
  else (img.listed.flatMap (· ++ tail) ++ failure.bytes, 3)

theorem entryAnswers_copied (img : Image) (tail : List UInt8) :
    (entryAnswers img 0 (img.totalDentries.toNat + 1)).flatMap (copied tail) =
      img.listed.flatMap (· ++ tail) := by
  have hname : ∀ d : Dentry, copied tail ((d.name.length : Int), List.ofFn d.fileName) =
      d.name ++ tail := by
    intro d
    rw [copied, Int.toNat_natCast]
    exact congrArg (· ++ tail) (List.prefix_iff_eq_take.mp (List.takeWhile_prefix _)).symm
  have hsame : (fun i => decide ((((img.dentries i).name.length : Int),
      List.ofFn (img.dentries i).fileName).1 ≠ 0)) =
      fun i => decide ((img.dentries i).name ≠ []) := by
    funext i
    simp
  rw [entryAnswers, Image.listed, ← List.range_eq_range', List.takeWhile_map, List.takeWhile_map,
    List.flatMap_map, List.flatMap_map]
  change List.flatMap _ (List.takeWhile (fun i => decide _) _) = _
  rw [hsame]
  exact List.flatMap_congr fun i _ => hname _

theorem copyOutcome_listing (img : Image) (tail : List UInt8) (failure : CString) :
    copyOutcome tail failure (entryAnswers img 0 (img.totalDentries.toNat + 1))
      (entryFinal img 0 (img.totalDentries.toNat + 1)) = listing img tail failure := by
  rw [copyOutcome, entryAnswers_copied, entryFinal, listing, List.range_eq_range']
  split
  · rw [if_pos rfl, if_pos rfl, List.append_nil]
  · rw [if_neg (by decide), if_neg (by decide)]

theorem entryFinal_cases (img : Image) (pos n : Nat) :
    entryFinal img pos n = 0 ∨ entryFinal img pos n = -1 := by
  unfold entryFinal
  split
  · exact .inl rfl
  · exact .inr rfl

theorem supplies_rtc {i : Nat} {inode pos : UInt32} (hfd : fd.toInt = i) (h8 : i < 8)
    (hentry : k.currPcb.fdEntry i = ⟨.table .rtc, inode, pos, 1⟩) :
    Supplies img fd buf size 0 [] k := by
  intro k₁ hsame
  refine (answers_read_rtc hfd h8 ((hsame i).trans hentry)).mono ?_
  rintro a k₂ ⟨rfl, -⟩
  rfl

theorem supplies_badFile {inode : UInt32} {pos : Nat} (h : FileAt k fd inode pos)
    (hbad : inode = 0 ∨ img.totalInodes ≤ inode) (hsize : 0 < size) :
    Supplies img fd buf size (-1) [] k := by
  intro k₁ hsame
  refine (answers_read_badFile (h.sameTable hsame) hbad hsize).mono ?_
  rintro a k₂ ⟨rfl, -⟩
  rfl

theorem copies_directory
    (htypes : ∀ name d, readDentryByName img (some name) = some d → d.type ≤ 2)
    (hsize : size.toInt + tail.length < 2147483648) (hroom : 32 ≤ size.toInt)
    (hfailure : failure.strlen < 2147483648) (htotal : img.totalDentries.toNat ≤ 63) (hk : FdInv k)
    {inode : UInt32} (h : DirAt k fd inode 0) {turns : Nat} (hturns : 66 ≤ turns) (data : Buffer) :
    (Program.loop (copyTurn fd buf size tail failure) turns data).Ensures (userWorld img)
      (fun trace status _ => (written trace, status) = listing img tail failure) k := by
  have hlength := entryAnswers_length img 0 (img.totalDentries.toNat + 1)
  rw [← copyOutcome_listing]
  exact copies_all htypes hsize hfailure (entryFinal_cases img _ _) (entryAnswers_fit hroom _ _) hk
    (supplies_dir htotal (Nat.zero_add _) h) (by omega) data

end

/-! ### `cat` -/

theorem squeeze_subset (prev : UInt8) (l : List UInt8) : squeeze prev l ⊆ l := by
  induction l generalizing prev with
  | nil => exact List.Subset.refl _
  | cons c l ih =>
    rw [squeeze]
    split
    · exact List.Subset.trans (ih c) (List.subset_cons_self ..)
    · exact List.cons_subset_cons c (ih c)

theorem squeeze_length_le (prev : UInt8) (l : List UInt8) : (squeeze prev l).length ≤ l.length := by
  induction l generalizing prev with
  | nil => exact Nat.le_refl _
  | cons c l ih =>
    rw [squeeze]
    split
    · exact (ih c).trans (Nat.le_succ _)
    · exact Nat.succ_le_succ (ih c)

def deliveredArgs (text : CString) : CString where
  bytes := squeezed text
  noNul := fun b hb => text.noNul b (squeeze_subset 32 _ hb)

def catEntry (img : Image) (d : Dentry) : List UInt8 × Int :=
  match OpsTable.ofType d.type with
  | .dir => listing img [] fileReadFailed
  | .file =>
    if d.inode = 0 ∨ img.totalInodes ≤ d.inode then (fileReadFailed.bytes, 3)
    else (img.fileContents d.inode.toNat, 0)
  | .rtc | .stdin | .stdout => ([], 0)

def catResult (img : Image) (text : CString) : List UInt8 × Int :=
  if text.bytes = [] then (couldNotReadArguments.bytes, 3)
  else if squeezed text = [] then (fileNotFound.bytes, 2)
  else
    match readDentryByName img (some (deliveredArgs text)) with
    | none => (fileNotFound.bytes, 2)
    | some d => catEntry img d

theorem OpsTable.ofType_cases (type : UInt32) : OpsTable.ofType type = .rtc ∨
    OpsTable.ofType type = .dir ∨ OpsTable.ofType type = .file := by
  unfold OpsTable.ofType
  split
  · exact .inl rfl
  · split
    · exact .inr (.inl rfl)
    · exact .inr (.inr rfl)

section
variable {img : Image} {k : Kernel}

theorem copies_entry (hwf : img.WellFormed) (htotal : img.totalDentries.toNat ≤ 63)
    (htypes : ∀ name d, readDentryByName img (some name) = some d → d.type ≤ 2) (d : Dentry) :
    ∃ enough, ∀ (turns : Nat), enough ≤ turns → ∀ (buf : Address) (data : Buffer) (fd : Int32)
      (i : Nat) (k : Kernel), FdInv k → fd.toInt = i → i < 8 →
      k.currPcb.fdEntry i = ⟨.table (.ofType d.type), d.inode, 0, 1⟩ →
      (Program.loop (copyTurn fd buf 1024 [] fileReadFailed) turns data).Ensures (userWorld img)
        (fun trace status _ => (written trace, status) = catEntry img d) k := by
  have hroom : (1024 : Int32).toInt + ([] : List UInt8).length < 2147483648 := by decide
  have hmessage : fileReadFailed.strlen < 2147483648 := by decide
  have hsize : 0 < (1024 : Int32).toInt := by decide
  unfold catEntry
  rcases OpsTable.ofType_cases d.type with ht | ht | ht
  · refine ⟨1, fun turns hturns buf data fd i k hk hfd h8 hentry => ?_⟩
    rw [ht] at hentry ⊢
    exact copies_all htypes hroom hmessage (.inl rfl) (fun c hc => absurd hc List.not_mem_nil) hk
      (supplies_rtc hfd h8 hentry) (by rw [List.length_nil]; omega) data
  · refine ⟨66, fun turns hturns buf data fd i k hk hfd h8 hentry => ?_⟩
    rw [ht] at hentry ⊢
    exact copies_directory htypes hroom (by decide) hmessage htotal hk ⟨i, hfd, h8, hentry⟩ hturns
      data
  · by_cases hbad : d.inode = 0 ∨ img.totalInodes ≤ d.inode
    · refine ⟨1, fun turns hturns buf data fd i k hk hfd h8 hentry => ?_⟩
      rw [ht] at hentry ⊢
      have hat : FileAt k fd d.inode 0 := ⟨i, hfd, h8, hentry⟩
      simp only [if_pos hbad]
      exact copies_all htypes hroom hmessage (.inr rfl) (fun c hc => absurd hc List.not_mem_nil) hk
        (supplies_badFile hat hbad (by decide))
        (by rw [List.length_nil]; omega) data
    · refine ⟨(img.fileContents d.inode.toNat).length + 1,
        fun turns hturns buf data fd i k hk hfd h8 hentry => ?_⟩
      rw [ht] at hentry ⊢
      simp only [if_neg hbad]
      obtain ⟨h0, hN⟩ := not_or.mp hbad
      have hat : FileAt k fd d.inode 0 := ⟨i, hfd, h8, hentry⟩
      have hsup := supplies_file buf hwf h0 (UInt32.not_le.mp hN) hsize (Nat.le_refl _)
        (Nat.zero_le _) hat
      have hlength := pieces_length (1024 : Int32).toInt.toNat
        ((img.fileContents d.inode.toNat).drop 0).length ((img.fileContents d.inode.toNat).drop 0)
      rw [List.drop_zero] at hsup hlength
      refine (copies_all htypes hroom hmessage (.inl rfl) (pieces_fit hsize _ _) hk hsup
        (by omega) data).mono ?_
      rintro trace status t h
      rw [h, copyOutcome, pieces_copied (by decide) (Nat.le_refl _), if_pos rfl, if_pos rfl,
        List.append_nil]

theorem StdioOnly.sameTable (h : StdioOnly k) {k₁ : Kernel} (hsame : k.SameTable k₁) :
    StdioOnly k₁ where
  stdin := (hsame 0).trans h.stdin
  stdout := (hsame 1).trans h.stdout
  closed := fun i h2 h8 => by
    rw [hsame i]
    exact h.closed i h2 h8

theorem CString.eq_of_bytes {a b : CString} (h : a.bytes = b.bytes) : a = b := by
  cases a
  cases b
  exact CString.mk.injEq .. ▸ h

theorem ensures_message
    (htypes : ∀ name d, readDentryByName img (some name) = some d → d.type ≤ 2) (hk : FdInv k)
    {s : CString} (hs : s.strlen < 2147483648) (status : Int) :
    ((ece391Fdputs 1 textAddress s).bind fun _ => (.ret status : Program UserCall Answer Int)).Ensures
      (userWorld img) (fun trace value _ => written trace = s.bytes ∧ value = status) k := by
  refine Program.Ensures.bind ((ensures_fdputs htypes hk _ hs).mono ?_)
  rintro trace - k' ⟨htrace, -⟩
  refine ⟨?_, rfl⟩
  rw [List.append_nil, htrace]

/-- A program that starts with its two terminal descriptors and an argument string in its block
writes the file that the string names, and says what is wrong otherwise. -/
theorem cat_writes_file (hwf : img.WellFormed) (htotal : img.totalDentries.toNat ≤ 63)
    (htypes : ∀ name d, readDentryByName img (some name) = some d → d.type ≤ 2) (text : CString)
    (hlen : text.strlen < 1024) : ∃ enough, ∀ turns ≥ enough,
      ∀ (k : Kernel) (buf : Address) (data : Buffer), StdioOnly k → Holds k.currPcb.args text →
        (cat buf data turns).Ensures (userWorld img)
          (fun trace status _ => (written trace, status) = catResult img text) k := by
  obtain ⟨enough, henough⟩ : ∃ enough, ∀ d,
      readDentryByName img (some (deliveredArgs text)) = some d → ∀ turns ≥ enough,
        ∀ (buf : Address) (data : Buffer) (fd : Int32) (i : Nat) (k : Kernel), FdInv k →
          fd.toInt = i → i < 8 → k.currPcb.fdEntry i = ⟨.table (.ofType d.type), d.inode, 0, 1⟩ →
          (Program.loop (copyTurn fd buf 1024 [] fileReadFailed) turns data).Ensures
            (userWorld img) (fun trace status _ => (written trace, status) = catEntry img d) k := by
    cases hd : readDentryByName img (some (deliveredArgs text)) with
    | none => exact ⟨0, fun d hd => absurd hd (by simp)⟩
    | some d =>
      obtain ⟨enough, h⟩ := copies_entry hwf htotal htypes d
      refine ⟨enough, fun d' hd' => ?_⟩
      obtain rfl := Option.some.inj hd'
      exact h
  refine ⟨enough, fun turns hturns k buf data hk hargs => ?_⟩
  have hsize : (1024 : Int32).toInt = 1024 := rfl
  refine Program.Answers.call
    (hk.inv.answers htypes (answers_getargs hargs (by rw [hsize]; omega))) ?_
  rintro a k₁ ⟨⟨ha, hsame⟩, hk₁⟩
  by_cases hnil : text.bytes = []
  · rw [if_pos hnil] at ha
    subst ha
    refine (ensures_message htypes hk₁ (by decide) 3).mono ?_
    rintro trace status - ⟨htrace, rfl⟩
    rw [written_getargs, htrace, catResult, if_pos hnil]
  · rw [if_neg hnil] at ha
    obtain ⟨rest, rfl⟩ := ha
    have hlength := squeeze_length_le 32 text.bytes
    have hname : arrayString (storeChunk data 0 (squeezed text ++ 0 :: rest)) 1024 =
        deliveredArgs text := CString.eq_of_bytes
      (arrayString_bytes data (deliveredArgs text).noNul (hlength.trans_lt hlen))
    simp only
    rw [if_neg (not_not.mpr rfl), hname]
    refine Program.Answers.call (hk₁.answers htypes (answers_open htypes _)) ?_
    rintro f k₂ ⟨⟨hwhy, rfl, hsame₂⟩ | ⟨d, i, hne, hd, hlow, rfl, hentry, -⟩, hk₂⟩
    · have hresult : catResult img text = (fileNotFound.bytes, 2) := by
        rw [catResult, if_neg hnil]
        rcases hwhy with hempty | hmiss | hfull
        · exact if_pos (List.length_eq_zero_iff.mp hempty)
        · rw [hmiss, ite_self]
        · have hfree := (hk.sameTable hsame).closed 2 (by decide) (by decide)
          exact absurd hfree (hfull 2 (by decide) (by decide))
      refine (ensures_message htypes hk₂ (by decide) 2).mono ?_
      rintro trace status - ⟨htrace, rfl⟩
      rw [written_getargs, written_openName, htrace, hresult]
    · have hsome : squeezed text ≠ [] := fun hz => hne (List.length_eq_zero_iff.mpr hz)
      have hresult : catResult img text = catEntry img d := by
        rw [catResult, if_neg hnil, if_neg hsome, hd]
      have h8 := hlow.2.1
      have hfd : (Int32.ofInt i).toInt = i := Int32.toInt_ofInt_of_le (by omega) (by omega)
      simp only
      rw [if_neg (by omega)]
      refine (henough d hd turns hturns buf _ _ i k₂ hk₂ hfd h8 hentry).mono ?_
      rintro trace status - h
      rw [hresult]
      exact h

theorem StdioOnly.withArgs (h : StdioOnly k) (bytes : List UInt8) :
    StdioOnly (k.withArgs bytes) := by
  refine h.sameTable fun j => ?_
  have hcurr : (k.withArgs bytes).currPcb =
      { k.currPcb with args := fun i => bytes.getD i 0 } := k.setPcb_pcb_self ..
  rw [hcurr]
  rfl

/-- The shell's own file, written by a program that finds its name in its block. -/
theorem cat_writes_shell : ∃ enough, ∀ turns ≥ enough, ∃ (k : Kernel) (buf : Address)
    (data : Buffer), StdioOnly k ∧ (cat buf data turns).Ensures (userWorld sampleImage)
      (fun trace status _ => written trace = sampleImage.fileContents 1 ∧ status = 0) k := by
  obtain ⟨args, d, -⟩ := sampleImage_boots
  have hresult : catResult sampleImage shellCommand = (sampleImage.fileContents 1, 0) := by
    have htype : OpsTable.ofType (sampleImage.denPtr 1).type = .file := by decide +kernel
    have hinode : (sampleImage.denPtr 1).inode = 1 := by decide +kernel
    have hin : ¬((1 : UInt32) = 0 ∨ sampleImage.totalInodes ≤ 1) := by decide +kernel
    have hname : deliveredArgs shellCommand = shellCommand := CString.eq_of_bytes rfl
    rw [catResult, if_neg (by decide), if_neg (by decide), hname, sampleImage_shell]
    simp only [catEntry, htype, hinode, if_neg hin]
    rfl
  have hstdio := sampleShell_stdioOnly args d
  obtain ⟨enough, henough⟩ := cat_writes_file sampleImage_wellFormed
    sampleImage_totalDentries_le sampleImage_types shellCommand (by decide)
  refine ⟨enough, fun turns hturns => ⟨_, textAddress, fun _ => 0,
    hstdio.withArgs shellCommand.bytes, ?_⟩⟩
  refine (henough turns hturns _ textAddress (fun _ => 0) (hstdio.withArgs shellCommand.bytes)
    fun i _ => withArgs_args _ _ i).mono ?_
  rintro trace status - h
  rw [hresult] at h
  exact Prod.mk.inj h

/-! ### `ls` -/

def lsResult (img : Image) : List UInt8 × Int :=
  match readDentryByName img (some dotName) with
  | none => (directoryOpenFailed.bytes, 2)
  | some _ => listing img [10] directoryEntryReadFailed

/-- Every name goes on a line of its own. The program ends well only where an entry with an empty
name stops it: the last read of a full directory fails. -/
theorem ls_lists_directory (htotal : img.totalDentries.toNat ≤ 63)
    (htypes : ∀ name d, readDentryByName img (some name) = some d → d.type ≤ 2)
    (hdot : ∀ d, readDentryByName img (some dotName) = some d → d.type = 1) (hk : StdioOnly k)
    (buf : Address) (data : Buffer) {turns : Nat} (hturns : 66 ≤ turns) :
    (ls buf data turns).Ensures (userWorld img)
      (fun trace status _ => (written trace, status) = lsResult img) k := by
  refine Program.Answers.call (hk.inv.answers htypes (answers_open htypes _)) ?_
  rintro f k₁ ⟨⟨hwhy, rfl, -⟩ | ⟨d, i, -, hd, hlow, rfl, hentry, -⟩, hk₁⟩
  · have hresult : lsResult img = (directoryOpenFailed.bytes, 2) := by
      rcases hwhy with hempty | hmiss | hfull
      · exact absurd hempty (by decide)
      · rw [lsResult, hmiss]
      · exact absurd (hk.closed 2 (by decide) (by decide)) (hfull 2 (by decide) (by decide))
    refine (ensures_message htypes hk₁ (by decide) 2).mono ?_
    rintro trace status - ⟨htrace, rfl⟩
    rw [written_openName, htrace, hresult]
  · have hresult : lsResult img = listing img [10] directoryEntryReadFailed := by
      rw [lsResult, hd]
    have h8 := hlow.2.1
    have hfd : (Int32.ofInt i).toInt = i := Int32.toInt_ofInt_of_le (by omega) (by omega)
    rw [hdot d hd] at hentry
    simp only
    rw [if_neg (by omega)]
    refine (copies_directory htypes (by decide) (by decide) (by decide) htotal hk₁
      ⟨i, hfd, h8, hentry⟩ hturns data).mono ?_
    rintro trace status - h
    rw [hresult]
    exact h

/-- The sample directory is full: `ls` writes its two names and the empty place behind them ends
the listing. -/
theorem ls_lists_sample : ∃ k, StdioOnly k ∧
    (ls textAddress (fun _ => 0) 66).Ensures (userWorld sampleImage)
      (fun trace status _ => written trace = [46, 10, 115, 104, 101, 108, 108, 10] ∧
        status = 0) k := by
  obtain ⟨args, d, -⟩ := sampleImage_boots
  have hdot : ∀ d, readDentryByName sampleImage (some dotName) = some d → d.type = 1 := by
    rw [sampleImage_dot]
    rintro d hd
    obtain rfl := Option.some.inj hd
    decide +kernel
  have hresult : lsResult sampleImage = ([46, 10, 115, 104, 101, 108, 108, 10], 0) := by
    rw [lsResult, sampleImage_dot]
    decide +kernel
  refine ⟨_, sampleShell_stdioOnly args d, ?_⟩
  refine (ls_lists_directory sampleImage_totalDentries_le sampleImage_types hdot
    (sampleShell_stdioOnly args d) textAddress (fun _ => 0) (Nat.le_refl _)).mono ?_
  rintro trace status - h
  rw [hresult] at h
  exact Prod.mk.inj h

end
end MyLinuxOS
