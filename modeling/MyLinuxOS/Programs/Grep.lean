import MyLinuxOS.Grep.Termination
import MyLinuxOS.Programs.Copying

/-! `grep` as a program that makes system calls: `do_one_file` and the loop over the directory. Over
the kernel it writes what the pure `do_one_file` writes for the contents of the files. -/

namespace MyLinuxOS
open Foundation

namespace Grep

/-! ### The program -/

def couldNotReadArgument : CString := literal "could not read argument\n" rfl
def fileOpenFailed : CString := literal "file open failed\n" rfl
def fileCloseFailed : CString := literal "file close failed\n" rfl
def colon : CString := literal ":" rfl
def newline : CString := literal "\n" rfl

def lineString (data : Buffer) (start : Nat) : CString :=
  .ofBuffer ((List.range (bufsize + 1 - start)).map fun i => data (start + i))

/-- The four strings that go out for a line. `dataAt i` is the address of `data + i`. -/
def printLine (fname : CString) (nameAt : Address) (dataAt : Nat → Address) (data : Buffer)
    (lineStart : Nat) : Program UserCall Answer Unit :=
  (ece391Fdputs 1 nameAt fname).bind fun _ =>
    (ece391Fdputs 1 textAddress colon).bind fun _ =>
      (ece391Fdputs 1 (dataAt lineStart) (lineString data lineStart)).bind fun _ =>
        ece391Fdputs 1 textAddress newline

def lineLoop (s fname : CString) (nameAt : Address) (dataAt : Nat → Address) (cnt last : Nat) :
    (fuel : Nat) → (lineStart : Nat) → Buffer → Program UserCall Answer (Buffer × Nat)
  | 0, _, _ => .spent
  | fuel + 1, lineStart, data =>
    let lineEnd := scanLine data (last - lineStart) lineStart
    if data lineEnd ≠ 10 ∧ cnt ≠ 0 ∧ lineStart ≠ 0 then
      match ece391Strcpy lineStart (bufsize + 1) 0 (Function.update data lineEnd 0) with
      | none => .spent
      | some data => .ret (data, last - lineStart)
    else
      let data := Function.update data lineEnd 0
      let search :=
        if searchLine data s (lineEnd - lineStart) lineStart then
          printLine fname nameAt dataAt data lineStart
        else .ret ()
      search.bind fun _ =>
        if lineEnd + 1 ≥ last then .ret (data, 0)
        else lineLoop s fname nameAt dataAt cnt last fuel (lineEnd + 1) data

def fileTurn (s fname : CString) (nameAt : Address) (dataAt : Nat → Address) (fd : Int32)
    (state : Buffer × Nat) : Program UserCall Answer ((Buffer × Nat) ⊕ Int) :=
  let data := state.1
  let last := state.2
  .call (.readFd fd (dataAt last) (Int32.ofNat (bufsize - last))) fun a =>
    if a.1 = -1 then (ece391Fdputs 1 textAddress fileReadFailed).bind fun _ => .ret (.inr (-1))
    else
      let cnt := a.1.toNat
      (lineLoop s fname nameAt dataAt cnt (last + cnt) (last + cnt + 1) 0
        (storeChunk data last a.2)).bind fun state =>
          if cnt = 0 then
            .call (.closeFd fd) fun c =>
              if c.1 = -1 then
                (ece391Fdputs 1 textAddress fileCloseFailed).bind fun _ => .ret (.inr (-1))
              else .ret (.inr 0)
          else .ret (.inl state)

def doOneFile (s fname : CString) (nameAt : Address) (dataAt : Nat → Address) (data : Buffer)
    (turns : Nat) : Program UserCall Answer Int :=
  .call (.openName fname) fun f =>
    if f.1 = -1 then (ece391Fdputs 1 textAddress fileOpenFailed).bind fun _ => .ret (-1)
    else .loop (fileTurn s fname nameAt dataAt (Int32.ofInt f.1)) turns (data, 0)

/-- One turn of the loop of `main`: `state.2` counts the turns, and `junk` is what the array of
`do_one_file` holds when it is called in each of them. -/
def mainTurn (s : CString) (bufAt : Address) (dataAt : Nat → Address) (junk : Nat → Buffer)
    (turns : Nat) (fd : Int32) (state : Buffer × Nat) :
    Program UserCall Answer ((Buffer × Nat) ⊕ Int) :=
  .call (.readFd fd bufAt 32) fun a =>
    let buf := storeChunk state.1 0 a.2
    if a.1 = 0 then .ret (.inr 0)
    else if a.1 = -1 then
      (ece391Fdputs 1 textAddress directoryEntryReadFailed).bind fun _ => .ret (.inr 3)
    else if buf 0 = 46 then .ret (.inl (buf, state.2 + 1))
    else
      let buf := Function.update buf a.1.toNat 0
      (doOneFile s (arrayString buf 33) bufAt dataAt (junk state.2) turns).bind fun r =>
        .ret (if r ≠ 0 then .inr 3 else .inl (buf, state.2 + 1))

def main (searchAt bufAt : Address) (dataAt : Nat → Address) (junk : Nat → Buffer)
    (search buf : Buffer) (turns : Nat) : Program UserCall Answer Int :=
  .call (.getargs searchAt 1024) fun a =>
    let search := storeChunk search 0 a.2
    if a.1 ≠ 0 then (ece391Fdputs 1 textAddress couldNotReadArgument).bind fun _ => .ret 3
    else
      .call (.openName dotName) fun f =>
        if f.1 = -1 then (ece391Fdputs 1 textAddress directoryOpenFailed).bind fun _ => .ret 2
        else
          .loop (mainTurn (arrayString search 1024) bufAt dataAt junk turns (Int32.ofInt f.1)) turns
            (buf, 0)

/-! ### What it does, in terms of the image -/

/-- The calls on a file of the image. A clock delivers nothing, and a file without an inode cannot
be read. -/
def imageCalls (img : Image) (fname : CString) : GrepSyscalls where
  openFile fname := if (readDentryByName img (some fname)).isSome then 2 else -1
  read position nbytes :=
    match readDentryByName img (some fname) with
    | none => none
    | some d =>
      if OpsTable.ofType d.type = .file then
        if d.inode = 0 ∨ img.totalInodes ≤ d.inode then none
        else some (((img.fileContents d.inode.toNat).drop position).take nbytes)
      else some []
  closeFile := 0

def entryName (img : Image) (i : Nat) : CString := .ofBuffer (List.ofFn (img.dentries i).fileName)

def searchEntries (img : Image) (s : CString) (junk : Nat → Buffer) (turns : Nat) :
    (n pos : Nat) → Option (List UInt8 × Int)
  | 0, _ => some (directoryEntryReadFailed.bytes, 3)
  | n + 1, pos =>
    if (img.dentries pos).name = [] then some ([], 0)
    else if (img.dentries pos).name.head? = some 46 then searchEntries img s junk turns n (pos + 1)
    else do
      let fname := entryName img pos
      let (text, r) ← MyLinuxOS.doOneFile (imageCalls img fname) s fname (junk pos) turns
      if r ≠ 0 then some (text, 3)
      else (searchEntries img s junk turns n (pos + 1)).map fun rest => (text ++ rest.1, rest.2)

/-- Besides the names that start with a dot, the directory holds no directories. -/
def NoSubdirectories (img : Image) : Prop :=
  ∀ i ≤ img.totalDentries.toNat, (img.dentries i).name ≠ [] →
    (img.dentries i).name.head? ≠ some 46 → ∀ d,
      readDentryByName img (some (entryName img i)) = some d → OpsTable.ofType d.type ≠ .dir

def grepResult (img : Image) (text : CString) (junk : Nat → Buffer) (turns : Nat) :
    Option (List UInt8 × Int) :=
  if text.bytes = [] then some (couldNotReadArgument.bytes, 3)
  else
    match readDentryByName img (some dotName) with
    | none => some (directoryOpenFailed.bytes, 2)
    | some _ => searchEntries img (deliveredArgs text) junk turns (img.totalDentries.toNat + 1) 0

/-! ### One file -/

section
variable {img : Image} {s fname : CString} {nameAt : Address} {dataAt : Nat → Address}

theorem lineString_strlen (data : Buffer) (start : Nat) :
    (lineString data start).strlen < 2147483648 := by
  have hle : (stringAt data start).length ≤ bufsize + 1 - start := by
    refine (List.takeWhile_prefix _).length_le.trans ?_
    rw [List.length_map, List.length_range]
  have hsize : bufsize = 1024 := rfl
  change (stringAt data start).length < _
  omega

theorem prints_line
    (htypes : ∀ name d, readDentryByName img (some name) = some d → d.type ≤ 2)
    (hname : fname.strlen < 2147483648) (data : Buffer) (lineStart : Nat) :
    Prints img (printLine fname nameAt dataAt data lineStart)
      (foundText fname (stringAt data lineStart)) () := by
  have hline := prints_fdputs htypes (dataAt lineStart) (lineString_strlen data lineStart)
  have hend := hline.bind (f := fun _ => ece391Fdputs 1 textAddress newline)
    (prints_fdputs htypes textAddress (by decide))
  have hcolon := (prints_fdputs htypes textAddress (s := colon) (by decide)).bind
    (f := fun _ => (ece391Fdputs 1 (dataAt lineStart) (lineString data lineStart)).bind fun _ =>
      ece391Fdputs 1 textAddress newline) hend
  have htext : foundText fname (stringAt data lineStart) =
      fname.bytes ++ (colon.bytes ++ ((lineString data lineStart).bytes ++ newline.bytes)) := by
    simp only [foundText, List.append_assoc]
    rfl
  rw [htext]
  exact (prints_fdputs htypes nameAt hname).bind hcolon

theorem prints_lineLoop
    (htypes : ∀ name d, readDentryByName img (some name) = some d → d.type ≤ 2)
    (hname : fname.strlen < 2147483648) (nameAt : Address) (dataAt : Nat → Address)
    {cnt last fuel lineStart : Nat} {data : Buffer} {text : List UInt8} {state : Buffer × Nat}
    (h : MyLinuxOS.lineLoop s fname cnt last fuel lineStart data = some (text, state)) :
    Prints img (lineLoop s fname nameAt dataAt cnt last fuel lineStart data) text state := by
  induction fuel generalizing lineStart data text with
  | zero => exact absurd h (by simp [MyLinuxOS.lineLoop])
  | succ fuel ih =>
    rw [MyLinuxOS.lineLoop] at h
    rw [lineLoop]
    simp only at h ⊢
    generalize scanLine data (last - lineStart) lineStart = lineEnd at h ⊢
    split at h
    · rename_i hgoes
      rw [if_pos hgoes]
      obtain ⟨data', hcopy, hres⟩ := Option.map_eq_some_iff.mp h
      obtain ⟨rfl, rfl⟩ := Prod.mk.inj hres
      rw [hcopy]
      exact prints_ret img _
    · rename_i hgoes
      rw [if_neg hgoes]
      have hfound : Prints img (if searchLine (Function.update data lineEnd 0) s
            (lineEnd - lineStart) lineStart then
          printLine fname nameAt dataAt (Function.update data lineEnd 0) lineStart else .ret ())
          (if searchLine (Function.update data lineEnd 0) s (lineEnd - lineStart) lineStart then
            foundText fname (stringAt (Function.update data lineEnd 0) lineStart) else []) () := by
        split
        · exact prints_line htypes hname _ _
        · exact prints_ret img ()
      split at h
      · rename_i hlast
        obtain ⟨rfl, rfl⟩ := Prod.mk.inj (Option.some.inj h)
        have hdone := hfound.bind (f := fun _ => if lineEnd + 1 ≥ last then
            .ret (Function.update data lineEnd 0, 0)
          else lineLoop s fname nameAt dataAt cnt last fuel (lineEnd + 1)
            (Function.update data lineEnd 0)) (by rw [if_pos hlast]; exact prints_ret img _)
        rwa [List.append_nil] at hdone
      · rename_i hlast
        obtain ⟨⟨rest, state'⟩, hrest, hres⟩ := Option.map_eq_some_iff.mp h
        obtain ⟨rfl, rfl⟩ := Prod.mk.inj hres
        refine hfound.bind ?_
        rw [if_neg hlast]
        exact ih hrest

/-! ### The descriptor it reads from -/

def OpenedAt (k : Kernel) (fd : Int32) (d : Dentry) (pos : Nat) : Prop :=
  ∃ i : Nat, fd.toInt = i ∧ 2 ≤ i ∧ i < 8 ∧
    k.currPcb.fdEntry i = ⟨.table (.ofType d.type), d.inode, UInt32.ofNat pos, 1⟩

theorem OpenedAt.sameTable {k k' : Kernel} {fd : Int32} {d : Dentry} {pos : Nat}
    (h : OpenedAt k fd d pos) (hsame : k.SameTable k') : OpenedAt k' fd d pos := by
  obtain ⟨i, hfd, h2, h8, hentry⟩ := h
  exact ⟨i, hfd, h2, h8, (hsame i).trans hentry⟩

/-- A file that is looked up and read as the pure program expects it: the clock, or a regular file. -/
structure Searchable (img : Image) (fname : CString) (d : Dentry) : Prop where
  found : readDentryByName img (some fname) = some d
  kind : OpsTable.ofType d.type ≠ .dir

def contents (img : Image) (d : Dentry) : List UInt8 :=
  if OpsTable.ofType d.type = .file then img.fileContents d.inode.toNat else []

theorem Searchable.answers_read {k : Kernel} {fd : Int32} {d : Dentry} {pos : Nat} (buf : Address)
    (hwf : img.WellFormed) (hd : Searchable img fname d) (h : OpenedAt k fd d pos)
    (hpos : pos ≤ (contents img d).length) {nbytes : Nat} (hn : 0 < nbytes)
    (hmax : nbytes ≤ bufsize) :
    Program.Answers (userWorld img) k (.readFd fd buf (Int32.ofNat nbytes)) fun a k' =>
      match (imageCalls img fname).read pos nbytes with
      | none => a.1 = -1
      | some bytes => a = ((bytes.length : Int), bytes) ∧ OpenedAt k' fd d (pos + bytes.length) ∧
          pos + bytes.length ≤ (contents img d).length ∧
          ∀ i : Nat, fd.toInt = i → k.SameFds k' i := by
  obtain ⟨i, hfd, h2, h8, hentry⟩ := h
  have hsize : bufsize = 1024 := rfl
  have hcount : (Int32.ofNat nbytes).toInt = nbytes := by
    rw [← Int32.ofInt_eq_ofNat, Int32.toInt_ofInt_of_le (by omega) (by omega)]
  simp only [imageCalls, hd.found]
  unfold contents at hpos ⊢
  rcases OpsTable.ofType_cases d.type with ht | ht | ht
  · have hno : OpsTable.ofType d.type ≠ .file := by rw [ht]; decide
    rw [ht] at hentry
    rw [if_neg hno] at hpos ⊢
    rw [if_neg hno]
    refine (answers_read_rtc hfd h8 hentry).mono ?_
    rintro a k' ⟨rfl, hsame⟩
    refine ⟨rfl, ⟨i, hfd, h2, h8, ?_⟩, hpos, fun j _ m _ => hsame m⟩
    rw [hsame i, hentry, ht]
    rfl
  · exact absurd ht hd.kind
  · rw [if_pos ht] at hpos ⊢
    rw [if_pos ht]
    rw [ht] at hentry
    by_cases hbad : d.inode = 0 ∨ img.totalInodes ≤ d.inode
    · rw [if_pos hbad]
      have hat : FileAt k fd d.inode pos := ⟨i, hfd, h8, hentry⟩
      refine (answers_read_badFile hat hbad ?_).mono ?_
      · rw [Int32.lt_iff_toInt_lt, hcount]
        exact Int.natCast_pos.mpr hn
      · rintro a k' ⟨rfl, -⟩
        rfl
    · obtain ⟨h0, hN⟩ := not_or.mp hbad
      rw [if_neg hbad]
      have hn0 : (0 : Int32) ≤ Int32.ofNat nbytes := by
        rw [Int32.le_iff_toInt_le, hcount]
        exact Int.natCast_nonneg _
      refine (answers_read_file buf hwf h0 (UInt32.not_le.mp hN) ⟨i, hfd, h8, hentry⟩ hpos hn0
        (by rw [hcount, Int.toNat_natCast])).mono ?_
      rintro a k' ⟨rfl, ⟨i', hfd', h8', hentry'⟩, hframe⟩
      obtain rfl : i = i' := by omega
      refine ⟨rfl, ⟨i, hfd, h2, h8, ?_⟩, ?_, hframe⟩
      · rw [hentry', ht]
      · rw [List.length_take, List.length_drop]
        omega

theorem imageCalls_read_length {position nbytes : Nat} {bytes : List UInt8}
    (h : (imageCalls img fname).read position nbytes = some bytes) : bytes.length ≤ nbytes := by
  simp only [imageCalls] at h
  split at h
  · exact absurd h (by simp)
  · split at h
    · split at h
      · exact absurd h (by simp)
      · rw [← Option.some.inj h]
        exact List.length_take_le _ _
    · rw [← Option.some.inj h]
      exact Nat.zero_le _

/-! ### One file over the kernel -/

def LeavesClosed (k k' : Kernel) (fd : Int32) : Prop :=
  ∀ i : Nat, fd.toInt = i → (k'.currPcb.fdEntry i).flags = 0 ∧ k.SameFds k' i

theorem OpenedAt.answers_close {k : Kernel} {fd : Int32} {d : Dentry} {pos : Nat}
    (h : OpenedAt k fd d pos) : Program.Answers (userWorld img) k (.closeFd fd) fun a k' =>
      a = (0, []) ∧ LeavesClosed k k' fd := by
  obtain ⟨i, hfd, h2, h8, hentry⟩ := h
  refine (MyLinuxOS.answers_close hfd h2 h8 hentry (OpsTable.ofType_cases _)).mono ?_
  rintro a k' ⟨rfl, hflags, hframe⟩
  refine ⟨rfl, fun j hj => ?_⟩
  obtain rfl : i = j := by omega
  exact ⟨hflags, hframe⟩

theorem LeavesClosed.after {k k₁ k' : Kernel} {fd : Int32} (h : LeavesClosed k₁ k' fd)
    (hframe : ∀ i : Nat, fd.toInt = i → k.SameFds k₁ i) : LeavesClosed k k' fd :=
  fun i hi => ⟨(h i hi).1, (hframe i hi).trans (h i hi).2⟩

/-- The outer loop against the pure one: by induction on its turns, with the position of the
descriptor in step. -/
theorem grepLoop_runs (hwf : img.WellFormed)
    (htypes : ∀ name d, readDentryByName img (some name) = some d → d.type ≤ 2)
    (hname : fname.strlen < 2147483648) {d : Dentry} (hd : Searchable img fname d) {fd : Int32}
    {turns position last : Nat} {data : Buffer} {text : List UInt8} {r : Int}
    (h : grepLoop (imageCalls img fname) s fname turns position last data = some (text, r))
    (hlast : last < bufsize) {k : Kernel} (hk : FdInv k) (hat : OpenedAt k fd d position)
    (hpos : position ≤ (contents img d).length) :
    (Program.loop (fileTurn s fname nameAt dataAt fd) turns (data, last)).Ensures (userWorld img)
      (fun trace v k' => (written trace = text ∧ v = r) ∧ (r = 0 → LeavesClosed k k' fd) ∧
        FdInv k') k := by
  induction turns generalizing position last data text r k with
  | zero => exact absurd h (by simp [grepLoop])
  | succ turns ih =>
    rw [grepLoop] at h
    rw [Program.loop]
    refine Program.Ensures.bind (Program.Answers.call (hk.answers htypes
      (hd.answers_read (dataAt last) hwf hat hpos (Nat.sub_pos_of_lt hlast) (Nat.sub_le ..))) ?_)
    rintro a k₁ ⟨hread, hk₁⟩
    cases hbytes : (imageCalls img fname).read position (bufsize - last) with
    | none =>
      rw [hbytes] at h hread
      obtain ⟨rfl, rfl⟩ := Prod.mk.inj (Option.some.inj h)
      simp only at hread
      simp only [if_pos hread]
      have hprint := (prints_fdputs htypes textAddress (s := fileReadFailed) (by decide)).bind
        (f := fun _ => .ret (.inr (-1) : (Buffer × Nat) ⊕ Int)) (prints_ret img _)
      refine (hprint k₁ hk₁).mono ?_
      rintro trace v k₂ ⟨⟨htrace, rfl⟩, -, hk₂⟩
      refine ⟨⟨?_, rfl⟩, fun h0 => absurd h0 (by decide), hk₂⟩
      rw [List.append_nil, written_readFd, htrace]
      rfl
    | some bytes =>
      rw [hbytes] at h hread
      obtain ⟨rfl, hat₁, hpos₁, hframe⟩ := hread
      have hfits := imageCalls_read_length hbytes
      simp only [bind, Option.bind] at h
      obtain ⟨text₁, data₁, last₁, hline, hroom⟩ := lineLoop_returns s fname bytes.length
        (last + bytes.length) (last + bytes.length + 1) 0 (storeChunk data last bytes) (by omega)
        (by omega)
      simp only [hline] at h
      have hchunk := prints_lineLoop htypes hname nameAt dataAt hline
      simp only [Int.toNat_natCast]
      rw [if_neg (by omega)]
      refine Program.Ensures.bind ((hchunk k₁ hk₁).mono ?_)
      rintro trace state k₂ ⟨⟨htrace, rfl⟩, hsame, hk₂⟩
      have hframe₂ : ∀ i : Nat, fd.toInt = i → k.SameFds k₂ i :=
        fun i hi => (hframe i hi).trans (hsame.sameFds i)
      have hat₂ := hat₁.sameTable hsame
      by_cases hend : bytes.length = 0
      · rw [if_pos hend] at h ⊢
        have hcloses : (imageCalls img fname).closeFile = 0 := rfl
        rw [if_neg (by rw [hcloses]; decide)] at h
        obtain ⟨rfl, rfl⟩ := Prod.mk.inj (Option.some.inj h)
        refine Program.Answers.call (hk₂.answers htypes hat₂.answers_close) ?_
        rintro c k₃ ⟨⟨rfl, hclosed⟩, hk₃⟩
        rw [if_neg (by decide)]
        refine ⟨⟨?_, rfl⟩, fun _ => hclosed.after hframe₂, hk₃⟩
        simp only [written_append, written_readFd, written_closeFd, written_nil, List.append_nil]
        exact htrace
      · rw [if_neg hend] at h ⊢
        obtain ⟨⟨text₂, r₂⟩, hrest, hres⟩ := Option.map_eq_some_iff.mp h
        obtain ⟨rfl, rfl⟩ := Prod.mk.inj hres
        refine (ih hrest hroom hk₂ hat₂ hpos₁).mono ?_
        rintro trace' v k₃ ⟨⟨htrace', rfl⟩, hleaves, hk₃⟩
        refine ⟨⟨?_, rfl⟩, fun h0 => (hleaves h0).after hframe₂, hk₃⟩
        simp only [written_append, written_readFd, List.append_nil]
        rw [htrace, htrace']

theorem imageCalls_missing (hd : readDentryByName img (some fname) = none) :
    (imageCalls img fname).openFile fname = -1 := by
  simp only [imageCalls, hd]
  rfl

theorem imageCalls_opens {d : Dentry} (hd : readDentryByName img (some fname) = some d) :
    (imageCalls img fname).openFile fname ≠ -1 := by
  simp only [imageCalls, hd, Option.isSome_some, if_true]
  decide

theorem doOneFile_runs (hwf : img.WellFormed)
    (htypes : ∀ name d, readDentryByName img (some name) = some d → d.type ≤ 2)
    (hname : fname.strlen < 2147483648) (hne : fname.strlen ≠ 0)
    (hkind : ∀ d, readDentryByName img (some fname) = some d → OpsTable.ofType d.type ≠ .dir)
    {data : Buffer} {turns : Nat} {text : List UInt8} {r : Int}
    (h : MyLinuxOS.doOneFile (imageCalls img fname) s fname data turns = some (text, r))
    {k : Kernel} (hk : FdInv k) {j : Nat} (h2 : 2 ≤ j) (h8 : j < 8)
    (hfree : (k.currPcb.fdEntry j).flags = 0) :
    (doOneFile s fname nameAt dataAt data turns).Ensures (userWorld img) (fun trace v k' =>
      (written trace = text ∧ v = r) ∧
      (r = 0 → ∃ i, k.LowestFree i ∧ (k'.currPcb.fdEntry i).flags = 0 ∧ k.SameFds k' i) ∧
      FdInv k') k := by
  unfold MyLinuxOS.doOneFile at h
  refine Program.Answers.call (hk.answers htypes (answers_open htypes fname)) ?_
  rintro f k₁ ⟨⟨hwhy, rfl, hsame⟩ | ⟨d, i, -, hd, hlow, rfl, hentry, hframe⟩, hk₁⟩
  · have hmiss : readDentryByName img (some fname) = none := by
      rcases hwhy with hempty | hmiss | hfull
      · exact absurd hempty hne
      · exact hmiss
      · exact absurd hfree (hfull j h2 h8)
    rw [if_pos (imageCalls_missing hmiss)] at h
    obtain ⟨rfl, rfl⟩ := Prod.mk.inj (Option.some.inj h)
    have hprint := (prints_fdputs htypes textAddress (s := fileOpenFailed) (by decide)).bind
      (f := fun _ => .ret (-1 : Int)) (prints_ret img _)
    simp only [if_pos]
    refine (hprint k₁ hk₁).mono ?_
    rintro trace v k₂ ⟨⟨htrace, rfl⟩, -, hk₂⟩
    refine ⟨⟨?_, rfl⟩, fun h0 => absurd h0 (by decide), hk₂⟩
    rw [written_openName.trans htrace, List.append_nil]
    rfl
  · rw [if_neg (imageCalls_opens hd)] at h
    have hi8 := hlow.2.1
    have hfd : (Int32.ofInt i).toInt = i := Int32.toInt_ofInt_of_le (by omega) (by omega)
    have hat : OpenedAt k₁ (Int32.ofInt i) d 0 := ⟨i, hfd, hlow.1, hi8, hentry⟩
    simp only
    rw [if_neg (by omega)]
    refine (grepLoop_runs hwf htypes hname ⟨hd, hkind d hd⟩ h (Nat.zero_lt_succ _) hk₁ hat
      (Nat.zero_le _)).mono ?_
    rintro trace v k₂ ⟨⟨htrace, rfl⟩, hleaves, hk₂⟩
    refine ⟨⟨written_openName.trans htrace, rfl⟩, fun h0 => ?_, hk₂⟩
    obtain ⟨hclosed, hframe'⟩ := hleaves h0 i hfd
    exact ⟨i, hlow, hclosed, hframe.trans hframe'⟩

theorem doOneFile_returns (img : Image) (s fname : CString) (data : Buffer) :
    ∃ r enough, ∀ turns ≥ enough,
      MyLinuxOS.doOneFile (imageCalls img fname) s fname data turns = some r := by
  cases hd : readDentryByName img (some fname) with
  | none =>
    exact ⟨_, 0, fun turns _ => by rw [MyLinuxOS.doOneFile, if_pos (imageCalls_missing hd)]⟩
  | some d =>
    have hopens := imageCalls_opens hd
    by_cases hbad : OpsTable.ofType d.type = .file ∧ (d.inode = 0 ∨ img.totalInodes ≤ d.inode)
    · refine ⟨(fileReadFailed.bytes, -1), 1, fun turns hturns => ?_⟩
      obtain ⟨turns, rfl⟩ := Nat.exists_eq_add_one.mpr hturns
      have hread : (imageCalls img fname).read 0 (bufsize - 0) = none := by
        simp only [imageCalls, hd, if_pos hbad.1, if_pos hbad.2]
      rw [MyLinuxOS.doOneFile, if_neg hopens, grepLoop, hread]
      rfl
    · have hreads : ∀ position nbytes, (imageCalls img fname).read position nbytes =
          some (((contents img d).drop position).take nbytes) := by
        intro position nbytes
        simp only [imageCalls, hd, contents]
        split
        · rename_i hfile
          rw [if_neg fun h => hbad ⟨hfile, h⟩]
        · rw [List.drop_nil, List.take_nil]
      have hwhole : ((contents img d).drop 0).length = (contents img d).length := rfl
      obtain ⟨r, hr⟩ := grepLoop_returns s fname hreads hwhole (Nat.zero_lt_succ _) data
      refine ⟨r, (contents img d).length + 1, fun turns hturns => ?_⟩
      rw [MyLinuxOS.doOneFile, if_neg hopens]
      exact hr turns (by omega)

/-! ### The directory -/

theorem storedName_getElem (d : Dentry) (buf : Buffer) {i : Nat} (hi : i < d.name.length) :
    storeChunk buf 0 (List.ofFn d.fileName) i = d.name[i] := by
  have hlen : (List.ofFn d.fileName).length = 32 := List.length_ofFn
  have hle := d.name_le
  have hget : d.name[i] = (List.ofFn d.fileName)[i] := (List.takeWhile_prefix _).getElem hi
  rw [storeChunk, if_pos (Nat.zero_le _), Nat.sub_zero, List.getD_eq_getElem _ _ (by omega), hget]

theorem storedName_head (d : Dentry) (buf : Buffer) (hne : d.name ≠ []) :
    storeChunk buf 0 (List.ofFn d.fileName) 0 = 46 ↔ d.name.head? = some 46 := by
  have hpos := List.length_pos_of_ne_nil hne
  rw [storedName_getElem d buf hpos, List.head?_eq_getElem?, List.getElem?_eq_getElem hpos,
    Option.some.injEq]

/-- `buf[cnt] = '\0'` makes the name a string, also a name of 32 bytes. -/
theorem storedName_string (img : Image) (i : Nat) (buf : Buffer) :
    arrayString (Function.update (storeChunk buf 0 (List.ofFn (img.dentries i).fileName))
      (img.dentries i).name.length 0) 33 = entryName img i := by
  have hholds : HoldsString (Function.update (storeChunk buf 0
      (List.ofFn (img.dentries i).fileName)) (img.dentries i).name.length 0) 0
      (img.dentries i).name := by
    refine ⟨fun j hj => ?_, ?_⟩
    · rw [Nat.zero_add, Function.update_of_ne (Nat.ne_of_lt hj)]
      exact storedName_getElem _ buf hj
    · rw [Nat.zero_add]
      exact Function.update_self ..
  exact CString.eq_of_bytes (arrayString_eq hholds (entryName img i).noNul
    (Nat.lt_succ_of_le (img.dentries i).name_le))

theorem searchEntries_returns (img : Image) (s : CString) (junk : Nat → Buffer) (n pos : Nat) :
    ∃ result enough, ∀ turns ≥ enough, searchEntries img s junk turns n pos = some result := by
  induction n generalizing pos with
  | zero => exact ⟨_, 0, fun turns _ => rfl⟩
  | succ n ih =>
    obtain ⟨rest, enough, hrest⟩ := ih (pos + 1)
    obtain ⟨⟨text, r⟩, enough', hfile⟩ := doOneFile_returns img s (entryName img pos) (junk pos)
    by_cases hempty : (img.dentries pos).name = []
    · exact ⟨_, 0, fun turns _ => by rw [searchEntries, if_pos hempty]⟩
    · by_cases hdot : (img.dentries pos).name.head? = some 46
      · refine ⟨rest, enough, fun turns hturns => ?_⟩
        rw [searchEntries, if_neg hempty, if_pos hdot, hrest turns hturns]
      · refine ⟨if r ≠ 0 then (text, 3) else (text ++ rest.1, rest.2), max enough enough',
          fun turns hturns => ?_⟩
        rw [searchEntries, if_neg hempty, if_neg hdot]
        simp only [hfile turns (le_of_max_le_right hturns), bind, Option.bind,
          hrest turns (le_of_max_le_left hturns), Option.map_some]
        split <;> rfl

/-- The state of the run in front of an entry: the directory is open at it, and another descriptor
is free. -/
structure AtEntry (k : Kernel) (fd : Int32) (inode : UInt32) (pos : Nat) : Prop where
  inv : FdInv k
  dir : DirAt k fd inode pos
  free : ∃ j, 2 ≤ j ∧ j < 8 ∧ (k.currPcb.fdEntry j).flags = 0

theorem dirAt_not_free {k : Kernel} {fd : Int32} {inode : UInt32} {pos i : Nat}
    (h : DirAt k fd inode pos) (hfree : (k.currPcb.fdEntry i).flags = 0) : fd.toInt ≠ i := by
  rintro hi
  obtain ⟨m, hfd, -, hentry⟩ := h
  obtain rfl : m = i := by omega
  rw [hentry] at hfree
  have hone : (1 : UInt32) = 0 := hfree
  exact absurd hone (by decide)

theorem AtEntry.after {k k' : Kernel} {fd : Int32} {inode : UInt32} {pos i : Nat}
    (h : DirAt k fd inode pos) (hlow : k.LowestFree i)
    (hclosed : (k'.currPcb.fdEntry i).flags = 0) (hframe : k.SameFds k' i) (hk : FdInv k') :
    AtEntry k' fd inode pos := by
  refine ⟨hk, ?_, i, hlow.1, hlow.2.1, hclosed⟩
  have hother := dirAt_not_free h hlow.2.2.1
  obtain ⟨m, hfd, h8, hentry⟩ := h
  have hne : m ≠ i := by omega
  exact ⟨m, hfd, h8, (hframe m hne).trans hentry⟩

/-- The loop of `main`: by induction on the entries that are left. -/
theorem mainLoop_runs (hwf : img.WellFormed) (htotal : img.totalDentries.toNat ≤ 63)
    (htypes : ∀ name d, readDentryByName img (some name) = some d → d.type ≤ 2)
    (hfiles : NoSubdirectories img)
    (bufAt : Address) (dataAt : Nat → Address) {junk : Nat → Buffer} {fd : Int32} {inode : UInt32}
    {turns n pos fuel : Nat} {buf : Buffer} {result : List UInt8 × Int}
    (hpos : pos + n = img.totalDentries.toNat + 1) (hfuel : n < fuel)
    (h : searchEntries img s junk turns n pos = some result) {k : Kernel}
    (hat : AtEntry k fd inode pos) :
    (Program.loop (mainTurn s bufAt dataAt junk turns fd) fuel (buf, pos)).Ensures (userWorld img)
      (fun trace status _ => written trace = result.1 ∧ status = result.2) k := by
  induction n generalizing pos fuel buf result k with
  | zero =>
    obtain ⟨fuel, rfl⟩ := Nat.exists_eq_add_one.mpr hfuel
    obtain rfl := Option.some.inj h
    rw [Program.loop]
    refine Program.Ensures.bind (Program.Answers.call
      (hat.inv.answers htypes (answers_read_dir img bufAt 32 hat.dir (by omega))) ?_)
    rintro a k₁ ⟨⟨ha, -⟩, hk₁⟩
    rw [if_neg (by omega)] at ha
    subst ha
    have hprint := (prints_fdputs htypes textAddress (s := directoryEntryReadFailed)
      (by decide)).bind (f := fun _ => .ret (.inr 3 : (Buffer × Nat) ⊕ Int)) (prints_ret img _)
    simp only
    rw [if_neg (by decide), if_pos trivial]
    refine (hprint k₁ hk₁).mono ?_
    rintro trace v k₂ ⟨⟨htrace, rfl⟩, -⟩
    refine ⟨?_, rfl⟩
    rw [List.append_nil, written_readFd, htrace, List.append_nil]
  | succ n ih =>
    obtain ⟨fuel, rfl⟩ := Nat.exists_eq_add_one.mpr (Nat.zero_lt_of_lt hfuel)
    have hle : pos ≤ img.totalDentries.toNat := by omega
    rw [searchEntries] at h
    rw [Program.loop]
    refine Program.Ensures.bind (Program.Answers.call
      (hat.inv.answers htypes (answers_read_dir img bufAt 32 hat.dir (by omega))) ?_)
    rintro a k₁ ⟨⟨ha, hframe⟩, hk₁⟩
    rw [if_pos hle] at ha
    obtain ⟨rfl, hdir⟩ := ha
    have hat₁ : AtEntry k₁ fd inode (pos + 1) := by
      obtain ⟨j, h2, h8, hfree⟩ := hat.free
      have hother := dirAt_not_free hat.dir hfree
      obtain ⟨m, hfd, -⟩ := hat.dir
      have hne : j ≠ m := by omega
      exact ⟨hk₁, hdir, j, h2, h8, by rw [hframe m hfd j hne]; exact hfree⟩
    by_cases hempty : (img.dentries pos).name = []
    · rw [if_pos hempty] at h
      obtain rfl := Option.some.inj h
      simp only [hempty, List.length_nil, Int.natCast_zero, if_true]
      exact ⟨rfl, rfl⟩
    · have hlength := List.length_pos_of_ne_nil hempty
      rw [if_neg hempty] at h
      simp only
      rw [if_neg (by omega), if_neg (by omega)]
      by_cases hdot : (img.dentries pos).name.head? = some 46
      · rw [if_pos hdot] at h
        rw [if_pos ((storedName_head _ buf hempty).mpr hdot)]
        refine (ih (by omega) (by omega) h hat₁).mono ?_
        rintro trace v k₂ ⟨htrace, rfl⟩
        exact ⟨written_readFd.trans htrace, rfl⟩
      · rw [if_neg hdot] at h
        rw [if_neg fun hc => hdot ((storedName_head _ buf hempty).mp hc)]
        simp only [Int.toNat_natCast, storedName_string]
        simp only [bind, Option.bind] at h
        split at h
        · exact absurd h (by simp)
        · rename_i res hfile
          obtain ⟨text, r⟩ := res
          have hshort : (entryName img pos).strlen < 2147483648 :=
            Nat.lt_of_le_of_lt (img.dentries pos).name_le (by decide)
          obtain ⟨j, h2, h8, hfree⟩ := hat₁.free
          refine Program.Ensures.bind ((doOneFile_runs hwf htypes hshort hlength.ne'
            (hfiles pos hle hempty hdot) hfile hk₁ h2 h8 hfree).mono ?_)
          rintro trace v k₂ ⟨⟨htrace, rfl⟩, hdone, hk₂⟩
          simp only at h
          by_cases hr : v ≠ 0
          · rw [if_pos hr] at h ⊢
            obtain rfl := Option.some.inj h
            refine ⟨?_, rfl⟩
            rw [List.append_nil, List.append_nil, written_readFd, htrace]
          · rw [if_neg hr] at h ⊢
            obtain ⟨rest, hrest, rfl⟩ := Option.map_eq_some_iff.mp h
            obtain ⟨i, hlow, hclosed, hframe'⟩ := hdone (not_not.mp hr)
            refine (ih (by omega) (by omega) hrest
              (AtEntry.after hat₁.dir hlow hclosed hframe' hk₂)).mono ?_
            rintro trace' v' k₃ ⟨htrace', rfl⟩
            refine ⟨?_, rfl⟩
            rw [List.append_nil, written_append, written_readFd, htrace, htrace']

theorem grepResult_returns (img : Image) (text : CString) (junk : Nat → Buffer) :
    ∃ result enough, ∀ turns ≥ enough, grepResult img text junk turns = some result := by
  by_cases hnil : text.bytes = []
  · exact ⟨_, 0, fun turns _ => by rw [grepResult, if_pos hnil]⟩
  · cases hd : readDentryByName img (some dotName) with
    | none => exact ⟨_, 0, fun turns _ => by rw [grepResult, if_neg hnil, hd]⟩
    | some d =>
      obtain ⟨result, enough, h⟩ := searchEntries_returns img (deliveredArgs text) junk
        (img.totalDentries.toNat + 1) 0
      exact ⟨result, enough, fun turns hturns => by
        rw [grepResult, if_neg hnil, hd]
        exact h turns hturns⟩

/-- `grep` comes back, and writes what the search of the image finds: one file after the other, up
to the first that fails. A full directory ends with a failed read, as in `ls`. -/
theorem grep_searches_directory (hwf : img.WellFormed) (htotal : img.totalDentries.toNat ≤ 63)
    (htypes : ∀ name d, readDentryByName img (some name) = some d → d.type ≤ 2)
    (hdot : ∀ d, readDentryByName img (some dotName) = some d → d.type = 1)
    (hfiles : NoSubdirectories img)
    (text : CString) (hlen : text.strlen < 1024) (junk : Nat → Buffer) :
    ∃ result enough, ∀ turns ≥ enough, grepResult img text junk turns = some result ∧
      ∀ (k : Kernel) (searchAt bufAt : Address) (dataAt : Nat → Address) (search buf : Buffer),
        StdioOnly k → Holds k.currPcb.args text →
        (main searchAt bufAt dataAt junk search buf turns).Ensures (userWorld img)
          (fun trace status _ => written trace = result.1 ∧ status = result.2) k := by
  obtain ⟨result, enough, hresult⟩ := grepResult_returns img text junk
  refine ⟨result, max enough 66, fun turns hturns => ?_⟩
  have hspec := hresult turns (le_of_max_le_left hturns)
  refine ⟨hspec, fun k searchAt bufAt dataAt search buf hk hargs => ?_⟩
  have hsize : (1024 : Int32).toInt = 1024 := rfl
  refine Program.Answers.call
    (hk.inv.answers htypes (answers_getargs hargs (by rw [hsize]; omega))) ?_
  rintro a k₁ ⟨⟨ha, hsame⟩, hk₁⟩
  unfold grepResult at hspec
  by_cases hnil : text.bytes = []
  · rw [if_pos hnil] at ha hspec
    subst ha
    obtain rfl := Option.some.inj hspec
    refine (ensures_message htypes hk₁ (by decide) 3).mono ?_
    rintro trace status - ⟨htrace, rfl⟩
    exact ⟨written_getargs.trans htrace, rfl⟩
  · rw [if_neg hnil] at ha hspec
    obtain ⟨rest, rfl⟩ := ha
    have hlength := squeeze_length_le 32 text.bytes
    have hname : arrayString (storeChunk search 0 (squeezed text ++ 0 :: rest)) 1024 =
        deliveredArgs text := CString.eq_of_bytes
      (arrayString_bytes search (deliveredArgs text).noNul (hlength.trans_lt hlen))
    simp only
    rw [if_neg (not_not.mpr rfl), hname]
    refine Program.Answers.call (hk₁.answers htypes (answers_open htypes _)) ?_
    rintro f k₂ ⟨⟨hwhy, rfl, -⟩ | ⟨d, i, -, hd, hlow, rfl, hentry, hframe⟩, hk₂⟩
    · have hmiss : readDentryByName img (some dotName) = none := by
        rcases hwhy with hempty | hmiss | hfull
        · exact absurd hempty (by decide)
        · exact hmiss
        · have hfree := (hk.sameTable hsame).closed 2 (by decide) (by decide)
          exact absurd hfree (hfull 2 (by decide) (by decide))
      rw [hmiss] at hspec
      obtain rfl := Option.some.inj hspec
      refine (ensures_message htypes hk₂ (by decide) 2).mono ?_
      rintro trace status - ⟨htrace, rfl⟩
      exact ⟨by rw [written_getargs, written_openName, htrace], rfl⟩
    · rw [hd] at hspec
      have h2 := hlow.1
      have h8 := hlow.2.1
      have hfd : (Int32.ofInt i).toInt = i := Int32.toInt_ofInt_of_le (by omega) (by omega)
      rw [hdot d hd] at hentry
      -- 2 was free, so 3 still is
      have hlowest : i = 2 := by
        by_contra hne
        have hfree := (hk.sameTable hsame).closed 2 (by decide) (by decide)
        exact hlow.2.2.2 2 (Nat.le_refl _) (by omega) hfree
      have hfree : (k₂.currPcb.fdEntry 3).flags = 0 := by
        rw [hframe 3 (by omega)]
        exact (hk.sameTable hsame).closed 3 (by decide) (by decide)
      have hat : AtEntry k₂ (Int32.ofInt i) d.inode 0 :=
        ⟨hk₂, ⟨i, hfd, h8, hentry⟩, 3, by decide, by decide, hfree⟩
      simp only
      rw [if_neg (by omega)]
      have henough := le_of_max_le_right hturns
      refine (mainLoop_runs hwf htotal htypes hfiles bufAt dataAt (Nat.zero_add _) (by omega)
        hspec hat).mono ?_
      rintro trace status - ⟨htrace, rfl⟩
      exact ⟨by rw [written_getargs, written_openName, htrace], rfl⟩

theorem sampleImage_noSubdirectories : NoSubdirectories sampleImage := by
  intro i hi hne hdot d hd
  rw [sampleImage_totalDentries] at hi
  have hshell : entryName sampleImage 1 = shellCommand := CString.eq_of_bytes (by decide +kernel)
  rcases (by omega : i = 0 ∨ i = 1 ∨ i = 2) with rfl | rfl | rfl
  · exact absurd (by decide +kernel) hdot
  · rw [hshell, sampleImage_shell] at hd
    obtain rfl := Option.some.inj hd
    decide +kernel
  · exact absurd (by decide +kernel) hne

/-- The sample image has one file that is not a directory, the shell. -/
theorem grep_searches_sample : ∃ result enough, ∀ turns ≥ enough, ∃ k, StdioOnly k ∧
    grepResult sampleImage shellCommand (fun _ _ => 0) turns = some result ∧
    (main textAddress textAddress (fun _ => textAddress) (fun _ _ => 0) (fun _ => 0) (fun _ => 0)
      turns).Ensures (userWorld sampleImage)
        (fun trace status _ => written trace = result.1 ∧ status = result.2) k := by
  obtain ⟨args, d, -⟩ := sampleImage_boots
  have hdot : ∀ d, readDentryByName sampleImage (some dotName) = some d → d.type = 1 := by
    rw [sampleImage_dot]
    rintro d hd
    obtain rfl := Option.some.inj hd
    decide +kernel
  have hstdio := sampleShell_stdioOnly args d
  obtain ⟨result, enough, h⟩ := grep_searches_directory sampleImage_wellFormed
    sampleImage_totalDentries_le sampleImage_types hdot sampleImage_noSubdirectories shellCommand (by decide)
    fun _ _ => 0
  refine ⟨result, enough, fun turns hturns => ?_⟩
  obtain ⟨hresult, hrun⟩ := h turns hturns
  exact ⟨_, hstdio.withArgs shellCommand.bytes, hresult, hrun _ textAddress textAddress
    (fun _ => textAddress) (fun _ => 0) (fun _ => 0) (hstdio.withArgs shellCommand.bytes)
    fun i _ => withArgs_args _ _ i⟩

end
end Grep
end MyLinuxOS
