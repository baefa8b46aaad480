import MyLinuxOS.Files.Descriptors
import MyLinuxOS.Process.Calls

/-! The descriptor table as a finite map from the descriptors 2 to 7 to open files with a position.
The calls of a process that started with two terminal descriptors refine the map's operations. -/

namespace MyLinuxOS
open Foundation

/-! ### The map -/

structure OpenFile where
  kind : OpsTable
  inode : UInt32
  pos : UInt32

abbrev FdNum := {i : Nat // 2 ≤ i ∧ i < 8}

abbrev FdMap := FdNum → Option OpenFile

def OpsTable.ofType (type : UInt32) : OpsTable :=
  if type = 0 then .rtc else if type = 1 then .dir else .file

inductive FdSpec (img : Image) : FdMap → FileCall → Int × List Store → FdMap → Prop
  | opened {m : FdMap} {name : CString} {d : Dentry} {fd : FdNum} : name.strlen ≠ 0 →
      readDentryByName img (some name) = some d → m fd = none → (∀ j < fd, m j ≠ none) →
      FdSpec img m (.openName name) (fd, [])
        (Function.update m fd (some ⟨.ofType d.type, d.inode, 0⟩))
  | notOpened {m : FdMap} {name : CString} : (name.strlen = 0 ∨
      readDentryByName img (some name) = none ∨ ∀ fd, m fd ≠ none) →
      FdSpec img m (.openName name) (-1, []) m
  | closed {m : FdMap} {arg : Int32} {fd : FdNum} {f : OpenFile} : arg.toInt = fd → m fd = some f →
      FdSpec img m (.closeFd arg) (0, []) (Function.update m fd none)
  | notClosed {m : FdMap} {arg : Int32} : (∀ fd : FdNum, arg.toInt = fd → m fd = none) →
      FdSpec img m (.closeFd arg) (-1, []) m
  | read {m : FdMap} {arg : Int32} {buf : UInt32} {nbytes : Int32} {junk : StackBytes} {fd : FdNum}
      {f : OpenFile} {r : Int} {stores : List Store} : arg.toInt = fd → m fd = some f →
      FdSpec img m (.readFd arg buf nbytes junk) (r, stores)
        (Function.update m fd (some { f with pos := f.pos + f.kind.advance r }))
  | readOther {m : FdMap} {arg : Int32} {buf : UInt32} {nbytes : Int32} {junk : StackBytes}
      {o : Int × List Store} : (∀ fd : FdNum, arg.toInt = fd → m fd = none) →
      FdSpec img m (.readFd arg buf nbytes junk) o m
  | interrupt {m : FdMap} {dev : Devices} : FdSpec img m (.interrupt dev) (0, []) m

def FileDescriptor.openFile (e : FileDescriptor) : Option OpenFile :=
  match e.fileOpsTable with
  | .table t => if e.flags = 0 then none else some ⟨t, e.inode, e.filePos⟩
  | .raw _ => none

def Kernel.fdMap (k : Kernel) : FdMap := fun fd => (k.currPcb.fdEntry fd).openFile

structure StdioOnly (k : Kernel) : Prop where
  stdin : k.currPcb.fdEntry 0 = Kernel.stdinEntry
  stdout : k.currPcb.fdEntry 1 = Kernel.stdoutEntry
  closed : ∀ i, 2 ≤ i → i < 8 → (k.currPcb.fdEntry i).flags = 0

/-! ### The invariant -/

def FileDescriptor.Usable (e : FileDescriptor) : Prop :=
  e.flags = 0 ∨ e.flags = 1 ∧
    (e.fileOpsTable = .table .rtc ∨ e.fileOpsTable = .table .dir ∨ e.fileOpsTable = .table .file)

structure FdInv (k : Kernel) : Prop where
  stdin : k.currPcb.fdEntry 0 = Kernel.stdinEntry
  stdout : k.currPcb.fdEntry 1 = Kernel.stdoutEntry
  usable : ∀ i, 2 ≤ i → i < 8 → (k.currPcb.fdEntry i).Usable

theorem StdioOnly.inv {k : Kernel} (h : StdioOnly k) : FdInv k :=
  ⟨h.stdin, h.stdout, fun i h2 h8 => .inl (h.closed i h2 h8)⟩

theorem FileDescriptor.Usable.table {e : FileDescriptor} (h : e.Usable) (hopen : e.flags ≠ 0) :
    e.flags = 1 ∧ ∃ t, e.fileOpsTable = .table t := by
  rcases h with h0 | ⟨h1, ht | ht | ht⟩
  · exact absurd h0 hopen
  · exact ⟨h1, _, ht⟩
  · exact ⟨h1, _, ht⟩
  · exact ⟨h1, _, ht⟩

theorem FileDescriptor.openFile_of_flags {e : FileDescriptor} (h : e.flags = 0) :
    e.openFile = none := by
  unfold FileDescriptor.openFile
  split
  · rw [if_pos h]
  · rfl

theorem FileDescriptor.openFile_of_table {e : FileDescriptor} {t : OpsTable} (h : e.flags ≠ 0)
    (ht : e.fileOpsTable = .table t) : e.openFile = some ⟨t, e.inode, e.filePos⟩ := by
  unfold FileDescriptor.openFile
  rw [ht]
  exact if_neg h

theorem FileDescriptor.Usable.openFile_eq_none {e : FileDescriptor} (h : e.Usable) :
    e.openFile = none ↔ e.flags = 0 := by
  constructor
  · intro hnone
    by_contra hopen
    obtain ⟨-, t, ht⟩ := h.table hopen
    rw [FileDescriptor.openFile_of_table hopen ht] at hnone
    exact absurd hnone (by simp)
  · exact FileDescriptor.openFile_of_flags

section
variable {k : Kernel} {i : Nat} {e : FileDescriptor}

theorem fdMap_setFd (h : 2 ≤ i ∧ i < 8) :
    (k.setFd i e).fdMap = Function.update k.fdMap ⟨i, h⟩ e.openFile := by
  funext fd
  by_cases hfd : fd = ⟨i, h⟩
  · subst hfd
    rw [Function.update_self, Kernel.fdMap, Kernel.setFd_entry_self h.2]
  · have hne : fd.val ≠ i := fun he => hfd (Subtype.ext he)
    rw [Function.update_of_ne hfd, Kernel.fdMap, Kernel.setFd_entry_of_ne h.2 hne]
    rfl

theorem FdInv.setFd (h : FdInv k) (h2 : 2 ≤ i) (h8 : i < 8) (he : e.Usable) :
    FdInv (k.setFd i e) := by
  constructor
  · rw [Kernel.setFd_entry_of_ne h8 (by omega)]
    exact h.stdin
  · rw [Kernel.setFd_entry_of_ne h8 (by omega)]
    exact h.stdout
  · intro j hj2 hj8
    by_cases hji : j = i
    · subst hji
      rw [Kernel.setFd_entry_self h8]
      exact he
    · rw [Kernel.setFd_entry_of_ne h8 hji]
      exact h.usable j hj2 hj8

theorem FdInv.free_iff (h : FdInv k) (fd : FdNum) :
    k.fdMap fd = none ↔ (k.currPcb.fdEntry fd).flags = 0 :=
  (h.usable fd fd.2.1 fd.2.2).openFile_eq_none

theorem opsTableFor_eq {type : UInt32} (h : type ≤ 2) (previous : OpsPtr) :
    opsTableFor type previous = .table (OpsTable.ofType type) := by
  have htwo : type ≠ 0 → type ≠ 1 → type = 2 := by
    intro h0 h1
    have hle := UInt32.le_iff_toNat_le.mp h
    have h0' : type.toNat ≠ 0 := fun he => h0 (UInt32.toNat_inj.mp he)
    have h1' : type.toNat ≠ 1 := fun he => h1 (UInt32.toNat_inj.mp he)
    have hlit : (2 : UInt32).toNat = 2 := rfl
    exact UInt32.toNat_inj.mp (by omega)
  unfold opsTableFor OpsTable.ofType
  by_cases h0 : type = 0
  · rw [if_pos h0, if_pos h0]
  · by_cases h1 : type = 1
    · rw [if_neg h0, if_pos h1, if_neg h0, if_pos h1]
    · rw [if_neg h0, if_neg h1, if_pos (htwo h0 h1), if_neg h0, if_neg h1]

end

/-! ### Steps -/

section
variable {img : Image} {k k' : Kernel} {o : Int × List Store}

theorem FdInv.openName (htypes : ∀ name d, readDentryByName img (some name) = some d → d.type ≤ 2)
    {name : CString} (h : FdInv k) (hstep : fileCalls img k (.openName name) = some (o, k')) :
    FdInv k' ∧ FdSpec img k.fdMap (.openName name) o k'.fdMap := by
  obtain ⟨r, stores⟩ := o
  rcases syscallOpen_cases (fileCalls_eq_some.mp hstep) with ⟨hwhy, he⟩ |
    ⟨d, i, hname, hd, ⟨h2, h8, hfree, hmin⟩, he⟩
  · obtain ⟨hr, rfl, rfl⟩ := Left.mk.inj he
    obtain rfl := Exit.ret.inj hr
    refine ⟨h, .notOpened ?_⟩
    rcases hwhy with hempty | hmiss | hfull
    · exact .inl hempty
    · exact .inr (.inl hmiss)
    · exact .inr (.inr fun fd hnone => hfull fd fd.2.1 fd.2.2 ((h.free_iff fd).mp hnone))
  · obtain ⟨hr, rfl, rfl⟩ := Left.mk.inj he
    obtain rfl := Exit.ret.inj hr
    rw [opsTableFor_eq (htypes name d hd)]
    constructor
    · refine h.setFd h2 h8 (.inr ⟨rfl, ?_⟩)
      unfold OpsTable.ofType
      split
      · exact .inl rfl
      · split
        · exact .inr (.inl rfl)
        · exact .inr (.inr rfl)
    · have hopen : (1 : UInt32) ≠ 0 := by decide
      rw [fdMap_setFd ⟨h2, h8⟩, FileDescriptor.openFile_of_table hopen rfl]
      refine .opened hname hd ((h.free_iff ⟨i, h2, h8⟩).mpr hfree) ?_
      intro j hj hnone
      exact hmin j j.2.1 hj ((h.free_iff j).mp hnone)

theorem FdInv.closeFd {arg : Int32} (h : FdInv k)
    (hstep : fileCalls img k (.closeFd arg) = some (o, k')) :
    FdInv k' ∧ FdSpec img k.fdMap (.closeFd arg) o k'.fdMap := by
  obtain ⟨r, stores⟩ := o
  rcases syscallClose_cases (fileCalls_eq_some.mp hstep) with ⟨hwhy, he⟩ |
    ⟨i, hi, h2, h8, hopen, he⟩
  · obtain ⟨hr, rfl, rfl⟩ := Left.mk.inj he
    obtain rfl := Exit.ret.inj hr
    refine ⟨h, .notClosed fun fd hfd => (h.free_iff fd).mpr ?_⟩
    by_contra hflag
    exact hwhy fd hfd fd.2.1 fd.2.2 ((h.usable fd fd.2.1 fd.2.2).table hflag).1
  · obtain ⟨hr, rfl, rfl⟩ := Left.mk.inj he
    obtain rfl := Exit.ret.inj hr
    refine ⟨h.setFd h2 h8 (.inl rfl), ?_⟩
    have hflag : (k.currPcb.fdEntry i).flags ≠ 0 := by rw [hopen]; decide
    obtain ⟨-, t, ht⟩ := (h.usable i h2 h8).table hflag
    rw [fdMap_setFd ⟨h2, h8⟩, FileDescriptor.openFile_of_flags rfl]
    exact .closed hi (FileDescriptor.openFile_of_table hflag ht)

theorem FdSpec.refusedRead {m : FdMap} {arg : Int32} {buf : UInt32} {nbytes : Int32}
    {junk : StackBytes} : FdSpec img m (.readFd arg buf nbytes junk) (-1, []) m := by
  by_cases hfd : ∀ fd : FdNum, arg.toInt = fd → m fd = none
  · exact .readOther hfd
  · rw [not_forall] at hfd
    obtain ⟨fd, hfd⟩ := hfd
    rw [Classical.not_imp] at hfd
    obtain ⟨hargs, hopen⟩ := hfd
    obtain ⟨f, hf⟩ := Option.ne_none_iff_exists'.mp hopen
    have hstay : f.pos + f.kind.advance (-1) = f.pos := by
      cases hkind : f.kind <;> exact UInt32.add_zero _
    have hspec : FdSpec img m (.readFd arg buf nbytes junk) (-1, [])
        (Function.update m fd (some { f with pos := f.pos + f.kind.advance (-1) })) :=
      .read hargs hf
    rwa [hstay, ← hf, Function.update_eq_self] at hspec

theorem FdInv.readFd {arg : Int32} {buf : UInt32} {nbytes : Int32} {junk : StackBytes} (h : FdInv k)
    (hstep : fileCalls img k (.readFd arg buf nbytes junk) = some (o, k')) :
    FdInv k' ∧ FdSpec img k.fdMap (.readFd arg buf nbytes junk) o k'.fdMap := by
  obtain ⟨r, stores⟩ := o
  rcases syscallRead_cases (fileCalls_eq_some.mp hstep) with ⟨-, he⟩ |
    ⟨i, e, t, -, hd, h8, ht, hread⟩
  · obtain ⟨hr, rfl, rfl⟩ := Left.mk.inj he
    obtain rfl := Exit.ret.inj hr
    exact ⟨h, .refusedRead⟩
  · obtain ⟨hargs, -, rfl, hopen⟩ := dispatch_eq_some.mp hd
    obtain ⟨r', dev, hr, hk⟩ := readFn_effect h8 hread
    obtain rfl := Exit.ret.inj hr
    obtain rfl : k' = _ := hk
    -- a descriptor of the map keeps its file, and its position is moved
    by_cases h2 : 2 ≤ i
    · have hnew := h.setFd h2 h8 (e := { k.currPcb.fdEntry i with
        filePos := (k.currPcb.fdEntry i).filePos + t.advance r }) (h.usable i h2 h8)
      have hf : k.fdMap ⟨i, h2, h8⟩ =
          some ⟨t, (k.currPcb.fdEntry i).inode, (k.currPcb.fdEntry i).filePos⟩ :=
        FileDescriptor.openFile_of_table hopen ht
      have hf' : FileDescriptor.openFile { k.currPcb.fdEntry i with
          filePos := (k.currPcb.fdEntry i).filePos + t.advance r } = some ⟨t,
            (k.currPcb.fdEntry i).inode, (k.currPcb.fdEntry i).filePos + t.advance r⟩ :=
        FileDescriptor.openFile_of_table hopen ht
      refine ⟨⟨hnew.stdin, hnew.stdout, hnew.usable⟩, ?_⟩
      change FdSpec img k.fdMap _ _ (k.setFd i _).fdMap
      rw [fdMap_setFd ⟨h2, h8⟩, hf']
      exact .read hargs hf
    · -- the terminal descriptors have no position
      have hstill : t.advance r = 0 := by
        rcases (by omega : i = 0 ∨ i = 1) with rfl | rfl
        · rw [h.stdin] at ht
          obtain rfl := OpsPtr.table.inj ht
          rfl
        · rw [h.stdout] at ht
          obtain rfl := OpsPtr.table.inj ht
          rfl
      rw [hstill, Kernel.setFd_filePos_zero h8]
      refine ⟨⟨h.stdin, h.stdout, h.usable⟩, .readOther fun fd hfd => ?_⟩
      have hlow := fd.2.1
      omega

theorem FdInv.step (htypes : ∀ name d, readDentryByName img (some name) = some d → d.type ≤ 2)
    {c : FileCall} (h : FdInv k) (hstep : fileCalls img k c = some (o, k')) :
    FdInv k' ∧ FdSpec img k.fdMap c o k'.fdMap := by
  cases c with
  | openName name => exact h.openName htypes hstep
  | closeFd fd => exact h.closeFd hstep
  | readFd fd buf nbytes junk => exact h.readFd hstep
  | interrupt dev =>
    obtain ⟨r, stores⟩ := o
    obtain ⟨hr, rfl, rfl⟩ := Left.mk.inj (Except.ok.inj (fileCalls_eq_some.mp hstep))
    obtain rfl := Exit.ret.inj hr
    exact ⟨⟨h.stdin, h.stdout, h.usable⟩, .interrupt⟩

end

/-! ### Answers -/

/-- Every call on the process's own files comes back, and an `open` or `close` that fails changes
nothing at all. -/
structure Responds (img : Image) (k : Kernel) : Prop where
  opens : ∀ name, ∃ o k', fileCalls img k (.openName name) = some (o, k') ∧ (o.1 = -1 → k' = k)
  closes : ∀ arg : Int32, arg.toInt ≠ 8 →
    ∃ o k', fileCalls img k (.closeFd arg) = some (o, k') ∧ (o.1 = -1 → k' = k)
  reads : ∀ (arg : Int32) (fd : FdNum) (f : OpenFile), arg.toInt = fd → k.fdMap fd = some f →
    f.kind = .dir ∨ f.kind = .file → ∀ buf nbytes junk,
      ∃ o k', fileCalls img k (.readFd arg buf nbytes junk) = some (o, k')

section
variable {img : Image} {k : Kernel}

theorem syscallOpen_ok (img : Image) (name : CString) (k : Kernel) :
    ∃ left, syscallOpen img (some name) k = .ok left := by
  simp only [syscallOpen]
  split
  · exact ⟨_, rfl⟩
  · split
    · exact ⟨_, rfl⟩
    · split
      · exact ⟨_, rfl⟩
      · exact ⟨_, rfl⟩

theorem FdInv.syscallClose_ok (h : FdInv k) {arg : Int32} (h8 : arg.toInt ≠ 8) :
    ∃ left, syscallClose arg k = .ok left := by
  unfold syscallClose
  cases hidx : Kernel.fdIndex startFd arg with
  | none => exact ⟨_, rfl⟩
  | some i =>
    obtain ⟨hi, h2, hle⟩ := (fdIndex_eq_some (Int.natCast_nonneg startFd)).mp hidx
    have hlt : i < 8 := by omega
    have husable := h.usable i (Int.ofNat_le.mp h2) hlt
    simp only
    split
    · rename_i hopen
      rcases husable with h0 | ⟨-, ht | ht | ht⟩
      · rw [h0] at hopen
        exact absurd hopen (by decide)
      · rw [ht]; exact ⟨_, rfl⟩
      · rw [ht]; exact ⟨_, rfl⟩
      · rw [ht]; exact ⟨_, rfl⟩
    · exact ⟨_, rfl⟩

theorem fdMap_eq_some {fd : FdNum} {f : OpenFile} (h : k.fdMap fd = some f) :
    (k.currPcb.fdEntry fd).flags ≠ 0 ∧ (k.currPcb.fdEntry fd).fileOpsTable = .table f.kind := by
  unfold Kernel.fdMap FileDescriptor.openFile at h
  split at h
  · rename_i t ht
    split at h
    · exact absurd h (by simp)
    · rename_i hopen
      obtain rfl := Option.some.inj h
      exact ⟨hopen, ht⟩
  · exact absurd h (by simp)

theorem fileRead_ok (img : Image) (i : Nat) (buf : UInt32) (nbytes : Int32) (k : Kernel) :
    ∃ r k' stores, fileRead img i buf nbytes k = .ok ⟨.ret r, k', stores⟩ := by
  unfold fileRead
  split
  · exact ⟨_, _, _, rfl⟩
  · simp only
    split
    · exact ⟨_, _, _, rfl⟩
    · exact ⟨_, _, _, rfl⟩

theorem dirRead_ok (img : Image) (i : Nat) (buf : UInt32) (k : Kernel) :
    ∃ r k' stores, dirRead img i buf k = .ok ⟨.ret r, k', stores⟩ := by
  unfold dirRead
  simp only
  split
  · exact ⟨_, _, _, rfl⟩
  · exact ⟨_, _, _, rfl⟩

theorem FdInv.responds (h : FdInv k) : Responds img k where
  opens := fun name => by
    obtain ⟨left, hl⟩ := syscallOpen_ok img name k
    rcases syscallOpen_cases hl with ⟨-, rfl⟩ | ⟨d, i, -, -, -, rfl⟩
    · exact ⟨(-1, []), k, fileCalls_eq_some.mpr hl, fun _ => rfl⟩
    · exact ⟨(i, []), _, fileCalls_eq_some.mpr hl, fun he => absurd he (by simp only; omega)⟩
  closes := fun arg h8 => by
    obtain ⟨left, hl⟩ := h.syscallClose_ok h8
    rcases syscallClose_cases hl with ⟨-, rfl⟩ | ⟨i, -, -, -, -, rfl⟩
    · exact ⟨(-1, []), k, fileCalls_eq_some.mpr hl, fun _ => rfl⟩
    · exact ⟨(0, []), _, fileCalls_eq_some.mpr hl, fun he => absurd he (by decide)⟩
  reads := fun arg fd f hargs hf hkind buf nbytes junk => by
    obtain ⟨hopen, ht⟩ := fdMap_eq_some hf
    have hd : k.dispatch arg = some (fd.1, k.currPcb.fdEntry fd) :=
      dispatch_eq_some.mpr ⟨hargs, Nat.le_of_lt fd.2.2, rfl, hopen⟩
    by_cases hb : buf = 0
    · refine ⟨(-1, []), k, fileCalls_eq_some.mpr ?_⟩
      simp only [FileCall.enter, syscallRead, if_pos hb]
      rfl
    · have hread := syscallRead_eq img junk nbytes hb hd ht
      rcases hkind with hdir | hfile
      · obtain ⟨r, k', stores, hl⟩ := dirRead_ok img fd buf k
        rw [hdir] at hread
        exact ⟨(r, stores), k', fileCalls_eq_some.mpr (hread.trans hl)⟩
      · obtain ⟨r, k', stores, hl⟩ := fileRead_ok img fd buf nbytes k
        rw [hfile] at hread
        exact ⟨(r, stores), k', fileCalls_eq_some.mpr (hread.trans hl)⟩

end

/-- Along every run of its calls, the table of a process refines the map, its terminal descriptors
stay as they are, and every further call is answered. What is read goes to the program's page. -/
theorem fd_table_refines_map {img : Image} {k k' : Kernel} {calls : List FileCall}
    {answers : List (Int × List Store)}
    (htypes : ∀ name d, readDentryByName img (some name) = some d → d.type ≤ 2)
    (hstart : StdioOnly k) (hrun : (fileCalls img).run k calls = some (answers, k')) :
    Machine.SpecRun (FdSpec img) (fun _ => none) calls answers k'.fdMap ∧
      k'.currPcb.fdEntry 0 = Kernel.stdinEntry ∧ k'.currPcb.fdEntry 1 = Kernel.stdoutEntry ∧
      Responds img k' := by
  have hempty : k.fdMap = fun _ => none := by
    funext fd
    exact FileDescriptor.openFile_of_flags (hstart.closed fd fd.2.1 fd.2.2)
  obtain ⟨hinv, hspec⟩ := Machine.run_refines FdInv Kernel.fdMap
    (fun _ _ _ _ hk hstep => hk.step htypes hstep) hstart.inv hrun
  rw [hempty] at hspec
  exact ⟨hspec, hinv.stdin, hinv.stdout, hinv.responds⟩

theorem StdioOnly.open_eq (img : Image) {k : Kernel} (h : StdioOnly k) {name : CString} {d : Dentry}
    (hname : name.strlen ≠ 0) (hd : readDentryByName img (some name) = some d) :
    syscallOpen img (some name) k = .ok ⟨.ret 2, k.setFd 2
      { fileOpsTable := opsTableFor d.type (k.currPcb.fdEntry 2).fileOpsTable
        inode := d.inode
        filePos := 0
        flags := 1 }, []⟩ := by
  have hfree : firstFrom (fun i => (k.currPcb.fdEntry i).flags = 0) (maxNumFd - startFd) startFd =
      some 2 := by
    refine firstFrom_eq_some_iff.mpr
      ⟨Nat.le_refl _, by decide, h.closed 2 (by decide) (by decide), ?_⟩
    exact fun j h2 hj => absurd hj (Nat.not_lt.mpr h2)
  simp only [syscallOpen, if_neg hname, hd, hfree]
  rfl

def dotName : CString := ⟨[46], CString.noNul_of_all rfl⟩

theorem sampleImage_types (name : CString) (d : Dentry)
    (h : readDentryByName sampleImage (some name) = some d) : d.type ≤ 2 := by
  have hall : ∀ i < bootSize, (sampleImage.denPtr i).type ≤ 2 := by decide +kernel
  simp only [readDentryByName] at h
  split at h
  · exact absurd h (by simp)
  · obtain ⟨i, hi, rfl⟩ := Option.map_eq_some_iff.mp h
    exact hall i (firstFrom_eq_some_iff.mp hi).2.1

theorem sampleShell_stdioOnly (args : Nat → UInt8) (d : Dentry) :
    StdioOnly (sampleShell (initTerminal samplePowerOn) 0 args d) where
  stdin := rfl
  stdout := rfl
  closed := fun i h2 h8 => by
    rcases (by omega : i = 2 ∨ i = 3 ∨ i = 4 ∨ i = 5 ∨ i = 6 ∨ i = 7) with
      rfl | rfl | rfl | rfl | rfl | rfl <;> rfl

theorem sampleImage_finds {name : CString} {i : Nat} (hshort : ¬ name.strlen > filenameMaxLength)
    (hfound : firstFrom (fun i => strncmp name.charAt
      (fun j => sampleImage.byte (dentrySize * (i + 1) + j)) filenameMaxLength 0 = 0) bootSize 0 =
        some i) : readDentryByName sampleImage (some name) = some (sampleImage.denPtr i) := by
  simp only [readDentryByName, if_neg hshort, hfound]
  rfl

theorem sampleImage_dot :
    readDentryByName sampleImage (some dotName) = some (sampleImage.denPtr 0) :=
  sampleImage_finds (by decide) (by decide +kernel)

theorem sampleImage_shell :
    readDentryByName sampleImage (some shellCommand) = some (sampleImage.denPtr 1) :=
  sampleImage_finds (by decide) (by decide +kernel)

theorem sampleImage_opens {name : CString} {d : Dentry} (hname : name.strlen ≠ 0)
    (hd : readDentryByName sampleImage (some name) = some d) : ∃ k₀ k, Boots sampleImage k₀ ∧
      syscallOpen sampleImage (some name) k₀ = .ok ⟨.ret 2, k, []⟩ ∧
      k.currPcb.fdEntry 2 = ⟨.table (.ofType d.type), d.inode, 0, 1⟩ := by
  obtain ⟨args, d', hboot⟩ := sampleImage_boots
  refine ⟨_, _, hboot, (sampleShell_stdioOnly args d').open_eq sampleImage hname hd, ?_⟩
  rw [Kernel.setFd_entry_self (by decide), opsTableFor_eq (sampleImage_types name d hd)]

theorem sampleImage_opens_dir : ∃ k₀ k, Boots sampleImage k₀ ∧
    syscallOpen sampleImage (some dotName) k₀ = .ok ⟨.ret 2, k, []⟩ ∧
    k.currPcb.fdEntry 2 = ⟨.table .dir, 0, 0, 1⟩ := by
  have htype : OpsTable.ofType (sampleImage.denPtr 0).type = .dir := by decide +kernel
  have hinode : (sampleImage.denPtr 0).inode = 0 := by decide +kernel
  obtain ⟨k₀, k, hboot, hopen, hentry⟩ := sampleImage_opens (by decide) sampleImage_dot
  rw [htype, hinode] at hentry
  exact ⟨k₀, k, hboot, hopen, hentry⟩

def missingName : CString := ⟨[47], CString.noNul_of_all rfl⟩

def sampleFileCalls : List FileCall :=
  [.openName dotName, .readFd 2 0x8050000 32 sampleJunk, .openName missingName,
    .openName shellCommand, .closeFd 2, .closeFd 2]

theorem sampleFileCalls_answers (args : Nat → UInt8) (d : Dentry) :
    ((fileCalls sampleImage).run (sampleShell (initTerminal samplePowerOn) 0 args d)
      sampleFileCalls).map (fun r => r.1.map Prod.fst) = some [2, 1, -1, 3, 0, -1] := by
  rfl

theorem booted_shell_refines_map : ∃ k k' answers, Boots sampleImage k ∧
    (fileCalls sampleImage).run k sampleFileCalls = some (answers, k') ∧
    answers.map Prod.fst = [2, 1, -1, 3, 0, -1] ∧
    Machine.SpecRun (FdSpec sampleImage) (fun _ => none) sampleFileCalls answers k'.fdMap := by
  obtain ⟨args, d, hboot⟩ := sampleImage_boots
  have hstart := sampleShell_stdioOnly args d
  obtain ⟨⟨answers, k'⟩, hrun, hvalues⟩ :=
    Option.map_eq_some_iff.mp (sampleFileCalls_answers args d)
  exact ⟨_, k', answers, hboot, hrun, hvalues,
    (fd_table_refines_map sampleImage_types hstart hrun).1⟩

end MyLinuxOS
