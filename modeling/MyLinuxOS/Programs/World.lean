import MyLinuxOS.Foundation.Programs
import MyLinuxOS.Files.Directory
import MyLinuxOS.Process.ArgumentBuffer
import MyLinuxOS.Grep.Search

/-! The kernel as the world of a user program. A program makes system calls, and before each of them
interrupts may have changed the devices in any way; the process on the processor stays the same. A
program's own memory is its local data: what the kernel stores behind the end of an array is taken
to meet nothing the program uses. -/

namespace MyLinuxOS
open Foundation

/-- Where an object of the program lies: never at NULL. -/
structure Address where
  word : UInt32
  ne_zero : word ≠ 0

inductive UserCall
  | openName (name : CString)
  | closeFd (fd : Int32)
  | readFd (fd : Int32) (buf : Address) (nbytes : Int32)
  | writeFd (fd : Int32) (buf : Address) (mem : Buffer) (nbytes : Int32)
  | getargs (buf : Address) (nbytes : Int32)

def UserCall.enter (img : Image) (junk : StackBytes) (k : Kernel) : UserCall → Entry
  | .openName name => syscallOpen img (some name) k
  | .closeFd fd => syscallClose fd k
  | .readFd fd buf nbytes => syscallRead img junk fd buf.word nbytes k
  | .writeFd fd buf mem nbytes => syscallWrite junk fd buf.word mem nbytes k
  | .getargs buf nbytes => syscallGetargs buf.word nbytes k

def UserCall.dest : UserCall → UInt32
  | .readFd _ buf _ | .getargs buf _ => buf.word
  | .openName _ | .closeFd _ | .writeFd _ _ _ _ => 0

abbrev Answer := Int × List UInt8

def Kernel.withDev (k : Kernel) (dev : Devices) : Kernel := { k with dev := dev }

/-- The calls of a program. Interrupts in front of each may change devices, and nothing else. -/
def userWorld (img : Image) : World Kernel UserCall Answer := fun k c a k' =>
  ∃ dev junk, c.enter img junk (k.withDev dev) = .ok ⟨.ret a.1, k', storesAt c.dest a.2⟩

def written (trace : List (UserCall × Answer)) : List UInt8 :=
  trace.flatMap fun
    | (.writeFd fd _ mem nbytes, _) =>
      if fd = 1 then (List.range nbytes.toInt.toNat).map mem else []
    | _ => []

theorem written_append (a b : List (UserCall × Answer)) :
    written (a ++ b) = written a ++ written b := List.flatMap_append ..

section
variable {fd : Int32} {buf : Address} {nbytes : Int32} {a : Answer}
  {trace : List (UserCall × Answer)}

@[simp] theorem written_nil : written [] = [] := rfl

@[simp] theorem written_openName {name : CString} :
    written ((.openName name, a) :: trace) = written trace := rfl

@[simp] theorem written_closeFd : written ((.closeFd fd, a) :: trace) = written trace := rfl

@[simp] theorem written_readFd :
    written ((.readFd fd buf nbytes, a) :: trace) = written trace := rfl

@[simp] theorem written_getargs :
    written ((.getargs buf nbytes, a) :: trace) = written trace := rfl

@[simp] theorem written_writeFd {mem : Buffer} :
    written ((.writeFd 1 buf mem nbytes, a) :: trace) =
      (List.range nbytes.toInt.toNat).map mem ++ written trace := rfl

end

theorem storesAt_inj {buf : UInt32} {bytes bytes' : List UInt8}
    (h : storesAt buf bytes = storesAt buf bytes') : bytes = bytes' := by
  rw [← storesAt_snd buf bytes, h, storesAt_snd]

/-! ### One call -/

def Kernel.SameFds (k k' : Kernel) (i : Nat) : Prop :=
  ∀ j, j ≠ i → k'.currPcb.fdEntry j = k.currPcb.fdEntry j

def Kernel.SameTable (k k' : Kernel) : Prop := ∀ j, k'.currPcb.fdEntry j = k.currPcb.fdEntry j

section
variable {img : Image} {k k' : Kernel} {fd : Int32} {buf : Address}

theorem answers_of_enter {c : UserCall} {P : Answer → Kernel → Prop}
    (hsome : ∃ dev junk left, c.enter img junk (k.withDev dev) = .ok left)
    (hall : ∀ dev junk (left : Left), c.enter img junk (k.withDev dev) = .ok left →
      ∃ a : Answer, left.exit = .ret a.1 ∧ left.stores = storesAt c.dest a.2 ∧ P a left.kernel) :
    Program.Answers (userWorld img) k c P := by
  constructor
  · obtain ⟨dev, junk, left, h⟩ := hsome
    obtain ⟨a, hexit, hstores, -⟩ := hall dev junk left h
    refine ⟨a, left.kernel, dev, junk, ?_⟩
    rw [h, ← hexit, ← hstores]
  · rintro ⟨r, bytes⟩ k' ⟨dev, junk, h⟩
    obtain ⟨⟨r', bytes'⟩, hexit, hstores, hp⟩ := hall dev junk _ h
    obtain rfl : r = r' := Exit.ret.inj hexit
    obtain rfl : bytes = bytes' := storesAt_inj hstores
    exact hp

theorem writeFn_cases {junk : StackBytes} {ops : OpsPtr} {mem : Buffer} {nbytes : Int32}
    {left : Left} (h : writeFn junk ops buf.word mem nbytes k = .ok left) :
    ∃ r dev, left = ⟨.ret r, k.withDev dev, []⟩ := by
  unfold writeFn at h
  split at h
  · exact ⟨_, _, (Except.ok.inj h).symm⟩
  · exact ⟨_, _, (Except.ok.inj h).symm⟩
  · exact ⟨_, k.dev, (Except.ok.inj h).symm⟩
  · exact ⟨_, k.dev, (Except.ok.inj h).symm⟩
  · exact ⟨_, k.dev, (Except.ok.inj h).symm⟩
  · exact absurd h (by simp)

theorem syscallWrite_cases {junk : StackBytes} {mem : Buffer} {nbytes : Int32}
    {left : Left} (h : syscallWrite junk fd buf.word mem nbytes k = .ok left) :
    ∃ r dev, left = ⟨.ret r, k.withDev dev, []⟩ := by
  unfold syscallWrite at h
  split at h
  · exact ⟨_, k.dev, (Except.ok.inj h).symm⟩
  · split at h
    · exact ⟨_, k.dev, (Except.ok.inj h).symm⟩
    · exact writeFn_cases h

theorem fileCalls_of_enter {c : FileCall} {r : Int} {stores : List Store}
    (h : c.enter img k = .ok ⟨.ret r, k', stores⟩) :
    fileCalls img k c = some ((r, stores), k') := fileCalls_eq_some.mpr h

/-- No call takes the terminal descriptors away, and none breaks an entry of the table. -/
theorem FdInv.world (htypes : ∀ name d, readDentryByName img (some name) = some d → d.type ≤ 2)
    (h : FdInv k) {c : UserCall} {a : Answer} (hstep : userWorld img k c a k') : FdInv k' := by
  obtain ⟨dev, junk, hstep⟩ := hstep
  have hdev : FdInv (k.withDev dev) := ⟨h.stdin, h.stdout, h.usable⟩
  cases c with
  | openName name =>
    exact (hdev.step htypes (fileCalls_of_enter (c := .openName name) hstep)).1
  | closeFd fd => exact (hdev.step htypes (fileCalls_of_enter (c := .closeFd fd) hstep)).1
  | readFd fd buf nbytes =>
    exact (hdev.step htypes
      (fileCalls_of_enter (c := .readFd fd buf.word nbytes junk) hstep)).1
  | writeFd fd buf mem nbytes =>
    obtain ⟨r, dev', hleft⟩ := syscallWrite_cases hstep
    obtain rfl : k' = _ := congrArg Left.kernel hleft
    exact ⟨h.stdin, h.stdout, h.usable⟩
  | getargs buf nbytes =>
    simp only [UserCall.enter, syscallGetargs, if_neg buf.ne_zero] at hstep
    split at hstep
    · obtain rfl : k.withDev dev = k' := congrArg Left.kernel (Except.ok.inj hstep)
      exact hdev
    · obtain rfl : k.withDev dev = k' := congrArg Left.kernel (Except.ok.inj hstep)
      exact hdev

/-! ### What each call answers -/

/-- Writing to the terminal answers 0, not the number of bytes. -/
theorem answers_write (hout : k.currPcb.fdEntry 1 = Kernel.stdoutEntry) {mem : Buffer}
    {nbytes : Int32} (hn : 0 ≤ nbytes) :
    Program.Answers (userWorld img) k (.writeFd 1 buf mem nbytes) fun a k' =>
      a = (0, []) ∧ k.SameTable k' := by
  have henter : ∀ dev junk, UserCall.enter img junk (k.withDev dev)
      (.writeFd 1 buf mem nbytes) = terminalWrite mem nbytes (k.withDev dev) := by
    intro dev junk
    have hd : (k.withDev dev).dispatch 1 = some (1, Kernel.stdoutEntry) :=
      dispatch_of_entry (t := .stdout) rfl (by decide) hout
    have hargs : ¬ (nbytes < 0 ∨ buf.word = 0) :=
      not_or.mpr ⟨Int32.not_lt.mpr hn, buf.ne_zero⟩
    simp only [UserCall.enter, syscallWrite, if_neg hargs, hd]
    rfl
  refine answers_of_enter ⟨k.dev, ⟨[], fun _ => 0, fun _ => 0, 0⟩, _, henter _ _⟩ ?_
  intro dev junk left h
  obtain rfl := Except.ok.inj ((henter dev junk).symm.trans h)
  exact ⟨(0, []), rfl, rfl, rfl, fun j => rfl⟩

theorem answers_open (htypes : ∀ name d, readDentryByName img (some name) = some d → d.type ≤ 2)
    (name : CString) : Program.Answers (userWorld img) k (.openName name) fun a k' =>
      (k.CannotOpen img name ∧ a = (-1, []) ∧ k.SameTable k') ∨
      ∃ d i, name.strlen ≠ 0 ∧ readDentryByName img (some name) = some d ∧ k.LowestFree i ∧
        a = ((i : Int), []) ∧ k'.currPcb.fdEntry i = ⟨.table (.ofType d.type), d.inode, 0, 1⟩ ∧
        k.SameFds k' i := by
  refine answers_of_enter ?_ ?_
  · obtain ⟨left, h⟩ := syscallOpen_ok img name (k.withDev k.dev)
    exact ⟨k.dev, ⟨[], fun _ => 0, fun _ => 0, 0⟩, left, h⟩
  · intro dev junk left h
    rcases syscallOpen_cases h with ⟨hwhy, rfl⟩ | ⟨d, i, hname, hd, hlow, rfl⟩
    · exact ⟨(-1, []), rfl, rfl, .inl ⟨hwhy, rfl, fun j => rfl⟩⟩
    · refine ⟨(i, []), rfl, rfl, .inr ⟨d, i, hname, hd, hlow, rfl, ?_, ?_⟩⟩
      · rw [Kernel.setFd_entry_self hlow.2.1, opsTableFor_eq (htypes name d hd)]
      · exact fun j hj => Kernel.setFd_entry_of_ne hlow.2.1 hj _

theorem syscallRead_frame {junk : StackBytes} {nbytes : Int32} {i : Nat} {left : Left}
    (hfd : fd.toInt = i) (h : syscallRead img junk fd buf.word nbytes k = .ok left) :
    k.SameFds left.kernel i := by
  rcases syscallRead_cases h with ⟨-, rfl⟩ | ⟨i', e, t, -, hd, h8, -, hread⟩
  · exact fun j _ => rfl
  · obtain ⟨r, dev, -, hk⟩ := readFn_effect h8 hread
    obtain ⟨hi, -⟩ := dispatch_eq_some.mp hd
    obtain rfl : i' = i := by omega
    intro j hj
    rw [hk]
    exact Kernel.setFd_entry_of_ne h8 hj _

theorem answers_close {i : Nat} {t : OpsTable} {inode pos : UInt32} (hfd : fd.toInt = i)
    (h2 : 2 ≤ i) (h8 : i < 8) (hentry : k.currPcb.fdEntry i = ⟨.table t, inode, pos, 1⟩)
    (ht : t = .rtc ∨ t = .dir ∨ t = .file) :
    Program.Answers (userWorld img) k (.closeFd fd) fun a k' =>
      a = (0, []) ∧ (k'.currPcb.fdEntry i).flags = 0 ∧ k.SameFds k' i := by
  have hclose : ∀ dev, syscallClose fd (k.withDev dev) = .ok ⟨.ret 0, (k.withDev dev).setFd i
      { k.currPcb.fdEntry i with flags := 0, inode := 0, filePos := 0 }, []⟩ := by
    intro dev
    have hindex : Kernel.fdIndex startFd fd = some i :=
      (fdIndex_eq_some (Int.natCast_nonneg startFd)).mpr ⟨hfd, Int.ofNat_le.mpr h2, by omega⟩
    have hopen : (k.currPcb.fdEntry i).flags = 1 := by rw [hentry]
    have htable : (k.currPcb.fdEntry i).fileOpsTable = .table t := by rw [hentry]
    have hcurr : (k.withDev dev).currPcb = k.currPcb := rfl
    simp only [syscallClose, hindex, hcurr, hopen, if_pos, htable]
    rcases ht with rfl | rfl | rfl <;> rfl
  refine answers_of_enter ⟨k.dev, ⟨[], fun _ => 0, fun _ => 0, 0⟩, _, hclose k.dev⟩ ?_
  intro dev junk left h
  obtain rfl := Except.ok.inj ((hclose dev).symm.trans h)
  refine ⟨(0, []), rfl, rfl, rfl, ?_, ?_⟩
  · rw [Kernel.setFd_entry_self h8]
  · exact fun j hj => Kernel.setFd_entry_of_ne h8 hj _

theorem FileAt.withDev {inode : UInt32} {pos : Nat} (h : FileAt k fd inode pos) (dev : Devices) :
    FileAt (k.withDev dev) fd inode pos := h

theorem answers_read_file (buf : Address) (hwf : img.WellFormed) {inode : UInt32} {pos : Nat} (h0 : inode ≠ 0)
    (hN : inode < img.totalInodes) (h : FileAt k fd inode pos)
    (hpos : pos ≤ (img.fileContents inode.toNat).length) {nbytes : Int32} (hn : 0 ≤ nbytes)
    {bytes : List UInt8}
    (hbytes : bytes = ((img.fileContents inode.toNat).drop pos).take nbytes.toInt.toNat) :
    Program.Answers (userWorld img) k (.readFd fd buf nbytes) fun a k' =>
      a = ((bytes.length : Int), bytes) ∧ FileAt k' fd inode (pos + bytes.length) ∧
        ∀ i : Nat, fd.toInt = i → k.SameFds k' i := by
  refine answers_of_enter ?_ ?_
  · obtain ⟨k', hread, -⟩ :=
      h.read hwf h0 hN hpos ⟨[], fun _ => 0, fun _ => 0, 0⟩ buf.ne_zero hn hbytes
    exact ⟨k.dev, _, _, hread⟩
  · intro dev junk left hleft
    obtain ⟨k', hread, hat, -⟩ :=
      (h.withDev dev).read hwf h0 hN hpos junk buf.ne_zero hn hbytes
    obtain rfl := Except.ok.inj (hread.symm.trans hleft)
    exact ⟨((bytes.length : Int), bytes), rfl, rfl, rfl, hat,
      fun i hi => syscallRead_frame (k := k.withDev dev) hi hleft⟩

theorem answers_read_badFile {inode : UInt32} {pos : Nat} (h : FileAt k fd inode pos)
    (hbad : inode = 0 ∨ img.totalInodes ≤ inode) {nbytes : Int32} (hn : 0 < nbytes) :
    Program.Answers (userWorld img) k (.readFd fd buf nbytes) fun a k' =>
      a = (-1, []) ∧ k.SameTable k' := by
  obtain ⟨i, hfd, h8, hentry⟩ := h
  have hsize : nbytes.toUInt32 ≠ 0 := by
    intro hz
    have hnat := toUInt32_toNat (Int32.le_of_lt hn)
    have hpos : 0 < nbytes.toInt := Int32.lt_iff_toInt_lt.mp hn
    rw [hz] at hnat
    have hzero : (0 : UInt32).toNat = 0 := rfl
    omega
  have hread : ∀ dev junk, syscallRead img junk fd buf.word nbytes (k.withDev dev) =
      .ok ⟨.ret (-1), k.withDev dev, []⟩ := by
    intro dev junk
    have hdispatch := dispatch_of_entry (k := k.withDev dev) hfd h8 hentry
    rw [syscallRead_eq img junk nbytes buf.ne_zero hdispatch rfl]
    have hcurr : (k.withDev dev).currPcb = k.currPcb := rfl
    have hdata : readData img inode (UInt32.ofNat pos) buf.word nbytes.toUInt32 = none := by
      rw [readData, if_neg hsize, if_pos]
      rcases hbad with hz | hge
      · exact .inl hz
      · exact .inr (.inr hge)
    simp only [readFn, fileRead, hcurr, hentry, hdata]
    rw [ite_self]
    rfl
  refine answers_of_enter ⟨k.dev, ⟨[], fun _ => 0, fun _ => 0, 0⟩, _, hread _ _⟩ ?_
  intro dev junk left hleft
  obtain rfl := Except.ok.inj ((hread dev junk).symm.trans hleft)
  exact ⟨(-1, []), rfl, rfl, rfl, fun j => rfl⟩

theorem answers_read_dir (img : Image) (buf : Address) (nbytes : Int32) {inode : UInt32}
    {pos : Nat} (h : DirAt k fd inode pos) (hpos : pos < 4294967296) :
    Program.Answers (userWorld img) k (.readFd fd buf nbytes) fun a k' =>
      (if pos ≤ img.totalDentries.toNat then
        a = (((img.dentries pos).name.length : Int), List.ofFn (img.dentries pos).fileName) ∧
          DirAt k' fd inode (pos + 1)
      else a = (-1, [])) ∧ ∀ i : Nat, fd.toInt = i → k.SameFds k' i := by
  obtain ⟨i, hfd, h8, hentry⟩ := h
  have hnat : (UInt32.ofNat pos).toNat = pos := UInt32.toNat_ofNat_of_lt' hpos
  have hread : ∀ dev junk, syscallRead img junk fd buf.word nbytes (k.withDev dev) =
      dirRead img i buf.word (k.withDev dev) := by
    intro dev junk
    have hdispatch := dispatch_of_entry (k := k.withDev dev) hfd h8 hentry
    exact syscallRead_eq img junk nbytes buf.ne_zero hdispatch rfl
  refine answers_of_enter ?_ ?_
  · obtain ⟨v, k', stores, hdir⟩ := dirRead_ok img i buf.word (k.withDev k.dev)
    exact ⟨k.dev, ⟨[], fun _ => 0, fun _ => 0, 0⟩, _, (hread _ _).trans hdir⟩
  · intro dev junk left hleft
    have hcurr : (k.withDev dev).currPcb.fdEntry i = _ := hentry
    have hframe : ∀ j : Nat, fd.toInt = j → k.SameFds left.kernel j :=
      fun j hj => syscallRead_frame (k := k.withDev dev) hj hleft
    rcases dirRead_cases ((hread dev junk).symm.trans hleft) with ⟨hend, rfl⟩ | ⟨hin, he⟩
    · rw [hcurr] at hend
      have hlt := UInt32.lt_iff_toNat_lt.mp hend
      rw [hnat] at hlt
      have hout : ¬pos ≤ img.totalDentries.toNat := by omega
      exact ⟨(-1, []), rfl, rfl, by rw [if_neg hout], hframe⟩
    · rw [hcurr] at hin he
      have hle := UInt32.le_iff_toNat_le.mp hin
      rw [hnat] at hle
      rw [hnat, Dentry.nameLength_eq] at he
      generalize img.dentries pos = d at he ⊢
      have hexit : left.exit = .ret d.name.length := by rw [he]
      have hstores : left.stores = storesAt buf.word (List.ofFn d.fileName) := by rw [he]
      refine ⟨((d.name.length : Int), List.ofFn d.fileName), hexit, hstores, ?_, hframe⟩
      rw [if_pos hle]
      refine ⟨rfl, i, hfd, h8, ?_⟩
      rw [he, Kernel.setFd_entry_self h8, UInt32.ofNat_add]
      rfl

theorem answers_read_rtc {i : Nat} {inode pos : UInt32} (hfd : fd.toInt = i) (h8 : i < 8)
    (hentry : k.currPcb.fdEntry i = ⟨.table .rtc, inode, pos, 1⟩) {nbytes : Int32} :
    Program.Answers (userWorld img) k (.readFd fd buf nbytes) fun a k' =>
      a = (0, []) ∧ k.SameTable k' := by
  have hread : ∀ dev junk, syscallRead img junk fd buf.word nbytes (k.withDev dev) =
      readFn img junk (.table .rtc) i buf.word nbytes (k.withDev dev) := by
    intro dev junk
    have hdispatch := dispatch_of_entry (k := k.withDev dev) hfd h8 hentry
    exact syscallRead_eq img junk nbytes buf.ne_zero hdispatch rfl
  refine answers_of_enter ?_ ?_
  · let dev : Devices := { k.dev with rtc := ⟨0, 1⟩ }
    have hticked : readFn img ⟨[], fun _ => 0, fun _ => 0, 0⟩ (.table .rtc) i buf.word nbytes
        (k.withDev dev) = Kernel.returns (k.withDev { dev with
          rtc := { (Rtc.setFreqRtc 0 512 ⟨0, 1⟩).2 with interruptFlag := 0 } }) 0 := rfl
    exact ⟨dev, _, _, (hread dev _).trans hticked⟩
  · intro dev junk left hleft
    have h := (hread dev junk).symm.trans hleft
    simp only [readFn, Rtc.readRtc] at h
    split at h
    · exact absurd h (by simp)
    · rename_i r rtc hrtc
      split at hrtc
      · exact absurd hrtc (by simp)
      · obtain ⟨rfl, rfl⟩ := Prod.mk.inj (Option.some.inj hrtc)
        obtain rfl := Except.ok.inj h
        exact ⟨(0, []), rfl, rfl, rfl, fun j => rfl⟩

/-- The argument string arrives squeezed, in front of bytes that do not matter. -/
theorem answers_getargs {text : CString} (h : Holds k.currPcb.args text) {nbytes : Int32}
    (hroom : (text.strlen : Int) < nbytes.toInt) :
    Program.Answers (userWorld img) k (.getargs buf nbytes) fun a k' =>
      (if text.bytes = [] then a = (-1, [])
      else ∃ rest, a = (0, squeezed text ++ 0 :: rest)) ∧ k.SameTable k' := by
  have hfirst := h 0 (Nat.zero_le _)
  have hget : ∀ dev, syscallGetargs buf.word nbytes (k.withDev dev) =
      if text.bytes = [] then (k.withDev dev).returns (-1)
      else .ok ⟨.ret 0, k.withDev dev,
        storesAt buf.word (copyArgs k.currPcb.args nbytes.toInt.toNat 0 ++ [0])⟩ := by
    intro dev
    have hcurr : (k.withDev dev).currPcb = k.currPcb := rfl
    rw [syscallGetargs, if_neg buf.ne_zero, hcurr, hfirst]
    by_cases hnil : text.bytes = []
    · rw [if_pos hnil, if_pos (by rw [CString.charAt, hnil]; rfl)]
    · obtain ⟨c, l, hcons⟩ := List.exists_cons_of_ne_nil hnil
      have hne : text.charAt 0 ≠ 0 := by
        rw [CString.charAt, hcons, List.getD_cons_zero]
        exact text.noNul c (by rw [hcons]; exact List.mem_cons_self ..)
      rw [if_neg hnil, if_neg hne]
  refine answers_of_enter ?_ ?_
  · by_cases hnil : text.bytes = []
    · exact ⟨k.dev, ⟨[], fun _ => 0, fun _ => 0, 0⟩, _, (hget _).trans (if_pos hnil)⟩
    · exact ⟨k.dev, ⟨[], fun _ => 0, fun _ => 0, 0⟩, _, (hget _).trans (if_neg hnil)⟩
  · intro dev junk left hleft
    have heq := (hget dev).symm.trans hleft
    by_cases hnil : text.bytes = []
    · rw [if_pos hnil] at heq
      obtain rfl := Except.ok.inj heq
      exact ⟨(-1, []), rfl, rfl, by rw [if_pos hnil], fun j => rfl⟩
    · rw [if_neg hnil] at heq
      obtain rfl := Except.ok.inj heq
      obtain ⟨rest, hrest⟩ := h.copied_of_lt (n := nbytes.toInt.toNat) (by omega)
      exact ⟨(0, _), rfl, rfl, by rw [if_neg hnil]; exact ⟨rest, by rw [hrest]⟩, fun j => rfl⟩

theorem FdInv.answers
    (htypes : ∀ name d, readDentryByName img (some name) = some d → d.type ≤ 2) (h : FdInv k)
    {c : UserCall} {P : Answer → Kernel → Prop} (hc : Program.Answers (userWorld img) k c P) :
    Program.Answers (userWorld img) k c fun a k' => P a k' ∧ FdInv k' :=
  ⟨hc.1, fun a k' hstep => ⟨hc.2 a k' hstep, h.world htypes hstep⟩⟩

theorem Kernel.SameTable.trans {k₁ k₂ : Kernel} (h : k.SameTable k₁) (h' : k₁.SameTable k₂) :
    k.SameTable k₂ := fun j => (h' j).trans (h j)

theorem Kernel.SameTable.sameFds (h : k.SameTable k') (i : Nat) : k.SameFds k' i := fun j _ => h j

theorem Kernel.SameFds.trans {k₁ k₂ : Kernel} {i : Nat} (h : k.SameFds k₁ i)
    (h' : k₁.SameFds k₂ i) : k.SameFds k₂ i := fun j hj => (h' j hj).trans (h j hj)

end

/-! ### Strings -/

def textAddress : Address := ⟨imageAddress, by decide⟩

def literal (text : String) (h : (message text).all (· ≠ 0) = true) : CString :=
  ⟨message text, CString.noNul_of_all h⟩

def arrayString (data : Buffer) (size : Nat) : CString := .ofBuffer ((List.range size).map data)

/-- `ece391_fdputs (fd, s)` with `s` at `buf`; the answer is dropped. -/
def ece391Fdputs (fd : Int32) (buf : Address) (s : CString) : Program UserCall Answer Unit :=
  .call (.writeFd fd buf s.charAt (Int32.ofNat s.strlen)) fun _ => .ret ()

theorem map_storeChunk (data : Buffer) (bytes : List UInt8) {n : Nat} (hn : n ≤ bytes.length) :
    (List.range n).map (storeChunk data 0 bytes) = bytes.take n := by
  refine List.ext_getElem (by simp [hn]) fun i h₁ h₂ => ?_
  rw [List.length_map, List.length_range] at h₁
  simp only [List.getElem_map, List.getElem_range, List.getElem_take, storeChunk, Nat.zero_le,
    if_true, Nat.sub_zero]
  rw [List.getD_eq_getElem]

theorem arrayString_eq {data : Buffer} {s : List UInt8} (h : HoldsString data 0 s)
    (hs : ∀ c ∈ s, c ≠ 0) {size : Nat} (hsize : s.length < size) :
    (arrayString data size).bytes = s := by
  obtain ⟨m, rfl⟩ : ∃ m, size = s.length + 1 + m := ⟨size - s.length - 1, by omega⟩
  have hend := h.terminated
  rw [Nat.zero_add] at hend
  have hfront : (List.range s.length).map data = s := by
    refine List.ext_getElem (by simp) fun i h₁ h₂ => ?_
    rw [List.getElem_map, List.getElem_range, ← h.chars i h₂, Nat.zero_add]
  change ((List.range (s.length + 1 + m)).map _).takeWhile _ = s
  rw [List.range_add, List.map_append, List.range_succ, List.map_append, hfront, List.append_assoc,
    List.takeWhile_append_of_pos fun c hc => by simpa using hs c hc, List.map_singleton, hend,
    List.singleton_append, List.takeWhile_cons_of_neg (by simp), List.append_nil]

theorem arrayString_bytes (data : Buffer) {s rest : List UInt8} (hs : ∀ c ∈ s, c ≠ 0) {size : Nat}
    (hsize : s.length < size) :
    (arrayString (storeChunk data 0 (s ++ 0 :: rest)) size).bytes = s := by
  refine arrayString_eq ⟨fun i hi => ?_, ?_⟩ hs hsize
  · rw [Nat.zero_add, storeChunk, if_pos (Nat.zero_le _), Nat.sub_zero, List.getD_append _ _ _ _ hi,
      List.getD_eq_getElem]
  · rw [Nat.zero_add, storeChunk, if_pos (Nat.zero_le _), Nat.sub_zero,
      List.getD_append_right _ _ _ _ (Nat.le_refl _), Nat.sub_self]
    rfl

theorem ensures_fdputs {img : Image} {k : Kernel}
    (htypes : ∀ name d, readDentryByName img (some name) = some d → d.type ≤ 2) (hk : FdInv k)
    (buf : Address) {s : CString} (hs : s.strlen < 2147483648) :
    (ece391Fdputs 1 buf s).Ensures (userWorld img) (fun trace _ k' =>
      written trace = s.bytes ∧ k.SameTable k' ∧ FdInv k') k := by
  have hsize : (Int32.ofNat s.strlen).toInt = s.strlen := by
    rw [← Int32.ofInt_eq_ofNat, Int32.toInt_ofInt_of_le (by omega) (by omega)]
  have hn : (0 : Int32) ≤ Int32.ofNat s.strlen := by
    rw [Int32.le_iff_toInt_le, hsize]
    exact Int.natCast_nonneg _
  have hbytes : (List.range s.strlen).map s.charAt = s.bytes := by
    rw [List.range_eq_range', s.map_charAt (Nat.le_refl _), Nat.sub_self]
    exact List.append_nil _
  refine Program.Answers.call (hk.answers htypes (answers_write hk.stdout hn)) ?_
  rintro a k' ⟨⟨-, hsame⟩, hk'⟩
  refine ⟨?_, hsame, hk'⟩
  rw [written_writeFd, hsize, Int.toNat_natCast, hbytes]
  exact List.append_nil _

/-! ### Programs that only write -/

def Prints {α : Type} (img : Image) (p : Program UserCall Answer α) (text : List UInt8)
    (value : α) : Prop :=
  ∀ k, FdInv k → p.Ensures (userWorld img) (fun trace v k' =>
    (written trace = text ∧ v = value) ∧ k.SameTable k' ∧ FdInv k') k

section prints
variable {α β : Type} {img : Image} {p : Program UserCall Answer α} {text : List UInt8} {value : α}

theorem prints_ret (img : Image) (value : α) : Prints img (.ret value) [] value :=
  fun _ hk => ⟨⟨rfl, rfl⟩, fun _ => rfl, hk⟩

theorem prints_fdputs
    (htypes : ∀ name d, readDentryByName img (some name) = some d → d.type ≤ 2) (buf : Address)
    {s : CString} (hs : s.strlen < 2147483648) : Prints img (ece391Fdputs 1 buf s) s.bytes () := by
  intro k hk
  refine (ensures_fdputs htypes hk buf hs).mono ?_
  rintro trace v k' ⟨htrace, hsame, hk'⟩
  exact ⟨⟨htrace, rfl⟩, hsame, hk'⟩

theorem Prints.bind {f : α → Program UserCall Answer β} {text' : List UInt8} {value' : β}
    (h : Prints img p text value) (h' : Prints img (f value) text' value') :
    Prints img (p.bind f) (text ++ text') value' := by
  intro k hk
  refine Program.Ensures.bind ((h k hk).mono ?_)
  rintro trace v k₁ ⟨⟨htrace, rfl⟩, hsame, hk₁⟩
  refine (h' k₁ hk₁).mono ?_
  rintro trace' v' k₂ ⟨⟨htrace', rfl⟩, hsame', hk₂⟩
  exact ⟨⟨by rw [written_append, htrace, htrace'], rfl⟩, hsame.trans hsame', hk₂⟩

end prints
end MyLinuxOS
