import MyLinuxOS.Kernel.Syscall
import MyLinuxOS.Foundation.Runs

/-! The descriptor table of the running process: what one call of `open`, `close` or `read` can do
to it, and the machine of such calls. The later modules argue from the case lemmas below. -/

namespace MyLinuxOS
open Foundation

/-! ### Entries -/

section
variable {k : Kernel} {i j : Nat}

theorem Pcb.setFdEntry_self {b : Pcb} (h : i < 8) (e : FileDescriptor) :
    (b.setFdEntry i e).fdEntry i = e := by
  simp only [Pcb.setFdEntry, Pcb.fdEntry, dif_pos h, Function.update_self]

theorem Pcb.setFdEntry_of_ne {b : Pcb} (h : i < 8) (hj : j ≠ i) (e : FileDescriptor) :
    (b.setFdEntry i e).fdEntry j = b.fdEntry j := by
  simp only [Pcb.setFdEntry, Pcb.fdEntry, dif_pos h]
  by_cases hj8 : j < 8
  · have hne : (⟨j, hj8⟩ : Fin 8) ≠ ⟨i, h⟩ := fun he => hj (congrArg Fin.val he)
    rw [dif_pos hj8, dif_pos hj8, Function.update_of_ne hne]
  · rw [dif_neg hj8, dif_neg hj8]

theorem Kernel.setFd_currPcb (e : FileDescriptor) :
    (k.setFd i e).currPcb = k.currPcb.setFdEntry i e := k.setPcb_pcb_self ..

theorem Kernel.setFd_entry_self (h : i < 8) (e : FileDescriptor) :
    (k.setFd i e).currPcb.fdEntry i = e := by
  rw [k.setFd_currPcb, Pcb.setFdEntry_self h]

theorem Kernel.setFd_entry_of_ne (h : i < 8) (hj : j ≠ i) (e : FileDescriptor) :
    (k.setFd i e).currPcb.fdEntry j = k.currPcb.fdEntry j := by
  rw [k.setFd_currPcb, Pcb.setFdEntry_of_ne h hj]

theorem Kernel.setFd_entry (h : i < 8) : k.setFd i (k.currPcb.fdEntry i) = k := by
  have hentry : k.currPcb.setFdEntry i (k.currPcb.fdEntry i) = k.currPcb := by
    simp only [Pcb.setFdEntry, Pcb.fdEntry, dif_pos h, Function.update_eq_self]
  rw [Kernel.setFd, hentry]
  unfold Kernel.setPcb Kernel.currPcb
  rw [Function.update_eq_self]

theorem fdIndex_eq_some {lo : Int} (hlo : 0 ≤ lo) {fd : Int32} :
    Kernel.fdIndex lo fd = some i ↔ fd.toInt = i ∧ lo ≤ i ∧ i ≤ 8 := by
  unfold Kernel.fdIndex
  split
  · rename_i hout
    simp only [maxNumFd] at hout
    constructor
    · intro h; exact absurd h (by simp)
    · rintro ⟨he, hl, hu⟩; omega
  · rename_i hin
    simp only [maxNumFd, not_or, not_lt] at hin
    rw [Option.some_inj]
    constructor
    · intro he; omega
    · rintro ⟨he, -, -⟩; omega

theorem dispatch_eq_some {fd : Int32} {e : FileDescriptor} :
    k.dispatch fd = some (i, e) ↔
      fd.toInt = i ∧ i ≤ 8 ∧ k.currPcb.fdEntry i = e ∧ e.flags ≠ 0 := by
  unfold Kernel.dispatch
  cases hidx : Kernel.fdIndex 0 fd with
  | none =>
    constructor
    · intro h; exact absurd h (by simp)
    · rintro ⟨he, hu, -⟩
      have hsome := (fdIndex_eq_some (Int.le_refl 0)).mpr ⟨he, Int.natCast_nonneg i, hu⟩
      rw [hidx] at hsome
      exact absurd hsome (by simp)
  | some n =>
    obtain ⟨hn, -, hu⟩ := (fdIndex_eq_some (Int.le_refl 0)).mp hidx
    simp only
    split
    · rename_i hclosed
      constructor
      · intro h; exact absurd h (by simp)
      · rintro ⟨he, -, rfl, hopen⟩
        obtain rfl : n = i := by omega
        exact absurd hclosed hopen
    · rename_i hopen
      simp only [Option.some_inj, Prod.mk.injEq]
      constructor
      · rintro ⟨rfl, rfl⟩
        exact ⟨hn, hu, rfl, hopen⟩
      · rintro ⟨he, -, rfl, -⟩
        obtain rfl : n = i := by omega
        exact ⟨rfl, rfl⟩

theorem lt_of_table {t : OpsTable} (h : (k.currPcb.fdEntry i).fileOpsTable = .table t) : i < 8 := by
  by_contra hge
  unfold Pcb.fdEntry at h
  rw [dif_neg hge] at h
  exact absurd h (by simp)

end

/-! ### Calls -/

section
variable {img : Image} {junk : StackBytes} {fd : Int32} {buf : UInt32} {nbytes : Int32} {k : Kernel}
  {left : Left}

def Kernel.LowestFree (k : Kernel) (i : Nat) : Prop :=
  2 ≤ i ∧ i < 8 ∧ (k.currPcb.fdEntry i).flags = 0 ∧
    ∀ j, 2 ≤ j → j < i → (k.currPcb.fdEntry j).flags ≠ 0

def Kernel.CannotOpen (k : Kernel) (img : Image) (name : CString) : Prop :=
  name.strlen = 0 ∨ readDentryByName img (some name) = none ∨
    ∀ j, 2 ≤ j → j < 8 → (k.currPcb.fdEntry j).flags ≠ 0

theorem syscallOpen_cases {name : CString} (h : syscallOpen img (some name) k = .ok left) :
    (k.CannotOpen img name ∧ left = ⟨.ret (-1), k, []⟩) ∨
    ∃ d i, name.strlen ≠ 0 ∧ readDentryByName img (some name) = some d ∧ k.LowestFree i ∧
      left = ⟨.ret i, k.setFd i
        { fileOpsTable := opsTableFor d.type (k.currPcb.fdEntry i).fileOpsTable
          inode := d.inode
          filePos := 0
          flags := 1 }, []⟩ := by
  simp only [syscallOpen] at h
  split at h
  · rename_i hempty
    exact .inl ⟨.inl hempty, (Except.ok.inj h).symm⟩
  · rename_i hname
    split at h
    · rename_i hlookup
      exact .inl ⟨.inr (.inl hlookup), (Except.ok.inj h).symm⟩
    · rename_i d hlookup
      split at h
      · rename_i hfull
        refine .inl ⟨.inr (.inr fun j h2 h8 => ?_), (Except.ok.inj h).symm⟩
        exact firstFrom_eq_none_iff.mp hfull j h2 h8
      · rename_i i hfree
        obtain ⟨h2, h8, hflag, hmin⟩ := firstFrom_eq_some_iff.mp hfree
        exact .inr ⟨d, i, hname, hlookup, ⟨h2, h8, hflag, hmin⟩, (Except.ok.inj h).symm⟩

theorem closeFn_cases {ops : OpsPtr} (h : closeFn ops k = .ok left) :
    (∃ t, ops = .table t) ∧ left = ⟨.ret 0, k, []⟩ := by
  unfold closeFn at h
  split at h
  · exact ⟨⟨_, rfl⟩, (Except.ok.inj h).symm⟩
  · exact ⟨⟨_, rfl⟩, (Except.ok.inj h).symm⟩
  · exact ⟨⟨_, rfl⟩, (Except.ok.inj h).symm⟩
  · exact absurd h (by simp)
  · exact absurd h (by simp)
  · exact absurd h (by simp)

theorem syscallClose_cases (h : syscallClose fd k = .ok left) :
    ((∀ i : Nat, fd.toInt = i → 2 ≤ i → i < 8 → (k.currPcb.fdEntry i).flags ≠ 1) ∧
      left = ⟨.ret (-1), k, []⟩) ∨
    ∃ i : Nat, fd.toInt = i ∧ 2 ≤ i ∧ i < 8 ∧ (k.currPcb.fdEntry i).flags = 1 ∧
      left = ⟨.ret 0, k.setFd i
        { k.currPcb.fdEntry i with flags := 0, inode := 0, filePos := 0 }, []⟩ := by
  unfold syscallClose at h
  cases hidx : Kernel.fdIndex startFd fd with
  | none =>
    rw [hidx] at h
    refine .inl ⟨fun i hi h2 h8 => ?_, (Except.ok.inj h).symm⟩
    have hsome := (fdIndex_eq_some (Int.natCast_nonneg startFd)).mpr
      ⟨hi, Int.ofNat_le.mpr h2, Nat.le_of_lt h8⟩
    rw [hidx] at hsome
    exact absurd hsome (by simp)
  | some i =>
    rw [hidx] at h
    obtain ⟨hi, h2, -⟩ := (fdIndex_eq_some (Int.natCast_nonneg startFd)).mp hidx
    simp only at h
    split at h
    · rename_i hopen
      obtain ⟨⟨t, ht⟩, hleft⟩ := closeFn_cases h
      exact .inr ⟨i, hi, Int.ofNat_le.mp h2, lt_of_table ht, hopen, hleft⟩
    · rename_i hclosed
      refine .inl ⟨fun i' hi' _ _ => ?_, (Except.ok.inj h).symm⟩
      obtain rfl : i' = i := by omega
      exact hclosed

theorem syscallRead_cases (h : syscallRead img junk fd buf nbytes k = .ok left) :
    ((buf = 0 ∨ k.dispatch fd = none) ∧ left = ⟨.ret (-1), k, []⟩) ∨
    ∃ i e t, buf ≠ 0 ∧ k.dispatch fd = some (i, e) ∧ i < 8 ∧ e.fileOpsTable = .table t ∧
      readFn img junk (.table t) i buf nbytes k = .ok left := by
  unfold syscallRead at h
  split at h
  · rename_i hb
    exact .inl ⟨.inl hb, (Except.ok.inj h).symm⟩
  · rename_i hb
    cases hd : k.dispatch fd with
    | none =>
      rw [hd] at h
      exact .inl ⟨.inr rfl, (Except.ok.inj h).symm⟩
    | some r =>
      obtain ⟨i, e⟩ := r
      rw [hd] at h
      simp only at h
      cases ht : e.fileOpsTable with
      | raw w =>
        rw [ht] at h
        exact absurd h (by simp [readFn])
      | table t =>
        rw [ht] at h
        have he := (dispatch_eq_some.mp hd).2.2.1
        have hlt : i < 8 := lt_of_table (t := t) (by rw [he]; exact ht)
        exact .inr ⟨i, e, t, hb, rfl, hlt, ht, h⟩

theorem syscallRead_eq (img : Image) (junk : StackBytes) (nbytes : Int32) {i : Nat}
    {e : FileDescriptor} {t : OpsTable} (hb : buf ≠ 0)
    (hd : k.dispatch fd = some (i, e)) (ht : e.fileOpsTable = .table t) :
    syscallRead img junk fd buf nbytes k = readFn img junk (.table t) i buf nbytes k := by
  simp only [syscallRead, if_neg hb, hd, ht]

theorem dispatch_of_entry {i : Nat} {t : OpsTable} {inode pos : UInt32} (hfd : fd.toInt = i)
    (h8 : i < 8) (hentry : k.currPcb.fdEntry i = ⟨.table t, inode, pos, 1⟩) :
    k.dispatch fd = some (i, ⟨.table t, inode, pos, 1⟩) :=
  dispatch_eq_some.mpr ⟨hfd, Nat.le_of_lt h8, hentry, (by decide : (1 : UInt32) ≠ 0)⟩

theorem fileRead_eq {i : Nat} {bytes : List UInt8} (hb : buf ≠ 0) (hn : 0 ≤ nbytes) (h8 : i < 8)
    (hdata : readData img (k.currPcb.fdEntry i).inode (k.currPcb.fdEntry i).filePos buf
      nbytes.toUInt32 = some bytes) :
    fileRead img i buf nbytes k = .ok ⟨.ret bytes.length, k.setFd i { k.currPcb.fdEntry i with
      filePos := (k.currPcb.fdEntry i).filePos + UInt32.ofNat bytes.length },
      storesAt buf bytes⟩ := by
  have hargs : ¬ (buf = 0 ∨ nbytes < 0 ∨ i > maxNumFd) := by
    rintro (hz | hneg | hbig)
    · exact hb hz
    · exact absurd hn (Int32.not_le.mpr hneg)
    · simp only [maxNumFd] at hbig
      omega
  simp only [fileRead, if_neg hargs, hdata]

theorem fileRead_cases {i : Nat} (h : fileRead img i buf nbytes k = .ok left) :
    left = ⟨.ret (-1), k, []⟩ ∨ ∃ bytes, buf ≠ 0 ∧ 0 ≤ nbytes ∧
      readData img (k.currPcb.fdEntry i).inode (k.currPcb.fdEntry i).filePos buf nbytes.toUInt32 =
        some bytes ∧
      left = ⟨.ret bytes.length, k.setFd i { k.currPcb.fdEntry i with
        filePos := (k.currPcb.fdEntry i).filePos + UInt32.ofNat bytes.length },
        storesAt buf bytes⟩ := by
  unfold fileRead at h
  split at h
  · exact .inl (Except.ok.inj h).symm
  · rename_i hargs
    rw [not_or, not_or] at hargs
    simp only at h
    split at h
    · exact .inl (Except.ok.inj h).symm
    · rename_i bytes hread
      have hn : 0 ≤ nbytes := Int32.not_lt.mp hargs.2.1
      exact .inr ⟨bytes, hargs.1, hn, hread, (Except.ok.inj h).symm⟩

theorem dirRead_cases {i : Nat} (h : dirRead img i buf k = .ok left) :
    (img.totalDentries < (k.currPcb.fdEntry i).filePos ∧ left = ⟨.ret (-1), k, []⟩) ∨
    ((k.currPcb.fdEntry i).filePos ≤ img.totalDentries ∧
      left = ⟨.ret (img.dentries (k.currPcb.fdEntry i).filePos.toNat).nameLength,
        k.setFd i { k.currPcb.fdEntry i with filePos := (k.currPcb.fdEntry i).filePos + 1 },
        storesAt buf (List.ofFn (img.dentries (k.currPcb.fdEntry i).filePos.toNat).fileName)⟩) := by
  unfold dirRead readDentryByIndex at h
  simp only at h
  by_cases hend : (k.currPcb.fdEntry i).filePos > img.totalDentries
  · rw [if_pos hend] at h
    exact .inl ⟨hend, (Except.ok.inj h).symm⟩
  · rw [if_neg hend] at h
    exact .inr ⟨UInt32.not_lt.mp hend, (Except.ok.inj h).symm⟩

def OpsTable.advance : OpsTable → Int → UInt32
  | .file, r => if r = -1 then 0 else UInt32.ofNat r.toNat
  | .dir, r => if r = -1 then 0 else 1
  | .rtc, _ | .stdin, _ | .stdout, _ => 0

theorem Kernel.setFd_filePos_zero {i : Nat} (hi : i < 8) :
    k.setFd i { k.currPcb.fdEntry i with filePos := (k.currPcb.fdEntry i).filePos + 0 } = k := by
  rw [UInt32.add_zero]
  exact Kernel.setFd_entry hi

theorem readFn_effect {t : OpsTable} {i : Nat} (hi : i < 8)
    (h : readFn img junk (.table t) i buf nbytes k = .ok left) :
    ∃ r dev, left.exit = .ret r ∧ left.kernel =
      { k.setFd i { k.currPcb.fdEntry i with
        filePos := (k.currPcb.fdEntry i).filePos + t.advance r } with dev := dev } := by
  cases t with
  | rtc =>
    simp only [readFn] at h
    split at h
    · exact absurd h (by simp)
    · rename_i r rtc _
      obtain rfl := Except.ok.inj h
      refine ⟨r, { k.dev with rtc := rtc }, rfl, ?_⟩
      rw [OpsTable.advance, Kernel.setFd_filePos_zero hi]
  | dir =>
    rcases dirRead_cases h with ⟨-, rfl⟩ | ⟨-, rfl⟩
    · refine ⟨-1, k.dev, rfl, ?_⟩
      rw [OpsTable.advance, if_pos rfl, Kernel.setFd_filePos_zero hi]
    · refine ⟨_, k.dev, rfl, ?_⟩
      rw [OpsTable.advance, if_neg (by omega)]
      rfl
  | file =>
    rcases fileRead_cases h with rfl | ⟨bytes, -, -, -, rfl⟩
    · refine ⟨-1, k.dev, rfl, ?_⟩
      rw [OpsTable.advance, if_pos rfl, Kernel.setFd_filePos_zero hi]
    · refine ⟨_, k.dev, rfl, ?_⟩
      rw [OpsTable.advance, if_neg (by omega), Int.toNat_natCast]
      rfl
  | stdin =>
    simp only [readFn, terminalRead] at h
    split at h
    · exact absurd h (by simp)
    · have hleft := Except.ok.inj h
      have hk : left.kernel = { k with dev := left.kernel.dev } := by rw [← hleft]
      refine ⟨_, left.kernel.dev, (congrArg Left.exit hleft).symm, ?_⟩
      rw [OpsTable.advance, Kernel.setFd_filePos_zero hi]
      exact hk
  | stdout =>
    obtain rfl := Except.ok.inj h
    refine ⟨-1, k.dev, rfl, ?_⟩
    rw [OpsTable.advance, Kernel.setFd_filePos_zero hi]

end

/-! ### The machine -/

/-- What happens to a process that works on its files: its own calls, and the interrupts that
change devices between them. The buffer of a read lies in the page of the program: what is stored
there reaches no part of the kernel's state. -/
inductive FileCall
  | openName (name : CString)
  | closeFd (fd : Int32)
  | readFd (fd : Int32) (buf : UInt32) (nbytes : Int32) (junk : StackBytes)
  | interrupt (dev : Devices)

def FileCall.enter (img : Image) (k : Kernel) : FileCall → Entry
  | .openName name => syscallOpen img (some name) k
  | .closeFd fd => syscallClose fd k
  | .readFd fd buf nbytes junk => syscallRead img junk fd buf nbytes k
  | .interrupt dev => Kernel.returns { k with dev := dev } 0

def fileCalls (img : Image) : Machine Kernel FileCall (Int × List Store) := fun k c =>
  match c.enter img k with
  | .ok ⟨.ret r, k', stores⟩ => some ((r, stores), k')
  | _ => none

theorem fileCalls_eq_some {img : Image} {k k' : Kernel} {c : FileCall} {o : Int × List Store} :
    fileCalls img k c = some (o, k') ↔ c.enter img k = .ok ⟨.ret o.1, k', o.2⟩ := by
  unfold fileCalls
  split
  · rename_i r k₁ stores h
    rw [h]
    constructor
    · intro he
      obtain ⟨rfl, rfl⟩ := Prod.mk.inj (Option.some.inj he)
      rfl
    · intro he
      obtain ⟨hr, rfl, rfl⟩ := Left.mk.inj (Except.ok.inj he)
      rw [Exit.ret.inj hr]
  · rename_i hno
    constructor
    · intro he; exact absurd he (by simp)
    · intro he; exact absurd he (hno _ _ _)

def FileCall.Spares (i : Nat) : FileCall → Prop
  | .openName _ | .interrupt _ => True
  | .closeFd fd | .readFd fd _ _ _ => fd.toInt ≠ i

theorem FileCall.Spares.entry {img : Image} {k k' : Kernel} {c : FileCall} {o : Int × List Store}
    {i : Nat} (hc : c.Spares i) (hopen : (k.currPcb.fdEntry i).flags ≠ 0)
    (h : fileCalls img k c = some (o, k')) :
    k'.currPcb.fdEntry i = k.currPcb.fdEntry i := by
  have henter := fileCalls_eq_some.mp h
  cases c with
  | openName name =>
    rcases syscallOpen_cases henter with ⟨-, he⟩ | ⟨d, j, -, -, ⟨-, h8, hfree, -⟩, he⟩
    · obtain rfl : k' = k := congrArg Left.kernel he
      rfl
    · have hne : i ≠ j := by rintro rfl; exact hopen hfree
      obtain rfl : k' = _ := congrArg Left.kernel he
      exact Kernel.setFd_entry_of_ne h8 hne _
  | closeFd fd =>
    rcases syscallClose_cases henter with ⟨-, he⟩ | ⟨j, hj, -, h8, -, he⟩
    · obtain rfl : k' = k := congrArg Left.kernel he
      rfl
    · have hne : i ≠ j := by rintro rfl; exact hc hj
      obtain rfl : k' = _ := congrArg Left.kernel he
      exact Kernel.setFd_entry_of_ne h8 hne _
  | readFd fd buf nbytes junk =>
    rcases syscallRead_cases henter with ⟨-, he⟩ | ⟨j, e, t, -, hd, h8, -, hread⟩
    · obtain rfl : k' = k := congrArg Left.kernel he
      rfl
    · obtain ⟨r, dev, -, hk⟩ := readFn_effect h8 hread
      have hne : i ≠ j := by rintro rfl; exact hc (dispatch_eq_some.mp hd).1
      obtain rfl : k' = _ := hk
      exact Kernel.setFd_entry_of_ne h8 hne _
  | interrupt dev =>
    obtain rfl := congrArg Left.kernel (Except.ok.inj henter)
    rfl

/-- Every call leaves the kernel as it was but for the devices and one descriptor of the running
process, and only an `open` that succeeds marks a descriptor as open. -/
theorem fileCalls_effect {img : Image} {k k' : Kernel} {c : FileCall} {o : Int × List Store}
    (h : fileCalls img k c = some (o, k')) :
    ∃ i e dev, i < 8 ∧ k' = { k.setFd i e with dev := dev } ∧
      (e.flags = (k.currPcb.fdEntry i).flags ∨ e.flags = 0 ∨
        ∃ name, c = .openName name ∧ ¬ k.CannotOpen img name) := by
  -- where only devices change, the entry of descriptor 0 is its own replacement
  have same : ∀ dev, k' = { k with dev := dev } →
      ∃ i e dev, i < 8 ∧ k' = { k.setFd i e with dev := dev } ∧
        (e.flags = (k.currPcb.fdEntry i).flags ∨ e.flags = 0 ∨
          ∃ name, c = .openName name ∧ ¬ k.CannotOpen img name) := by
    intro dev hk
    refine ⟨0, k.currPcb.fdEntry 0, dev, by decide, ?_, .inl rfl⟩
    rw [Kernel.setFd_entry (by decide), hk]
  have henter := fileCalls_eq_some.mp h
  cases c with
  | openName name =>
    rcases syscallOpen_cases henter with ⟨-, he⟩ | ⟨d, i, hname, hd, hlow, he⟩
    · exact same k.dev (congrArg Left.kernel he)
    · have hopens : ¬ k.CannotOpen img name := by
        rintro (hempty | hnone | hfull)
        · exact hname hempty
        · rw [hd] at hnone
          exact absurd hnone (by simp)
        · exact hfull i hlow.1 hlow.2.1 hlow.2.2.1
      exact ⟨i, _, k.dev, hlow.2.1, congrArg Left.kernel he, .inr (.inr ⟨name, rfl, hopens⟩)⟩
  | closeFd fd =>
    rcases syscallClose_cases henter with ⟨-, he⟩ | ⟨i, -, -, h8, -, he⟩
    · exact same k.dev (congrArg Left.kernel he)
    · exact ⟨i, _, k.dev, h8, congrArg Left.kernel he, .inr (.inl rfl)⟩
  | readFd fd buf nbytes junk =>
    rcases syscallRead_cases henter with ⟨-, he⟩ | ⟨i, e, t, -, -, h8, -, hread⟩
    · exact same k.dev (congrArg Left.kernel he)
    · obtain ⟨r, dev, -, hk⟩ := readFn_effect h8 hread
      exact ⟨i, _, dev, h8, hk, .inl rfl⟩
  | interrupt dev => exact same dev (congrArg Left.kernel (Except.ok.inj henter)).symm

end MyLinuxOS
