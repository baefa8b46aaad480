import MyLinuxOS.Files.SequentialRead

/-! What the calls store through the pointers of a process: how much, against the size it passed,
and where, against its program page. -/

namespace MyLinuxOS
open Foundation

/-! ### The drivers -/

def terminalCount (nbytes : Int32) : Nat :=
  if nbytes > 128 then 128 else nbytes.toUInt32.toNat

def lineLength (keyBuffer : Nat → UInt8) (n : Nat) : Nat :=
  (firstFrom (fun i => keyBuffer i = 10) n 0).getD n

theorem copyLine_length (keyBuffer : Nat → UInt8) (n i : Nat) :
    i + (copyLine keyBuffer n i).length =
      (firstFrom (fun j => keyBuffer j = 10) n i).getD (i + n) := by
  induction n generalizing i with
  | zero => rfl
  | succ n ih =>
    rw [copyLine, firstFrom]
    by_cases h : keyBuffer i = 10
    · rw [if_pos h, if_pos h]
      rfl
    · have hnext := ih (i + 1)
      have hsum : i + (n + 1) = i + 1 + n := by omega
      rw [if_neg h, if_neg h, List.length_cons, hsum, ← hnext]
      omega

theorem lineLength_eq (keyBuffer : Nat → UInt8) (n : Nat) :
    (copyLine keyBuffer n 0).length = lineLength keyBuffer n := by
  have h := copyLine_length keyBuffer n 0
  rw [Nat.zero_add, Nat.zero_add] at h
  exact h

theorem lineLength_le (keyBuffer : Nat → UInt8) (n : Nat) : lineLength keyBuffer n ≤ n := by
  unfold lineLength
  cases h : firstFrom (fun i => keyBuffer i = 10) n 0 with
  | none => exact Nat.le_refl n
  | some i =>
    obtain ⟨-, hlt, -⟩ := firstFrom_eq_some_iff.mp h
    show i ≤ n
    omega

theorem lineLength_lt_iff (keyBuffer : Nat → UInt8) (n : Nat) :
    lineLength keyBuffer n < n ↔ ∃ i < n, keyBuffer i = 10 := by
  unfold lineLength
  cases h : firstFrom (fun i => keyBuffer i = 10) n 0 with
  | none =>
    have hnone := firstFrom_eq_none_iff.mp h
    constructor
    · intro hlt; exact absurd hlt (Nat.lt_irrefl n)
    · rintro ⟨i, hi, he⟩; exact absurd he (hnone i (Nat.zero_le i) (by omega))
  | some i =>
    obtain ⟨-, hlt, he, -⟩ := firstFrom_eq_some_iff.mp h
    exact iff_of_true (by simp only [Option.getD_some]; omega) ⟨i, by omega, he⟩

section
variable {img : Image} {junk : StackBytes} {fd : Int32} {buf : UInt32} {nbytes : Int32} {k : Kernel}
  {left : Left}

theorem terminalRead_cases (h : terminalRead buf nbytes k = .ok left) :
    ∃ k' bytes, bytes.length = lineLength k.dev.keyboard.keyBuffer (terminalCount nbytes) + 1 ∧
      left = ⟨.ret (Int.bmod bytes.length 4294967296), k', storesAt buf bytes⟩ := by
  unfold terminalRead at h
  split at h
  · exact absurd h (by simp)
  · have hcount : (if nbytes > 128 then 128 else nbytes).toUInt32.toNat = terminalCount nbytes := by
      unfold terminalCount
      split <;> rfl
    simp only [hcount] at h
    have hlen : (copyLine k.dev.keyboard.keyBuffer (terminalCount nbytes) 0 ++ [10]).length =
        lineLength k.dev.keyboard.keyBuffer (terminalCount nbytes) + 1 := by
      rw [List.length_append, lineLength_eq]
      rfl
    refine ⟨left.kernel, _, hlen, ?_⟩
    rw [hlen, ← lineLength_eq, ← Except.ok.inj h]
    rfl

theorem Dentry.nameLength_le (d : Dentry) : d.nameLength ≤ 32 := by
  unfold Dentry.nameLength
  by_cases h : (d.bytes.takeWhile (· ≠ 0)).length > filenameMaxLength
  · simp only [if_pos h]
    exact Nat.le_refl filenameMaxLength
  · simp only [if_neg h]
    exact Nat.not_lt.mp h

/-! ### The size of the buffer -/

/-- The value is -1 or a count within the size, and no store lands behind the buffer. -/
structure Honours (buf : UInt32) (nbytes : Int32) (left : Left) : Prop where
  value : ∃ r, left.exit = .ret r ∧ (r = -1 ∨ 0 ≤ r ∧ r ≤ nbytes.toInt)
  within : ∀ s ∈ left.stores, ∃ i : Nat, i < nbytes.toInt.toNat ∧ s.1 = (buf.toNat + i) % 4294967296

/-- When a driver keeps within the size: the terminal needs room for the newline it always stores,
and the directory for the 32 bytes of a name. The state of the kernel is the one in which the wait
of `terminal_read` is over, with the key buffer that it copies. -/
def FitsBuffer (img : Image) (k : Kernel) (e : FileDescriptor) (nbytes : Int32) : OpsTable → Prop
  | .stdin => 128 < nbytes ∨ ∃ i < nbytes.toInt.toNat, k.dev.keyboard.keyBuffer i = 10
  | .dir => 32 ≤ nbytes ∨ img.totalDentries < e.filePos
  | .file | .rtc | .stdout => True

theorem honours_refused : Honours buf nbytes ⟨.ret (-1), k, []⟩ where
  value := ⟨-1, rfl, .inl rfl⟩
  within := fun _ h => absurd h List.not_mem_nil

theorem honours_stores_iff {k' : Kernel} {bytes : List UInt8} {r : Int} (hn : 0 ≤ nbytes)
    (hlen : bytes.length ≤ 4294967296) (h0 : 0 ≤ r) (hr : r ≤ bytes.length) :
    Honours buf nbytes ⟨.ret r, k', storesAt buf bytes⟩ ↔ bytes.length ≤ nbytes.toInt.toNat := by
  have hpos : 0 ≤ nbytes.toInt := Int32.le_iff_toInt_le.mp hn
  constructor
  · intro h
    exact (storesAt_within_iff hlen).mp h.within
  · intro hle
    exact ⟨⟨r, rfl, .inr ⟨h0, by omega⟩⟩, (storesAt_within_iff hlen).mpr hle⟩

theorem honours_terminal_iff (hn : 0 ≤ nbytes) (h : terminalRead buf nbytes k = .ok left)
    (e : FileDescriptor) : Honours buf nbytes left ↔ FitsBuffer img k e nbytes .stdin := by
  obtain ⟨k', bytes, hlen, rfl⟩ := terminalRead_cases h
  have hle := lineLength_le k.dev.keyboard.keyBuffer (terminalCount nbytes)
  have hlt := lineLength_lt_iff k.dev.keyboard.keyBuffer (terminalCount nbytes)
  have hclip : 128 < nbytes ↔ 128 < nbytes.toInt := Int32.lt_iff_toInt_lt
  -- a line has at most 128 bytes, so the newline behind it fits as soon as `nbytes` is larger
  have hcount : terminalCount nbytes = min 128 nbytes.toInt.toNat := by
    unfold terminalCount
    split
    · rename_i hbig
      have := hclip.mp hbig
      omega
    · rename_i hsmall
      rw [toUInt32_toNat hn]
      have : ¬ 128 < nbytes.toInt := fun hb => hsmall (hclip.mpr hb)
      omega
  have hvalue : Int.bmod bytes.length 4294967296 = bytes.length := by
    rw [Int.bmod_def]
    split <;> omega
  rw [hvalue, honours_stores_iff hn (by omega) (Int.natCast_nonneg _) (Int.le_refl _)]
  unfold FitsBuffer
  constructor
  · intro hfits
    by_cases hbig : 128 < nbytes
    · exact .inl hbig
    · right
      have : ¬ 128 < nbytes.toInt := fun hb => hbig (hclip.mpr hb)
      have hsame : terminalCount nbytes = nbytes.toInt.toNat := by omega
      rw [← hsame]
      exact hlt.mp (by omega)
  · rintro (hbig | hnl)
    · have := hclip.mp hbig
      omega
    · by_cases hbig : 128 < nbytes.toInt
      · omega
      · have hsame : terminalCount nbytes = nbytes.toInt.toNat := by omega
        rw [← hsame] at hnl
        have := hlt.mpr hnl
        omega

theorem honours_dir_iff {i : Nat} (hn : 0 ≤ nbytes) (h : dirRead img i buf k = .ok left) :
    Honours buf nbytes left ↔ FitsBuffer img k (k.currPcb.fdEntry i) nbytes .dir := by
  have h32 : 32 ≤ nbytes ↔ 32 ≤ nbytes.toInt := Int32.le_iff_toInt_le
  have hpos : 0 ≤ nbytes.toInt := Int32.le_iff_toInt_le.mp hn
  unfold FitsBuffer
  rcases dirRead_cases h with ⟨hend, rfl⟩ | ⟨hin, rfl⟩
  · exact iff_of_true honours_refused (.inr hend)
  · have hname := (img.dentries (k.currPcb.fdEntry i).filePos.toNat).nameLength_le
    have hnot : ¬ img.totalDentries < (k.currPcb.fdEntry i).filePos := UInt32.not_lt.mpr hin
    rw [honours_stores_iff hn (by rw [List.length_ofFn]; omega) (Int.natCast_nonneg _)
      (by rw [List.length_ofFn]; exact Int.ofNat_le.mpr hname), List.length_ofFn, h32]
    constructor
    · intro hle; exact .inl (by omega)
    · rintro (hle | hend)
      · omega
      · exact absurd hend hnot

theorem readData_length_le {inode offset length : UInt32} {bytes : List UInt8}
    (h : readData img inode offset buf length = some bytes) : bytes.length ≤ length.toNat := by
  by_cases hargs : inode = 0 ∨ buf = 0 ∨ inode ≥ img.totalInodes
  · unfold readData at h
    rw [if_pos hargs] at h
    split at h
    · obtain rfl := Option.some.inj h
      exact Nat.zero_le _
    · exact absurd h (by simp)
  · rw [not_or, not_or] at hargs
    rw [readData_eq_range' hargs.1 hargs.2.1 (UInt32.not_le.mp hargs.2.2)] at h
    obtain rfl := Option.some.inj h
    rw [List.length_map, List.length_range']
    exact Nat.min_le_left ..

theorem honours_file {i : Nat} (hn : 0 ≤ nbytes) (h : fileRead img i buf nbytes k = .ok left) :
    Honours buf nbytes left := by
  rcases fileRead_cases h with rfl | ⟨bytes, -, -, hread, rfl⟩
  · exact honours_refused
  · have hle := readData_length_le hread
    rw [toUInt32_toNat hn] at hle
    have hlt := nbytes.toInt_lt
    exact (honours_stores_iff hn (by omega) (Int.natCast_nonneg _) (Int.le_refl _)).mpr hle

end

/-- A read keeps within the caller's buffer exactly when its driver has room for what it stores
unasked. -/
theorem honours_iff_fitsBuffer {img : Image} {junk : StackBytes} {fd : Int32} {buf : UInt32}
    {nbytes : Int32} {k : Kernel} {left : Left} {i : Nat} {e : FileDescriptor} {t : OpsTable}
    (hn : 0 ≤ nbytes) (hd : k.dispatch fd = some (i, e)) (ht : e.fileOpsTable = .table t)
    (h : syscallRead img junk fd buf nbytes k = .ok left) :
    Honours buf nbytes left ↔ buf = 0 ∨ FitsBuffer img k e nbytes t := by
  have hpos : 0 ≤ nbytes.toInt := Int32.le_iff_toInt_le.mp hn
  rcases syscallRead_cases h with ⟨hb | hnone, rfl⟩ | ⟨i', e', t', hb, hd', -, ht', hread⟩
  · exact iff_of_true honours_refused (.inl hb)
  · exact absurd (hd.symm.trans hnone) (by simp)
  · obtain ⟨rfl, rfl⟩ := Prod.mk.inj (Option.some.inj (hd.symm.trans hd'))
    obtain rfl := OpsPtr.table.inj (ht.symm.trans ht')
    have hentry : k.currPcb.fdEntry i = e := (dispatch_eq_some.mp hd).2.2.1
    rw [or_iff_right hb]
    cases t with
    | rtc =>
      simp only [readFn] at hread
      split at hread
      · exact absurd hread (by simp)
      · rename_i r rtc hrtc
        obtain rfl := Except.ok.inj hread
        refine iff_of_true ⟨⟨r, rfl, .inr ?_⟩, fun _ h => absurd h List.not_mem_nil⟩ trivial
        simp only [Rtc.readRtc] at hrtc
        split at hrtc
        · exact absurd hrtc (by simp)
        · obtain ⟨rfl, -⟩ := Prod.mk.inj (Option.some.inj hrtc)
          exact ⟨Int.le_refl 0, hpos⟩
    | dir =>
      rw [← hentry]
      exact honours_dir_iff hn hread
    | file => exact iff_of_true (honours_file hn hread) trivial
    | stdin => exact honours_terminal_iff hn hread e
    | stdout =>
      obtain rfl := Except.ok.inj hread
      exact iff_of_true honours_refused trivial

theorem sample_directory_read (nbytes : Int32) {buf : UInt32} (hb : buf ≠ 0) :
    ∃ k₀ k left, Boots sampleImage k₀ ∧
      syscallOpen sampleImage (some dotName) k₀ = .ok ⟨.ret 2, k, []⟩ ∧
      k.dispatch 2 = some (2, ⟨.table .dir, 0, 0, 1⟩) ∧
      syscallRead sampleImage sampleJunk 2 buf nbytes k = .ok left ∧
      left.stores = storesAt buf (List.ofFn (sampleImage.dentries 0).fileName) := by
  obtain ⟨k₀, k, hboot, hopen, hentry⟩ := sampleImage_opens_dir
  have hd := (dispatch_of_entry rfl (by decide) hentry : k.dispatch 2 = _)
  have hread := syscallRead_eq sampleImage sampleJunk nbytes hb hd rfl
  obtain ⟨r, k', stores, hdir⟩ := dirRead_ok sampleImage 2 buf k
  refine ⟨k₀, k, _, hboot, hopen, hd, hread.trans hdir, ?_⟩
  rcases dirRead_cases hdir with ⟨hend, -⟩ | ⟨-, he⟩
  · rw [hentry] at hend
    exact absurd hend (by decide +kernel)
  · have hpos : (k.currPcb.fdEntry 2).filePos.toNat = 0 := by
      rw [hentry]
      rfl
    rw [hpos] at he
    obtain ⟨-, -, hs⟩ := Left.mk.inj he
    exact hs

theorem sample_directory_read_honours_32 : ∃ k left,
    syscallRead sampleImage sampleJunk 2 0x8050000 32 k = .ok left ∧
    left.stores.length = 32 ∧ Honours 0x8050000 32 left := by
  have hb : (0x8050000 : UInt32) ≠ 0 := by decide
  obtain ⟨k₀, k, left, -, -, hd, h, hstores⟩ := sample_directory_read 32 hb
  have hfits : FitsBuffer sampleImage k ⟨.table .dir, 0, 0, 1⟩ 32 .dir := .inl (by decide)
  refine ⟨k, left, h, ?_, (honours_iff_fitsBuffer (by decide) hd rfl h).mpr (.inr hfits)⟩
  rw [hstores, storesAt_length, List.length_ofFn]

theorem directory_read_overruns_16_bytes : ∃ k₀ k left, Boots sampleImage k₀ ∧
    syscallOpen sampleImage (some dotName) k₀ = .ok ⟨.ret 2, k, []⟩ ∧
    syscallRead sampleImage sampleJunk 2 0x8050000 16 k = .ok left ∧
    ¬ Honours 0x8050000 16 left := by
  have hb : (0x8050000 : UInt32) ≠ 0 := by decide
  obtain ⟨k₀, k, left, hboot, hopen, -, h, hstores⟩ := sample_directory_read 16 hb
  refine ⟨k₀, k, left, hboot, hopen, h, fun hhon => ?_⟩
  have hlen : (List.ofFn (sampleImage.dentries 0).fileName).length = 32 := List.length_ofFn
  have hwithin := hhon.within
  rw [hstores] at hwithin
  have hle := (storesAt_within_iff (hlen.trans_le (by decide))).mp hwithin
  rw [hlen] at hle
  exact absurd hle (by decide)

/-! ### The program page -/

inductive StoringCall
  | read (fd : Int32) (buf : UInt32) (nbytes : Int32) (junk : StackBytes)
  | getargs (buf : UInt32) (nbytes : Int32)
  | vidmap (screenStart : UInt32)

namespace StoringCall

def enter (img : Image) (k : Kernel) : StoringCall → Entry
  | .read fd buf nbytes junk => syscallRead img junk fd buf nbytes k
  | .getargs buf nbytes => syscallGetargs buf nbytes k
  | .vidmap screenStart => syscallVidmap screenStart k

def pointer : StoringCall → UInt32
  | .read _ buf _ _ => buf
  | .getargs buf _ => buf
  | .vidmap screenStart => screenStart

def readExtent (img : Image) (k : Kernel) (e : FileDescriptor) (nbytes : Int32) : Nat :=
  match e.fileOpsTable with
  | .table .stdin => lineLength k.dev.keyboard.keyBuffer (terminalCount nbytes) + 1
  | .table .dir => if e.filePos ≤ img.totalDentries then 32 else 0
  | .table .file =>
    if 0 ≤ nbytes ∧ e.inode ≠ 0 ∧ e.inode < img.totalInodes then
      min nbytes.toInt.toNat ((img.inodeLength e.inode.toNat).toNat - e.filePos.toNat)
    else 0
  | .table .rtc | .table .stdout | .raw _ => 0

/-- Every argument byte that is not a space is stored, with a space after it where one follows. -/
def argsExtent (args : Nat → UInt8) (n i : Nat) : Nat :=
  (List.range' i n).countP (fun j => args j ≠ 32) +
    (List.range' i n).countP (fun j => args j ≠ 32 ∧ args (j + 1) = 32)

def extent (img : Image) (k : Kernel) : StoringCall → Nat
  | .read fd buf nbytes _ =>
    if buf = 0 then 0
    else
      match k.dispatch fd with
      | none => 0
      | some (_, e) => readExtent img k e nbytes
  | .getargs buf nbytes =>
    if buf = 0 ∨ k.currPcb.args 0 = 0 then 0
    else argsExtent k.currPcb.args nbytes.toInt.toNat 0 + 1
  | .vidmap screenStart =>
    if userLocation < screenStart.toNat ∧ screenStart.toNat ≤ userLocation + pageSize4MB then 4
    else 0

end StoringCall

def Confined (left : Left) : Prop :=
  (left.exit = .ret (-1) ∧ left.stores = []) ∨
    ∀ s ∈ left.stores, userLocation ≤ s.1 ∧ s.1 < userLocation + pageSize4MB

theorem copyArgs_length (args : Nat → UInt8) (n i : Nat) :
    (copyArgs args n i).length = StoringCall.argsExtent args n i := by
  induction n generalizing i with
  | zero => rfl
  | succ n ih =>
    have hnext := ih (i + 1)
    unfold StoringCall.argsExtent at hnext ⊢
    rw [copyArgs, List.range'_succ, List.countP_cons, List.countP_cons]
    by_cases h : args i = 32
    · rw [if_pos h, hnext]
      simp only [h, ne_eq, not_true_eq_false, decide_false, false_and, Bool.false_eq_true, if_false,
        Nat.add_zero]
    · rw [if_neg h]
      by_cases hs : args (i + 1) = 32
      · rw [if_pos hs, List.length_cons, List.length_cons, hnext]
        simp only [h, hs, ne_eq, not_false_eq_true, decide_true, and_self, if_true]
        omega
      · rw [if_neg hs, List.length_cons, hnext]
        simp only [h, hs, ne_eq, not_false_eq_true, decide_true, and_false, decide_false,
          Bool.false_eq_true, if_true, if_false]
        omega

section
variable {img : Image} {junk : StackBytes} {fd : Int32} {buf : UInt32} {nbytes : Int32} {k : Kernel}
  {left : Left}

theorem fileRead_stores {i : Nat} (hb : buf ≠ 0) (h8 : i < 8)
    (h : fileRead img i buf nbytes k = .ok left) :
    ∃ bytes, left.stores = storesAt buf bytes ∧ bytes.length =
      if 0 ≤ nbytes ∧ (k.currPcb.fdEntry i).inode ≠ 0 ∧
          (k.currPcb.fdEntry i).inode < img.totalInodes then
        min nbytes.toInt.toNat ((img.inodeLength (k.currPcb.fdEntry i).inode.toNat).toNat -
          (k.currPcb.fdEntry i).filePos.toNat)
      else 0 := by
  by_cases hok : 0 ≤ nbytes ∧ (k.currPcb.fdEntry i).inode ≠ 0 ∧
      (k.currPcb.fdEntry i).inode < img.totalInodes
  · obtain ⟨hn, h0, hN⟩ := id hok
    rw [fileRead_eq hb hn h8 (readData_eq_range' h0 hb hN)] at h
    rw [if_pos hok, ← Except.ok.inj h]
    refine ⟨_, rfl, ?_⟩
    rw [List.length_map, List.length_range', toUInt32_toNat hn]
  · rw [if_neg hok]
    rcases fileRead_cases h with rfl | ⟨bytes, -, hn, hread, rfl⟩
    · exact ⟨[], rfl, rfl⟩
    · refine ⟨bytes, rfl, ?_⟩
      have hbad : (k.currPcb.fdEntry i).inode = 0 ∨ buf = 0 ∨
          (k.currPcb.fdEntry i).inode ≥ img.totalInodes := by
        by_contra hgood
        rw [not_or, not_or] at hgood
        exact hok ⟨hn, hgood.1, UInt32.not_le.mp hgood.2.2⟩
      unfold readData at hread
      rw [if_pos hbad] at hread
      split at hread
      · rw [← Option.some.inj hread]
        rfl
      · exact absurd hread (by simp)

theorem syscallRead_stores (h : syscallRead img junk fd buf nbytes k = .ok left) :
    ∃ bytes, left.stores = storesAt buf bytes ∧
      bytes.length = (StoringCall.read fd buf nbytes junk).extent img k := by
  unfold StoringCall.extent
  rcases syscallRead_cases h with ⟨hb | hnone, rfl⟩ | ⟨i, e, t, hb, hd, h8, ht, hread⟩
  · exact ⟨[], rfl, by simp only [if_pos hb]; rfl⟩
  · refine ⟨[], rfl, ?_⟩
    simp only [hnone, ite_self]
    rfl
  · have hentry : k.currPcb.fdEntry i = e := (dispatch_eq_some.mp hd).2.2.1
    simp only [if_neg hb, hd]
    unfold StoringCall.readExtent
    rw [ht]
    cases t with
    | rtc =>
      simp only [readFn] at hread
      split at hread
      · exact absurd hread (by simp)
      · obtain rfl := Except.ok.inj hread
        exact ⟨[], rfl, rfl⟩
    | dir =>
      simp only
      rcases dirRead_cases hread with ⟨hend, rfl⟩ | ⟨hin, rfl⟩
      · rw [hentry] at hend
        rw [if_neg (UInt32.not_le.mpr hend)]
        exact ⟨[], rfl, rfl⟩
      · rw [hentry] at hin
        rw [if_pos hin]
        simp only
        exact ⟨List.ofFn (img.dentries (k.currPcb.fdEntry i).filePos.toNat).fileName, rfl,
          List.length_ofFn⟩
    | file =>
      have hstores := fileRead_stores hb h8 hread
      rw [hentry] at hstores
      exact hstores
    | stdin =>
      obtain ⟨k', bytes, hlen, rfl⟩ := terminalRead_cases hread
      exact ⟨bytes, rfl, hlen⟩
    | stdout =>
      obtain rfl := Except.ok.inj hread
      exact ⟨[], rfl, rfl⟩

theorem syscallGetargs_stores (h : syscallGetargs buf nbytes k = .ok left) :
    ∃ bytes, left.stores = storesAt buf bytes ∧
      bytes.length = (StoringCall.getargs buf nbytes).extent img k := by
  unfold syscallGetargs at h
  rw [StoringCall.extent]
  split at h
  · rename_i hb
    rw [← Except.ok.inj h, if_pos (.inl hb)]
    exact ⟨[], rfl, rfl⟩
  · rename_i hb
    split at h
    · rename_i hnone
      rw [← Except.ok.inj h, if_pos (.inr hnone)]
      exact ⟨[], rfl, rfl⟩
    · rename_i hsome
      rw [← Except.ok.inj h, if_neg (not_or.mpr ⟨hb, hsome⟩)]
      refine ⟨_, rfl, ?_⟩
      rw [List.length_append, copyArgs_length]
      rfl

theorem syscallVidmap_stores {screenStart : UInt32} (h : syscallVidmap screenStart k = .ok left) :
    ∃ bytes, left.stores = storesAt screenStart bytes ∧
      bytes.length = (StoringCall.vidmap screenStart).extent img k := by
  unfold syscallVidmap at h
  rw [StoringCall.extent]
  split at h
  · rename_i hz
    have hout : ¬ (userLocation < screenStart.toNat ∧
        screenStart.toNat ≤ userLocation + pageSize4MB) := by
      rintro ⟨hlow, -⟩
      rw [hz] at hlow
      exact absurd hlow (Nat.not_lt_zero _)
    rw [← Except.ok.inj h, if_neg hout]
    exact ⟨[], rfl, rfl⟩
  · split at h
    · rename_i hout
      have hout' : ¬ (userLocation < screenStart.toNat ∧
          screenStart.toNat ≤ userLocation + pageSize4MB) := by omega
      rw [← Except.ok.inj h, if_neg hout']
      exact ⟨[], rfl, rfl⟩
    · rename_i hin
      have hin' : userLocation < screenStart.toNat ∧
          screenStart.toNat ≤ userLocation + pageSize4MB := by omega
      rw [← Except.ok.inj h, if_pos hin']
      exact ⟨_, rfl, rfl⟩

theorem StoringCall.stores {c : StoringCall} (h : c.enter img k = .ok left) :
    ∃ bytes, left.stores = storesAt c.pointer bytes ∧ bytes.length = c.extent img k := by
  cases c with
  | read fd buf nbytes junk => exact syscallRead_stores h
  | getargs buf nbytes => exact syscallGetargs_stores h
  | vidmap screenStart => exact syscallVidmap_stores h

end

/-- A call is confined exactly when the whole range it stores lies in the program page. A read from
the terminal copies the key buffer of `k`, in which its wait is over. -/
theorem confined_iff_range {img : Image} {k : Kernel} {c : StoringCall} {left : Left}
    (h : c.enter img k = .ok left) : Confined left ↔ c.extent img k = 0 ∨
      userLocation ≤ c.pointer.toNat ∧
        c.pointer.toNat + c.extent img k ≤ userLocation + pageSize4MB := by
  obtain ⟨bytes, hstores, hlen⟩ := StoringCall.stores h
  have hbound : userLocation + pageSize4MB < 4294967296 := by decide
  have hrange : (∀ s ∈ storesAt c.pointer bytes, userLocation ≤ s.1 ∧
      s.1 < userLocation + pageSize4MB) ↔ _ := storesAt_range_iff hbound
  rw [← hlen, ← hrange, ← hstores]
  constructor
  · rintro (⟨-, hnone⟩ | hall)
    · rw [hnone]
      exact fun _ hs => absurd hs List.not_mem_nil
    · exact hall
  · exact .inr

theorem vidmap_into_program_page : ∃ k left, Boots sampleImage k ∧
    (StoringCall.vidmap 0x8050000).enter sampleImage k = .ok left ∧
    left.stores.length = 4 ∧ Confined left := by
  obtain ⟨args, d, hboot⟩ := sampleImage_boots
  let k := sampleShell (initTerminal samplePowerOn) 0 args d
  have h : (StoringCall.vidmap 0x8050000).enter sampleImage k = .ok ⟨.ret 0,
    { k with paging := k.paging.syscallVidmapHelper },
    storesAt 0x8050000 (le32Bytes virtualVidmap)⟩ := rfl
  have hrange : userLocation ≤ (0x8050000 : UInt32).toNat ∧
      (0x8050000 : UInt32).toNat + 4 ≤ userLocation + pageSize4MB := by decide
  exact ⟨k, _, hboot, h, rfl, (confined_iff_range h).mpr (.inr hrange)⟩

theorem not_confined_below {left : Left} {buf : UInt32} {bytes : List UInt8}
    (hstores : left.stores = storesAt buf bytes) (hlen : 0 < bytes.length)
    (hbuf : buf.toNat < userLocation) : ¬ Confined left := by
  have hfirst : ((buf.toNat + 0) % 4294967296, bytes[0]) ∈ left.stores := by
    rw [hstores]
    exact mem_storesAt.mpr ⟨0, hlen, rfl⟩
  rintro (⟨-, hnone⟩ | hall)
  · rw [hnone] at hfirst
    exact absurd hfirst List.not_mem_nil
  · obtain ⟨hlow, -⟩ := hall _ hfirst
    simp only [userLocation] at hlow hbuf
    omega

/-- `read` stores the bytes of a name at any address of the kernel. -/
theorem read_into_kernel_page : ∃ k₀ k left, Boots sampleImage k₀ ∧
    syscallOpen sampleImage (some dotName) k₀ = .ok ⟨.ret 2, k, []⟩ ∧
    (StoringCall.read 2 0x400000 32 sampleJunk).enter sampleImage k = .ok left ∧
    ¬ Confined left := by
  have hb : (0x400000 : UInt32) ≠ 0 := by decide
  obtain ⟨k₀, k, left, hboot, hopen, -, h, hstores⟩ := sample_directory_read 32 hb
  have hlow : (0x400000 : UInt32).toNat < userLocation := by decide
  refine ⟨k₀, k, left, hboot, hopen, h, not_confined_below hstores ?_ hlow⟩
  rw [List.length_ofFn]
  decide

end MyLinuxOS
