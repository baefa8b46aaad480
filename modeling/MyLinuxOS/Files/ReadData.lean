import MyLinuxOS.Kernel.Filesys

/-! `read_data` reads a stretch of the contents of a file: whatever the position, the bytes it
stores are those between the position and the end of the file, as many as are asked for. -/

namespace MyLinuxOS
open Foundation

def Image.fileByte (img : Image) (inode p : Nat) : UInt8 :=
  img.byte (img.dataStart + (img.dataBlock inode (p / block4KB)).toNat * block4KB + p % block4KB)

variable {img : Image}

theorem Image.fileContents_eq {inode : Nat}
    (hlen : (img.inodeLength inode).toNat ≤ onekbPageSize * block4KB) :
    img.fileContents inode =
      (List.range (img.inodeLength inode).toNat).map (img.fileByte inode) := by
  unfold Image.fileContents Image.blockBytes
  rw [flatMap_blocks
    (fun j x => img.byte (img.dataStart + (img.dataBlock inode j).toNat * block4KB + x))
    onekbPageSize (by decide : 0 < block4KB), ← List.map_take, List.take_range,
    Nat.min_eq_left hlen]
  rfl

theorem Image.WellFormed.fileContents (h : img.WellFormed) {inode : Nat}
    (hi : inode < img.totalInodes.toNat) :
    img.fileContents inode =
      (List.range (img.inodeLength inode).toNat).map (img.fileByte inode) :=
  Image.fileContents_eq (h.length_le inode hi)

theorem Image.WellFormed.fileContents_length (h : img.WellFormed) {inode : Nat}
    (hi : inode < img.totalInodes.toNat) :
    (img.fileContents inode).length = (img.inodeLength inode).toNat := by
  rw [h.fileContents hi, List.length_map, List.length_range]

/-- The block moves on lazily, so the offset in it may be the block size. The byte is then taken
from the front of the next block. -/
theorem nextBlock_eq {p location dataLocation : Nat}
    (hpos : location * block4KB + dataLocation = p) (hdata : dataLocation ≤ block4KB) :
    (if dataLocation ≥ block4KB then (location + 1, 0) else (location, dataLocation)) =
      (p / block4KB, p % block4KB) := by
  by_cases hfull : dataLocation ≥ block4KB
  · have hblock : p / block4KB = location + 1 := by simp only [block4KB] at *; omega
    have hmod : p % block4KB = 0 := by simp only [block4KB] at *; omega
    rw [if_pos hfull, hblock, hmod]
  · have hblock : p / block4KB = location := by simp only [block4KB] at *; omega
    have hmod : p % block4KB = dataLocation := by simp only [block4KB] at *; omega
    rw [if_neg hfull, hblock, hmod]

theorem nextPosition (p : Nat) : p / block4KB * block4KB + (p % block4KB + 1) = p + 1 ∧
    p % block4KB + 1 ≤ block4KB := by
  have hdiv : p / block4KB * block4KB + p % block4KB = p := Nat.div_add_mod' ..
  exact ⟨by omega, Nat.mod_lt _ (by decide)⟩

theorem readLoop_eq {inode offset total n i location dataLocation : Nat}
    (htotal : total < 4294967296) (hoff : offset + i < 4294967296)
    (hpos : location * block4KB + dataLocation = offset + i) (hdata : dataLocation ≤ block4KB) :
    readLoop img inode offset total n i location dataLocation =
      (List.range' (offset + i) (min n (total - (offset + i)))).map (img.fileByte inode) := by
  induction n generalizing i location dataLocation with
  | zero => rw [readLoop, Nat.zero_min]; rfl
  | succ n ih =>
    rw [readLoop, Nat.mod_eq_of_lt hoff]
    by_cases hend : offset + i ≥ total
    · rw [if_pos hend, Nat.sub_eq_zero_of_le hend, Nat.min_zero]
      rfl
    · rw [if_neg hend]
      have hmin : min (n + 1) (total - (offset + i)) =
          min n (total - (offset + (i + 1))) + 1 := by omega
      have hnext : offset + (i + 1) < 4294967296 := by omega
      obtain ⟨hpos', hdata'⟩ := nextPosition (offset + i)
      simp only [nextBlock_eq hpos hdata]
      rw [ih hnext hpos' hdata', hmin, List.range'_succ, List.map_cons]
      rfl

theorem readData_eq_range' {inode offset buf length : UInt32} (h0 : inode ≠ 0) (hb : buf ≠ 0)
    (hi : inode < img.totalInodes) : readData img inode offset buf length =
      some ((List.range' offset.toNat
        (min length.toNat ((img.inodeLength inode.toNat).toNat - offset.toNat))).map
          (img.fileByte inode.toNat)) := by
  unfold readData
  by_cases hlen : length = 0
  · rw [if_pos hlen, hlen]
    have hzero : (0 : UInt32).toNat = 0 := rfl
    rw [hzero, Nat.zero_min]
    rfl
  · have hargs : ¬ (inode = 0 ∨ buf = 0 ∨ inode ≥ img.totalInodes) := by
      rintro (he | he | he)
      · exact h0 he
      · exact hb he
      · exact absurd hi (UInt32.not_lt.mpr he)
    have hdata : offset.toNat % block4KB ≤ block4KB := Nat.le_of_lt (Nat.mod_lt _ (by decide))
    rw [if_neg hlen, if_neg hargs]
    exact congrArg some (readLoop_eq (i := 0) (UInt32.toNat_lt _) offset.toNat_lt
      (Nat.div_add_mod' ..) hdata)

theorem readData_eq (h : img.WellFormed) {inode offset buf length : UInt32} (h0 : inode ≠ 0)
    (hb : buf ≠ 0) (hi : inode < img.totalInodes) : readData img inode offset buf length =
      some (((img.fileContents inode.toNat).drop offset.toNat).take length.toNat) := by
  rw [readData_eq_range' h0 hb hi, h.fileContents (UInt32.lt_iff_toNat_lt.mp hi),
    take_drop_map_range]

theorem sampleImage_wellFormed : sampleImage.WellFormed where
  fits := by decide +kernel
  length_le := by decide +kernel
  block_lt := by
    have hlen : ∀ k < sampleImage.totalInodes.toNat,
        (sampleImage.inodeLength k).toNat ≤ 28 := by decide +kernel
    have hfirst : ∀ k < sampleImage.totalInodes.toNat,
        (sampleImage.dataBlock k 0).toNat < sampleImage.totalDatablock.toNat := by decide +kernel
    intro k hk j hj
    have hzero : j = 0 := by
      have hle := hlen k hk
      simp only [block4KB] at hj
      omega
    rw [hzero]
    exact hfirst k hk

/-- Whatever the position, the buffer receives the bytes of the file from there on, as many as are
returned, and nothing behind them changes. -/
theorem read_data_reads_the_file (mem : Nat → UInt8) {inode offset buf length : UInt32}
    (h0 : 0 < inode) (hi : inode < img.totalInodes) (hb : buf ≠ 0)
    (hlen : (img.inodeLength inode.toNat).toNat ≤ onekbPageSize * block4KB) :
    ∃ bytes, readData img inode offset buf length = some bytes ∧
      bytes.length =
        min length.toNat ((img.inodeLength inode.toNat).toNat - offset.toNat) ∧
      (∀ i < bytes.length, applyStores mem (storesAt buf bytes) ((buf.toNat + i) % 4294967296) =
        (img.fileContents inode.toNat).getD (offset.toNat + i) 0) ∧
      ∀ i, bytes.length ≤ i → i < 4294967296 →
        applyStores mem (storesAt buf bytes) ((buf.toNat + i) % 4294967296) =
          mem ((buf.toNat + i) % 4294967296) := by
  have hne : inode ≠ 0 := by
    rintro rfl
    exact absurd h0 (UInt32.lt_irrefl 0)
  have hread : readData img inode offset buf length = _ := readData_eq_range' hne hb hi
  have hcount : min length.toNat ((img.inodeLength inode.toNat).toNat - offset.toNat) ≤
      4294967296 := (Nat.min_le_left ..).trans (Nat.le_of_lt length.toNat_lt)
  refine ⟨_, hread, by simp, ?_, ?_⟩
  · intro i hin
    simp only [List.length_map, List.length_range'] at hin
    rw [applyStores_storesAt (by simpa using hcount) (by omega), Image.fileContents_eq hlen,
      List.getD_eq_getElem _ _ (by simpa using hin), List.getD_eq_getElem _ _ (by simp; omega)]
    simp
  · intro i hle hlt
    rw [applyStores_storesAt (by simpa using hcount) hlt, List.getD_eq_default _ _ hle]

/-- The last 12 bytes of a 28-byte file, although 4096 are asked for. -/
theorem sample_read_data_reads_the_file :
    ∃ bytes, readData sampleImage 1 16 0x8048000 4096 = some bytes ∧
      bytes.length = min (4096 : UInt32).toNat
        ((sampleImage.inodeLength (1 : UInt32).toNat).toNat - (16 : UInt32).toNat) ∧
      (∀ i < bytes.length, applyStores (fun _ => 0) (storesAt 0x8048000 bytes)
        (((0x8048000 : UInt32).toNat + i) % 4294967296) =
          (sampleImage.fileContents (1 : UInt32).toNat).getD ((16 : UInt32).toNat + i) 0) ∧
      ∀ i, bytes.length ≤ i → i < 4294967296 →
        applyStores (fun _ => 0) (storesAt 0x8048000 bytes)
          (((0x8048000 : UInt32).toNat + i) % 4294967296) = 0 :=
  read_data_reads_the_file (fun _ => 0) (by decide) (by decide +kernel) (by decide)
    (by decide +kernel)

end MyLinuxOS
