import MyLinuxOS.Files.ReadData

/-! Which bytes of memory `read_data` looks at. The block numbers come from the image and the index
into the block table from the offset, and neither is compared with anything. -/

namespace MyLinuxOS
open Foundation

inductive Load
  | word (x : Nat)
  | entry (inode j : Nat)
  | byte (x : Nat)

def wordBytes (x : Nat) : List Nat := (List.range 4).map fun n : Nat => (x + n) % 4294967296

def Load.touches : Load → List Nat
  | .word x => wordBytes x
  | .entry inode j => wordBytes (Image.inodeBlock inode + 4 + 4 * j)
  | .byte x => [x % 4294967296]

def readLoopLoads (img : Image) (inode offset totalFilelength : Nat) :
    (n i dblockLocation dblockDataLocation : Nat) → List Load
  | 0, _, _, _ => []
  | n + 1, i, dblockLocation, dblockDataLocation =>
    if (offset + i) % 4294967296 ≥ totalFilelength then []
    else
      let (location, dataLocation) :=
        if dblockDataLocation ≥ block4KB then (dblockLocation + 1, 0)
        else (dblockLocation, dblockDataLocation)
      let currByteLoc := (img.dataBlock inode location).toNat
      .entry inode location :: .byte (img.dataStart + currByteLoc * block4KB + dataLocation) ::
        readLoopLoads img inode offset totalFilelength n (i + 1) location (dataLocation + 1)

/-- The loads of a whole call, in the order in which `read_data` makes them. The block number for
the first byte is loaded before the loop, whether a byte is wanted or not. -/
def readDataLoads (img : Image) (inode offset buf length : UInt32) : List Load :=
  .word 8 ::
    if length = 0 then []
    else if inode = 0 ∨ buf = 0 then []
    else
      .word 4 ::
        if inode ≥ img.totalInodes then []
        else
          .word (Image.inodeBlock inode.toNat) :: .word 4 ::
            .entry inode.toNat (offset.toNat / block4KB) ::
              readLoopLoads img inode.toNat offset.toNat (img.inodeLength inode.toNat).toNat
                length.toNat 0 (offset.toNat / block4KB) (offset.toNat % block4KB)

def Load.value (img : Image) : Load → Option UInt8
  | .byte x => some (img.byte x)
  | _ => none

variable {img : Image}

theorem readLoop_eq_loads (inode offset total n i location dataLocation : Nat) :
    readLoop img inode offset total n i location dataLocation =
      (readLoopLoads img inode offset total n i location dataLocation).filterMap
        (Load.value img) := by
  induction n generalizing i location dataLocation with
  | zero => rfl
  | succ n ih =>
    rw [readLoop, readLoopLoads]
    split
    · rfl
    · simp only [List.filterMap_cons, Load.value]
      exact congrArg _ (ih ..)

/-! ### The loads, position by position -/

def positionLoads (img : Image) (inode p : Nat) : List Load :=
  [.entry inode (p / block4KB),
    .byte (img.dataStart + (img.dataBlock inode (p / block4KB)).toNat * block4KB + p % block4KB)]

theorem readLoopLoads_eq {inode offset total n i location dataLocation : Nat}
    (htotal : total < 4294967296) (hoff : offset + i < 4294967296)
    (hpos : location * block4KB + dataLocation = offset + i) (hdata : dataLocation ≤ block4KB) :
    readLoopLoads img inode offset total n i location dataLocation =
      (List.range' (offset + i) (min n (total - (offset + i)))).flatMap
        (positionLoads img inode) := by
  induction n generalizing i location dataLocation with
  | zero => rw [readLoopLoads, Nat.zero_min]; rfl
  | succ n ih =>
    rw [readLoopLoads, Nat.mod_eq_of_lt hoff]
    by_cases hend : offset + i ≥ total
    · rw [if_pos hend, Nat.sub_eq_zero_of_le hend, Nat.min_zero]
      rfl
    · rw [if_neg hend]
      have hmin : min (n + 1) (total - (offset + i)) =
          min n (total - (offset + (i + 1))) + 1 := by omega
      have hnext : offset + (i + 1) < 4294967296 := by omega
      obtain ⟨hpos', hdata'⟩ := nextPosition (offset + i)
      simp only [nextBlock_eq hpos hdata]
      rw [ih hnext hpos' hdata', hmin, List.range'_succ, List.flatMap_cons]
      rfl

def Needed (img : Image) (inode offset length : UInt32) (p : Nat) : Prop :=
  offset.toNat ≤ p ∧ p < offset.toNat + length.toNat ∧ p < (img.inodeLength inode.toNat).toNat

theorem mem_loopLoads_iff {inode offset length : UInt32} {l : Load} :
    l ∈ readLoopLoads img inode.toNat offset.toNat (img.inodeLength inode.toNat).toNat
        length.toNat 0 (offset.toNat / block4KB) (offset.toNat % block4KB) ↔
      ∃ p, Needed img inode offset length p ∧ l ∈ positionLoads img inode.toNat p := by
  have hdata : offset.toNat % block4KB ≤ block4KB := Nat.le_of_lt (Nat.mod_lt _ (by decide))
  have hloads : readLoopLoads img inode.toNat offset.toNat (img.inodeLength inode.toNat).toNat
      length.toNat 0 (offset.toNat / block4KB) (offset.toNat % block4KB) = _ :=
    readLoopLoads_eq (UInt32.toNat_lt _) offset.toNat_lt (Nat.div_add_mod' ..) hdata
  rw [hloads, List.mem_flatMap]
  refine exists_congr fun p => and_congr_left' ?_
  rw [List.mem_range'_1, Needed]
  omega

/-! ### Safety -/

def Image.size (img : Image) : Nat :=
  (1 + img.totalInodes.toNat + img.totalDatablock.toNat) * block4KB

/-- Nothing outside the counted blocks is looked at, no block table is read past its end, and a
request that would need a block or an inode beyond the counts is refused. -/
structure ReadsSafely (img : Image) (inode offset buf length : UInt32) : Prop where
  inside : ∀ l ∈ readDataLoads img inode offset buf length, ∀ x ∈ l.touches, x < img.size
  indexed : ∀ i j, .entry i j ∈ readDataLoads img inode offset buf length → j < onekbPageSize
  inodes : inode ≥ img.totalInodes → readData img inode offset buf length = none
  blocks : ∀ p, Needed img inode offset length p → p / block4KB < onekbPageSize →
    img.totalDatablock ≤ img.dataBlock inode.toNat (p / block4KB) →
      readData img inode offset buf length = none

def Refused (img : Image) (inode buf length : UInt32) : Prop :=
  length ≠ 0 ∧ (inode = 0 ∨ buf = 0 ∨ inode ≥ img.totalInodes)

def WithinCounts (img : Image) (inode offset length : UInt32) : Prop :=
  offset.toNat / block4KB < onekbPageSize ∧ ∀ p, Needed img inode offset length p →
    p / block4KB < onekbPageSize ∧
      img.dataBlock inode.toNat (p / block4KB) < img.totalDatablock

theorem mem_wordBytes_lt {x n y : Nat} (h : x + 4 ≤ n) (hy : y ∈ wordBytes x) : y < n := by
  obtain ⟨m, hm, rfl⟩ := List.mem_map.mp hy
  have hlt := List.mem_range.mp hm
  exact Nat.lt_of_le_of_lt (Nat.mod_le ..) (by omega)

theorem size_ge (img : Image) : block4KB ≤ img.size := by
  unfold Image.size
  rw [Nat.add_assoc, Nat.add_mul, Nat.one_mul]
  exact Nat.le_add_right ..

theorem inode_touches_lt {inode j y : Nat} (hi : inode < img.totalInodes.toNat)
    (hj : j < onekbPageSize) (hy : y ∈ (Load.entry inode j).touches) : y < img.size := by
  refine mem_wordBytes_lt ?_ hy
  unfold Image.inodeBlock Image.size
  unfold onekbPageSize at hj
  unfold block4KB
  omega

theorem data_touches_lt {b x y : Nat} (hb : b < img.totalDatablock.toNat) (hx : x < block4KB)
    (hy : y ∈ (Load.byte (img.dataStart + b * block4KB + x)).touches) : y < img.size := by
  obtain rfl := List.mem_singleton.mp hy
  apply Nat.lt_of_le_of_lt (Nat.mod_le ..)
  unfold Image.dataStart Image.size
  unfold block4KB at hx ⊢
  omega

variable {inode offset buf length : UInt32}

theorem readData_refused (h : Refused img inode buf length) :
    readData img inode offset buf length = none := by
  rw [readData, if_neg h.1, if_pos h.2]

theorem refused_readsSafely (h : Refused img inode buf length) :
    ReadsSafely img inode offset buf length := by
  have hsize : 4096 ≤ img.size := size_ge img
  have hnone : readData img inode offset buf length = none := readData_refused h
  have hloads : ∀ l ∈ readDataLoads img inode offset buf length, l = .word 8 ∨ l = .word 4 := by
    intro l hl
    rw [readDataLoads, if_neg h.1] at hl
    split at hl
    · exact .inl (List.mem_singleton.mp hl)
    · rename_i hargs
      have hbeyond : inode ≥ img.totalInodes := by
        rcases h.2 with h0 | hb | hi
        · exact absurd (.inl h0) hargs
        · exact absurd (.inr hb) hargs
        · exact hi
      rw [if_pos hbeyond] at hl
      simpa using hl
  refine ⟨fun l hl x hx => ?_, fun i j hl => ?_, fun _ => hnone, fun _ _ _ _ => hnone⟩
  · rcases hloads l hl with rfl | rfl
    · exact mem_wordBytes_lt (by omega) hx
    · exact mem_wordBytes_lt (by omega) hx
  · rcases hloads _ hl with h' | h'
    · cases h'
    · cases h'

theorem empty_readsSafely_iff : ReadsSafely img inode offset buf 0 ↔ inode < img.totalInodes := by
  have hsome : readData img inode offset buf 0 ≠ none := by
    rw [readData, if_pos rfl]
    simp
  have hloads : readDataLoads img inode offset buf 0 = [.word 8] := by
    rw [readDataLoads, if_pos rfl]
  have hsize : 4096 ≤ img.size := size_ge img
  have hlength : (0 : UInt32).toNat = 0 := rfl
  constructor
  · intro hsafe
    by_contra hge
    exact hsome (hsafe.inodes (UInt32.not_lt.mp hge))
  · intro hlt
    refine ⟨fun l hl x hx => ?_, fun i j hl => ?_, fun hge => ?_, fun p hp => ?_⟩
    · rw [hloads] at hl
      obtain rfl := List.mem_singleton.mp hl
      exact mem_wordBytes_lt (by omega) hx
    · rw [hloads] at hl
      cases List.mem_singleton.mp hl
    · exact absurd hlt (UInt32.not_lt.mpr hge)
    · obtain ⟨h₁, h₂, -⟩ := hp
      omega

theorem mem_loads_iff (h0 : inode ≠ 0) (hb : buf ≠ 0) (hi : inode < img.totalInodes)
    (hlen : length ≠ 0) {l : Load} : l ∈ readDataLoads img inode offset buf length ↔
      (l = .word 8 ∨ l = .word 4 ∨ l = .word (Image.inodeBlock inode.toNat) ∨
        l = .entry inode.toNat (offset.toNat / block4KB)) ∨
      ∃ p, Needed img inode offset length p ∧ l ∈ positionLoads img inode.toNat p := by
  have hargs : ¬(inode = 0 ∨ buf = 0) := not_or.mpr ⟨h0, hb⟩
  rw [readDataLoads, if_neg hlen, if_neg hargs, if_neg (UInt32.not_le.mpr hi)]
  simp only [List.mem_cons, mem_loopLoads_iff]
  tauto

theorem served_readsSafely_iff (h0 : inode ≠ 0) (hb : buf ≠ 0) (hi : inode < img.totalInodes)
    (hlen : length ≠ 0) :
    ReadsSafely img inode offset buf length ↔ WithinCounts img inode offset length := by
  have hsome : readData img inode offset buf length ≠ none := by
    rw [readData_eq_range' h0 hb hi]
    simp
  have hlt : inode.toNat < img.totalInodes.toNat := UInt32.lt_iff_toNat_lt.mp hi
  constructor
  -- the bound on the offset and each count is what one of the loads needs
  · intro hsafe
    refine ⟨hsafe.indexed inode.toNat _ ((mem_loads_iff h0 hb hi hlen).mpr ?_), fun p hp => ?_⟩
    · exact .inl (.inr (.inr (.inr rfl)))
    · have hj : p / block4KB < onekbPageSize :=
        hsafe.indexed inode.toNat _ ((mem_loads_iff h0 hb hi hlen).mpr
          (.inr ⟨p, hp, List.mem_cons_self ..⟩))
      refine ⟨hj, ?_⟩
      by_contra hge
      exact hsome (hsafe.blocks p hp hj (UInt32.not_lt.mp hge))
  · rintro ⟨hoff, hcounts⟩
    refine ⟨fun l hl x hx => ?_, fun i j hl => ?_, fun hge => ?_, fun p hp _ hge => ?_⟩
    · have hsize : 4096 ≤ img.size := size_ge img
      -- two words of the boot block, the length, the first entry, and the loads of the loop
      rcases (mem_loads_iff h0 hb hi hlen).mp hl with (rfl | rfl | rfl | rfl) | ⟨p, hp, hl'⟩
      · exact mem_wordBytes_lt (by omega) hx
      · exact mem_wordBytes_lt (by omega) hx
      · refine mem_wordBytes_lt ?_ hx
        unfold Image.inodeBlock Image.size block4KB
        omega
      · exact inode_touches_lt hlt hoff hx
      · obtain ⟨hj, hblock⟩ := hcounts p hp
        rcases List.mem_cons.mp hl' with rfl | hl'
        · exact inode_touches_lt hlt hj hx
        · obtain rfl := List.mem_singleton.mp hl'
          exact data_touches_lt (UInt32.lt_iff_toNat_lt.mp hblock) (Nat.mod_lt _ (by decide)) hx
    · rcases (mem_loads_iff h0 hb hi hlen).mp hl with (h | h | h | h) | ⟨p, hp, hl'⟩
      · cases h
      · cases h
      · cases h
      · cases h
        exact hoff
      · rcases List.mem_cons.mp hl' with h | h
        · cases h
          exact (hcounts p hp).1
        · cases List.mem_singleton.mp h
    · exact absurd hi (UInt32.not_lt.mpr hge)
    · exact absurd (hcounts p hp).2 (UInt32.not_lt.mpr hge)

/-- The exact calls that keep to the image: those turned down by the checks, and those whose offset
and blocks happen to be within the table and the counts. -/
theorem reads_safely_iff (img : Image) (inode offset buf length : UInt32) :
    ReadsSafely img inode offset buf length ↔ Refused img inode buf length ∨
      inode < img.totalInodes ∧ (length = 0 ∨ WithinCounts img inode offset length) := by
  by_cases hlen : length = 0
  · subst hlen
    have hnot : ¬Refused img inode buf 0 := fun h => h.1 rfl
    rw [empty_readsSafely_iff, or_iff_right hnot]
    exact ⟨fun hlt => ⟨hlt, .inl rfl⟩, And.left⟩
  by_cases hargs : inode = 0 ∨ buf = 0 ∨ inode ≥ img.totalInodes
  · exact iff_of_true (refused_readsSafely ⟨hlen, hargs⟩) (.inl ⟨hlen, hargs⟩)
  · have hnot : ¬Refused img inode buf length := fun h => hargs h.2
    obtain ⟨h0, hb, hi⟩ : inode ≠ 0 ∧ buf ≠ 0 ∧ ¬inode ≥ img.totalInodes := by tauto
    have hlt := UInt32.not_le.mp hi
    rw [served_readsSafely_iff h0 hb hlt hlen, or_iff_right hnot, or_iff_right hlen,
      and_iff_right hlt]

def damagedImage : Image where
  mem := fun x => if x = 8196 then 1 else sampleImage.mem x

/-- A block that is not there is read all the same: four bytes from behind the image. -/
theorem missing_block_is_read :
    readData damagedImage 1 0 0x8048000 4 = some [0, 0, 0, 0] ∧
      (.byte damagedImage.size) ∈ readDataLoads damagedImage 1 0 0x8048000 4 ∧
      ¬ReadsSafely damagedImage 1 0 0x8048000 4 := by
  have hread : readData damagedImage 1 0 0x8048000 4 = some [0, 0, 0, 0] := by decide +kernel
  have hlen : (0 : UInt32).toNat < (damagedImage.inodeLength (1 : UInt32).toNat).toNat := by
    decide +kernel
  have hneeded : Needed damagedImage 1 0 4 0 := ⟨Nat.le_refl _, by decide, hlen⟩
  have hload : .byte damagedImage.size ∈ readDataLoads damagedImage 1 0 0x8048000 4 := by
    refine (mem_loads_iff (by decide) (by decide) (by decide +kernel) (by decide)).mpr
      (.inr ⟨0, hneeded, ?_⟩)
    have hat : damagedImage.dataStart +
        (damagedImage.dataBlock (1 : UInt32).toNat (0 / block4KB)).toNat * block4KB +
          0 % block4KB = damagedImage.size := by decide +kernel
    rw [positionLoads, hat]
    exact List.mem_cons_of_mem _ (List.mem_singleton_self _)
  refine ⟨hread, hload, fun hsafe => ?_⟩
  have hblock : damagedImage.totalDatablock ≤
      damagedImage.dataBlock (1 : UInt32).toNat (0 / block4KB) := by decide +kernel
  rw [hsafe.blocks 0 hneeded (by decide) hblock] at hread
  exact absurd hread (by simp)

end MyLinuxOS
