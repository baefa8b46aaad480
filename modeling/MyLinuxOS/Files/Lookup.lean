import MyLinuxOS.Kernel.Filesys
import Mathlib.Data.Nat.Find

/-! `read_dentry_by_name` against the directory: which entry a name leads to, and when one behind
the counted entries can answer for them. -/

namespace MyLinuxOS
open Foundation

def Dentry.storedName (d : Dentry) : List UInt8 := (List.ofFn d.fileName).takeWhile (· ≠ 0)

theorem toInt8_sub_eq_zero_iff {a b : UInt8} : a.toInt8.toInt - b.toInt8.toInt = 0 ↔ a = b := by
  rw [Int.sub_eq_zero, Int8.toInt_inj]
  refine ⟨fun h => ?_, congrArg _⟩
  rw [← UInt8.toUInt8_toInt8 a, h, UInt8.toUInt8_toInt8]

theorem strncmp_eq_zero_iff {s₁ s₂ : Nat → UInt8} {n i : Nat} :
    strncmp s₁ s₂ n i = 0 ↔
      ((List.range' i n).map s₁).takeWhile (· ≠ 0) =
        ((List.range' i n).map s₂).takeWhile (· ≠ 0) := by
  induction n generalizing i with
  | zero => exact iff_of_true rfl rfl
  | succ n ih =>
    rw [strncmp, List.range'_succ, List.map_cons, List.map_cons]
    by_cases hne : s₁ i = s₂ i
    · by_cases hzero : s₁ i = 0
      · have hzero' : s₂ i = 0 := hne ▸ hzero
        rw [if_pos (.inr hzero), toInt8_sub_eq_zero_iff]
        simp [hzero, hzero']
      · have hzero' : s₂ i ≠ 0 := hne ▸ hzero
        rw [if_neg (by simp [hne, hzero']), ih]
        simp [hne, hzero']
    · rw [if_pos (.inl hne), toInt8_sub_eq_zero_iff]
      refine iff_of_false hne fun hsame => ?_
      by_cases hzero : s₁ i = 0 <;> by_cases hzero' : s₂ i = 0
      · exact hne (hzero.trans hzero'.symm)
      · simp [hzero, hzero'] at hsame
      · simp [hzero, hzero'] at hsame
      · simp [hzero, hzero', hne] at hsame

theorem storedName_eq (img : Image) (i : Nat) :
    (img.denPtr i).storedName =
      ((List.range' 0 filenameMaxLength).map fun j =>
        img.byte (dentrySize * (i + 1) + j)).takeWhile (· ≠ 0) := by
  rw [Dentry.storedName]
  refine congrArg _ (List.ext_getElem rfl fun j h₁ h₂ => ?_)
  rw [List.getElem_ofFn, List.getElem_map, List.getElem_range', Nat.zero_add, Nat.one_mul]
  rfl

theorem storedName_length_le (d : Dentry) : d.storedName.length ≤ filenameMaxLength := by
  have hle := (List.takeWhile_sublist (l := List.ofFn d.fileName) (· ≠ 0)).length_le
  rwa [List.length_ofFn] at hle

theorem answers_iff {img : Image} {name : CString} (h : name.strlen ≤ filenameMaxLength)
    (i : Nat) :
    strncmp name.charAt (fun j => img.byte (dentrySize * (i + 1) + j)) filenameMaxLength 0 = 0 ↔
      (img.denPtr i).storedName = name.bytes := by
  rw [strncmp_eq_zero_iff, name.takeWhile_charAt h, ← storedName_eq, eq_comm]

theorem readDentryByName_eq_some {img : Image} {name : CString} {d : Dentry} :
    readDentryByName img (some name) = some d ↔
      ∃ i < bootSize, (img.denPtr i).storedName = name.bytes ∧
        (∀ j < i, (img.denPtr j).storedName ≠ name.bytes) ∧ img.denPtr i = d := by
  rw [readDentryByName]
  by_cases hlong : name.strlen > filenameMaxLength
  · rw [if_pos hlong]
    refine iff_of_false (by simp) ?_
    rintro ⟨i, -, hi, -⟩
    have hle := storedName_length_le (img.denPtr i)
    rw [hi] at hle
    exact absurd hle (Nat.not_le.mpr hlong)
  · rw [if_neg hlong]
    simp only [Option.map_eq_some_iff, firstFrom_eq_some_iff, answers_iff (Nat.not_lt.mp hlong),
      Nat.zero_le, true_and, Nat.zero_add, forall_const]
    constructor
    · rintro ⟨i, ⟨hi, hname, hfirst⟩, rfl⟩
      exact ⟨i, hi, hname, hfirst, rfl⟩
    · rintro ⟨i, hi, hname, hfirst, rfl⟩
      exact ⟨i, ⟨hi, hname, hfirst⟩, rfl⟩

/-- The name leads to the first counted entry that stores it, and to none when there is none. -/
def ExactLookup (img : Image) (name : CString) : Prop :=
  ∀ d, readDentryByName img (some name) = some d ↔
    ∃ i < img.totalDentries.toNat, (img.dentries i).storedName = name.bytes ∧
      (∀ j < i, (img.dentries j).storedName ≠ name.bytes) ∧ img.dentries i = d

/-- A name stored in one of the 64 slots behind the counted entries is stored in one of these as
well. -/
def NoStaleMatch (img : Image) (name : CString) : Prop :=
  ∀ j, img.totalDentries.toNat ≤ j → j < bootSize → (img.dentries j).storedName = name.bytes →
    ∃ i < img.totalDentries.toNat, (img.dentries i).storedName = name.bytes

theorem denPtr_eq_dentries (img : Image) (i : Nat) : img.denPtr i = img.dentries i := by
  rw [Image.denPtr, Image.dentries, Nat.mul_succ, Nat.add_comm]
  rfl

/-- For a directory of at most 63 entries, lookup is exact for a name exactly when no slot behind
the counted entries answers in their place. -/
theorem exact_lookup_iff {img : Image} (h : img.totalDentries.toNat ≤ 63) (name : CString) :
    ExactLookup img name ↔ NoStaleMatch img name := by
  have hsize : bootSize = 64 := rfl
  constructor
  · intro hexact j _ hj hname
    -- the search ends no later than at the stale slot
    have hex : ∃ i, (img.denPtr i).storedName = name.bytes :=
      ⟨j, by rwa [denPtr_eq_dentries]⟩
    have hle : Nat.find hex ≤ j := Nat.find_min' hex (by rwa [denPtr_eq_dentries])
    have hfound : readDentryByName img (some name) = some (img.denPtr (Nat.find hex)) :=
      readDentryByName_eq_some.mpr ⟨_, Nat.lt_of_le_of_lt hle hj, Nat.find_spec hex,
        fun _ hlt => Nat.find_min hex hlt, rfl⟩
    obtain ⟨i, hi, hi', -⟩ := (hexact _).mp hfound
    exact ⟨i, hi, hi'⟩
  · intro hstale d
    rw [readDentryByName_eq_some]
    simp only [denPtr_eq_dentries]
    constructor
    · rintro ⟨i, hi, hname, hfirst, rfl⟩
      refine ⟨i, ?_, hname, hfirst, rfl⟩
      by_contra hge
      obtain ⟨i', hi', hname'⟩ := hstale i (Nat.not_lt.mp hge) hi hname
      exact hfirst i' (by omega) hname'
    · rintro ⟨i, hi, hname, hfirst, rfl⟩
      exact ⟨i, by omega, hname, hfirst, rfl⟩

/-! ### The two lookups -/

def Dentry.nameString (d : Dentry) : CString := .ofBuffer (List.ofFn d.fileName ++ [0])

theorem Dentry.nameString_bytes (d : Dentry) : d.nameString.bytes = d.storedName := by
  have hbytes : d.nameString.bytes = (List.ofFn d.fileName ++ [0]).takeWhile (· ≠ 0) := rfl
  rw [hbytes, List.takeWhile_append, Dentry.storedName]
  split
  · rename_i hall
    have hwhole := (List.takeWhile_prefix (l := List.ofFn d.fileName) (· ≠ 0)).eq_of_length hall
    rw [List.takeWhile_cons_of_neg (by simp), List.append_nil]
    exact hwhole.symm
  · rfl

/-- As long as no two counted entries store the same name, an entry that is read by its index is
also what its own name leads to. -/
theorem lookups_agree {img : Image} {i : UInt32} (hi : i < img.totalDentries)
    (htotal : img.totalDentries.toNat ≤ 63)
    (hdistinct : ∀ j < img.totalDentries.toNat, ∀ j' < img.totalDentries.toNat, j ≠ j' →
      (img.dentries j).storedName ≠ (img.dentries j').storedName) :
    ∃ d, d = img.dentries i.toNat ∧ readDentryByIndex img i = some d ∧
      readDentryByName img (some d.nameString) = some d := by
  have hlt : i.toNat < img.totalDentries.toNat := UInt32.lt_iff_toNat_lt.mp hi
  have hsize : bootSize = 64 := rfl
  refine ⟨img.dentries i.toNat, rfl, ?_, ?_⟩
  · have hle : ¬i > img.totalDentries := UInt32.not_lt.mpr (UInt32.le_of_lt hi)
    rw [readDentryByIndex, if_neg hle]
  · rw [readDentryByName_eq_some]
    simp only [denPtr_eq_dentries, Dentry.nameString_bytes]
    refine ⟨i.toNat, by omega, rfl, fun j hj => ?_, rfl⟩
    exact hdistinct j (by omega) _ hlt (Nat.ne_of_lt hj)

theorem sampleImage_lookups_agree : ∃ d, d = sampleImage.dentries 1 ∧
    readDentryByIndex sampleImage 1 = some d ∧
      readDentryByName sampleImage (some d.nameString) = some d := by
  have htotal : sampleImage.totalDentries = 2 := by decide +kernel
  have hnames : (sampleImage.dentries 0).storedName ≠ (sampleImage.dentries 1).storedName := by
    decide +kernel
  refine @lookups_agree sampleImage 1 (by rw [htotal]; decide) (by rw [htotal]; decide)
    fun j hj j' hj' hne => ?_
  rw [htotal] at hj hj'
  have hcases : (j = 0 ∧ j' = 1) ∨ (j = 1 ∧ j' = 0) := by
    have htwo : (2 : UInt32).toNat = 2 := rfl
    omega
  rcases hcases with ⟨rfl, rfl⟩ | ⟨rfl, rfl⟩
  · exact hnames
  · exact hnames.symm

/-! ### A slot behind the counted entries -/

/-- The image whose boot block counts the first entry only; the slot behind it still holds the
entry of `shell`. -/
def staleImage : Image where
  mem := fun x => if x = 0 then 1 else sampleImage.mem x

def staleName : CString := .ofBuffer [115, 104, 101, 108, 108, 0]

theorem staleImage_totalDentries : staleImage.totalDentries.toNat = 1 := by decide +kernel

theorem staleImage_stores : ((staleImage.dentries 1).storedName = staleName.bytes) ∧
    (staleImage.dentries 0).storedName ≠ staleName.bytes := by
  decide +kernel

/-- A dead slot answers for a name that no counted entry has. -/
theorem stale_slot_is_found :
    staleImage.totalDentries.toNat ≤ 63 ∧ ¬ExactLookup staleImage staleName := by
  refine ⟨by rw [staleImage_totalDentries]; decide, fun hexact => ?_⟩
  have hfound : readDentryByName staleImage (some staleName) = some (staleImage.denPtr 1) := by
    refine readDentryByName_eq_some.mpr ⟨1, by decide, ?_, fun j hj => ?_, rfl⟩
    · rw [denPtr_eq_dentries]
      exact staleImage_stores.1
    · obtain rfl : j = 0 := by omega
      rw [denPtr_eq_dentries]
      exact staleImage_stores.2
  obtain ⟨i, hi, hname, -⟩ := (hexact _).mp hfound
  rw [staleImage_totalDentries] at hi
  obtain rfl : i = 0 := by omega
  exact staleImage_stores.2 hname

theorem stale_exact_lookup_iff :
    ExactLookup staleImage staleName ↔ NoStaleMatch staleImage staleName :=
  exact_lookup_iff (by rw [staleImage_totalDentries]; decide) staleName

end MyLinuxOS
