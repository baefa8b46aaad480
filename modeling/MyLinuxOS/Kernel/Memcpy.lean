import Mathlib.Algebra.Group.Nat.Defs
import MyLinuxOS.Foundation.Copy
import MyLinuxOS.Kernel.Console

/-! `memcpy` and `memset` of `lib.c`: single bytes up to an aligned destination, then words, then
the bytes that are left. On ranges that do not overlap the first is the copy of a range, and the
second stores one byte over a range. -/

namespace MyLinuxOS
open Foundation

def memcpy (dest src : Int) : (n : Nat) → (Int → UInt8) → Int → UInt8
  | 0, mem => mem
  | n + 1, mem =>
    if dest % 4 = 0 then
      let words := (n + 1) / 4
      copyUnits 1 ((n + 1) % 4) (copyUnits 4 words mem dest src) (dest + 4 * words)
        (src + 4 * words)
    else memcpy (dest + 1) (src + 1) n (copyUnits 1 1 mem dest src)

/-- The assembly of `memset`, where `eax` holds the byte four times and `al` is its lowest byte. -/
def memsetTop (eax : UInt32) (s : Int) : (n : Nat) → (Int → UInt8) → Int → UInt8
  | 0, mem => mem
  | n + 1, mem =>
    let al := [UInt8.ofNat eax.toNat]
    if s % 4 = 0 then
      let words := (n + 1) / 4
      storeUnits al ((n + 1) % 4) (storeUnits (le32Bytes eax) words mem s) (s + 4 * words)
    else memsetTop eax (s + 1) n (storeUnits al 1 mem s)

def memset (s : Int) (c : Int32) (n : Nat) (mem : Int → UInt8) : Int → UInt8 :=
  let c := c &&& 0xFF
  memsetTop (c <<< 24 ||| c <<< 16 ||| c <<< 8 ||| c).toUInt32 s n mem

theorem memcpy_eq {dest src : Int} {n : Nat} (h : Apart dest src n) (mem : Int → UInt8) :
    memcpy dest src n mem = copyRange mem dest src n := by
  induction n generalizing mem dest src with
  | zero => exact copyRange_zero.symm
  | succ n ih =>
    rw [memcpy]
    split
    · have hparts : 4 * ((n + 1) / 4) + 1 * ((n + 1) % 4) = n + 1 := by omega
      have hcopy := h
      rw [← hparts] at hcopy
      have hrest := hcopy.drop
      have hwords : ((4 * ((n + 1) / 4) : Nat) : Int) = 4 * (((n + 1) / 4 : Nat) : Int) := by omega
      rw [hwords] at hrest
      dsimp only
      rw [copyUnits_eq _ (h.le (by omega)), copyUnits_eq _ hrest, ← hwords,
        copyRange_copyRange hcopy, hparts]
    · have hone : 1 + n = n + 1 := Nat.add_comm ..
      rw [← hone] at h ⊢
      have hbyte : copyUnits 1 1 mem dest src = copyRange mem dest src 1 :=
        copyUnits_eq 1 (h.le (by omega))
      rw [hbyte]
      exact (ih h.drop _).trans (copyRange_copyRange h)

/-! ### `memset` -/

theorem memsetTop_eq {eax : UInt32} {b : UInt8} (heax : le32Bytes eax = List.replicate 4 b)
    (s : Int) (n : Nat) (mem : Int → UInt8) : memsetTop eax s n mem = fillRange mem s n b := by
  have hal : [UInt8.ofNat eax.toNat] = List.replicate 1 b := by
    have hfirst := congrArg (List.take 1) heax
    exact hfirst
  induction n generalizing mem s with
  | zero => exact fillRange_zero.symm
  | succ n ih =>
    rw [memsetTop]
    dsimp only
    rw [heax, hal]
    split
    · have hparts : 4 * ((n + 1) / 4) + 1 * ((n + 1) % 4) = n + 1 := by omega
      have hwords : (4 * (((n + 1) / 4 : Nat) : Int)) = (4 * ((n + 1) / 4) : Nat) := by omega
      rw [storeUnits_replicate, storeUnits_replicate, hwords, fillRange_fillRange, hparts]
    · have hone : 1 * 1 + n = n + 1 := Nat.add_comm ..
      rw [storeUnits_replicate, ih, ← hone]
      exact fillRange_fillRange

def byteOf (c : Int32) : UInt8 := UInt8.ofNat (c.toInt % 256).toNat

theorem memset_eax_table : ∀ n < 256, le32Bytes (Int32.ofNat n <<< 24 ||| Int32.ofNat n <<< 16 |||
    Int32.ofNat n <<< 8 ||| Int32.ofNat n).toUInt32 = List.replicate 4 (UInt8.ofNat n) := by
  decide +kernel

theorem and_ff (c : Int32) : c &&& 0xFF = Int32.ofNat (c.toInt % 256).toNat := by
  have hmod : c.toInt % 256 = (c.toBitVec.toNat : Int) % 256 := by
    have hint : c.toInt = c.toBitVec.toInt := rfl
    rw [hint, BitVec.toInt_eq_toNat_cond]
    split <;> omega
  have hmask : (0xFF : Int32).toBitVec.toNat = 2 ^ 8 - 1 := rfl
  have hofNat (k : Nat) : (Int32.ofNat k).toBitVec.toNat = k % 2 ^ 32 := rfl
  apply Int32.toBitVec_inj.mp
  apply BitVec.eq_of_toNat_eq
  rw [Int32.toBitVec_and, BitVec.toNat_and, hmask, Nat.and_two_pow_sub_one_eq_mod, hofNat, hmod]
  omega

theorem memset_eq (s : Int) (c : Int32) (n : Nat) (mem : Int → UInt8) :
    memset s c n mem = fillRange mem s n (byteOf c) := by
  have hlt : (c.toInt % 256).toNat < 256 := by omega
  have htable := memset_eax_table _ hlt
  rw [← and_ff c] at htable
  exact memsetTop_eq htable s n mem

/-- For every alignment and every length, `memcpy` copies the range and `memset` fills it, and no
other byte changes. -/
theorem word_routines_exact {dest src : Int} {n : Nat} (h : Apart dest src n) (s : Int) (c : Int32)
    (mem : Int → UInt8) :
    ((∀ i < n, memcpy dest src n mem (dest + (i : Nat)) = mem (src + (i : Nat))) ∧
      ∀ a, a < dest ∨ dest + n ≤ a → memcpy dest src n mem a = mem a) ∧
    (∀ i < n, memset s c n mem (s + (i : Nat)) = byteOf c) ∧
      ∀ a, a < s ∨ s + n ≤ a → memset s c n mem a = mem a := by
  rw [memcpy_eq h, memset_eq]
  refine ⟨⟨fun i hi => ?_, fun a ha => copyRange_of_not_mem ha⟩, fun i hi => ?_,
    fun a ha => fillRange_of_not_mem ha⟩
  · rw [copyRange_of_mem (by omega) (by omega)]
    congr 1
    omega
  · exact fillRange_of_mem (by omega) (by omega)

/-- Seven bytes to an odd address: three single bytes, a word, and none behind it. -/
theorem seven_bytes_copied : memcpy 0x1001 0x2002 7 (fun a => UInt8.ofNat a.toNat) 0x1006 = 7 :=
  (word_routines_exact (.inr (by decide)) 0 0 fun a => UInt8.ofNat a.toNat).1.1 5 (by decide)

theorem Console.copyPage_eq_memcpy {s : Console} {dest src : Int} (h : Apart dest src 4096) :
    (s.copyPage dest src).vram = memcpy dest src 4096 s.vram := (memcpy_eq h s.vram).symm

end MyLinuxOS
