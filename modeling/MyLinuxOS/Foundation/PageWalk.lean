import Mathlib.Algebra.Group.Nat.Defs
import Mathlib.Data.Nat.Init
import Mathlib.Tactic.Common

/-! Address translation of a 32-bit x86 processor with 4MB pages enabled: the layout of an entry and
the two-level walk over the words in physical memory. -/

namespace Foundation

/-- An entry of a directory or of a table: nine flag bits from bit 0 on, three bits that the
processor ignores, and the upper 20 bits of an address. -/
def entryWord (flags : Fin 9 → Bool) (avalaible addr : Nat) : Nat :=
  2 ^ 12 * (addr % 2 ^ 20) + (2 ^ 9 * (avalaible % 2 ^ 3) + Nat.ofBits flags)

structure Mapping where
  addr : Nat
  writable : Bool
  user : Bool
  deriving DecidableEq

def walk (mem : Nat → Nat) (cr3 v : Nat) : Option Mapping :=
  let pde := mem (cr3 + 4 * (v / 2 ^ 22))
  if pde.testBit 0 = false then none
  else if pde.testBit 7 = true then
    some ⟨2 ^ 22 * (pde / 2 ^ 22) + v % 2 ^ 22, pde.testBit 1, pde.testBit 2⟩
  else
    let pte := mem (2 ^ 12 * (pde / 2 ^ 12) + 4 * (v / 2 ^ 12 % 2 ^ 10))
    if pte.testBit 0 = false then none
    else
      some ⟨2 ^ 12 * (pte / 2 ^ 12) + v % 2 ^ 12, pde.testBit 1 && pte.testBit 1,
        pde.testBit 2 && pte.testBit 2⟩

section entryWord
variable (flags : Fin 9 → Bool) (avalaible addr : Nat)

theorem entryWord_low_lt : 2 ^ 9 * (avalaible % 2 ^ 3) + Nat.ofBits flags < 2 ^ 12 := by
  have hflags := Nat.ofBits_lt_two_pow flags
  omega

theorem entryWord_testBit {i : Nat} (hi : i < 9) :
    (entryWord flags avalaible addr).testBit i = flags ⟨i, hi⟩ := by
  rw [entryWord, Nat.testBit_two_pow_mul_add _ (entryWord_low_lt flags avalaible),
    if_pos (by omega), Nat.testBit_two_pow_mul_add _ (Nat.ofBits_lt_two_pow flags), if_pos hi,
    Nat.testBit_ofBits_lt flags i hi]

theorem entryWord_div : entryWord flags avalaible addr / 2 ^ 12 = addr % 2 ^ 20 := by
  have hlow := entryWord_low_lt flags avalaible
  unfold entryWord
  omega

end entryWord

section walk
variable {mem : Nat → Nat} {cr3 v : Nat}

theorem walk_absent (h : (mem (cr3 + 4 * (v / 2 ^ 22))).testBit 0 = false) :
    walk mem cr3 v = none := by
  simp only [walk, h, if_pos]

theorem walk_large {pde : Nat} (h : mem (cr3 + 4 * (v / 2 ^ 22)) = pde)
    (hp : pde.testBit 0 = true) (hs : pde.testBit 7 = true) :
    walk mem cr3 v =
      some ⟨2 ^ 22 * (pde / 2 ^ 22) + v % 2 ^ 22, pde.testBit 1, pde.testBit 2⟩ := by
  simp only [walk, h, hp, hs, Bool.true_eq_false, if_false, if_true]

theorem walk_table {pde : Nat} (h : mem (cr3 + 4 * (v / 2 ^ 22)) = pde)
    (hp : pde.testBit 0 = true) (hs : pde.testBit 7 = false) :
    walk mem cr3 v =
      let pte := mem (2 ^ 12 * (pde / 2 ^ 12) + 4 * (v / 2 ^ 12 % 2 ^ 10))
      if pte.testBit 0 = false then none
      else some ⟨2 ^ 12 * (pte / 2 ^ 12) + v % 2 ^ 12, pde.testBit 1 && pte.testBit 1,
        pde.testBit 2 && pte.testBit 2⟩ := by
  simp only [walk, h, hp, hs, Bool.true_eq_false, Bool.false_eq_true, if_false]

end walk

end Foundation
