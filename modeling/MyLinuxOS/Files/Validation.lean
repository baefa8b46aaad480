import MyLinuxOS.Files.Descriptors
import MyLinuxOS.Process.Calls

/-! The checks of descriptor arguments. They compare with `MAX_NUM_FD`, the length of the array, by
`>`, so that 8 passes and denotes an entry made of the fields behind the array. -/

namespace MyLinuxOS
open Foundation

def Kernel.IsOpen (k : Kernel) (fd : Int32) : Prop :=
  ∃ i : Nat, fd.toInt = i ∧ i < 8 ∧ (k.currPcb.fdEntry i).flags ≠ 0

/-- Bad arguments are refused, by `read` and `write` before a driver is called, and no index that
passes a check lies outside the array. -/
structure FdValidated (img : Image) (k : Kernel) (fd : Int32) : Prop where
  undispatched : ¬ k.IsOpen fd → k.dispatch fd = none
  read : ¬ k.IsOpen fd → ∀ junk buf nbytes, syscallRead img junk fd buf nbytes k = k.returns (-1)
  write : ¬ k.IsOpen fd → ∀ junk buf mem nbytes,
    syscallWrite junk fd buf mem nbytes k = k.returns (-1)
  close : ¬ (2 ≤ fd.toInt ∧ k.IsOpen fd) → syscallClose fd k = k.returns (-1)
  inside : ∀ i, Kernel.fdIndex 0 fd = some i ∨ Kernel.fdIndex startFd fd = some i → i < 8

section
variable {img : Image} {junk : StackBytes} {k : Kernel} {fd : Int32} {buf : UInt32}
  {nbytes : Int32}

theorem syscallRead_undispatched (h : k.dispatch fd = none) :
    syscallRead img junk fd buf nbytes k = k.returns (-1) := by
  unfold syscallRead
  rw [h]
  split
  · rfl
  · rfl

theorem syscallWrite_undispatched {mem : Nat → UInt8} (h : k.dispatch fd = none) :
    syscallWrite junk fd buf mem nbytes k = k.returns (-1) := by
  unfold syscallWrite
  rw [h]
  split
  · rfl
  · rfl

theorem dispatch_isOpen {i : Nat} {e : FileDescriptor} (h8 : fd ≠ 8)
    (h : k.dispatch fd = some (i, e)) : k.IsOpen fd := by
  obtain ⟨hi, hle, rfl, hopen⟩ := dispatch_eq_some.mp h
  refine ⟨i, hi, ?_, hopen⟩
  have hne : fd.toInt ≠ 8 := fun he => h8 (Int32.toInt_inj.mp he)
  omega

theorem syscallClose_refuses (h8 : fd ≠ 8) (h : ¬ (2 ≤ fd.toInt ∧ k.IsOpen fd)) :
    syscallClose fd k = k.returns (-1) := by
  unfold syscallClose
  cases hidx : Kernel.fdIndex startFd fd with
  | none => rfl
  | some i =>
    obtain ⟨hi, h2, hle⟩ := (fdIndex_eq_some (Int.natCast_nonneg startFd)).mp hidx
    have hne : fd.toInt ≠ 8 := fun he => h8 (Int32.toInt_inj.mp he)
    have hclosed : (k.currPcb.fdEntry i).flags ≠ 1 := by
      intro hone
      refine h ⟨by rw [hi]; exact h2, i, hi, by omega, ?_⟩
      rw [hone]
      decide
    simp only [if_neg hclosed]

end

/-- The one argument that is not validated is the length of the array. -/
theorem fdValidated_iff (img : Image) (k : Kernel) (fd : Int32) :
    FdValidated img k fd ↔ fd ≠ 8 := by
  constructor
  · rintro h rfl
    have hlt := h.inside 8 (.inl rfl)
    exact absurd hlt (Nat.lt_irrefl 8)
  · intro h8
    have hnone : ¬ k.IsOpen fd → k.dispatch fd = none := by
      intro hclosed
      by_contra hsome
      obtain ⟨⟨i, e⟩, hd⟩ := Option.ne_none_iff_exists'.mp hsome
      exact hclosed (dispatch_isOpen h8 hd)
    have hne : fd.toInt ≠ 8 := fun he => h8 (Int32.toInt_inj.mp he)
    constructor
    · exact hnone
    · exact fun hclosed _ _ _ => syscallRead_undispatched (hnone hclosed)
    · exact fun hclosed _ _ _ _ => syscallWrite_undispatched (hnone hclosed)
    · exact syscallClose_refuses h8
    · rintro i (hi | hi)
      · obtain ⟨he, -, hle⟩ := (fdIndex_eq_some (Int.le_refl 0)).mp hi
        omega
      · obtain ⟨he, -, hle⟩ := (fdIndex_eq_some (Int.natCast_nonneg startFd)).mp hi
        omega

/-- In the first shell, `read` on descriptor 8 calls through the `pid` of the block: the word taken
for its flags is the saved stack pointer. -/
theorem read_of_descriptor_8_is_a_wild_call : ∃ k, Boots sampleImage k ∧ ¬ k.IsOpen 8 ∧
    syscallRead sampleImage sampleJunk 8 0x8050000 16 k = .error .wildCall ∧
    ¬ FdValidated sampleImage k 8 := by
  obtain ⟨args, d, hboot⟩ := sampleImage_boots
  let k := sampleShell (initTerminal samplePowerOn) 0 args d
  have hclosed : ¬ k.IsOpen 8 := by
    rintro ⟨i, hi, h8, -⟩
    have he : (8 : Int32).toInt = 8 := rfl
    omega
  have hread : syscallRead sampleImage sampleJunk 8 0x8050000 16 k = .error .wildCall := rfl
  refine ⟨k, hboot, hclosed, hread, fun h => ?_⟩
  rw [h.read hclosed sampleJunk 0x8050000 16] at hread
  exact absurd hread (by simp [Kernel.returns])

end MyLinuxOS
