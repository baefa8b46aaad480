import MyLinuxOS.Files.FdTable
import MyLinuxOS.Process.ExceptionFlag

/-! All entries of the kernel as one machine: those that start and end processes, the calls on
files, and `vidmap`. -/

namespace MyLinuxOS
open Foundation

inductive SystemCall
  | process (c : KernelCall)
  | file (c : FileCall)
  | vidmap (screenStart : UInt32)

def SystemCall.enter (img : Image) (c : SystemCall) (k : Kernel) : Entry :=
  match c with
  | .process c => c.enter img k
  | .file c => c.enter img k
  | .vidmap screenStart => syscallVidmap screenStart k

def systemCalls (img : Image) : Machine Kernel SystemCall Exit := fun k c =>
  match c.enter img k with
  | .ok left => some (left.exit, left.kernel)
  | .error _ => none

theorem systemCalls_eq_some {img : Image} {k k' : Kernel} {c : SystemCall} {o : Exit} :
    systemCalls img k c = some (o, k') ↔ ∃ stores, c.enter img k = .ok ⟨o, k', stores⟩ := by
  unfold systemCalls
  split
  · rename_i left h
    rw [h]
    constructor
    · intro he
      cases he
      exact ⟨left.stores, rfl⟩
    · rintro ⟨stores, he⟩
      rw [Except.ok.inj he]
  · rename_i e h
    rw [h]
    constructor
    · intro he; exact absurd he (by simp)
    · rintro ⟨stores, he⟩; exact absurd he (by simp)

theorem FileCall.enter_ret {img : Image} {k : Kernel} {c : FileCall} {left : Left}
    (h : c.enter img k = .ok left) : ∃ r, left.exit = .ret r := by
  cases c with
  | openName name =>
    rcases syscallOpen_cases h with ⟨-, rfl⟩ | ⟨d, i, -, -, -, rfl⟩
    · exact ⟨_, rfl⟩
    · exact ⟨_, rfl⟩
  | closeFd fd =>
    rcases syscallClose_cases h with ⟨-, rfl⟩ | ⟨i, -, -, -, -, rfl⟩
    · exact ⟨_, rfl⟩
    · exact ⟨_, rfl⟩
  | readFd fd buf nbytes junk =>
    rcases syscallRead_cases h with ⟨-, rfl⟩ | ⟨i, e, t, -, -, h8, -, hread⟩
    · exact ⟨_, rfl⟩
    · obtain ⟨r, dev, hexit, -⟩ := readFn_effect h8 hread
      exact ⟨r, hexit⟩
  | interrupt dev =>
    obtain rfl := Except.ok.inj h
    exact ⟨_, rfl⟩

theorem systemCalls_file {img : Image} {k k' : Kernel} {c : FileCall} {o : Exit}
    (h : systemCalls img k (.file c) = some (o, k')) :
    ∃ r stores, o = .ret r ∧ fileCalls img k c = some ((r, stores), k') := by
  obtain ⟨stores, henter⟩ := systemCalls_eq_some.mp h
  obtain ⟨r, hr⟩ := FileCall.enter_ret (c := c) henter
  obtain rfl : o = .ret r := hr
  exact ⟨r, stores, rfl, fileCalls_eq_some.mpr henter⟩

theorem syscallVidmap_cases {screenStart : UInt32} {k : Kernel} {left : Left}
    (h : syscallVidmap screenStart k = .ok left) :
    ((screenStart.toNat ≤ userLocation ∨ screenStart.toNat > userLocation + pageSize4MB) ∧
      left = ⟨.ret (-1), k, []⟩) ∨
    ((userLocation < screenStart.toNat ∧ screenStart.toNat ≤ userLocation + pageSize4MB) ∧
      ∃ exit, (exit = .ret 0 ∨ exit = .fault) ∧
        left = ⟨exit, { k with paging := k.paging.syscallVidmapHelper },
          storesAt screenStart (le32Bytes virtualVidmap)⟩) := by
  unfold syscallVidmap at h
  split at h
  · rename_i hzero
    rw [hzero]
    exact .inl ⟨.inl (Nat.zero_le _), (Except.ok.inj h).symm⟩
  · split at h
    · rename_i hout
      exact .inl ⟨hout, (Except.ok.inj h).symm⟩
    · rename_i hin
      refine .inr ⟨by omega, _, ?_, (Except.ok.inj h).symm⟩
      split
      · exact .inl rfl
      · exact .inr rfl

end MyLinuxOS
