import Mathlib.Data.Fin.VecNotation
import MyLinuxOS.Foundation.PageWalk
import MyLinuxOS.Kernel.Paging

/-! The tables of `paging.c` as words in physical memory, and what the entries are after
`initialize_paging` and any number of later patches. -/

namespace MyLinuxOS
open Foundation

/-! ### The bit fields of an entry -/

namespace PageDirectoryEntry
variable (e : PageDirectoryEntry)

def flags : Fin 9 → Bool :=
  ![e.present, e.rw, e.user, e.wt, e.disCache, e.accessed, e.reserved, e.size, e.global]

def word : Nat := entryWord e.flags e.avalaible e.addr

structure Points (user size : Bool) (addr : Nat) : Prop where
  present : e.present = true
  rw : e.rw = true
  user : e.user = user
  size : e.size = size
  addr : e.addr = addr

theorem word_testBit (i : Fin 9) : e.word.testBit i = e.flags i :=
  entryWord_testBit e.flags e.avalaible e.addr i.isLt

theorem word_div : e.word / 2 ^ 12 = e.addr % 2 ^ 20 := entryWord_div e.flags e.avalaible e.addr

theorem word_present : e.word.testBit 0 = e.present := e.word_testBit 0
theorem word_rw : e.word.testBit 1 = e.rw := e.word_testBit 1
theorem word_user : e.word.testBit 2 = e.user := e.word_testBit 2
theorem word_size : e.word.testBit 7 = e.size := e.word_testBit 7

end PageDirectoryEntry

namespace PageTableEntry
variable (e : PageTableEntry)

def flags : Fin 9 → Bool :=
  ![e.present, e.rw, e.user, e.wt, e.disCache, e.accessed, e.dirty, e.reserved, e.global]

def word : Nat := entryWord e.flags e.avalaible e.addr

theorem word_testBit (i : Fin 9) : e.word.testBit i = e.flags i :=
  entryWord_testBit e.flags e.avalaible e.addr i.isLt

theorem word_div : e.word / 2 ^ 12 = e.addr % 2 ^ 20 := entryWord_div e.flags e.avalaible e.addr

theorem word_present : e.word.testBit 0 = e.present := e.word_testBit 0
theorem word_rw : e.word.testBit 1 = e.rw := e.word_testBit 1
theorem word_user : e.word.testBit 2 = e.user := e.word_testBit 2

end PageTableEntry

namespace Paging

section videoTableEntry
variable (i : Nat)

theorem videoTableEntry_rw : (videoTableEntry i).rw = true := by
  simp only [videoTableEntry, tableEntry, apply_ite PageTableEntry.rw, ite_self]

theorem videoTableEntry_user : (videoTableEntry i).user = false := by
  simp only [videoTableEntry, tableEntry, apply_ite PageTableEntry.user, ite_self]

theorem videoTableEntry_addr : (videoTableEntry i).addr = i := by
  simp only [videoTableEntry, tableEntry, apply_ite PageTableEntry.addr, ite_self]

theorem videoTableEntry_present :
    (videoTableEntry i).present = false ↔ ¬ (0xB8 ≤ i ∧ i ≤ 0xBB) := by
  unfold videoTableEntry
  have hfirst : addrVideo / bytesToAlignTo = 0xB8 := rfl
  by_cases h : 0xB8 ≤ i ∧ i ≤ 0xBB
  · simp only [hfirst, h, and_self, if_true, not_true, Bool.true_eq_false]
  · simp only [hfirst, h, if_false, not_false_iff, tableEntry]

end videoTableEntry

/-- Physical memory in which the directory is at `directoryAddr`; the linker aligns the tables to
pages. -/
structure Holds (p : Paging) (mem : Nat → Nat) (directoryAddr : Nat) : Prop where
  directory : ∀ i < maxPageEntries, mem (directoryAddr + 4 * i) = (p.pageDirectory i).word
  table : ∀ i < maxPageEntries, mem (p.pageTableAddr + 4 * i) = (p.pageTable i).word
  vidmap : ∀ i < maxPageEntries, mem (p.pageVidmapAddr + 4 * i) = (p.pageVidmap i).word
  table_aligned : p.pageTableAddr % bytesToAlignTo = 0 ∧ p.pageTableAddr < 2 ^ 32
  vidmap_aligned : p.pageVidmapAddr % bytesToAlignTo = 0 ∧ p.pageVidmapAddr < 2 ^ 32

/-! ### What the entries are -/

structure Layout (p : Paging) (program : Nat) (vidmap : Bool) : Prop where
  low : (p.pageDirectory 0).Points false false (frameOf p.pageTableAddr)
  kernel : (p.pageDirectory 1).Points false true (frameOf kernelLocation)
  program : (p.pageDirectory userProgramIndex).Points true true (frameOf program)
  mapped : vidmap = true →
    (p.pageDirectory vidmapIndex).Points true false (frameOf p.pageVidmapAddr)
  unmapped : vidmap = false → (p.pageDirectory vidmapIndex).present = false
  directory_rw : (p.pageDirectory vidmapIndex).rw = true
  absent : ∀ i < maxPageEntries, i ≠ 0 → i ≠ 1 → i ≠ userProgramIndex → i ≠ vidmapIndex →
    (p.pageDirectory i).present = false
  table : ∀ i < maxPageEntries, p.pageTable i = videoTableEntry i
  screen : p.pageVidmap 0 = if vidmap = true then
      { tableEntry 0 with present := true, user := true, addr := addrVideo / bytesToAlignTo }
    else tableEntry 0
  vidmap_rest : ∀ i < maxPageEntries, i ≠ 0 → p.pageVidmap i = tableEntry i

theorem initializePaging_layout (p : Paging) : p.initializePaging.Layout userLocation false := by
  have hentry : ∀ i < maxPageEntries,
      p.initializePaging.pageDirectory i = p.directoryEntry i (p.pageDirectory i) :=
    fun i hi => if_pos hi
  have hnext : ∀ i < maxPageEntries, i ≠ 0 → i ≠ 1 → i ≠ userProgramIndex →
      (p.initializePaging.pageDirectory i).present = false := by
    intro i hi h0 h1 h32
    rw [hentry i hi]
    simp only [directoryEntry, h0, h1, h32, if_false]
  constructor
  · rw [hentry 0 (by decide)]
    exact ⟨rfl, rfl, rfl, rfl, rfl⟩
  · rw [hentry 1 (by decide)]
    exact ⟨rfl, rfl, rfl, rfl, rfl⟩
  · rw [hentry userProgramIndex (by decide)]
    exact ⟨rfl, rfl, rfl, rfl, rfl⟩
  · intro h
    exact absurd h (by decide)
  · intro _
    exact hnext vidmapIndex (by decide) (by decide) (by decide) (by decide)
  · rw [hentry vidmapIndex (by decide)]
    rfl
  · intro i hi h0 h1 h32 _
    exact hnext i hi h0 h1 h32
  · intro i hi
    exact if_pos hi
  · rfl
  · intro i hi _
    exact if_pos hi

variable {p : Paging} {program : Nat} {vidmap : Bool}

theorem Layout.syscallHelper (h : p.Layout program vidmap) (pid : Nat) :
    (p.syscallHelper pid).Layout (pid * pageSize4MB + kpageSize) vidmap := by
  have hother : ∀ i ≠ userProgramIndex,
      (p.syscallHelper pid).pageDirectory i = p.pageDirectory i :=
    fun i hi => Function.update_of_ne hi ..
  have hself : (p.syscallHelper pid).pageDirectory userProgramIndex =
      { p.pageDirectory userProgramIndex with
        present := true, user := true, size := true,
        addr := frameOf (pid * pageSize4MB + kpageSize) } := by
    simp only [Paging.syscallHelper, Function.update_self]
  constructor
  · rw [hother 0 (by decide)]; exact h.low
  · rw [hother 1 (by decide)]; exact h.kernel
  · rw [hself]; exact ⟨rfl, h.program.rw, rfl, rfl, rfl⟩
  · rw [hother vidmapIndex (by decide)]; exact h.mapped
  · rw [hother vidmapIndex (by decide)]; exact h.unmapped
  · rw [hother vidmapIndex (by decide)]; exact h.directory_rw
  · intro i hi h0 h1 h32 h34
    rw [hother i h32]
    exact h.absent i hi h0 h1 h32 h34
  · exact h.table
  · exact h.screen
  · exact h.vidmap_rest

theorem Layout.syscallVidmapHelper (h : p.Layout program vidmap) :
    p.syscallVidmapHelper.Layout program true := by
  have hother : ∀ i ≠ vidmapIndex, p.syscallVidmapHelper.pageDirectory i = p.pageDirectory i :=
    fun i hi => Function.update_of_ne hi ..
  have hself : p.syscallVidmapHelper.pageDirectory vidmapIndex =
      { p.pageDirectory vidmapIndex with
        present := true, user := true, size := false, addr := frameOf p.pageVidmapAddr } := by
    simp only [Paging.syscallVidmapHelper, Function.update_self]
  constructor
  · rw [hother 0 (by decide)]; exact h.low
  · rw [hother 1 (by decide)]; exact h.kernel
  · rw [hother userProgramIndex (by decide)]; exact h.program
  · intro _
    rw [hself]
    exact ⟨rfl, h.directory_rw, rfl, rfl, rfl⟩
  · intro hf
    exact absurd hf (by decide)
  · rw [hself]; exact h.directory_rw
  · intro i hi h0 h1 h32 h34
    rw [hother i h34]
    exact h.absent i hi h0 h1 h32 h34
  · exact h.table
  · have hpatch : p.syscallVidmapHelper.pageVidmap 0 =
        { p.pageVidmap 0 with
          present := true, user := true, addr := addrVideo / bytesToAlignTo } := by
      simp only [Paging.syscallVidmapHelper, Function.update_self]
    rw [hpatch, h.screen]
    split <;> rfl
  · intro i hi h0
    rw [← h.vidmap_rest i hi h0]
    exact Function.update_of_ne h0 ..

end Paging
end MyLinuxOS
