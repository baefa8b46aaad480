import Mathlib.Logic.Function.Basic

/-! The page directory and the two page tables of `paging.c`. -/

namespace MyLinuxOS

def maxPageEntries : Nat := 1024
def bytesToAlignTo : Nat := 4096
def pageSize4MB : Nat := 0x400000
def addrVideo : Nat := 0xB8000
def kernelLocation : Nat := 0x400000
def userLocation : Nat := 0x8000000
def userProgramIndex : Nat := 32
def vidmapIndex : Nat := 34
def kpageSize : Nat := 0x800000

structure PageDirectoryEntry where
  present : Bool
  rw : Bool
  user : Bool
  wt : Bool
  disCache : Bool
  accessed : Bool
  reserved : Bool
  size : Bool
  global : Bool
  avalaible : Nat
  addr : Nat
  deriving DecidableEq

structure PageTableEntry where
  present : Bool
  rw : Bool
  user : Bool
  wt : Bool
  disCache : Bool
  accessed : Bool
  dirty : Bool
  reserved : Bool
  global : Bool
  avalaible : Nat
  addr : Nat
  deriving DecidableEq

/-- The tables and the addresses the linker gave to the two that directory entries point to. -/
structure Paging where
  pageDirectory : Nat → PageDirectoryEntry
  pageTable : Nat → PageTableEntry
  pageVidmap : Nat → PageTableEntry
  pageTableAddr : Nat
  pageVidmapAddr : Nat

/-- The 20-bit field `pde_addr` or `pte_addr` for a 32-bit address. -/
def frameOf (addr : Nat) : Nat := addr % 4294967296 / bytesToAlignTo

namespace Paging

def directoryEntry (p : Paging) (i : Nat) (e : PageDirectoryEntry) : PageDirectoryEntry :=
  let e :=
    if i = 0 then
      { e with present := true, user := false, size := false, addr := frameOf p.pageTableAddr }
    else if i = 1 then
      { e with present := true, user := false, size := true, addr := frameOf kernelLocation }
    else if i = userProgramIndex then
      { e with present := true, user := true, size := true, addr := frameOf userLocation }
    else { e with present := false, user := false, size := true }
  { e with
    rw := true, wt := false, disCache := false, accessed := false, reserved := false,
    avalaible := 0 }

def tableEntry (i : Nat) : PageTableEntry where
  present := false
  rw := true
  user := false
  wt := false
  disCache := false
  accessed := false
  dirty := false
  reserved := false
  global := false
  avalaible := 0
  addr := i

/-- The four pages from video memory on are made present. -/
def videoTableEntry (i : Nat) : PageTableEntry :=
  let first := addrVideo / bytesToAlignTo
  if first ≤ i ∧ i ≤ first + 3 then { tableEntry i with present := true } else tableEntry i

def initializePaging (p : Paging) : Paging :=
  { p with
    pageDirectory := fun i =>
      if i < maxPageEntries then p.directoryEntry i (p.pageDirectory i) else p.pageDirectory i
    pageTable := fun i => if i < maxPageEntries then videoTableEntry i else p.pageTable i
    pageVidmap := fun i => if i < maxPageEntries then tableEntry i else p.pageVidmap i }

def syscallHelper (pid : Nat) (p : Paging) : Paging :=
  { p with
    pageDirectory := Function.update p.pageDirectory userProgramIndex
      { p.pageDirectory userProgramIndex with
        present := true, user := true, size := true,
        addr := frameOf (pid * pageSize4MB + kpageSize) } }

def syscallVidmapHelper (p : Paging) : Paging :=
  { p with
    pageDirectory := Function.update p.pageDirectory vidmapIndex
      { p.pageDirectory vidmapIndex with
        present := true, user := true, size := false, addr := frameOf p.pageVidmapAddr }
    pageVidmap := Function.update p.pageVidmap 0
      { p.pageVidmap 0 with
        present := true, user := true, addr := addrVideo / bytesToAlignTo } }

@[simp] theorem syscallHelper_addr (pid : Nat) (p : Paging) :
    ((p.syscallHelper pid).pageDirectory userProgramIndex).addr =
      frameOf (pid * pageSize4MB + kpageSize) := by
  simp only [syscallHelper, Function.update_self]

end Paging
end MyLinuxOS
