import MyLinuxOS.Foundation.Bytes
import MyLinuxOS.Foundation.Search

/-! The read-only file system of `filesys.c`. The image is read byte by byte from the memory it
was loaded into; the destination buffers of its readers are other objects, described by the bytes
stored in them. -/

namespace MyLinuxOS
open Foundation

def block4KB : Nat := 4096
def bootSize : Nat := 64
def filenameMaxLength : Nat := 32
def onekbPageSize : Nat := 1023
def dentrySize : Nat := 64

/-- Memory relative to the boot block: `mem x` is the byte at `boot + x`, modulo 2^32. -/
structure Image where
  mem : Nat → UInt8

structure Dentry where
  fileName : Fin 32 → UInt8
  type : UInt32
  inode : UInt32
  reserved : Fin 24 → UInt8

def Dentry.bytes (d : Dentry) : List UInt8 :=
  List.ofFn d.fileName ++ le32Bytes d.type ++ le32Bytes d.inode ++ List.ofFn d.reserved

namespace Image
variable (img : Image)

def byte (x : Nat) : UInt8 := img.mem (x % 4294967296)

def word (x : Nat) : UInt32 :=
  le32 (img.byte x) (img.byte (x + 1)) (img.byte (x + 2)) (img.byte (x + 3))

def totalDentries : UInt32 := img.word 0
def totalInodes : UInt32 := img.word 4
def totalDatablock : UInt32 := img.word 8

def dentryAt (x : Nat) : Dentry where
  fileName := fun i => img.byte (x + i)
  type := img.word (x + 32)
  inode := img.word (x + 36)
  reserved := fun i => img.byte (x + 40 + i)

/-- `den_ptr[i]`, where `den_ptr = &((dentry_t*)boot)[1]`. -/
def denPtr (i : Nat) : Dentry := img.dentryAt (dentrySize * (i + 1))

def dentries (i : Nat) : Dentry := img.dentryAt (64 + dentrySize * i)

def inodeBlock (inode : Nat) : Nat := (inode + 1) * block4KB

def inodeLength (inode : Nat) : UInt32 := img.word (inodeBlock inode)

def dataBlock (inode j : Nat) : UInt32 := img.word (inodeBlock inode + 4 + 4 * j)

def dataStart : Nat := (img.totalInodes.toNat + 1) * block4KB

end Image

def strncmp (s₁ s₂ : Nat → UInt8) : Nat → Nat → Int
  | 0, _ => 0
  | n + 1, i =>
    if s₁ i ≠ s₂ i ∨ s₁ i = 0 then (s₁ i).toInt8.toInt - (s₂ i).toInt8.toInt
    else strncmp s₁ s₂ n (i + 1)

def readDentryByName (img : Image) (fname : Option CString) : Option Dentry :=
  match fname with
  | none => none
  | some fname =>
    if fname.strlen > filenameMaxLength then none
    else
      (firstFrom (fun i => strncmp fname.charAt
        (fun j => img.byte (dentrySize * (i + 1) + j)) filenameMaxLength 0 = 0) bootSize 0).map
        img.denPtr

def readDentryByIndex (img : Image) (index : UInt32) : Option Dentry :=
  if index > img.totalDentries then none else some (img.dentries index.toNat)

/-- The loop of `read_data` with `n` iterations to go: the bytes it still stores in the buffer. -/
def readLoop (img : Image) (inode offset totalFilelength : Nat) :
    (n i dblockLocation dblockDataLocation : Nat) → List UInt8
  | 0, _, _, _ => []
  | n + 1, i, dblockLocation, dblockDataLocation =>
    if (offset + i) % 4294967296 ≥ totalFilelength then []
    else
      -- the block index moves on only when the next byte is wanted
      let (location, dataLocation) :=
        if dblockDataLocation ≥ block4KB then (dblockLocation + 1, 0)
        else (dblockLocation, dblockDataLocation)
      let currByteLoc := (img.dataBlock inode location).toNat
      img.byte (img.dataStart + currByteLoc * block4KB + dataLocation) ::
        readLoop img inode offset totalFilelength n (i + 1) location (dataLocation + 1)

/-- The bytes stored in the buffer, as many as are returned, or `none` for -1. The block number
loaded before the loop is not kept: each turn loads its own before it reads a byte. -/
def readData (img : Image) (inode offset buf length : UInt32) : Option (List UInt8) :=
  if length = 0 then some []
  else if inode = 0 ∨ buf = 0 ∨ inode ≥ img.totalInodes then none
  else
    some (readLoop img inode.toNat offset.toNat (img.inodeLength inode.toNat).toNat length.toNat
      0 (offset.toNat / block4KB) (offset.toNat % block4KB))

/-- An image as the file system tool writes it: the counted blocks fit in memory, and every
inode's length and block numbers stay within the format. -/
structure Image.WellFormed (img : Image) : Prop where
  fits : (1 + img.totalInodes.toNat + img.totalDatablock.toNat) * block4KB ≤ 4294967296
  length_le : ∀ k < img.totalInodes.toNat, (img.inodeLength k).toNat ≤ onekbPageSize * block4KB
  block_lt : ∀ k < img.totalInodes.toNat, ∀ j, j * block4KB < (img.inodeLength k).toNat →
    (img.dataBlock k j).toNat < img.totalDatablock.toNat

def Image.blockBytes (img : Image) (b : Nat) : List UInt8 :=
  (List.range block4KB).map fun x => img.byte (img.dataStart + b * block4KB + x)

def Image.fileContents (img : Image) (inode : Nat) : List UInt8 :=
  ((List.range onekbPageSize).flatMap fun j => img.blockBytes (img.dataBlock inode j).toNat).take
    (img.inodeLength inode).toNat

def sampleImage : Image where
  mem := fun x => (List.lookup x
    [(0, 2), (4, 2), (8, 1), (64, 46), (96, 1), (128, 115), (129, 104), (130, 101), (131, 108),
      (132, 108), (160, 2), (164, 1), (8192, 28), (12288, 127), (12289, 69), (12290, 76),
      (12291, 70), (12312, 128), (12313, 132), (12314, 4), (12315, 8)]).getD 0

end MyLinuxOS
