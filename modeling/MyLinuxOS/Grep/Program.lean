import MyLinuxOS.Kernel.Itoa

/-! `do_one_file` of `ece391grep.c`, with the string routines of `ece391support.c` it calls. -/

namespace MyLinuxOS
open Foundation

def bufsize : Nat := 1024

/-- The system calls on the file, as the program sees them: `read` is given the position of the
descriptor, and delivers the bytes it stores or `none` for -1. -/
structure GrepSyscalls where
  openFile : CString → Int32
  read : (position nbytes : Nat) → Option (List UInt8)
  closeFile : Int32

def message (text : String) : List UInt8 := text.toList.map fun c => UInt8.ofNat c.toNat

/-! ### `ece391support.c` -/

/-- `while ('\0' != (*dst++ = *src++))` with `dst` at `data + i` and `src` at `data + start + i`. -/
def ece391Strcpy (start : Nat) : (fuel : Nat) → (i : Nat) → Buffer → Option Buffer
  | 0, _, _ => none
  | fuel + 1, i, data =>
    let c := data (start + i)
    let data := Function.update data i c
    if c ≠ 0 then ece391Strcpy start fuel (i + 1) data else some data

def ece391Strncmp (s₁ s₂ : Nat → UInt8) : (n : Nat) → (i : Nat) → Int
  | 0, _ => 0
  | n + 1, i =>
    if s₁ i = s₂ i then if s₁ i = 0 ∨ n = 0 then 0 else ece391Strncmp s₁ s₂ n (i + 1)
    else (s₁ i).toNat - (s₂ i).toNat

def stringAt (data : Buffer) (start : Nat) : List UInt8 :=
  ((List.range (bufsize + 1 - start)).map fun i => data (start + i)).takeWhile (· ≠ 0)

/-! ### `ece391grep.c` -/

/-- `while (line_end < last && '\n' != data[line_end]) line_end++`, with `n` bytes up to `last`. -/
def scanLine (data : Buffer) : (n lineEnd : Nat) → Nat
  | 0, lineEnd => lineEnd
  | n + 1, lineEnd => if data lineEnd ≠ 10 then scanLine data n (lineEnd + 1) else lineEnd

/-- The search loop over `check`, with `n` bytes of the line to go. `s` points to signed characters,
`data` to unsigned ones. -/
def searchLine (data : Buffer) (s : CString) : (n check : Nat) → Bool
  | 0, _ => false
  | n + 1, check =>
    if (s.charAt 0).toInt8.toInt = (data check).toNat ∧
        ece391Strncmp (fun i => data (check + i)) s.charAt s.strlen 0 = 0 then true
    else searchLine data s n (check + 1)

def foundText (fname : CString) (line : List UInt8) : List UInt8 :=
  fname.bytes ++ [58] ++ line ++ [10]

/-- The inner loop from `line_start` on: what is written, and `data` and `last` at the end. -/
def lineLoop (s fname : CString) (cnt last : Nat) :
    (fuel : Nat) → (lineStart : Nat) → Buffer → Option (List UInt8 × Buffer × Nat)
  | 0, _, _ => none
  | fuel + 1, lineStart, data =>
    let lineEnd := scanLine data (last - lineStart) lineStart
    if data lineEnd ≠ 10 ∧ cnt ≠ 0 ∧ lineStart ≠ 0 then
      -- the line goes on in the next chunk: its beginning is moved to the front
      let data := Function.update data lineEnd 0
      (ece391Strcpy lineStart (bufsize + 1) 0 data).map fun data => ([], data, last - lineStart)
    else
      let data := Function.update data lineEnd 0
      let text :=
        if searchLine data s (lineEnd - lineStart) lineStart then
          foundText fname (stringAt data lineStart)
        else []
      if lineEnd + 1 ≥ last then some (text, data, 0)
      else (lineLoop s fname cnt last fuel (lineEnd + 1) data).map fun r => (text ++ r.1, r.2)

def storeChunk (data : Buffer) (last : Nat) (bytes : List UInt8) : Buffer := fun a =>
  if last ≤ a then bytes.getD (a - last) (data a) else data a

def grepLoop (calls : GrepSyscalls) (s fname : CString) :
    (fuel : Nat) → (position last : Nat) → Buffer → Option (List UInt8 × Int)
  | 0, _, _, _ => none
  | fuel + 1, position, last, data =>
    match calls.read position (bufsize - last) with
    | none => some (message "file read failed\n", -1)
    | some bytes => do
      let cnt := bytes.length
      let (text, data, last) ←
        lineLoop s fname cnt (last + cnt) (last + cnt + 1) 0 (storeChunk data last bytes)
      if cnt = 0 then
        if calls.closeFile = -1 then some (text ++ message "file close failed\n", -1)
        else some (text, 0)
      else
        (grepLoop calls s fname fuel (position + cnt) last data).map fun r => (text ++ r.1, r.2)

/-- `none` where the program has not come back yet. `data` is what the buffer held before. -/
def doOneFile (calls : GrepSyscalls) (s fname : CString) (data : Buffer) (fuel : Nat) :
    Option (List UInt8 × Int) :=
  if calls.openFile fname = -1 then some (message "file open failed\n", -1)
  else grepLoop calls s fname fuel 0 0 data

end MyLinuxOS
