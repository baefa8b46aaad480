import MyLinuxOS.Kernel.ConversionBuffers
import MyLinuxOS.Text.Formats

/-! The conversions stay within their buffers: with every access checked against the declared size,
they do what they do without the checks. -/

namespace MyLinuxOS
open Foundation

section access
variable {size a : Nat} (mem : Buffer) (c : UInt8)

theorem loadIn_of_lt (h : a < size) : loadIn size mem a = some (mem a) := if_pos h

theorem storeIn_of_lt (h : a < size) : storeIn size mem a c = some (Function.update mem a c) :=
  if_pos h

end access

/-! ### The routines -/

section routines
variable {size s : Nat} {mem : Buffer}

theorem strlen_le {fuel len n : Nat} (h : strlen mem s fuel len = some n) : len ≤ n := by
  induction fuel generalizing len with
  | zero => cases h
  | succ fuel ih =>
    rw [strlen] at h
    split at h
    · exact Nat.le_of_succ_le (ih h)
    · exact (Option.some.inj h).le

theorem strlenIn_eq {fuel len n : Nat} (h : strlen mem s fuel len = some n) (hsize : s + n < size) :
    strlenIn size mem s fuel len = some n := by
  induction fuel generalizing len with
  | zero => cases h
  | succ fuel ih =>
    have hle : len ≤ n := strlen_le h
    rw [strlen] at h
    rw [strlenIn, loadIn_of_lt mem (by omega), Option.bind_eq_bind, Option.bind_some]
    by_cases hend : mem (s + len) ≠ 0
    · rw [if_pos hend] at h ⊢
      exact ih h
    · rwa [if_neg hend] at h ⊢

theorem strrevLoopIn_eq {fin beg : Nat} (hsize : s + fin < size) :
    strrevLoopIn size s fin beg mem = some (strrevLoop s fin beg mem) := by
  induction fin generalizing beg mem with
  | zero => rfl
  | succ fin ih =>
    rw [strrevLoopIn, strrevLoop]
    by_cases hlt : beg < fin + 1
    · have hbeg : s + beg < size := by omega
      rw [if_pos hlt, if_pos hlt, loadIn_of_lt mem hsize, loadIn_of_lt mem hbeg]
      simp only [Option.bind_eq_bind, Option.bind_some]
      rw [storeIn_of_lt _ _ hsize, Option.bind_some, storeIn_of_lt _ _ hbeg, Option.bind_some]
      exact ih (by omega)
    · rw [if_neg hlt, if_neg hlt]

theorem strrevIn_eq {len : Nat} (hlen : strlen mem s maxTurns 0 = some len)
    (hsize : s + len < size) : strrevIn size s mem = strrev s mem := by
  rw [strrevIn, strlenIn_eq hlen hsize, strrev, hlen]
  exact strrevLoopIn_eq (by omega)

theorem itoaLoop_le {radix v : UInt32} {fuel newbuf last : Nat} {mem mem' : Buffer}
    (h : itoaLoop radix fuel v newbuf mem = some (last, mem')) : newbuf ≤ last := by
  induction fuel generalizing v newbuf mem with
  | zero => cases h
  | succ fuel ih =>
    rw [itoaLoop] at h
    split at h
    · split at h
      · cases h
      · exact Nat.le_of_succ_le (ih h)
    · exact (congrArg Prod.fst (Option.some.inj h)).le

theorem itoaLoopIn_eq {radix v : UInt32} {fuel newbuf last : Nat} {mem mem' : Buffer}
    (hmax : radix.toNat ≤ 36) (h : itoaLoop radix fuel v newbuf mem = some (last, mem'))
    (hsize : last ≤ size) : itoaLoopIn size radix fuel v newbuf mem = some (last, mem') := by
  induction fuel generalizing v newbuf mem with
  | zero => cases h
  | succ fuel ih =>
    rw [itoaLoop] at h
    rw [itoaLoopIn]
    by_cases hv : v > 0
    · rw [if_pos hv] at h ⊢
      by_cases hzero : radix = 0
      · rw [if_pos hzero] at h
        cases h
      · rw [if_neg hzero] at h ⊢
        have hnext : newbuf + 1 ≤ last := itoaLoop_le h
        have hpos : 0 < radix.toNat := toNat_pos hzero
        have hdigit : (v % radix).toNat < lookup.length := by
          rw [UInt32.toNat_mod]
          exact (Nat.mod_lt _ hpos).trans_le hmax
        rw [List.getD_eq_getElem _ _ hdigit] at h
        rw [List.getElem?_eq_getElem hdigit]
        simp only [Option.bind_eq_bind, Option.bind_some]
        rw [storeIn_of_lt _ _ (by omega), Option.bind_some]
        exact ih h
    · rwa [if_neg hv] at h ⊢

theorem putsLoopIn_eq {fuel index : Nat} {text : List UInt8}
    (h : putsLoop mem s fuel index = some text) (hsize : s + index + text.length < size) :
    putsLoopIn size mem s fuel index = some text := by
  induction fuel generalizing index text with
  | zero => cases h
  | succ fuel ih =>
    rw [putsLoop] at h
    rw [putsLoopIn, loadIn_of_lt mem (by omega), Option.bind_eq_bind, Option.bind_some]
    by_cases hend : mem (s + index) ≠ 0
    · rw [if_pos hend] at h ⊢
      obtain ⟨rest, hrest, rfl⟩ := Option.map_eq_some_iff.mp h
      rw [List.length_cons] at hsize
      rw [ih hrest (by omega), Option.map_some]
    · rwa [if_neg hend] at h ⊢

theorem padZerosIn_eq {n i : Nat} (hsize : i + n ≤ size) :
    padZerosIn size n i mem = some (padZeros n i mem) := by
  induction n generalizing i mem with
  | zero => rfl
  | succ n ih =>
    rw [padZerosIn, storeIn_of_lt _ _ (by omega), padZeros]
    exact ih (by omega)

end routines

theorem itoaIn_eq {size : Nat} {radix : Int32} (hradix : 2 ≤ radix.toUInt32.toNat)
    (hmax : radix.toUInt32.toNat ≤ 36) (v : UInt32) (buf : Nat) (mem : Buffer)
    (hsize : buf + (numberString radix.toUInt32.toNat v.toNat).length < size) :
    itoaIn size v buf radix mem = itoa v buf radix mem := by
  rw [itoaIn, itoa]
  by_cases hv : v = 0
  · have hone : (numberString radix.toUInt32.toNat v.toNat).length = 1 := by
      rw [hv]
      rfl
    rw [if_pos hv, if_pos hv, storeIn_of_lt _ _ (by omega)]
    exact storeIn_of_lt _ _ (by omega)
  · have hpos : 0 < v.toNat := toNat_pos hv
    have hdigits : (numberString radix.toUInt32.toNat v.toNat).length =
        (Nat.digits radix.toUInt32.toNat v.toNat).length := by
      rw [numberString, numeral_of_pos _ hpos, List.length_reverse, List.length_map]
    have hshort := numberString_length_lt hradix v
    rw [hdigits] at hsize hshort
    -- what is reversed is the string of the digits from the lowest up, of the same length
    obtain ⟨mem₁, hloop, hholds, -⟩ := itoaLoop_holds hradix v buf mem
    have hplain : ∀ c ∈ (Nat.digits radix.toUInt32.toNat v.toNat).map digitChar, c ≠ 0 := by
      intro c hc
      obtain ⟨d, hd, rfl⟩ := List.mem_map.mp hc
      exact digitChar_ne_zero ((Nat.digits_lt_base hradix hd).trans_le hmax)
    have hstrlen := strlen_eq hholds hplain (Nat.zero_le _) (by rwa [List.length_map, Nat.zero_add])
    rw [List.length_map] at hstrlen
    rw [if_neg hv, if_neg hv, itoaLoopIn_eq hmax hloop hsize.le, hloop]
    simp only [Option.bind_eq_bind, Option.bind_some]
    rw [storeIn_of_lt _ _ hsize, Option.bind_some]
    exact strrevIn_eq hstrlen hsize

/-! ### The conversions -/

theorem printed_within {size : Nat} {radix : Int32} (hradix : 2 ≤ radix.toUInt32.toNat)
    (hmax : radix.toUInt32.toNat ≤ 36) (v : UInt32) (convBuf : Buffer)
    (hsize : (numberString radix.toUInt32.toNat v.toNat).length < size) :
    (do
      let mem ← itoaIn size v 0 radix convBuf
      putsLoopIn size mem 0 maxTurns 0) = some (numberString radix.toUInt32.toNat v.toNat) := by
  obtain ⟨mem, hitoa, hholds, -⟩ := itoa_eq hradix hmax v 0 convBuf
  have hputs := putsLoop_whole hholds (numberString_plain hradix hmax v.toNat)
    (numberString_length_lt hradix v)
  rw [itoaIn_eq hradix hmax v 0 convBuf (by omega), hitoa]
  exact putsLoopIn_eq hputs (by omega)

theorem printUnsignedIn_eq (convBuf : Buffer) (arg : UInt32) :
    printUnsignedIn 36 convBuf arg = printUnsigned convBuf arg := by
  have hlength := decimal_length_le arg
  rw [printUnsigned_eq]
  exact printed_within (by decide) (by decide) arg convBuf (by
    change (numberString 10 arg.toNat).length < 36
    omega)

theorem printHexIn_eq (convBuf : Buffer) (alternate : Bool) (arg : UInt32) :
    printHexIn 64 convBuf alternate arg = printHex convBuf alternate arg := by
  have hlength := hex_length_le arg
  cases alternate with
  | false =>
    rw [printHex_eq]
    exact printed_within (by decide) (by decide) arg convBuf (by
      change (numberString 16 arg.toNat).length < 64
      omega)
  | true =>
    obtain ⟨mem, hitoa, hholds, -⟩ : ∃ mem, itoa arg 8 16 convBuf = some mem ∧
        HoldsString mem 8 (numberString 16 arg.toNat) ∧ _ :=
      itoa_eq (by decide) (by decide) arg 8 convBuf
    have hitoaIn : itoaIn 64 arg 8 16 convBuf = some mem := by
      rw [itoaIn_eq (by decide) (by decide), hitoa]
      change 8 + (numberString 16 arg.toNat).length < 64
      omega
    have hplain : ∀ c ∈ numberString 16 arg.toNat, c ≠ 0 :=
      numberString_plain (by decide) (by decide) arg.toNat
    have hstrlen : strlen mem 8 maxTurns 0 = some (numberString 16 arg.toNat).length :=
      strlen_eq hholds hplain (Nat.zero_le _) (hlength.trans_lt (by decide))
    have hprinted := printHex_eq convBuf true arg
    rw [printHex, if_neg (by decide), hitoa] at hprinted
    simp only [Option.bind_eq_bind, Option.bind_some, hstrlen, if_true] at hprinted
    -- the zeros fill up to index 8, where the digits begin
    have hwhole := zeroPadded_length hlength
    rw [printHex_eq, printHexIn, if_neg (by decide), hitoaIn]
    simp only [Option.bind_eq_bind, Option.bind_some, if_true]
    rw [strlenIn_eq hstrlen (by omega), Option.bind_some, padZerosIn_eq (by omega),
      Option.bind_some]
    exact putsLoopIn_eq hprinted (by omega)

theorem signedString_length_le (arg : UInt32) : (signedString arg.toInt32).length ≤ 11 := by
  unfold signedString
  by_cases hneg : arg.toInt32 < 0
  · have hten := decimal_length_le (-arg.toInt32).toUInt32
    rw [neg_toNat hneg] at hten
    rw [if_pos hneg, List.length_cons]
    omega
  · have hten := decimal_length_le arg.toInt32.toUInt32
    rw [toNat_eq_natAbs hneg] at hten
    rw [if_neg hneg]
    omega

theorem printSignedIn_eq (convBuf : Buffer) (arg : UInt32) :
    printSignedIn 36 convBuf arg = printSigned convBuf arg := by
  have hprinted := printSigned_eq convBuf arg
  have hlength := signedString_length_le arg
  by_cases hneg : arg.toInt32 < 0
  · have hten := decimal_length_le (-arg.toInt32).toUInt32
    obtain ⟨mem, hitoa, -⟩ : ∃ mem,
        itoa (-arg.toInt32).toUInt32 1 10 (Function.update convBuf 0 45) = some mem ∧ _ :=
      itoa_eq (by decide) (by decide) _ 1 _
    have hitoaIn : itoaIn 36 (-arg.toInt32).toUInt32 1 10 (Function.update convBuf 0 45) =
        some mem := by
      rw [itoaIn_eq (by decide) (by decide), hitoa]
      change 1 + (numberString 10 (-arg.toInt32).toUInt32.toNat).length < 36
      omega
    rw [printSigned, if_pos hneg, hitoa] at hprinted
    rw [printSigned_eq, printSignedIn, if_pos hneg, storeIn_of_lt _ _ (by decide),
      Option.bind_eq_bind, Option.bind_some, hitoaIn]
    exact putsLoopIn_eq hprinted (by omega)
  · have hten := decimal_length_le arg.toInt32.toUInt32
    rw [printSigned_eq, printSignedIn, if_neg hneg, signedString, if_neg hneg,
      ← toNat_eq_natAbs hneg]
    exact printed_within (by decide) (by decide) arg.toInt32.toUInt32 convBuf (by
      change (numberString 10 arg.toInt32.toUInt32.toNat).length < 36
      omega)

theorem convertIn_eq (strings : UInt32 → CString) (convBuf : Buffer) (c : UInt8) (alternate : Bool)
    (arg : UInt32) :
    convertIn strings convBuf c alternate arg = convert strings convBuf c alternate arg := by
  rw [convertIn, convert, printHexIn_eq, printUnsignedIn_eq, printSignedIn_eq]

end MyLinuxOS
