import MyLinuxOS.Kernel.Printf
import MyLinuxOS.Text.Numbers

/-! `printf` against its documentation. Every format is printed as documented, but one that ends
inside a conversion is read beyond its terminator. -/

namespace MyLinuxOS
open Foundation

/-! ### The conversions -/

def signedString (value : Int32) : List UInt8 :=
  if value < 0 then 45 :: numberString 10 value.toInt.natAbs
  else numberString 10 value.toInt.natAbs

def zeroPadded (text : List UInt8) : List UInt8 := List.replicate (8 - text.length) 48 ++ text

/-- The documented text of a conversion. Only `%x` takes notice of `#`, and what is not documented
prints nothing. -/
def conversionText (strings : UInt32 → CString) (alternate : Bool) (c : UInt8) (arg : UInt32) :
    List UInt8 :=
  if c = 37 then [37]
  else if c = 120 then
    if alternate then zeroPadded (numberString 16 arg.toNat)
    else numberString 16 arg.toNat
  else if c = 117 then numberString 10 arg.toNat
  else if c = 100 then signedString arg.toInt32
  else if c = 99 then [UInt8.ofNat arg.toNat]
  else if c = 115 then (strings arg).bytes
  else []

def conversionArguments (c : UInt8) : Nat :=
  if c = 120 ∨ c = 117 ∨ c = 100 ∨ c = 99 ∨ c = 115 then 1 else 0

theorem putsLoop_eq {mem : Buffer} {s : Nat} {text : List UInt8} (h : HoldsString mem s text)
    (hplain : ∀ c ∈ text, c ≠ 0) {fuel index : Nat} (hindex : index ≤ text.length)
    (hfuel : text.length < index + fuel) : putsLoop mem s fuel index = some (text.drop index) := by
  induction fuel generalizing index with
  | zero => omega
  | succ fuel ih =>
    rw [putsLoop]
    rcases Nat.lt_or_eq_of_le hindex with hlt | rfl
    · have hchar : mem (s + index) ≠ 0 := by
        rw [h.chars index hlt]
        exact hplain _ (List.getElem_mem hlt)
      rw [if_pos hchar, ih hlt (by omega), Option.map_some, h.chars index hlt,
        ← List.drop_eq_getElem_cons]
    · rw [if_neg (not_not.mpr h.terminated), List.drop_length]

theorem putsLoop_whole {mem : Buffer} {s : Nat} {text : List UInt8} (h : HoldsString mem s text)
    (hplain : ∀ c ∈ text, c ≠ 0) (hlen : text.length < maxTurns) :
    putsLoop mem s maxTurns 0 = some text := by
  have hputs : putsLoop mem s maxTurns 0 = some (text.drop 0) :=
    putsLoop_eq h hplain (Nat.zero_le _) (by omega)
  rwa [List.drop_zero] at hputs

theorem decimal_plain (v : UInt32) : (∀ c ∈ numberString 10 v.toNat, c ≠ 0) ∧
    (numberString 10 v.toNat).length < maxTurns :=
  ⟨numberString_plain (by decide) (by decide) v.toNat, numberString_length_lt (by decide) v⟩

theorem printUnsigned_eq (convBuf : Buffer) (arg : UInt32) :
    printUnsigned convBuf arg = some (numberString 10 arg.toNat) := by
  obtain ⟨mem, hitoa, hholds, -⟩ : ∃ mem, itoa arg 0 10 convBuf = some mem ∧
      HoldsString mem 0 (numberString 10 arg.toNat) ∧ _ :=
    itoa_eq (by decide) (by decide) arg 0 convBuf
  rw [printUnsigned, hitoa]
  exact putsLoop_whole hholds (decimal_plain arg).1 (decimal_plain arg).2

theorem padZeros_eq (n i : Nat) (mem : Buffer) : (∀ j < n, padZeros n i mem (i + j) = 48) ∧
    ∀ a, a < i ∨ i + n ≤ a → padZeros n i mem a = mem a := by
  induction n generalizing i mem with
  | zero => exact ⟨fun j hj => absurd hj (Nat.not_lt_zero j), fun a _ => rfl⟩
  | succ n ih =>
    obtain ⟨hfilled, hkept⟩ := ih (i + 1) (Function.update mem i 48)
    rw [padZeros]
    refine ⟨fun j hj => ?_, fun a ha => ?_⟩
    · cases j with
      | zero => rw [hkept _ (by omega), Nat.add_zero, Function.update_self]
      | succ j =>
        have hnext : i + (j + 1) = i + 1 + j := by omega
        rw [hnext, hfilled j (by omega)]
    · rw [hkept a (by omega), Function.update_of_ne (by omega)]

theorem zeroPadded_length {text : List UInt8} (hlen : text.length ≤ 8) :
    (zeroPadded text).length = 8 := by
  rw [zeroPadded, List.length_append, List.length_replicate]
  omega

theorem zeroPadded_plain {text : List UInt8} (hplain : ∀ c ∈ text, c ≠ 0) :
    ∀ c ∈ zeroPadded text, c ≠ 0 := by
  intro c hc
  rcases List.mem_append.mp hc with hzero | hdigit
  · rw [List.eq_of_mem_replicate hzero]
    decide
  · exact hplain c hdigit

theorem padded_holds {mem : Buffer} {text : List UInt8} (h : HoldsString mem 8 text)
    (hlen : text.length ≤ 8) : HoldsString (padZeros (8 - text.length) text.length mem) text.length
      (zeroPadded text) := by
  obtain ⟨hfilled, hkept⟩ := padZeros_eq (8 - text.length) text.length mem
  have hlength := zeroPadded_length hlen
  refine ⟨?_, ?_⟩
  · unfold zeroPadded at hlength ⊢
    intro i hi
    rw [hlength] at hi
    by_cases hpad : i < 8 - text.length
    · rw [hfilled i hpad, List.getElem_append_left (by rwa [List.length_replicate]),
        List.getElem_replicate]
    · have hback : text.length + i = 8 + (i - (8 - text.length)) := by omega
      rw [hkept _ (by omega), hback, h.chars _ (by omega),
        List.getElem_append_right (by rw [List.length_replicate]; omega)]
      simp only [List.length_replicate]
  · rw [hlength, hkept _ (by omega), Nat.add_comm, h.terminated]

theorem printHex_eq (convBuf : Buffer) (alternate : Bool) (arg : UInt32) :
    printHex convBuf alternate arg =
      some (if alternate then zeroPadded (numberString 16 arg.toNat)
        else numberString 16 arg.toNat) := by
  have hplain := numberString_plain (show 2 ≤ 16 by decide) (by decide) arg.toNat
  have hshort := numberString_length_lt (show 2 ≤ 16 by decide) arg
  cases alternate with
  | false =>
    obtain ⟨mem, hitoa, hholds, -⟩ : ∃ mem, itoa arg 0 16 convBuf = some mem ∧
        HoldsString mem 0 (numberString 16 arg.toNat) ∧ _ :=
      itoa_eq (by decide) (by decide) arg 0 convBuf
    rw [printHex, if_pos rfl, hitoa]
    exact putsLoop_whole hholds hplain hshort
  | true =>
    obtain ⟨mem, hitoa, hholds, -⟩ : ∃ mem, itoa arg 8 16 convBuf = some mem ∧
        HoldsString mem 8 (numberString 16 arg.toNat) ∧ _ :=
      itoa_eq (by decide) (by decide) arg 8 convBuf
    have height : (numberString 16 arg.toNat).length ≤ 8 := hex_length_le arg
    have hstrlen : strlen mem 8 maxTurns 0 = some (numberString 16 arg.toNat).length :=
      strlen_eq hholds hplain (Nat.zero_le _) (by omega)
    rw [printHex, if_neg (by decide), hitoa]
    simp only [bind, Option.bind, hstrlen]
    exact putsLoop_whole (padded_holds hholds height) (zeroPadded_plain hplain)
      ((zeroPadded_length height).trans_lt (by decide))

theorem neg_toNat {value : Int32} (hneg : value < 0) :
    (-value).toUInt32.toNat = value.toInt.natAbs := by
  have hint : value.toInt < 0 := Int32.lt_iff_toInt_lt.mp hneg
  have hcond : value.toInt = value.toBitVec.toInt := rfl
  have hnat : (-value).toUInt32.toNat = (-value.toBitVec).toNat := rfl
  rw [hcond, BitVec.toInt_eq_toNat_cond] at hint
  rw [hnat, hcond, BitVec.toInt_eq_toNat_cond, BitVec.toNat_neg]
  split
  · omega
  · omega

theorem toNat_eq_natAbs {value : Int32} (hneg : ¬value < 0) :
    value.toUInt32.toNat = value.toInt.natAbs := by
  have hint : 0 ≤ value.toInt := Int.not_lt.mp fun h => hneg (Int32.lt_iff_toInt_lt.mpr h)
  have hcond : value.toInt = value.toBitVec.toInt := rfl
  have hnat : value.toUInt32.toNat = value.toBitVec.toNat := rfl
  rw [hcond, BitVec.toInt_eq_toNat_cond] at hint
  rw [hnat, hcond, BitVec.toInt_eq_toNat_cond]
  split
  · omega
  · omega

theorem printSigned_eq (convBuf : Buffer) (arg : UInt32) :
    printSigned convBuf arg = some (signedString arg.toInt32) := by
  rw [printSigned, signedString]
  by_cases hneg : arg.toInt32 < 0
  · obtain ⟨mem, hitoa, hholds, hkept⟩ : ∃ mem,
        itoa (-arg.toInt32).toUInt32 1 10 (Function.update convBuf 0 45) = some mem ∧
          HoldsString mem 1 (numberString 10 (-arg.toInt32).toUInt32.toNat) ∧
          ChangesOnly 1 _ (Function.update convBuf 0 45) mem :=
      itoa_eq (by decide) (by decide) _ 1 _
    have hten := decimal_length_le (-arg.toInt32).toUInt32
    have hsign : mem 0 = 45 := by
      rw [hkept 0 (.inl (by decide)), Function.update_self]
    have hsigned : HoldsString mem 0 (45 :: numberString 10 (-arg.toInt32).toUInt32.toNat) :=
      HoldsString.cons hsign hholds
    rw [if_pos hneg, if_pos hneg, hitoa]
    rw [neg_toNat hneg] at hsigned hten
    refine putsLoop_whole hsigned (fun c hc => ?_) ?_
    · rcases List.mem_cons.mp hc with rfl | hdigit
      · decide
      · exact numberString_plain (by decide) (by decide) _ c hdigit
    · rw [List.length_cons]
      unfold maxTurns
      omega
  · obtain ⟨mem, hitoa, hholds, -⟩ : ∃ mem, itoa arg.toInt32.toUInt32 0 10 convBuf = some mem ∧
        HoldsString mem 0 (numberString 10 arg.toInt32.toUInt32.toNat) ∧ _ :=
      itoa_eq (by decide) (by decide) _ 0 convBuf
    obtain ⟨hplain, hshort⟩ := decimal_plain arg.toInt32.toUInt32
    rw [toNat_eq_natAbs hneg] at hholds hplain hshort
    rw [if_neg hneg, if_neg hneg, hitoa]
    exact putsLoop_whole hholds hplain hshort

theorem convert_eq (strings : UInt32 → CString) (convBuf : Buffer) (c : UInt8) (alternate : Bool)
    (arg : UInt32) : convert strings convBuf c alternate arg =
      some (conversionText strings alternate c arg, conversionArguments c) := by
  have hnumber : printHex convBuf alternate arg = some (if alternate then
      zeroPadded (numberString 16 arg.toNat) else numberString 16 arg.toNat) ∧
      printUnsigned convBuf arg = some (numberString 10 arg.toNat) ∧
      printSigned convBuf arg = some (signedString arg.toInt32) :=
    ⟨printHex_eq convBuf alternate arg, printUnsigned_eq convBuf arg, printSigned_eq convBuf arg⟩
  unfold convert conversionText conversionArguments
  rw [hnumber.1, hnumber.2.1, hnumber.2.2]
  by_cases h₁ : c = 37
  · subst h₁
    rfl
  by_cases h₂ : c = 120
  · subst h₂
    rfl
  by_cases h₃ : c = 117
  · subst h₃
    rfl
  by_cases h₄ : c = 100
  · subst h₄
    rfl
  by_cases h₅ : c = 99
  · subst h₅
    rfl
  by_cases h₆ : c = 115
  · subst h₆
    rfl
  · simp only [h₁, h₂, h₃, h₄, h₅, h₆, if_false, or_self]

/-! ### The format -/

section expand
variable (args : Nat → UInt32) (strings : UInt32 → CString)

/-- The documented expansion. `inside` is set in a conversion, with the `#` that has been seen
there. -/
def expand : List UInt8 → (inside : Option Bool) → (argument : Nat) → List UInt8
  | [], _, _ => []
  | c :: format, none, argument =>
    if c = 37 then expand format (some false) argument else c :: expand format none argument
  | c :: format, some alternate, argument =>
    if c = 35 then expand format (some true) argument
    else conversionText strings alternate c (args argument) ++
      expand format none (argument + conversionArguments c)

end expand

def insideAfter : List UInt8 → (inside : Option Bool) → Option Bool
  | [], inside => inside
  | c :: format, none => insideAfter format (if c = 37 then some false else none)
  | c :: format, some _ => insideAfter format (if c = 35 then some true else none)

/-- The format ends in `%`, or in `%` and `#`s, and that `%` is not the second of `%%`. -/
def EndsInConversion (format : CString) : Prop := insideAfter format.bytes none ≠ none

instance (format : CString) : Decidable (EndsInConversion format) :=
  inferInstanceAs (Decidable (_ ≠ _))

/-- The format in memory, with any bytes behind its terminator. -/
def formatMemory (format : CString) (behind : Buffer) : Buffer := fun i =>
  if i ≤ format.strlen then format.charAt i else behind i

/-- The call returns the length of the format, has looked at no byte behind the terminator, and has
printed the documented expansion. -/
def PrintsFaithfully (format : CString) (behind : Buffer) (args : Nat → UInt32)
    (strings : UInt32 → CString) (stack : Nat → Buffer) : Prop :=
  ∃ fuel r, printf (formatMemory format behind) args strings stack fuel = some r ∧
    (∀ i ∈ r.reads, i ≤ format.strlen) ∧ r.output = expand args strings format.bytes none 0 ∧
    r.returned = format.strlen

def PrintfPoint.inside : PrintfPoint → Option Bool
  | .whileTest => none
  | .formatCharSwitch alternate => some alternate

structure HoldsFormat (mem : Buffer) (buf : Nat) (rest : List UInt8) : Prop where
  holds : HoldsString mem buf rest
  plain : ∀ c ∈ rest, c ≠ 0

theorem HoldsFormat.head {mem : Buffer} {buf : Nat} {c : UInt8} {rest : List UInt8}
    (h : HoldsFormat mem buf (c :: rest)) : mem buf = c := h.holds.chars 0 (Nat.zero_lt_succ _)

theorem HoldsFormat.tail {mem : Buffer} {buf : Nat} {c : UInt8} {rest : List UInt8}
    (h : HoldsFormat mem buf (c :: rest)) : HoldsFormat mem (buf + 1) rest := by
  refine ⟨⟨fun i hi => ?_, ?_⟩, fun d hd => h.plain d (List.mem_cons_of_mem _ hd)⟩
  · have hat := h.holds.chars (i + 1) (Nat.succ_lt_succ hi)
    rw [List.getElem_cons_succ] at hat
    rw [← hat, Nat.add_assoc, Nat.add_comm 1]
  · have hend := h.holds.terminated
    rw [List.length_cons] at hend
    rw [← hend, Nat.add_assoc, Nat.add_comm 1]

section run
variable {mem : Buffer} {args : Nat → UInt32} {strings : UInt32 → CString} {stack : Nat → Buffer}

structure Expands (r : Printed) (buf : Nat) (rest : List UInt8) (text : List UInt8) : Prop where
  reads : ∀ i ∈ r.reads, i ≤ buf + rest.length
  output : r.output = text
  returned : r.returned = buf + rest.length

theorem Expands.after {r : Printed} {buf : Nat} {rest text : List UInt8}
    (h : Expands r (buf + 1) rest text) (c : UInt8) (front : List UInt8) :
    Expands (r.after buf front) buf (c :: rest) (front ++ text) := by
  have hlength : (c :: rest).length = rest.length + 1 := rfl
  refine ⟨fun i hi => ?_, ?_, ?_⟩
  · rcases List.mem_cons.mp hi with rfl | hi
    · exact Nat.le_add_right ..
    · have hle := h.reads i hi
      omega
  · rw [← h.output]
    rfl
  · have hreturned := h.returned
    change r.returned = _
    omega

theorem printfLoop_closed {rest : List UInt8} {buf : Nat} (h : HoldsFormat mem buf rest)
    {point : PrintfPoint} (hclosed : insideAfter rest point.inside = none) {fuel esp : Nat}
    (hfuel : rest.length < fuel) : ∃ r,
      printfLoop mem args strings stack fuel point buf esp = some r ∧
        Expands r buf rest (expand args strings rest point.inside esp) := by
  obtain ⟨fuel, rfl⟩ := Nat.exists_eq_add_one.mpr (Nat.zero_lt_of_lt hfuel)
  induction rest generalizing buf point fuel esp with
  | nil =>
    cases point with
    | whileTest =>
      have hend : mem buf = 0 := h.holds.terminated
      refine ⟨_, by rw [printfLoop, if_pos hend], fun i hi => ?_, rfl, rfl⟩
      exact (List.mem_singleton.mp hi).le
    | formatCharSwitch alternate => exact absurd hclosed (by simp [insideAfter, PrintfPoint.inside])
  | cons c rest ih =>
    have hc : mem buf = c := h.head
    have hne : mem buf ≠ 0 := hc ▸ h.plain c (List.mem_cons_self ..)
    rw [List.length_cons] at hfuel
    obtain ⟨fuel, rfl⟩ :=
      Nat.exists_eq_add_one.mpr (Nat.zero_lt_of_lt (Nat.lt_of_succ_lt_succ hfuel))
    -- the rest of the format is taken up at the next point, one byte further
    have hnext (point : PrintfPoint) (esp : Nat) (text : List UInt8)
        (hclosed : insideAfter rest point.inside = none) : ∃ r,
          (printfLoop mem args strings stack (fuel + 1) point (buf + 1) esp).map
              (·.after buf text) = some r ∧
            Expands r buf (c :: rest) (text ++ expand args strings rest point.inside esp) := by
      obtain ⟨r, hrun, hexpands⟩ := ih h.tail hclosed fuel (by omega)
      exact ⟨_, by rw [hrun, Option.map_some], hexpands.after c text⟩
    cases point with
    | whileTest =>
      rw [printfLoop, if_neg hne, hc]
      rw [PrintfPoint.inside, insideAfter] at hclosed
      rw [PrintfPoint.inside, expand]
      by_cases hpercent : c = 37
      · rw [if_pos hpercent] at hclosed ⊢
        rw [if_pos hpercent]
        exact hnext (.formatCharSwitch false) esp [] hclosed
      · rw [if_neg hpercent] at hclosed ⊢
        rw [if_neg hpercent]
        exact hnext .whileTest esp [c] hclosed
    | formatCharSwitch alternate =>
      rw [printfLoop, hc]
      rw [PrintfPoint.inside, insideAfter] at hclosed
      rw [PrintfPoint.inside, expand]
      by_cases hflag : c = 35
      · rw [if_pos hflag] at hclosed ⊢
        rw [if_pos hflag]
        exact hnext (.formatCharSwitch true) esp [] hclosed
      · rw [if_neg hflag] at hclosed ⊢
        rw [if_neg hflag, convert_eq]
        exact hnext .whileTest _ _ hclosed

theorem mem_reads_self {point : PrintfPoint} {fuel buf esp : Nat} {r : Printed}
    (h : printfLoop mem args strings stack fuel point buf esp = some r) : buf ∈ r.reads := by
  cases fuel with
  | zero => cases h
  | succ fuel =>
    have hafter {o : Option Printed} {text : List UInt8} (ho : o.map (·.after buf text) = some r) :
        buf ∈ r.reads := by
      obtain ⟨r', -, rfl⟩ := Option.map_eq_some_iff.mp ho
      exact List.mem_cons_self ..
    cases point with
    | whileTest =>
      rw [printfLoop] at h
      split at h
      · obtain rfl := Option.some.inj h
        exact List.mem_singleton_self _
      · split at h
        · exact hafter h
        · exact hafter h
    | formatCharSwitch alternate =>
      rw [printfLoop, convert_eq] at h
      split at h
      · exact hafter h
      · exact hafter h

/-- Where the format ends in a conversion, its terminator is taken for an unknown specifier and the
byte behind it is looked at. -/
theorem printfLoop_open {rest : List UInt8} {buf : Nat} (h : HoldsFormat mem buf rest)
    {point : PrintfPoint} (hopen : insideAfter rest point.inside ≠ none) {fuel esp : Nat}
    {r : Printed} (hrun : printfLoop mem args strings stack fuel point buf esp = some r) :
    buf + rest.length + 1 ∈ r.reads := by
  cases fuel with
  | zero => cases hrun
  | succ fuel =>
    induction rest generalizing buf point fuel esp r with
    | nil =>
      have hend : mem buf = 0 := h.holds.terminated
      cases point with
      | whileTest => exact absurd rfl hopen
      | formatCharSwitch alternate =>
        -- the terminator is not `#`, so the switch takes it and the loop steps over it
        rw [printfLoop, if_neg (by rw [hend]; decide), convert_eq] at hrun
        obtain ⟨r', hrun', rfl⟩ := Option.map_eq_some_iff.mp hrun
        exact List.mem_cons_of_mem _ (mem_reads_self hrun')
    | cons c rest ih =>
      have hc : mem buf = c := h.head
      have hne : mem buf ≠ 0 := hc ▸ h.plain c (List.mem_cons_self ..)
      have hlength : buf + (c :: rest).length + 1 = buf + 1 + rest.length + 1 := by
        rw [List.length_cons]
        omega
      -- whatever is printed, the run goes on one byte further
      have hnext {point : PrintfPoint} {esp : Nat} {text : List UInt8}
          (hopen : insideAfter rest point.inside ≠ none)
          (hmap : (printfLoop mem args strings stack fuel point (buf + 1) esp).map
            (·.after buf text) = some r) : buf + (c :: rest).length + 1 ∈ r.reads := by
        obtain ⟨r', hrun', rfl⟩ := Option.map_eq_some_iff.mp hmap
        rw [hlength]
        cases fuel with
        | zero => cases hrun'
        | succ fuel => exact List.mem_cons_of_mem _ (ih h.tail hopen fuel hrun')
      cases point with
      | whileTest =>
        rw [printfLoop, if_neg hne, hc] at hrun
        rw [PrintfPoint.inside, insideAfter] at hopen
        by_cases hpercent : c = 37
        · rw [if_pos hpercent] at hopen hrun
          have hopen' : insideAfter rest (PrintfPoint.formatCharSwitch false).inside ≠ none := hopen
          exact hnext hopen' hrun
        · rw [if_neg hpercent] at hopen hrun
          have hopen' : insideAfter rest PrintfPoint.whileTest.inside ≠ none := hopen
          exact hnext hopen' hrun
      | formatCharSwitch alternate =>
        rw [printfLoop, hc] at hrun
        rw [PrintfPoint.inside, insideAfter] at hopen
        by_cases hflag : c = 35
        · rw [if_pos hflag] at hopen hrun
          have hopen' : insideAfter rest (PrintfPoint.formatCharSwitch true).inside ≠ none := hopen
          exact hnext hopen' hrun
        · rw [if_neg hflag] at hopen
          rw [if_neg hflag, convert_eq] at hrun
          have hopen' : insideAfter rest PrintfPoint.whileTest.inside ≠ none := hopen
          exact hnext hopen' hrun

end run

theorem formatMemory_holds (format : CString) (behind : Buffer) :
    HoldsFormat (formatMemory format behind) 0 format.bytes := by
  have hlength : format.strlen = format.bytes.length := rfl
  refine ⟨⟨fun i hi => ?_, ?_⟩, format.noNul⟩
  · rw [Nat.zero_add, formatMemory, if_pos (hlength ▸ hi.le), CString.charAt,
      List.getD_eq_getElem _ _ hi]
  · rw [Nat.zero_add, formatMemory, if_pos hlength.ge, CString.charAt,
      List.getD_eq_default _ _ (Nat.le_refl _)]

/-- A format is printed as documented if and only if it does not end inside a conversion. -/
theorem prints_faithfully_iff (format : CString) (behind : Buffer) (args : Nat → UInt32)
    (strings : UInt32 → CString) (stack : Nat → Buffer) :
    PrintsFaithfully format behind args strings stack ↔ ¬EndsInConversion format := by
  have hlength : format.strlen = format.bytes.length := rfl
  have hholds := formatMemory_holds format behind
  constructor
  · rintro ⟨fuel, r, hrun, hreads, -⟩ hopen
    have hpoint : insideAfter format.bytes PrintfPoint.whileTest.inside ≠ none := hopen
    have hle := hreads _ (printfLoop_open hholds hpoint hrun)
    omega
  · intro hclosed
    have hpoint : insideAfter format.bytes PrintfPoint.whileTest.inside = none :=
      not_not.mp hclosed
    obtain ⟨r, hrun, hexpands⟩ := printfLoop_closed hholds hpoint (Nat.lt_succ_self _)
    refine ⟨_, r, hrun, fun i hi => ?_, hexpands.output, ?_⟩
    · have hle := hexpands.reads i hi
      omega
    · rw [hexpands.returned, Nat.zero_add, hlength]

def percentFormat : CString := ⟨[37], CString.noNul_of_all rfl⟩

/-- An `A` behind the terminator of `%` is printed, and three bytes are counted. -/
theorem percent_reads_behind : (printf (formatMemory percentFormat fun i => if i = 2 then 65 else 0)
      (fun _ => 0) (fun _ => percentFormat) (fun _ _ => 0) 4).map
        (fun r => (r.output, r.reads, r.returned)) = some ([65], [0, 1, 2, 3], 3) ∧
    ¬PrintsFaithfully percentFormat (fun i => if i = 2 then 65 else 0) (fun _ => 0)
      (fun _ => percentFormat) (fun _ _ => 0) := by
  refine ⟨by decide, fun ⟨fuel, r, hrun, hreads, _⟩ => ?_⟩
  have hopen : insideAfter percentFormat.bytes PrintfPoint.whileTest.inside ≠ none := by decide
  have hread : 0 + 1 + 1 ∈ r.reads := printfLoop_open (formatMemory_holds ..) hopen hrun
  exact absurd (hreads _ hread) (by decide)

end MyLinuxOS
