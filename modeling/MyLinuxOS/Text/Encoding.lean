import MyLinuxOS.Text.BufferBounds

/-! Numbers and their strings: what `itoa` writes and what `printf` prints of an argument is read
back as the number. -/

namespace MyLinuxOS
open Foundation

def digitValue (c : UInt8) : Option Nat :=
  if 48 ≤ c ∧ c ≤ 57 then some (c.toNat - 48)
  else if 65 ≤ c ∧ c ≤ 90 then some (c.toNat - 55)
  else none

/-- The string that `itoa` writes, wherever it writes it: the numeral of the value with its
terminator, and nothing else. -/
structure ItoaWrites (value : UInt32) (radix : Int32) (text : List UInt8) : Prop where
  numeral : IsNumeral digitValue 48 radix.toInt.toNat value.toNat text
  length_le : text.length ≤ 32
  writes : ∀ buf mem, ∃ mem', itoa value buf radix mem = some mem' ∧ HoldsString mem' buf text ∧
    ChangesOnly buf (text.length + 1) mem mem'

def argumentsIn : List UInt8 → (inside : Option Bool) → Nat
  | [], _ => 0
  | c :: format, none => argumentsIn format (if c = 37 then some false else none)
  | c :: format, some _ =>
    if c = 35 then argumentsIn format (some true)
    else conversionArguments c + argumentsIn format none

/-- A format with the conversion in it is printed to its end, whatever is behind its terminator and
whatever the buffers of the conversions held before. -/
def PrintsInFormat (conversion : List UInt8) (arg : UInt32) (text : List UInt8) : Prop :=
  ∀ (format : CString) (before after : List UInt8) (behind : Buffer) (args : Nat → UInt32)
    (strings : UInt32 → CString) (stack : Nat → Buffer) (fuel : Nat),
    format.bytes = before ++ (conversion ++ after) → insideAfter before none = none →
    insideAfter after none = none → args (argumentsIn before none) = arg → format.strlen < fuel →
    ∃ r, printf (formatMemory format behind) args strings stack fuel = some r ∧
      r.output = expand args strings before none 0 ++
        (text ++ expand args strings after none (argumentsIn before none + 1)) ∧
      r.returned = format.strlen

/-- Wherever a run of `printf` comes to the bytes of this conversion, in any format. -/
def PrintsInRun (conversion : List UInt8) (arg : UInt32) (text : List UInt8) : Prop :=
  ∀ format args strings stack fuel buf esp,
    (∀ i (h : i < conversion.length), format (buf + i) = conversion[i]) → args esp = arg →
    printfLoop format args strings stack (fuel + conversion.length) .whileTest buf esp =
      (printfLoop format args strings stack fuel .whileTest (buf + conversion.length)
        (esp + 1)).map fun r =>
          ⟨text ++ r.output, List.range' buf conversion.length ++ r.reads, r.returned⟩

structure PrintsAs (conversion : List UInt8) (arg : UInt32) (text : List UInt8) : Prop where
  inFormat : PrintsInFormat conversion arg text
  inRun : PrintsInRun conversion arg text

/-- The conversions `%u`, `%x`, `%d` and `%#x` of an argument. With the accesses to their buffers
checked, they have the same result. -/
structure PrintsNumber (arg : UInt32) : Prop where
  unsigned : ∃ text, ItoaWrites arg 10 text ∧ PrintsAs [37, 117] arg text
  hex : ∃ text, ItoaWrites arg 16 text ∧ PrintsAs [37, 120] arg text
  signed : ∃ text, IsNumeral digitValue 48 10 arg.toInt32.toInt.natAbs text ∧
    PrintsAs [37, 100] arg (if arg.toInt32.toInt < 0 then 45 :: text else text)
  eightDigits : ∃ text, text.length = 8 ∧ readNumeral digitValue 16 text = some arg.toNat ∧
    PrintsAs [37, 35, 120] arg text
  inBuffer : ∀ strings convBuf c alternate, ∃ printed,
    convertIn strings convBuf c alternate arg = some printed ∧
      convert strings convBuf c alternate arg = some printed

theorem digitValue_digitChar : ∀ d < 36, digitValue (digitChar d) = some d := by decide

theorem digitValue_of_lt {radix : Nat} (hmax : radix ≤ 36) :
    ∀ d < radix, digitValue (digitChar d) = some d := fun d hd =>
  digitValue_digitChar d (hd.trans_le hmax)

theorem numberString_isNumeral {radix : Nat} (hradix : 2 ≤ radix) (hmax : radix ≤ 36) (n : Nat) :
    IsNumeral digitValue 48 radix n (numberString radix n) :=
  numeral_isNumeral (digitValue_of_lt hmax) hradix n

theorem itoa_writes {radix : Int32} (hradix : 2 ≤ radix.toInt) (hmax : radix.toInt ≤ 36)
    (value : UInt32) : ItoaWrites value radix (numberString radix.toInt.toNat value.toNat) := by
  have hpos : ¬radix < 0 := fun hneg => by
    have hint : radix.toInt < 0 := Int32.lt_iff_toInt_lt.mp hneg
    omega
  have hnat : radix.toUInt32.toNat = radix.toInt.toNat := by
    rw [toNat_eq_natAbs hpos]
    omega
  have hlow : 2 ≤ radix.toUInt32.toNat := by omega
  have hhigh : radix.toUInt32.toNat ≤ 36 := by omega
  rw [← hnat]
  refine ⟨?_, Nat.le_of_lt_succ (numberString_length_lt hlow value), ?_⟩
  · rw [← hnat]
    exact numberString_isNumeral hlow hhigh value.toNat
  · exact itoa_eq hlow hhigh value

theorem zeroPadded_reads (arg : UInt32) :
    readNumeral digitValue 16 (zeroPadded (numberString 16 arg.toNat)) = some arg.toNat := by
  have hread : readDigits digitValue 16 0 (numberString 16 arg.toNat) = some arg.toNat :=
    readDigits_numeral (digitValue_of_lt (by decide)) (by decide) arg.toNat
  have hne : zeroPadded (numberString 16 arg.toNat) ≠ [] :=
    List.append_ne_nil_of_right_ne_nil _ numeral_ne_nil
  rw [readNumeral_of_ne_nil hne, ← hread]
  exact readDigits_zeros (digitValue_of_lt (by decide)) (by decide) _

/-! ### The conversions in a format -/

section run
variable {format : Buffer} {args : Nat → UInt32} {strings : UInt32 → CString}
  {stack : Nat → Buffer} {fuel buf esp : Nat}

theorem printfLoop_percent (h : format buf = 37) :
    printfLoop format args strings stack (fuel + 1) .whileTest buf esp =
      (printfLoop format args strings stack fuel (.formatCharSwitch false) (buf + 1) esp).map
        (·.after buf []) := by
  have hne : format buf ≠ 0 := by
    rw [h]
    decide
  rw [printfLoop, if_neg hne, if_pos h]

theorem printfLoop_flag {alternate : Bool} (h : format buf = 35) :
    printfLoop format args strings stack (fuel + 1) (.formatCharSwitch alternate) buf esp =
      (printfLoop format args strings stack fuel (.formatCharSwitch true) (buf + 1) esp).map
        (·.after buf []) := by
  rw [printfLoop, if_pos h]

theorem printfLoop_specifier {alternate : Bool} {c : UInt8} {text : List UInt8}
    (hc : format buf = c) (hflag : c ≠ 35) (hone : conversionArguments c = 1)
    (htext : conversionText strings alternate c (args esp) = text) :
    printfLoop format args strings stack (fuel + 1) (.formatCharSwitch alternate) buf esp =
      (printfLoop format args strings stack fuel .whileTest (buf + 1) (esp + 1)).map
        (·.after buf text) := by
  rw [printfLoop, hc, if_neg hflag, convert_eq, htext, hone]
  rfl

end run

theorem insideAfter_append (front rest : List UInt8) (inside : Option Bool) :
    insideAfter (front ++ rest) inside = insideAfter rest (insideAfter front inside) := by
  induction front generalizing inside with
  | nil => rfl
  | cons c front ih =>
    cases inside with
    | none => exact ih _
    | some alternate => exact ih _

theorem expand_append (args : Nat → UInt32) (strings : UInt32 → CString) (front rest : List UInt8)
    (inside : Option Bool) (argument : Nat) :
    expand args strings (front ++ rest) inside argument =
      expand args strings front inside argument ++ expand args strings rest
        (insideAfter front inside) (argument + argumentsIn front inside) := by
  induction front generalizing inside argument with
  | nil => rfl
  | cons c front ih =>
    cases inside with
    | none =>
      rw [List.cons_append, expand, expand, insideAfter, argumentsIn]
      by_cases hpercent : c = 37
      · simp only [if_pos hpercent, ih]
      · simp only [if_neg hpercent, ih, List.cons_append]
    | some alternate =>
      rw [List.cons_append, expand, expand, insideAfter, argumentsIn]
      by_cases hflag : c = 35
      · simp only [if_pos hflag, ih]
      · simp only [if_neg hflag, ih, List.append_assoc, Nat.add_assoc]

theorem printsInFormat {conversion : List UInt8} {arg : UInt32} {text : List UInt8}
    (hwhole : insideAfter conversion none = none) (hone : argumentsIn conversion none = 1)
    (htext : ∀ args strings argument, args argument = arg →
      expand args strings conversion none argument = text) :
    PrintsInFormat conversion arg text := by
  intro format before after behind args strings stack fuel hformat hbefore hafter harg hfuel
  have hclosed : insideAfter format.bytes PrintfPoint.whileTest.inside = none := by
    rw [PrintfPoint.inside, hformat, insideAfter_append, hbefore, insideAfter_append, hwhole, hafter]
  obtain ⟨r, hrun, hexpands⟩ : ∃ r, printfLoop (formatMemory format behind) args strings stack fuel
      .whileTest 0 0 = some r ∧ _ :=
    printfLoop_closed (formatMemory_holds format behind) hclosed hfuel
  refine ⟨r, hrun, ?_, ?_⟩
  · rw [hexpands.output, PrintfPoint.inside, hformat, expand_append, hbefore, Nat.zero_add,
      expand_append, hwhole, hone, htext args strings _ harg]
  · rw [hexpands.returned, Nat.zero_add]
    rfl

section conversions
variable {c : UInt8} {arg : UInt32} {text : List UInt8}

theorem printsAs_specifier (hflag : c ≠ 35) (hone : conversionArguments c = 1)
    (htext : ∀ strings, conversionText strings false c arg = text) : PrintsAs [37, c] arg text := by
  constructor
  · apply printsInFormat
    · simp [insideAfter, hflag]
    · simp [argumentsIn, hflag, hone]
    · intro args strings argument harg
      simp [expand, hflag, harg, htext]
  · intro format args strings stack fuel buf esp hformat harg
    have hfirst : format buf = 37 := hformat 0 (Nat.zero_lt_succ 1)
    have hc : format (buf + 1) = c := hformat 1 (Nat.lt_succ_self 1)
    rw [← harg] at htext
    rw [List.length_cons, List.length_singleton, ← Nat.add_assoc, printfLoop_percent hfirst,
      printfLoop_specifier hc hflag hone (htext strings), Option.map_map]
    rfl

theorem printsAs_alternate (hflag : c ≠ 35) (hone : conversionArguments c = 1)
    (htext : ∀ strings, conversionText strings true c arg = text) :
    PrintsAs [37, 35, c] arg text := by
  constructor
  · apply printsInFormat
    · simp [insideAfter, hflag]
    · simp [argumentsIn, hflag, hone]
    · intro args strings argument harg
      simp [expand, hflag, harg, htext]
  · intro format args strings stack fuel buf esp hformat harg
    have hpercent : format buf = 37 := hformat 0 (Nat.zero_lt_succ 2)
    have hsharp : format (buf + 1) = 35 := hformat 1 (Nat.one_lt_succ_succ 1)
    have hc : format (buf + 1 + 1) = c := hformat 2 (Nat.lt_succ_self 2)
    rw [← harg] at htext
    rw [List.length_cons, List.length_cons, List.length_singleton, ← Nat.add_assoc,
      ← Nat.add_assoc, printfLoop_percent hpercent, printfLoop_flag hsharp,
      printfLoop_specifier hc hflag hone (htext strings), Option.map_map, Option.map_map]
    rfl

end conversions

theorem convertIn_printed (strings : UInt32 → CString) (convBuf : Buffer) (c : UInt8)
    (alternate : Bool) (arg : UInt32) : ∃ printed,
      convertIn strings convBuf c alternate arg = some printed ∧
        convert strings convBuf c alternate arg = some printed := by
  rw [convertIn_eq, convert_eq]
  exact ⟨_, rfl, rfl⟩

theorem signed_text (strings : UInt32 → CString) (arg : UInt32) :
    conversionText strings false 100 arg = if arg.toInt32.toInt < 0 then
      45 :: numberString 10 arg.toInt32.toInt.natAbs
    else numberString 10 arg.toInt32.toInt.natAbs := by
  change signedString arg.toInt32 = _
  rw [signedString]
  exact if_congr Int32.lt_iff_toInt_lt rfl rfl

theorem prints_number (arg : UInt32) : PrintsNumber arg where
  unsigned := ⟨_, itoa_writes (by decide) (by decide) arg,
    printsAs_specifier (by decide) rfl fun _ => rfl⟩
  hex := ⟨_, itoa_writes (by decide) (by decide) arg,
    printsAs_specifier (by decide) rfl fun _ => rfl⟩
  signed := ⟨_, numberString_isNumeral (by decide) (by decide) _,
    printsAs_specifier (by decide) rfl fun strings => signed_text strings arg⟩
  eightDigits := ⟨_, zeroPadded_length (hex_length_le arg), zeroPadded_reads arg,
    printsAs_alternate (by decide) rfl fun _ => rfl⟩
  inBuffer strings convBuf c alternate := convertIn_printed strings convBuf c alternate arg

/-- Every 32-bit value is written and printed as a numeral that is read back as it, in every radix
from 2 to 36, and within the buffers. -/
theorem numbers_read_back (value : UInt32) {radix : Int32} (hradix : 2 ≤ radix.toInt)
    (hmax : radix.toInt ≤ 36) : (∃ text, ItoaWrites value radix text) ∧ PrintsNumber value :=
  ⟨⟨_, itoa_writes hradix hmax value⟩, prints_number value⟩

/-- The number with the most digits, and the lowest one for `%d`. -/
theorem highest_bit_reads_back :
    (∃ text, ItoaWrites 0x80000000 2 text) ∧ PrintsNumber 0x80000000 :=
  numbers_read_back 0x80000000 (by decide) (by decide)

end MyLinuxOS
