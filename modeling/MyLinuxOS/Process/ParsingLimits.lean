import MyLinuxOS.Process.Parsing

/-! Which commands the parsing step of `execute` handles inside its buffers: nothing in it looks at
a length but the 8-bit counters of its loops. -/

namespace MyLinuxOS
open Foundation

section limits
variable (command : CString)

/-- The command fits the counters, its name with the terminator `exe_name`, and what is stored of it
`args`. -/
structure Fits : Prop where
  counted : command.strlen ≤ 255
  name : (firstWord command).length < 32
  stored : (storedText command).length ≤ argLength

def OverLong : Prop := 32 ≤ (firstWord command).length ∨ argLength < (argText command).length

/-- The parsing step ends, stores inside `exe_name` and `args` only, and leaves a terminated name;
a command that is too long for them is turned down. -/
structure ParsesSafely : Prop where
  ends : ∀ args, ∃ parsed, parseCommand command args = .ok parsed ∧
    (∀ i, argLength ≤ i → parsed.args i = args i) ∧ ∃ n, parsed.exeName n = 0
  rejected : OverLong command → ∀ img junk frame (k : Kernel) slot, k.freeSlot = some slot →
    ∃ left, syscallExecute img junk frame command k = .ok left ∧ left.exit = .ret (-1)

variable {command : CString}

theorem counted_of_parse {args : Nat → UInt8} {parsed : Parsed}
    (h : parseCommand command args = .ok parsed) : command.strlen ≤ 255 := by
  by_contra hlen
  exact parseCommand_long (by omega) args parsed h

theorem name_le_of_parse {args : Nat → UInt8} {parsed : Parsed}
    (h : parseCommand command args = .ok parsed) : (firstWord command).length ≤ 32 := by
  by_contra hword
  rw [parseCommand_overflow (counted_of_parse h) (by omega)] at h
  exact absurd h (by simp)

theorem parsed_eq {args : Nat → UInt8} {parsed : Parsed}
    (h : parseCommand command args = .ok parsed) :
    (∀ n : Fin 32, parsed.exeName n = (firstWord command).getD n 0) ∧
      ∀ i, parsed.args i = if i < (storedText command).length then (storedText command).getD i 0
        else if i < argLength then 0 else args i := by
  obtain ⟨parsed', hparse, heq⟩ := parseCommand_eq (counted_of_parse h) (name_le_of_parse h) args
  obtain rfl : parsed' = parsed := Except.ok.inj (hparse.symm.trans h)
  exact heq

theorem terminated_iff {args : Nat → UInt8} {parsed : Parsed}
    (h : parseCommand command args = .ok parsed) :
    (∃ n, parsed.exeName n = 0) ↔ (firstWord command).length < 32 := by
  have hname := (parsed_eq h).1
  constructor
  · rintro ⟨n, hn⟩
    by_contra hword
    have hin : (n : Nat) < (firstWord command).length := by omega
    rw [hname n, List.getD_eq_getElem _ _ hin] at hn
    exact (firstWord_plain command (List.getElem_mem hin)).2.1 hn
  · intro hword
    refine ⟨⟨_, hword⟩, ?_⟩
    rw [hname, List.getD_eq_default _ _ (Nat.le_refl _)]

theorem stores_inside_iff {args : Nat → UInt8} {parsed : Parsed}
    (h : parseCommand command args = .ok parsed) (hzero : args argLength = 0) :
    (∀ i, argLength ≤ i → parsed.args i = args i) ↔ (storedText command).length ≤ argLength := by
  have hargs := (parsed_eq h).2
  constructor
  · intro hkept
    by_contra hlen
    have hin : argLength < (storedText command).length := by omega
    have hat := hargs argLength
    rw [hkept _ (Nat.le_refl _), hzero, if_pos hin, List.getD_eq_getElem _ _ hin] at hat
    exact storedText_noNul _ (List.getElem_mem hin) hat.symm
  · intro hlen i hi
    rw [hargs i, if_neg (by omega), if_neg (by omega)]

theorem Fits.not_overLong (h : Fits command) : ¬OverLong command := by
  rintro (hword | hargs)
  · exact absurd h.name (by omega)
  · have hstored := h.stored
    have hle : (argText command).length ≤ (storedText command).length := by
      rw [storedText]
      split
      · exact argText_length_le
      · exact Nat.le_refl _
    omega

/-- The parsing step is safe for the commands that fit, and for no others: nothing turns a longer
one down before it is stored. -/
theorem parses_safely_iff : ParsesSafely command ↔ Fits command := by
  constructor
  · rintro ⟨hends, -⟩
    obtain ⟨parsed, hparse, hinside, hterm⟩ := hends fun _ => 0
    exact ⟨counted_of_parse hparse, (terminated_iff hparse).mp hterm,
      (stores_inside_iff hparse rfl).mp hinside⟩
  · intro hfits
    refine ⟨fun args => ?_, fun hlong => absurd hlong hfits.not_overLong⟩
    obtain ⟨parsed, hparse, -, hargs⟩ := parseCommand_eq hfits.counted hfits.name.le args
    have hstored := hfits.stored
    refine ⟨parsed, hparse, fun i hi => ?_, (terminated_iff hparse).mpr hfits.name⟩
    rw [hargs i, if_neg (by omega), if_neg (by omega)]

/-- 33 bytes of `a`: the last one is stored behind `exe_name`, before anything can answer -1. -/
theorem long_name_overruns_buffer :
    OverLong (.ofBuffer (List.replicate 33 97)) ∧
      (∀ args, parseCommand (.ofBuffer (List.replicate 33 97)) args = .error .nameOverflow) ∧
      ¬ParsesSafely (.ofBuffer (List.replicate 33 97)) := by
  have hlen : (CString.ofBuffer (List.replicate 33 97)).strlen = 33 := by decide
  have hword : (firstWord (.ofBuffer (List.replicate 33 97))).length = 33 := by decide
  have hover : ∀ args, parseCommand (.ofBuffer (List.replicate 33 97)) args =
      .error .nameOverflow := parseCommand_overflow (by omega) (by omega)
  refine ⟨.inl (by omega), hover, fun hsafe => ?_⟩
  obtain ⟨parsed, hparse, -⟩ := hsafe.ends fun _ => 0
  rw [hover] at hparse
  exact absurd hparse (by simp)

end limits
end MyLinuxOS
