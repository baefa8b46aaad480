import MyLinuxOS.Kernel.Rtc
import MyLinuxOS.Foundation.Runs
import Mathlib.Algebra.Group.Nat.Defs
import Mathlib.Logic.Function.Iterate

/-! The driver of the real-time clock over whole sequences of calls: which frequency register A
selects after each of them. -/

namespace MyLinuxOS
open Foundation

namespace Rtc

def selected (rtc : Rtc) : UInt8 := rtc.statusA &&& 0x0F

def upper (rtc : Rtc) : UInt8 := rtc.statusA &&& 0xF0

def Encodes (rate : UInt8) (frequency : Nat) : Prop :=
  rate ≠ 0 ∧ 32768 >>> (rate.toNat - 1) = frequency

def Accepted (buf word : UInt32) (nbytes : Int32) : Prop :=
  nbytes = 4 ∧ buf ≠ 0 ∧ ∃ k, 1 ≤ k ∧ k ≤ 10 ∧ word.toNat = 2 ^ k

theorem rate_encodes {frequency : Nat} {r : UInt8} (h : rate frequency = some r) :
    r &&& 0x0F = r ∧ r &&& 0xF0 = 0 ∧ Encodes r frequency := by
  unfold rate at h
  -- one entry of the table at a time
  iterate 10
    obtain ⟨hfrequency, hr⟩ | ⟨-, h⟩ := ite_eq_iff.mp h
    · cases hr
      exact ⟨by decide, by decide, by decide, (Int.ofNat.inj hfrequency).symm⟩
  cases h

theorem rate_two_pow {k : Nat} (hk : 1 ≤ k) (hk' : k ≤ 10) :
    ∃ r, rate ((2 ^ k : Nat) : Int) = some r := by
  obtain rfl | rfl | rfl | rfl | rfl | rfl | rfl | rfl | rfl | rfl :
      k = 1 ∨ k = 2 ∨ k = 3 ∨ k = 4 ∨ k = 5 ∨ k = 6 ∨ k = 7 ∨ k = 8 ∨ k = 9 ∨ k = 10 := by omega
  all_goals exact ⟨_, rfl⟩

theorem and_or_nibble (t r m : UInt8) :
    ((t &&& 0xF0) ||| r) &&& m = (t &&& (0xF0 &&& m)) ||| (r &&& m) := by
  rw [← UInt8.toBitVec_inj]
  simp only [UInt8.toBitVec_and, UInt8.toBitVec_or, BitVec.and_or_distrib_right,
    BitVec.and_assoc]

/-- What setting a frequency does: its rate in the low nibble, the stray byte's high nibble above
it. -/
theorem setFreqRtc_spec (t : UInt8) {frequency : Nat} {r : UInt8} (rtc : Rtc)
    (h : rate frequency = some r) :
    (setFreqRtc t frequency rtc).1 = 0 ∧
      Encodes (setFreqRtc t frequency rtc).2.selected frequency ∧
      (setFreqRtc t frequency rtc).2.selected = r ∧
      (setFreqRtc t frequency rtc).2.upper = t &&& 0xF0 ∧
      (setFreqRtc t frequency rtc).2.interruptFlag = rtc.interruptFlag := by
  obtain ⟨hlow, hhigh, henc⟩ := rate_encodes h
  have hcut : (0xF0 : UInt8) &&& 0x0F = 0 := by decide
  have hkeep : (0xF0 : UInt8) &&& 0xF0 = 0xF0 := by decide
  have hsel : (setFreqRtc t frequency rtc).2.selected = r := by
    simp only [setFreqRtc, h, selected]
    rw [and_or_nibble, hcut, hlow, UInt8.and_zero, UInt8.zero_or]
  have hup : (setFreqRtc t frequency rtc).2.upper = t &&& 0xF0 := by
    simp only [setFreqRtc, h, upper]
    rw [and_or_nibble, hkeep, hhigh, UInt8.or_zero]
  refine ⟨by simp only [setFreqRtc, h], hsel ▸ henc, hsel, hup, by simp only [setFreqRtc, h]⟩

theorem toInt_toInt32 (word : UInt32) :
    word.toInt32.toInt = if 2 * word.toNat < 4294967296 then (word.toNat : Int)
      else word.toNat - 4294967296 :=
  BitVec.toInt_eq_toNat_cond word.toBitVec

/-- The range check and the bit trick of `write_rtc` accept the ten powers of two. -/
theorem passes_iff (word : UInt32) :
    ¬(word.toInt32 > 1024 ∨ word.toInt32 < 2 ∨ (word &&& (word - 1)) ≠ 0) ↔
      ∃ k, 1 ≤ k ∧ k ≤ 10 ∧ word.toNat = 2 ^ k := by
  have hint := toInt_toInt32 word
  have hlt := word.toNat_lt
  have hrange : ¬(word.toInt32 > 1024 ∨ word.toInt32 < 2) ↔ 2 ≤ word.toNat ∧ word.toNat ≤ 1024 := by
    simp only [gt_iff_lt, Int32.lt_iff_toInt_lt, hint]
    have h₁ : (1024 : Int32).toInt = 1024 := rfl
    have h₂ : (2 : Int32).toInt = 2 := rfl
    rw [h₁, h₂]
    split_ifs <;> omega
  -- the subtraction does not wrap, so the trick is the one on natural numbers
  have htrick (h : 2 ≤ word.toNat) :
      word &&& (word - 1) = 0 ↔ word.toNat &&& (word.toNat - 1) = 0 := by
    have hle : (1 : UInt32) ≤ word := UInt32.le_iff_toNat_le.mpr (by simp; omega)
    rw [← UInt32.toNat_inj, UInt32.toNat_and, UInt32.toNat_sub_of_le _ _ hle]
    simp
  rw [← or_assoc, not_or, hrange, not_not]
  constructor
  · rintro ⟨⟨h₂, h₁₀⟩, hand⟩
    obtain ⟨k, hk⟩ := (Nat.and_sub_one_eq_zero_iff_isPowerOfTwo (by omega)).mp
      ((htrick h₂).mp hand)
    refine ⟨k, ?_, ?_, hk⟩
    · by_contra hzero
      obtain rfl : k = 0 := by omega
      omega
    · exact (Nat.pow_le_pow_iff_right (a := 2) (by decide)).mp (by omega)
  · rintro ⟨k, hk, hk', hword⟩
    have h₂ : 2 ^ 1 ≤ 2 ^ k := Nat.pow_le_pow_right (by decide) hk
    have h₁₀ : 2 ^ k ≤ 2 ^ 10 := Nat.pow_le_pow_right (by decide) hk'
    refine ⟨by omega, (htrick (by omega)).mpr ?_⟩
    exact (Nat.and_sub_one_eq_zero_iff_isPowerOfTwo (by omega)).mpr ⟨k, hword⟩

theorem writeRtc_accepted (t : UInt8) {buf word : UInt32} {nbytes : Int32} (rtc : Rtc)
    (h : Accepted buf word nbytes) :
    writeRtc t buf word nbytes rtc = setFreqRtc t word.toNat rtc := by
  obtain ⟨hn, hbuf, hpow⟩ := h
  have hpass := (passes_iff word).mpr hpow
  have hint : word.toInt32.toInt = word.toNat := by
    obtain ⟨k, -, hk', hword⟩ := hpow
    have h₁₀ : 2 ^ k ≤ 2 ^ 10 := Nat.pow_le_pow_right (by decide) hk'
    rw [toInt_toInt32, if_pos (by omega)]
  rw [writeRtc, if_neg hpass, if_pos ⟨hn, hbuf⟩, hint]

theorem writeRtc_refused (t : UInt8) {buf word : UInt32} {nbytes : Int32} (rtc : Rtc)
    (h : ¬Accepted buf word nbytes) : writeRtc t buf word nbytes rtc = (-1, rtc) := by
  rw [writeRtc]
  by_cases hpass : word.toInt32 > 1024 ∨ word.toInt32 < 2 ∨ (word &&& (word - 1)) ≠ 0
  · exact if_pos hpass
  · rw [if_neg hpass, if_neg]
    exact fun ⟨hn, hbuf⟩ => h ⟨hn, hbuf, (passes_iff word).mp hpass⟩

theorem readRtc_spec {t : UInt8} {rtc rtc' : Rtc} {ret : Int}
    (h : rtc.readRtc t = some (ret, rtc')) :
    ret = 0 ∧ rtc'.selected = 0x07 ∧ rtc'.upper = t &&& 0xF0 := by
  obtain ⟨-, -, hsel, hup, -⟩ := setFreqRtc_spec t rtc (show rate (512 : Nat) = some 0x07 from rfl)
  simp only [readRtc] at h
  split_ifs at h
  cases h
  exact ⟨rfl, hsel, hup⟩

end Rtc

/-- A call of the driver, with what the byte `regA_temp` of its frame holds, or an interrupt
between two calls. A read also says how many interrupts come while it waits. -/
inductive ClockCall
  | open (regATemp : UInt8)
  | write (regATemp : UInt8) (buf word : UInt32) (nbytes : Int32)
  | read (regATemp : UInt8) (ticks : Nat)
  | close
  | interrupt

namespace ClockCall

/-- The handler touches only the flag, which setting the frequency leaves alone, so the interrupts
of a waiting read are taken before it. -/
def perform (rtc : Rtc) : ClockCall → Option (Int × Rtc)
  | .open t => some (rtc.openRtc t)
  | .write t buf word nbytes => some (rtc.writeRtc t buf word nbytes)
  | .read t ticks => (Rtc.rtcHandler^[ticks] rtc).readRtc t
  | .close => some (Rtc.closeRtc, rtc)
  | .interrupt => some (0, rtc.rtcHandler)

def requests (ret : Int) (frequency : Option Nat) : ClockCall → Option Nat
  | .open _ => some 2
  | .write _ _ word _ => if ret = 0 then some word.toNat else frequency
  | _ => frequency

end ClockCall

structure Clock where
  rtc : Rtc
  requested : Option Nat

def clockCalls : Machine Clock ClockCall Int := fun c call =>
  (call.perform c.rtc).map fun (ret, rtc) => (ret, ⟨rtc, call.requests ret c.requested⟩)

/-- Register A selects the frequency last asked for, and nothing but an open or an accepted write
changes it. -/
structure RunsAsRequested (c : Clock) (call : ClockCall) (ret : Int) (c' : Clock) : Prop where
  requested : ∀ f ∈ c'.requested, Rtc.Encodes c'.rtc.selected f
  write : ∀ t buf word nbytes, call = .write t buf word nbytes →
    (ret = 0 ↔ Rtc.Accepted buf word nbytes) ∧ (ret ≠ 0 → ret = -1 ∧ c'.rtc = c.rtc)
  read : ∀ t ticks, call = .read t ticks → c'.rtc.selected = c.rtc.selected
  upper : c'.rtc.upper = c.rtc.upper

/-- The byte `regA_temp` happens to hold the high nibble of register A at every call that sets the
frequency, and a read finds 512 Hz selected. -/
def KeepsRegister (c : Clock) (call : ClockCall) (_ : Int) (_ : Clock) : Prop :=
  match call with
  | .open t => t &&& 0xF0 = c.rtc.upper
  | .write t buf word nbytes => Rtc.Accepted buf word nbytes → t &&& 0xF0 = c.rtc.upper
  | .read t _ => t &&& 0xF0 = c.rtc.upper ∧ c.rtc.selected = 0x07
  | .close => True
  | .interrupt => True

theorem runsAsRequested_of_set {c c' : Clock} {call : ClockCall} {ret : Int} {f : Nat} {t : UInt8}
    (hret : ret = 0) (hreq : c'.requested = some f) (hsel : Rtc.Encodes c'.rtc.selected f)
    (hup : c'.rtc.upper = t &&& 0xF0)
    (hwrite : ∀ t buf word nbytes, call = .write t buf word nbytes → Rtc.Accepted buf word nbytes)
    (hread : ∀ t ticks, call ≠ .read t ticks) :
    RunsAsRequested c call ret c' ↔ t &&& 0xF0 = c.rtc.upper := by
  constructor
  · intro h
    rw [← hup, h.upper]
  · intro h
    refine ⟨?_, ?_, fun t ticks hcall => absurd hcall (hread t ticks), hup.trans h⟩
    · intro f' hf'
      rw [hreq] at hf'
      cases hf'
      exact hsel
    · intro t buf word nbytes hcall
      exact ⟨iff_of_true hret (hwrite _ _ _ _ hcall), fun hne => absurd hret hne⟩

theorem runsAsRequested_of_same {c c' : Clock} {call : ClockCall} {ret : Int}
    (hinv : ∀ f ∈ c.requested, Rtc.Encodes c.rtc.selected f) (hreq : c'.requested = c.requested)
    (hreg : c'.rtc.statusA = c.rtc.statusA)
    (hwrite : ∀ t buf word nbytes, call = .write t buf word nbytes →
      ¬Rtc.Accepted buf word nbytes ∧ ret = -1 ∧ c'.rtc = c.rtc) :
    RunsAsRequested c call ret c' := by
  have hsel : c'.rtc.selected = c.rtc.selected := by rw [Rtc.selected, hreg, Rtc.selected]
  refine ⟨?_, ?_, fun _ _ _ => hsel, by rw [Rtc.upper, hreg, Rtc.upper]⟩
  · rw [hreq, hsel]
    exact hinv
  · intro t buf word nbytes hcall
    obtain ⟨hnot, hret, hsame⟩ := hwrite _ _ _ _ hcall
    have hne : ret ≠ 0 := by omega
    exact ⟨iff_of_false hne hnot, fun _ => ⟨hret, hsame⟩⟩

theorem clockCalls_step {c c' : Clock} {call : ClockCall} {ret : Int}
    (hinv : ∀ f ∈ c.requested, Rtc.Encodes c.rtc.selected f)
    (h : clockCalls c call = some (ret, c')) :
    (RunsAsRequested c call ret c' ↔ KeepsRegister c call ret c') ∧
      (KeepsRegister c call ret c' → ∀ f ∈ c'.requested, Rtc.Encodes c'.rtc.selected f) := by
  -- running as requested says already that the request is selected
  suffices hiff : RunsAsRequested c call ret c' ↔ KeepsRegister c call ret c' from
    ⟨hiff, fun hkeeps => (hiff.mpr hkeeps).requested⟩
  simp only [clockCalls, Option.map_eq_some_iff, Prod.mk.injEq] at h
  obtain ⟨⟨ret', rtc⟩, hperf, rfl, rfl⟩ := h
  cases call with
  | «open» t =>
    cases hperf
    obtain ⟨-, henc, -, hup, -⟩ :=
      Rtc.setFreqRtc_spec t c.rtc (show Rtc.rate (2 : Nat) = some 0x0F from rfl)
    exact runsAsRequested_of_set rfl rfl henc hup nofun nofun
  | write t buf word nbytes =>
    by_cases hacc : Rtc.Accepted buf word nbytes
    · obtain ⟨k, hk, hk', hword⟩ := hacc.2.2
      obtain ⟨r, hr⟩ := Rtc.rate_two_pow hk hk'
      rw [← hword] at hr
      obtain ⟨hret, henc, -, hup, -⟩ := Rtc.setFreqRtc_spec t c.rtc hr
      rw [ClockCall.perform, Rtc.writeRtc_accepted t c.rtc hacc, Option.some.injEq] at hperf
      rw [hperf] at hret henc hup
      have hreq : ClockCall.requests ret' c.requested (.write t buf word nbytes) =
          some word.toNat := if_pos hret
      refine (runsAsRequested_of_set hret hreq henc hup ?_ ?_).trans ?_
      · rintro _ _ _ _ ⟨⟩
        exact hacc
      · exact fun _ _ => nofun
      · exact ⟨fun hkeeps _ => hkeeps, fun hkeeps => hkeeps hacc⟩
    · rw [ClockCall.perform, Rtc.writeRtc_refused t c.rtc hacc, Option.some.injEq] at hperf
      cases hperf
      refine iff_of_true (runsAsRequested_of_same hinv rfl rfl ?_) fun h => absurd h hacc
      rintro _ _ _ _ ⟨⟩
      exact ⟨hacc, rfl, rfl⟩
  | read t ticks =>
    obtain ⟨-, hsel, hup⟩ := Rtc.readRtc_spec hperf
    -- a read selects 512 Hz, whatever was requested
    constructor
    · intro hruns
      exact ⟨by rw [← hup, hruns.upper], by rw [← hruns.read t ticks rfl, hsel]⟩
    · rintro ⟨hkeep, hfast⟩
      have hsame : rtc.selected = c.rtc.selected := hsel.trans hfast.symm
      refine ⟨?_, nofun, fun _ _ _ => hsame, hup.trans hkeep⟩
      rw [hsame]
      exact hinv
  | close =>
    cases hperf
    exact iff_of_true (runsAsRequested_of_same hinv rfl rfl nofun) trivial
  | interrupt =>
    cases hperf
    exact iff_of_true (runsAsRequested_of_same hinv rfl rfl nofun) trivial

/-- Along every sequence of calls, from every value of register A, the clock runs at the frequency
last requested exactly as long as the calls spare the register. -/
theorem runs_as_requested_iff (rtc : Rtc) (calls : List ClockCall) :
    clockCalls.Always RunsAsRequested ⟨rtc, none⟩ calls ↔
      clockCalls.Always KeepsRegister ⟨rtc, none⟩ calls :=
  Machine.always_iff (fun c => ∀ f ∈ c.requested, Rtc.Encodes c.rtc.selected f)
    (fun _ _ _ _ hinv h => clockCalls_step hinv h) nofun

/-- A read after an open leaves the clock at 512 Hz, although 2 Hz was the last request. -/
theorem read_changes_the_frequency :
    ¬clockCalls.Always RunsAsRequested ⟨⟨0x26, 0⟩, none⟩
      [.open 0x20, .interrupt, .read 0x20 0] := by
  intro h
  obtain ⟨-, h⟩ := h _ _ rfl
  obtain ⟨-, h⟩ := h _ _ rfl
  obtain ⟨hruns, -⟩ := h _ _ rfl
  exact absurd (hruns.read 0x20 0 rfl) (by decide)

end MyLinuxOS
