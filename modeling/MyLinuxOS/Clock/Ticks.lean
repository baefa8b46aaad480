import MyLinuxOS.Kernel.Rtc
import MyLinuxOS.Foundation.Runs
import MyLinuxOS.Foundation.Spans
import Mathlib.Logic.Function.Basic

/-! `read_rtc` one elementary step at a time, with interrupts of the clock between any two. -/

namespace MyLinuxOS
open Foundation

inductive ReadPoint
  | setFreq
  | loop
  | clear

/-- Any number of readers over one clock. The counters record how many interrupts were handled
before the current read of a reader began, and around each read it has completed. -/
structure Readers (ρ : Type*) where
  rtc : Rtc
  point : ρ → Option ReadPoint
  ticks : Nat
  begun : ρ → Nat
  reads : ρ → List Span

inductive ReadStep (ρ : Type*)
  | call (reader : ρ)
  | advance (reader : ρ) (regATemp : UInt8)
  | tick

section
variable {ρ : Type*}

/-- A completed read contains an interrupt, and reads of one reader made one after another contain
at least as many as there are reads. -/
def FreshTicks (_ : Readers ρ) (_ : ReadStep ρ) (_ : Unit) (s' : Readers ρ) : Prop :=
  ∀ r, (∀ read ∈ s'.reads r, read.start < read.stop) ∧
    ∀ window, window <:+: s'.reads r → ∀ newest ∈ window.head?, ∀ oldest ∈ window.getLast?,
      oldest.start + window.length ≤ newest.stop

def BeginsClear (s : Readers ρ) (step : ReadStep ρ) (_ : Unit) (_ : Readers ρ) : Prop :=
  ∀ r, step = .call r → s.rtc.interruptFlag = 0

/-- A reader that waits sees the flag set only after an interrupt of its own. -/
structure AwaitsTick (s : Readers ρ) : Prop where
  begun : ∀ r, s.begun r ≤ s.ticks
  waiting : ∀ r p, s.point r = some p → s.rtc.interruptFlag ≠ 0 ∨ p = .clear →
    s.begun r < s.ticks
  reads : ∀ r, Successive (s.reads r)
  last : ∀ r, ∀ read ∈ (s.reads r).head?,
    read.stop ≤ s.ticks ∧ (s.point r ≠ none → read.stop ≤ s.begun r)

namespace AwaitsTick
variable {s : Readers ρ}

theorem fresh (h : AwaitsTick s) (s₀ : Readers ρ) (step : ReadStep ρ) :
    FreshTicks s₀ step () s := by
  intro r
  refine ⟨(h.reads r).1, fun window hw newest hnew oldest hold => ?_⟩
  exact ((h.reads r).of_window hw).length_le hnew hold

theorem of_flag (h : AwaitsTick s) {rtc : Rtc} (hflag : rtc.interruptFlag = s.rtc.interruptFlag) :
    AwaitsTick { s with rtc } :=
  ⟨h.begun, fun r p hp hset => h.waiting r p hp (by rwa [← hflag]), h.reads, h.last⟩

theorem ticked (h : AwaitsTick s) :
    AwaitsTick { s with rtc := s.rtc.rtcHandler, ticks := s.ticks + 1 } := by
  refine ⟨fun r => (h.begun r).trans (by simp), fun r p _ _ => Nat.lt_succ_of_le (h.begun r),
    h.reads, fun r read hread => ?_⟩
  obtain ⟨hstop, hbegun⟩ := h.last r read hread
  exact ⟨Nat.le_succ_of_le hstop, hbegun⟩

end AwaitsTick

variable [DecidableEq ρ]

def Readers.goto (s : Readers ρ) (r : ρ) (p : Option ReadPoint) : Readers ρ :=
  { s with point := Function.update s.point r p }

@[simp] theorem Readers.goto_rtc (s : Readers ρ) (r : ρ) (p : Option ReadPoint) :
    (s.goto r p).rtc = s.rtc := rfl

@[simp] theorem Readers.goto_ticks (s : Readers ρ) (r : ρ) (p : Option ReadPoint) :
    (s.goto r p).ticks = s.ticks := rfl

@[simp] theorem Readers.goto_begun (s : Readers ρ) (r : ρ) (p : Option ReadPoint) :
    (s.goto r p).begun = s.begun := rfl

@[simp] theorem Readers.goto_reads (s : Readers ρ) (r : ρ) (p : Option ReadPoint) :
    (s.goto r p).reads = s.reads := rfl

@[simp] theorem Readers.goto_point_self (s : Readers ρ) (r : ρ) (p : Option ReadPoint) :
    (s.goto r p).point r = p := Function.update_self ..

@[simp] theorem Readers.goto_point_of_ne {r r' : ρ} (h : r' ≠ r) (s : Readers ρ)
    (p : Option ReadPoint) : (s.goto r p).point r' = s.point r' := Function.update_of_ne h ..

/-- The flag is loaded once by each turn of the loop; the store behind the loop is a step of its
own. -/
def readSteps : Machine (Readers ρ) (ReadStep ρ) Unit := fun s step =>
  match step with
  | .call r =>
    match s.point r with
    | none =>
      some ((), { s.goto r (some .setFreq) with begun := Function.update s.begun r s.ticks })
    | some _ => none
  | .advance r t =>
    match s.point r with
    | none => none
    | some .setFreq => some ((), { s.goto r (some .loop) with rtc := (s.rtc.setFreqRtc t 512).2 })
    | some .loop =>
      some ((), s.goto r (some (if s.rtc.interruptFlag = 0 then .loop else .clear)))
    | some .clear =>
      some ((), { s.goto r none with
        rtc := { s.rtc with interruptFlag := 0 }
        reads := Function.update s.reads r (⟨s.begun r, s.ticks⟩ :: s.reads r) })
  | .tick => some ((), { s with rtc := s.rtc.rtcHandler, ticks := s.ticks + 1 })

namespace AwaitsTick
variable {s : Readers ρ}

theorem called (h : AwaitsTick s) {r : ρ} (hidle : s.point r = none)
    (hflag : s.rtc.interruptFlag = 0) :
    AwaitsTick { s.goto r (some .setFreq) with begun := Function.update s.begun r s.ticks } := by
  refine ⟨fun r' => ?_, fun r' p hp hset => ?_, h.reads, fun r' read hread => ?_⟩
  all_goals by_cases hr : r' = r
  · subst hr
    simp
  · simpa [hr] using h.begun r'
  · subst hr
    obtain rfl : ReadPoint.setFreq = p := by simpa using hp
    exact absurd hflag (hset.resolve_right nofun)
  · simpa [hr] using h.waiting r' p (by simpa [hr] using hp) hset
  · subst hr
    obtain ⟨hstop, -⟩ := h.last r' read hread
    simpa using hstop
  · simpa [hr] using h.last r' read hread

theorem moved (h : AwaitsTick s) {r : ρ} {p p' : ReadPoint} (hp : s.point r = some p)
    (hclear : p' = .clear → s.rtc.interruptFlag ≠ 0) : AwaitsTick (s.goto r (some p')) := by
  refine ⟨h.begun, fun r' q hq hset => ?_, h.reads, fun r' read hread => ?_⟩
  all_goals by_cases hr : r' = r
  · subst hr
    obtain rfl : p' = q := by simpa using hq
    exact h.waiting r' p hp (.inl (hset.elim id hclear))
  · rw [Readers.goto_point_of_ne hr] at hq
    exact h.waiting r' q hq hset
  · subst hr
    obtain ⟨hstop, hbegun⟩ := h.last r' read hread
    exact ⟨hstop, fun _ => hbegun (by simp [hp])⟩
  · simpa [hr] using h.last r' read hread

theorem returned (h : AwaitsTick s) {r : ρ} (hp : s.point r = some .clear) :
    AwaitsTick { s.goto r none with
      rtc := { s.rtc with interruptFlag := 0 }
      reads := Function.update s.reads r (⟨s.begun r, s.ticks⟩ :: s.reads r) } := by
  have hfresh := h.waiting r .clear hp (.inr rfl)
  refine ⟨h.begun, fun r' q hq hset => ?_, fun r' => ?_, fun r' read hread => ?_⟩
  all_goals by_cases hr : r' = r
  · subst hr
    simp at hq
  · rw [Readers.goto_point_of_ne hr] at hq
    exact h.waiting r' q hq (.inr (hset.resolve_left (by simp)))
  · subst hr
    have hlast : ∀ read ∈ (s.reads r').head?, read.stop ≤ s.begun r' :=
      fun read hread => (h.last r' read hread).2 (by simp [hp])
    simpa using (h.reads r').cons (s := ⟨s.begun r', s.ticks⟩) hfresh hlast
  · simpa [hr] using h.reads r'
  · subst hr
    obtain rfl : ⟨s.begun r', s.ticks⟩ = read := by simpa using hread
    simp
  · simpa [hr] using h.last r' read (by simpa [hr] using hread)

theorem step (h : AwaitsTick s) {step : ReadStep ρ} {o : Unit} {s' : Readers ρ}
    (hstep : readSteps s step = some (o, s')) (hclear : BeginsClear s step o s') :
    AwaitsTick s' := by
  cases step with
  | call r =>
    simp only [readSteps] at hstep
    split at hstep
    · rename_i hidle
      cases hstep
      exact h.called hidle (hclear r rfl)
    · cases hstep
  | advance r t =>
    simp only [readSteps] at hstep
    split at hstep
    · cases hstep
    · rename_i hp
      cases hstep
      have hloop : AwaitsTick (s.goto r (some .loop)) := h.moved hp nofun
      exact hloop.of_flag rfl
    · rename_i hp
      cases hstep
      refine h.moved hp fun hgo hflag => ?_
      rw [if_pos hflag] at hgo
      cases hgo
    · rename_i hp
      cases hstep
      exact h.returned hp
  | tick =>
    cases hstep
    exact h.ticked

end AwaitsTick

def Readers.start (rtc : Rtc) : Readers ρ := ⟨rtc, fun _ => none, 0, fun _ => 0, fun _ => []⟩

omit [DecidableEq ρ] in
theorem AwaitsTick.start (rtc : Rtc) : AwaitsTick (.start rtc : Readers ρ) :=
  ⟨fun _ => Nat.le_refl 0, nofun, fun _ => .nil, nofun⟩

/-- A read that begins with the flag set does what `readRtc` says without waiting, and the span it
leaves behind contains no interrupt. -/
theorem set_flag_ends_read {s : Readers ρ} {r : ρ} (hidle : s.point r = none)
    (hflag : s.rtc.interruptFlag ≠ 0) (t : UInt8) :
    ∃ os s', readSteps.run s [.call r, .advance r t, .advance r t, .advance r t] = some (os, s') ∧
      s.rtc.readRtc t = some (0, s'.rtc) ∧ s'.point r = none ∧
      s'.reads r = ⟨s.ticks, s.ticks⟩ :: s.reads r := by
  have hkept : (s.rtc.setFreqRtc t 512).2.interruptFlag ≠ 0 := hflag
  refine ⟨[(), (), (), ()], ?_⟩
  simp [Machine.run, readSteps, hidle, hkept, Rtc.readRtc]

/-- As long as no read begins with an interrupt pending, every read waits for one of its own, under
every interleaving of any number of readers with the interrupts. -/
theorem reads_await_ticks (rtc : Rtc) (steps : List (ReadStep ρ))
    (h : readSteps.Always BeginsClear (.start rtc) steps) :
    readSteps.Always FreshTicks (.start rtc) steps :=
  Machine.always_mono AwaitsTick
    (fun s i _ _ hinv hstep hclear => ⟨(hinv.step hstep hclear).fresh s i, hinv.step hstep hclear⟩)
    (.start rtc) h

theorem one_read_awaits_a_tick :
    readSteps.Always FreshTicks (.start ⟨0x26, 0⟩ : Readers Unit)
      [.call (), .advance () 0x20, .advance () 0x20, .tick, .advance () 0x20, .advance () 0x20] :=
  reads_await_ticks _ _ (by
    simp [Machine.Always, readSteps, BeginsClear, Readers.start, Readers.goto, Rtc.setFreqRtc,
      Rtc.rate, Rtc.rtcHandler])

/-- An interrupt that came before the read began ends the read at once. -/
theorem read_returns_on_a_stale_tick :
    ¬readSteps.Always FreshTicks (.start ⟨0x26, 0⟩ : Readers Unit)
      [.tick, .call (), .advance () 0x20, .advance () 0x20, .advance () 0x20] := by
  intro h
  obtain ⟨-, h⟩ := h _ _ rfl
  obtain ⟨-, h⟩ := h _ _ rfl
  obtain ⟨-, h⟩ := h _ _ rfl
  obtain ⟨-, h⟩ := h _ _ rfl
  obtain ⟨hfresh, -⟩ := h _ _ rfl
  exact absurd ((hfresh ()).1 ⟨1, 1⟩ (List.mem_singleton_self _)) (Nat.lt_irrefl 1)

end
end MyLinuxOS
