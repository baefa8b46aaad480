import MyLinuxOS.Terminal.ConsoleWrites
import MyLinuxOS.Terminal.Events

/-! The cursor and the text area. All output keeps both in bounds, and so do the switches; the one
exception is a Backspace in the first column, which the keyboard allows whenever its buffer is not
empty. -/

namespace MyLinuxOS
open Foundation

/-! ### What an event draws -/

inductive ConsoleOp
  | putc (c : UInt8)
  | backspace
  | clear

def ConsoleOp.run (term : Nat) : ConsoleOp → Console → Console
  | .putc c => Console.putc term c
  | .backspace => Console.backspace term
  | .clear => Console.clear term

def Effect.drawn (k : Kernel) : Effect → List ConsoleOp
  | .type text => text.map .putc
  | .erase => if k.dev.keyboard.bufferIndex ≥ 0 then [.backspace] else []
  | .clear => [.clear]
  | .swap newTermVal => if k.Switches newTermVal then (k.swapText newTermVal).map .putc else []
  | .read => []
  | .putc c => [.putc c]

/-- The screen an effect draws on: for a switch it is that of the new terminal. -/
def Effect.canvas (k : Kernel) : Effect → Console
  | .swap newTermVal =>
    if k.Switches newTermVal then (k.switchTerminal newTermVal.toNat).dev.console else k.dev.console
  | _ => k.dev.console

def draw (term : Nat) (ops : List ConsoleOp) (s : Console) : Console :=
  ops.foldl (fun s op => op.run term s) s

theorem draw_putc (term : Nat) (text : List UInt8) (s : Console) :
    draw term (text.map .putc) s = s.puts term text := List.foldl_map

theorem draw_single (term : Nat) (op : ConsoleOp) (s : Console) :
    draw term [op] s = op.run term s := rfl

theorem Effect.Spec.console {e : Effect} {k k' : Kernel} {stored : List Int}
    (h : e.Spec k stored k') :
    k'.dev.console = draw k'.currActiveTerminal (e.drawn k) (e.canvas k) := by
  cases e with
  | type text =>
    obtain ⟨rfl, -⟩ := h
    rw [putKeys_eq, drawn, draw_putc]
    rfl
  | erase =>
    obtain ⟨rfl, -⟩ := h
    unfold Kernel.erased drawn
    split <;> rfl
  | clear =>
    rw [h.1, Kernel.cleared, Kernel.setConsole_console, Kernel.setConsole_active, drawn,
      draw_single]
    rfl
  | swap newTermVal =>
    obtain ⟨-, ⟨hno, rfl⟩ | ⟨hyes, hshows⟩⟩ := h
    · rw [drawn, canvas, if_neg hno, if_neg hno]
      rfl
    · rw [drawn, canvas, if_pos hyes, if_pos hyes, draw_putc, hshows.console, hshows.active]
  | read => rw [h.2.1]; rfl
  | putc c =>
    rw [h.1, Kernel.putc, Kernel.setConsole_console, Kernel.setConsole_active, drawn, draw_single]
    rfl

def Console.Writes (f : Console → Console) (s : Console) (a : Int) : Prop :=
  ∃ vram, (f { s with vram := vram }).vram a ≠ vram a

def StaysOnScreen (term : Nat) : List ConsoleOp → Console → Prop
  | [], _ => True
  | op :: ops, s =>
    ((∀ a, Console.Writes (op.run term) s a → Console.InText a) ∧ (op.run term s).Within 0) ∧
      StaysOnScreen term ops (op.run term s)

theorem not_writes {f : Console → Console} {s : Console} {a : Int}
    (h : ∀ vram, (f { s with vram := vram }).vram a = vram a) : ¬ Console.Writes f s a :=
  fun ⟨vram, hne⟩ => hne (h vram)

theorem inText_of_writes_putc {term : Nat} {c : UInt8} {s : Console} {a : Int} (h : s.Within 0)
    (hw : Console.Writes (Console.putc term c) s a) : Console.InText a := by
  by_contra hout
  obtain ⟨hcell, hcolour⟩ := Console.inText_cell h.lo_le h.x_lt h.y_nonneg h.y_lt
  exact not_writes (fun vram => Console.putc_vram term hout
    (by rintro rfl; exact hout hcell) (by rintro rfl; exact hout hcolour)) hw

theorem inText_of_writes_backspace {term : Nat} {s : Console} {a : Int} (h : s.retreat.Within 0)
    (hw : Console.Writes (Console.backspace term) s a) : Console.InText a := by
  by_contra hout
  obtain ⟨hcell, hcolour⟩ := Console.inText_cell h.lo_le h.x_lt h.y_nonneg h.y_lt
  exact not_writes (fun vram => Console.backspace_vram term
    (by rintro rfl; exact hout hcell) (by rintro rfl; exact hout hcolour)) hw

theorem inText_of_writes_clear {term : Nat} {s : Console} {a : Int}
    (hw : Console.Writes (Console.clear term) s a) : Console.InText a := by
  by_contra hout
  exact not_writes (fun vram => Console.clear_vram term hout) hw

theorem staysOnScreen_putc {term : Nat} {s : Console} (h : s.Within 0) (text : List UInt8) :
    StaysOnScreen term (text.map .putc) s := by
  induction text generalizing s with
  | nil => trivial
  | cons c text ih =>
    have hnext := h.putc term (by decide) (by decide) c
    exact ⟨⟨fun a => inText_of_writes_putc h, hnext⟩, ih hnext⟩

theorem staysOnScreen_clear (term : Nat) (s : Console) : StaysOnScreen term [.clear] s :=
  ⟨⟨fun _ => inText_of_writes_clear, Console.within_clear term (Int.le_refl 0)⟩, trivial⟩

theorem staysOnScreen_backspace {term : Nat} {s : Console} (h : s.Within 0) :
    StaysOnScreen term [.backspace] s ↔ 1 ≤ s.screenX := by
  rw [← h.backspace_iff term]
  refine ⟨fun hs => hs.1.2, fun hb => ⟨⟨fun a => inText_of_writes_backspace ?_, hb⟩, trivial⟩⟩
  rwa [Console.backspace_eq, Console.within_updateCursor, Console.within_putCell] at hb

theorem StaysOnScreen.draw {term : Nat} {ops : List ConsoleOp} {s : Console}
    (h : StaysOnScreen term ops s) (hs : s.Within 0) : (draw term ops s).Within 0 := by
  induction ops generalizing s with
  | nil => exact hs
  | cons op ops ih => exact ih h.2 h.1.2

theorem ConsoleOp.within {s : Console} (term : Nat) (op : ConsoleOp) (h : s.Within (-79)) :
    (op.run term s).Within (-79) := by
  cases op with
  | putc c => exact h.putc term (Int.le_refl _) (by decide) c
  | backspace => exact h.backspace term
  | clear => exact Console.within_clear term (by decide)

/-- No output reaches behind the text area, wherever the cursor is. -/
theorem ConsoleOp.vram {s : Console} {a : Int} (term : Nat) (op : ConsoleOp) (h : s.Within (-79))
    (ha : video + 4000 ≤ a) : (op.run term s).vram a = s.vram a := by
  have hout : ¬ Console.InText a := fun hin => Int.not_lt.mpr ha hin.2
  cases op with
  | putc c =>
    have hcell := Console.cell_lt h.x_lt h.y_lt
    exact Console.putc_vram term hout (by omega) (by omega)
  | backspace =>
    have hback := h.backspace term
    rw [Console.backspace_eq, Console.within_updateCursor, Console.within_putCell] at hback
    have hcell := Console.cell_lt hback.x_lt hback.y_lt
    exact Console.backspace_vram term (by omega) (by omega)
  | clear => exact Console.clear_vram term hout

/-! ### Switches -/

def Terminal.CursorWithin (lo : Int) (t : Terminal) : Prop :=
  (lo ≤ t.cursorX ∧ t.cursorX < numCols) ∧ 0 ≤ t.cursorY ∧ t.cursorY < numRows

structure CursorsWithin (lo : Int) (k : Kernel) : Prop where
  screen : k.dev.console.Within lo
  saved : ∀ t, (k.termBlk t).CursorWithin lo

theorem CursorsWithin.saveVisibleTerminal {lo : Int} {k : Kernel} (h : CursorsWithin lo k)
    (n : Nat) : CursorsWithin lo (k.saveVisibleTerminal n) := by
  obtain ⟨hx, hx', hy, hy'⟩ := h.screen
  refine ⟨⟨hx, hx', hy, hy'⟩, fun t => ?_⟩
  change (Function.update k.termBlk n _ t).CursorWithin lo
  by_cases ht : t = n
  · subst ht
    rw [Function.update_self]
    exact ⟨⟨hx, hx'⟩, hy, hy'⟩
  · rw [Function.update_of_ne ht]
    exact h.saved t

theorem CursorsWithin.switchTerminal {lo : Int} {k : Kernel} (h : CursorsWithin lo k) (n : Nat) :
    CursorsWithin lo (k.switchTerminal n) := by
  have hsaved := (h.saveVisibleTerminal k.currActiveTerminal).saved
  obtain ⟨⟨hx, hx'⟩, hy, hy'⟩ := hsaved n
  exact ⟨⟨hx, hx', hy, hy'⟩, hsaved⟩

theorem CursorsWithin.canvas {lo : Int} {k : Kernel} (h : CursorsWithin lo k) (e : Effect) :
    (e.canvas k).Within lo := by
  cases e with
  | swap newTermVal =>
    rw [Effect.canvas]
    split
    · exact (h.switchTerminal newTermVal.toNat).screen
    · exact h.screen
  | _ => exact h.screen

theorem Shows.cursorWithin_iff {k k' : Kernel} {text : List UInt8} {lo : Int}
    (h : Shows k text k') (t : Nat) :
    (k'.termBlk t).CursorWithin lo ↔ (k.termBlk t).CursorWithin lo := by
  obtain ⟨hx, hy, -⟩ := h.saved t
  rw [Terminal.CursorWithin, hx, hy]
  rfl

theorem Effect.Spec.saved {e : Effect} {k k' : Kernel} {stored : List Int} {lo : Int}
    (h : e.Spec k stored k') (hk : CursorsWithin lo k) (t : Nat) :
    (k'.termBlk t).CursorWithin lo := by
  obtain hstays | ⟨newTermVal, -, -, hshows⟩ := h.stays_or_switches
  · rw [hstays.termBlk]
    exact hk.saved t
  · exact (hshows.cursorWithin_iff t).mpr ((hk.switchTerminal newTermVal.toNat).saved t)

/-! ### Runs -/

def OnScreen (k : Kernel) (c : TerminalEvent) (_ : Exit × List Int) (k' : Kernel) : Prop :=
  k'.dev.console.Within 0 ∧
    let e := c.op.effect k.modifiers
    StaysOnScreen k'.currActiveTerminal (e.drawn k) (e.canvas k)

/-- A Backspace that erases does not begin in the first column. -/
def ErasesBehindMargin (k : Kernel) (c : TerminalEvent) (_ : Exit × List Int) (_ : Kernel) : Prop :=
  c.op.effect k.modifiers = .erase → k.dev.keyboard.bufferIndex ≥ 0 → 1 ≤ k.dev.console.screenX

theorem staysOnScreen_iff {k : Kernel} (h : CursorsWithin 0 k) (term : Nat) (e : Effect) :
    StaysOnScreen term (e.drawn k) (e.canvas k) ↔
      (e = .erase → k.dev.keyboard.bufferIndex ≥ 0 → 1 ≤ k.dev.console.screenX) := by
  have hcanvas := h.canvas e
  cases e with
  | erase =>
    rw [Effect.drawn]
    split
    · rename_i hi
      rw [staysOnScreen_backspace hcanvas]
      exact ⟨fun hx _ _ => hx, fun hx => hx rfl hi⟩
    · rename_i hi
      exact iff_of_true trivial fun _ hi' => absurd hi' hi
  | type text => exact iff_of_true (staysOnScreen_putc hcanvas text) nofun
  | clear => exact iff_of_true (staysOnScreen_clear term _) nofun
  | swap newTermVal =>
    refine iff_of_true ?_ nofun
    rw [Effect.drawn]
    split
    · exact staysOnScreen_putc hcanvas _
    · trivial
  | read => exact iff_of_true trivial nofun
  | putc c => exact iff_of_true (staysOnScreen_putc hcanvas [c]) nofun

theorem CursorsWithin.noted {lo : Int} {k : Kernel} (h : CursorsWithin lo k) (op : TerminalOp) :
    CursorsWithin lo (op.noted k) := by
  cases op with
  | key keyIn => exact ⟨h.screen, h.saved⟩
  | _ => exact h

theorem TerminalOp.noted_drawn (k : Kernel) (op : TerminalOp) (e : Effect) :
    e.drawn (op.noted k) = e.drawn k ∧ e.canvas (op.noted k) = e.canvas k := by
  cases op with
  | key keyIn =>
    cases e with
    | swap newTermVal => exact ⟨rfl, rfl⟩
    | _ => exact ⟨rfl, rfl⟩
  | _ => exact ⟨rfl, rfl⟩

theorem onScreen_iff {img : Image} {k k' : Kernel} {c : TerminalEvent} {answer : Exit × List Int}
    (hk : CursorsWithin 0 k) (hstep : terminalEvents img k c = some (answer, k')) :
    (OnScreen k c answer k' ↔ ErasesBehindMargin k c answer k') ∧
      (ErasesBehindMargin k c answer k' → CursorsWithin 0 k') := by
  obtain ⟨o, stored⟩ := answer
  have heffect := terminalEvents_effect hstep
  have hnoted := hk.noted c.op
  have hiff := staysOnScreen_iff hk k'.currActiveTerminal (c.op.effect k.modifiers)
  have hsame := c.op.noted_drawn k (c.op.effect k.modifiers)
  have hconsole := heffect.console
  rw [hsame.1, hsame.2] at hconsole
  have hnext (h : ErasesBehindMargin k c (o, stored) k') : k'.dev.console.Within 0 := by
    rw [hconsole]
    exact (hiff.mpr h).draw (hk.canvas _)
  exact ⟨⟨fun h => hiff.mp h.2, fun h => ⟨hnext h, hiff.mpr h⟩⟩,
    fun h => ⟨hnext h, heffect.saved hnoted⟩⟩

theorem Boots.shows {img : Image} {k : Kernel} (h : Boots img k) :
    ∃ hw, Shows (initTerminal hw) [] k := by
  obtain ⟨hw, junk, frame, stores, hexec⟩ := h
  have hshows := execute_shows hexec
  have hslot : (initTerminal hw).freeSlot = some 0 := rfl
  rw [Kernel.executeText, hslot, if_neg (by simp)] at hshows
  exact ⟨hw, hshows⟩

theorem Boots.cursorsWithin {img : Image} {k : Kernel} {lo : Int} (h : Boots img k) (hlo : lo ≤ 0) :
    CursorsWithin lo k := by
  obtain ⟨hw, hshows⟩ := h.shows
  have hrow : (0 : Int) < numCols ∧ (0 : Int) < numRows := by decide
  refine ⟨?_, fun t => ?_⟩
  · rw [hshows.console]
    exact Console.within_clear 0 hlo
  · exact (hshows.cursorWithin_iff t).mpr ⟨⟨hlo, hrow.1⟩, Int.le_refl 0, hrow.2⟩

theorem onScreen_iff_erasesBehindMargin {img : Image} {k : Kernel} (hk : Boots img k)
    (events : List TerminalEvent) : (terminalEvents img).Always OnScreen k events ↔
      (terminalEvents img).Always ErasesBehindMargin k events := by
  refine Machine.always_iff (CursorsWithin 0) ?_ (hk.cursorsWithin (Int.le_refl 0))
  intro k c o k' hinv hstep
  exact onScreen_iff hinv hstep

theorem sample_erase_on_screen : ∃ k, Boots sampleImage k ∧
    (terminalEvents sampleImage).Always OnScreen k
      [sampleKey aScancode, sampleKey backspaceScancode] := by
  obtain ⟨args, d, hboot⟩ := sampleImage_boots
  let k := sampleShell (initTerminal samplePowerOn) 0 args d
  obtain ⟨hw, hshows⟩ := hboot.shows
  have hstep : terminalEvents sampleImage k (sampleKey aScancode) = some (_, _) :=
    terminalEvents_key (a := .type [97]) rfl rfl
  refine ⟨k, hboot, (onScreen_iff_erasesBehindMargin hboot _).mpr fun o k₁ h₁ => ⟨nofun, ?_⟩⟩
  obtain ⟨rfl, rfl⟩ := Prod.mk.inj (Option.some.inj (hstep.symm.trans h₁))
  refine fun o k₂ h₂ => ⟨fun _ _ => ?_, trivial⟩
  change 1 ≤ (Console.putc k.currActiveTerminal 97 k.dev.console).screenX
  have hx : (Console.putc k.currActiveTerminal 97 k.dev.console).screenX = 1 := by
    rw [hshows.console, hshows.active]
    rfl
  exact Int.le_of_eq hx.symm

/-- Enter puts a newline into the buffer and the cursor into the first column; Backspace then erases
in column -1. -/
theorem enter_backspace_leaves_screen : ¬ ∀ (img : Image) (k : Kernel)
    (events : List TerminalEvent), Boots img k → (terminalEvents img).Always OnScreen k events := by
  intro hall
  obtain ⟨args, d, hboot⟩ := sampleImage_boots
  let k := sampleShell (initTerminal samplePowerOn) 0 args d
  have henter : terminalEvents sampleImage k (sampleKey enterScancode) = some (_, _) :=
    terminalEvents_key (a := .type [10]) rfl rfl
  let k₁ := (putKeys [10] (k.pressed enterScancode)).1
  have hback : terminalEvents sampleImage k₁ (sampleKey backspaceScancode) = some (_, _) :=
    terminalEvents_key (a := .erase) rfl rfl
  have hrun := hall sampleImage k [sampleKey enterScancode, sampleKey backspaceScancode] hboot
  -- Enter alone is harmless, and leaves the cursor in column 0
  have hk₁ : CursorsWithin 0 k₁ :=
    (onScreen_iff (hboot.cursorsWithin (Int.le_refl 0)) henter).2 nofun
  have hx : 1 ≤ k₁.dev.console.screenX :=
    (onScreen_iff hk₁ hback).1.mp ((hrun _ _ henter).2 _ _ hback).1 rfl (Int.le_refl 0)
  have hx' : k₁.dev.console.screenX = 0 := by
    have hputc := putKeys_console [10] (k.pressed enterScancode)
    rw [Console.puts, List.foldl_cons, List.foldl_nil, Console.putc_eq, if_pos (.inl (.inl rfl))]
      at hputc
    rw [hputc, Console.updateCursor_screenX, Console.newLine_screenX]
  rw [hx'] at hx
  exact absurd hx (by decide)

end MyLinuxOS
