import Mathlib.Data.Finset.Card
import MyLinuxOS.Kernel.Memcpy
import MyLinuxOS.Terminal.Cursor

/-! The screens of the terminals. A switch saves the visible page and the cursor and brings back
those of the other terminal; nothing else reaches the saved pages, wherever the cursor is. -/

namespace MyLinuxOS
open Foundation

inductive ScreenOp
  | draw (op : ConsoleOp)
  | swap (newTermVal : Int)

structure ScreenEvent where
  op : ScreenOp
  junk : StackBytes
  frame : Frame

@[ext] structure Screen where
  page : Fin 4096 → UInt8
  x : Int
  y : Int

def cursorPos (x y : Int) : Nat := ((y * numCols + x) % 65536).toNat

namespace Kernel
variable (k : Kernel)

def draw (op : ConsoleOp) : Kernel := k.setConsole (op.run k.currActiveTerminal k.dev.console)

def screen : Screen where
  page := fun i => k.dev.console.vram (video + (i : Nat))
  x := k.dev.console.screenX
  y := k.dev.console.screenY

def saved (t : Nat) : Screen where
  page := fun i => k.dev.console.vram ((k.termBlk t).videoMem + (i : Nat))
  x := (k.termBlk t).cursorX
  y := (k.termBlk t).cursorY

end Kernel

def ScreenEvent.enter (img : Image) (c : ScreenEvent) (k : Kernel) : Entry :=
  match c.op with
  | .draw op => (k.draw op).returns 0
  | .swap newTermVal => terminalSwap img c.junk c.frame newTermVal k

/-- What each terminal showed when it was last left: the screen and the hardware cursor. -/
abbrev Departures := Nat → Option (Screen × Nat)

def Departures.next (left : Departures) (k k' : Kernel) : Departures :=
  if k'.currActiveTerminal = k.currActiveTerminal then left
  else Function.update left k.currActiveTerminal (some (k.screen, k.dev.console.crtcCursor))

def screenEvents (img : Image) : Machine (Kernel × Departures) ScreenEvent Exit := fun s c =>
  match c.enter img s.1 with
  | .ok left => some (left.exit, (left.kernel, s.2.next s.1 left.kernel))
  | .error _ => none

structure ScreensKept (s : Kernel × Departures) (c : ScreenEvent) (_ : Exit)
    (s' : Kernel × Departures) : Prop where
  /-- A terminal that comes back shows what it showed when it was left. -/
  resumed : s'.1.currActiveTerminal ≠ s.1.currActiveTerminal →
    ∀ was, s.2 s'.1.currActiveTerminal = some was →
      (s'.1.screen, s'.1.dev.console.crtcCursor) = was
  /-- What is saved for a terminal in the background stays as it is. -/
  background : ∀ t, t ≠ s.1.currActiveTerminal → t ≠ s'.1.currActiveTerminal →
    s'.1.saved t = s.1.saved t
  /-- A swap to the active terminal or to none at all changes nothing. -/
  refused : ∀ newTermVal, c.op = .swap newTermVal → ¬ s.1.Switches newTermVal →
    s'.1.screen = s.1.screen ∧ s'.1.dev.console.crtcCursor = s.1.dev.console.crtcCursor ∧
      ∀ t, s'.1.saved t = s.1.saved t

/-! ### Pages -/

def Kernel.PagesApart (k : Kernel) : Prop :=
  ∀ t : Nat, (k.termBlk t).videoMem = video + 4096 * (t + 1)

section
variable {k : Kernel} {n t : Nat}

theorem switchTerminal_vram (k : Kernel) (n : Nat) : (k.switchTerminal n).dev.console.vram =
    copyRange (copyRange k.dev.console.vram (k.termBlk k.currActiveTerminal).videoMem video 4096)
      video ((k.saveVisibleTerminal k.currActiveTerminal).termBlk n).videoMem 4096 := rfl

theorem saveVisible_field {α : Type} (f : Terminal → α)
    (hf : ∀ b x y, f { b with cursorX := x, cursorY := y } = f b) (k : Kernel) (n t : Nat) :
    f ((k.saveVisibleTerminal n).termBlk t) = f (k.termBlk t) := by
  change f (Function.update k.termBlk n _ t) = _
  by_cases ht : t = n
  · subst ht
    rw [Function.update_self, hf]
  · rw [Function.update_of_ne ht]

theorem switchTerminal_videoMem (k : Kernel) (n t : Nat) :
    ((k.switchTerminal n).termBlk t).videoMem = (k.termBlk t).videoMem :=
  saveVisible_field Terminal.videoMem (fun _ _ _ => rfl) k k.currActiveTerminal t

theorem switchTerminal_processActive (k : Kernel) (n t : Nat) :
    ((k.switchTerminal n).termBlk t).processActive = (k.termBlk t).processActive :=
  saveVisible_field Terminal.processActive (fun _ _ _ => rfl) k k.currActiveTerminal t

/-- The two copies of a switch, as `memcpy` makes them. -/
theorem switchTerminal_memcpy (h : k.PagesApart) (n : Nat) :
    (k.switchTerminal n).dev.console.vram =
      memcpy video (k.termBlk n).videoMem 4096
        (memcpy (k.termBlk k.currActiveTerminal).videoMem video 4096 k.dev.console.vram) := by
  have hold := h k.currActiveTerminal
  have hnew := h n
  have hvideo : ((k.saveVisibleTerminal k.currActiveTerminal).termBlk n).videoMem =
      (k.termBlk n).videoMem := switchTerminal_videoMem k n n
  rw [switchTerminal_vram, hvideo, memcpy_eq, memcpy_eq]
  · unfold Apart
    omega
  · unfold Apart
    omega

theorem switchTerminal_screen (h : k.PagesApart) (hn : n ≠ k.currActiveTerminal) :
    (k.switchTerminal n).screen = k.saved n := by
  have hold := h k.currActiveTerminal
  have hnew := h n
  have hblk : (k.saveVisibleTerminal k.currActiveTerminal).termBlk n = k.termBlk n :=
    Function.update_of_ne hn ..
  have hpage : (k.switchTerminal n).screen.page = (k.saved n).page := by
    funext i
    have hi := i.isLt
    change (k.switchTerminal n).dev.console.vram (video + (i : Nat)) =
      k.dev.console.vram ((k.termBlk n).videoMem + (i : Nat))
    rw [switchTerminal_vram, hblk, copyRange_of_mem (by omega) (by omega),
      copyRange_of_not_mem (by omega)]
    congr 1
    omega
  have hx : (k.switchTerminal n).screen.x = (k.saved n).x := congrArg Terminal.cursorX hblk
  have hy : (k.switchTerminal n).screen.y = (k.saved n).y := congrArg Terminal.cursorY hblk
  exact Screen.ext hpage hx hy

theorem switchTerminal_saved (h : k.PagesApart) (n t : Nat) : (k.switchTerminal n).saved t =
    if t = k.currActiveTerminal then k.screen else k.saved t := by
  have hold := h k.currActiveTerminal
  have ht := h t
  have hvram : ∀ i : Fin 4096, (k.switchTerminal n).dev.console.vram
      ((k.termBlk t).videoMem + (i : Nat)) =
        copyRange k.dev.console.vram (k.termBlk k.currActiveTerminal).videoMem video 4096
          ((k.termBlk t).videoMem + (i : Nat)) := by
    intro i
    -- the second copy writes the visible page only
    rw [switchTerminal_vram]
    exact copyRange_of_not_mem (by omega)
  have hblk : (k.switchTerminal n).termBlk t =
      Function.update k.termBlk k.currActiveTerminal _ t := rfl
  by_cases hcurr : t = k.currActiveTerminal
  · rw [if_pos hcurr]
    subst hcurr
    rw [Function.update_self] at hblk
    unfold Kernel.saved Kernel.screen
    rw [hblk]
    congr 1
    funext i
    rw [hvram, copyRange_of_mem (by omega) (by omega)]
    congr 1
    omega
  · rw [if_neg hcurr]
    rw [Function.update_of_ne hcurr] at hblk
    unfold Kernel.saved
    rw [hblk]
    congr 1
    funext i
    rw [hvram, copyRange_of_not_mem (by omega)]

theorem draw_saved (h : k.PagesApart) (hc : k.dev.console.Within (-79)) (op : ConsoleOp) (t : Nat) :
    (k.draw op).saved t = k.saved t := by
  have ht := h t
  have hvram : ∀ i : Fin 4096, (k.draw op).dev.console.vram ((k.termBlk t).videoMem + (i : Nat)) =
      k.dev.console.vram ((k.termBlk t).videoMem + (i : Nat)) :=
    fun i => op.vram k.currActiveTerminal hc (by omega)
  exact Screen.ext (funext hvram) rfl rfl

end

/-! ### The terminals that have a shell -/

def Kernel.opened (k : Kernel) : Finset Nat :=
  (Finset.range maxTerminals).filter fun t => (k.termBlk t).processActive ≠ -1

def Kernel.ShellsOnly (k : Kernel) : Prop := ∀ p, k.pidArray p ≠ 0 → p < k.opened.card

section
variable {k : Kernel} {n : Nat}

theorem mem_opened {t : Nat} :
    t ∈ k.opened ↔ t < maxTerminals ∧ (k.termBlk t).processActive ≠ -1 := by
  rw [Kernel.opened, Finset.mem_filter, Finset.mem_range]

theorem opened_card_le (k : Kernel) : k.opened.card ≤ maxTerminals :=
  (Finset.card_filter_le ..).trans_eq (Finset.card_range _)

theorem Kernel.ShellsOnly.freeSlot (h : k.ShellsOnly) :
    ∃ slot, k.freeSlot = some slot ∧ slot ≤ k.opened.card := by
  have hcard := opened_card_le k
  have hthree : maxTerminals < maxPid := by decide
  have hfree : k.pidArray k.opened.card = 0 :=
    not_not.mp fun hne => Nat.lt_irrefl _ (h _ hne)
  cases hslot : k.freeSlot with
  | none => exact absurd hfree (firstFrom_eq_none_iff.mp hslot _ (Nat.zero_le _) (by omega))
  | some slot =>
    refine ⟨slot, rfl, Nat.le_of_not_lt fun hlt => ?_⟩
    exact (Kernel.freeSlot_eq_some hslot).2.2 _ hlt hfree

theorem opened_insert {k' : Kernel} (hn : n < maxTerminals) (hnew : n ∉ k.opened)
    (h : (k'.termBlk n).processActive ≠ -1)
    (hsame : ∀ t, t ≠ n → (k'.termBlk t).processActive = (k.termBlk t).processActive) :
    k'.opened.card = k.opened.card + 1 := by
  have hinsert : k'.opened = insert n k.opened := by
    ext t
    rw [Finset.mem_insert, mem_opened, mem_opened]
    by_cases ht : t = n
    · subst ht
      exact iff_of_true ⟨hn, h⟩ (.inl rfl)
    · rw [hsame t ht, or_iff_right ht]
  rw [hinsert, Finset.card_insert_of_notMem hnew]

theorem execute_opens {img : Image} {junk : StackBytes} {frame : Frame} {command : CString}
    {left : Left} {slot : Nat} (hslot : k.freeSlot = some slot)
    (h : syscallExecute img junk frame command k = .ok left) :
    (∀ p, left.kernel.pidArray p ≠ 0 → p = slot ∨ k.pidArray p ≠ 0) ∧
      ∀ t, (left.kernel.termBlk t).processActive =
        if t = k.currActiveTerminal then (k.termBlk t).processActive + 1
        else (k.termBlk t).processActive := by
  have hblk : ∀ t, ((k.assignPid slot).termBlk t).processActive =
      if t = k.currActiveTerminal then (k.termBlk t).processActive + 1
      else (k.termBlk t).processActive := by
    intro t
    change (Function.update k.termBlk k.currActiveTerminal _ t).processActive = _
    by_cases ht : t = k.currActiveTerminal
    · subst ht
      rw [Function.update_self, if_pos rfl]
    · rw [Function.update_of_ne ht, if_neg ht]
  rcases syscallExecute_cases_of_slot hslot h with ⟨args, -, rfl⟩ | ⟨args, d, -, rfl⟩
  · refine ⟨fun p hp => ?_, hblk⟩
    by_cases hps : p = slot
    · exact .inl hps
    · right
      change Function.update (Function.update k.pidArray slot 1) slot 0 p ≠ 0 at hp
      rwa [Function.update_of_ne hps, Function.update_of_ne hps] at hp
  · refine ⟨fun p hp => ?_, hblk⟩
    by_cases hps : p = slot
    · exact .inl hps
    · right
      change Function.update k.pidArray slot 1 p ≠ 0 at hp
      rwa [Function.update_of_ne hps] at hp

theorem opened_congr {k' : Kernel}
    (h : ∀ t, (k'.termBlk t).processActive = (k.termBlk t).processActive) :
    k'.opened = k.opened := by
  ext t
  rw [mem_opened, mem_opened, h]

structure Opens (k : Kernel) (newTermVal : Int) (k' : Kernel) : Prop where
  shells : k'.ShellsOnly
  mono : ∀ t, (k.termBlk t).processActive ≠ -1 → (k'.termBlk t).processActive ≠ -1
  now : (k'.termBlk newTermVal.toNat).processActive ≠ -1
  silent : k.swapText newTermVal = []

theorem terminalSwap_opens {img : Image} {junk : StackBytes} {frame : Frame} {newTermVal : Int}
    {left : Left} (hk : k.ShellsOnly) (hs : k.Switches newTermVal)
    (h : terminalSwap img junk frame newTermVal k = .ok left) :
    Opens k newTermVal left.kernel := by
  obtain ⟨h0, hlt, hne⟩ := hs
  have hn : (newTermVal.toNat : Int) = newTermVal := Int.toNat_of_nonneg h0
  rcases terminalSwap_cases h with ⟨hno, -, hkernel⟩ | ⟨⟨-, -, -, hnew⟩, left', hleft, -, hexec⟩
  · have hopen : (k.termBlk newTermVal.toNat).processActive ≠ -1 :=
      fun hnew => hno ⟨h0, hlt, hne, hnew⟩
    -- a terminal that has been visited has its shell already
    have hsame : left.kernel.pidArray = k.pidArray ∧
        ∀ t, (left.kernel.termBlk t).processActive = (k.termBlk t).processActive := by
      rcases hkernel with hkernel | hkernel
      · rw [hkernel]
        exact ⟨rfl, fun _ => rfl⟩
      · rw [hkernel]
        exact ⟨rfl, switchTerminal_processActive k _⟩
    refine ⟨fun p hp => ?_, fun t ht => ?_, ?_, if_neg hopen⟩
    · rw [hsame.1] at hp
      rw [opened_congr hsame.2]
      exact hk p hp
    · rwa [hsame.2]
    · rwa [hsame.2]
  · -- a first visit: fewer shells than terminals, so execute finds a slot
    obtain ⟨slot, hslot, hle⟩ := hk.freeSlot
    have hfree : (k.switchTerminal newTermVal.toNat).freeSlot = some slot := hslot
    obtain ⟨hslots, hactive⟩ := execute_opens hfree hexec
    have hactive : ∀ t, (left'.kernel.termBlk t).processActive =
        if t = newTermVal.toNat then (k.termBlk t).processActive + 1
        else (k.termBlk t).processActive := by
      intro t
      have ht := hactive t
      rwa [switchTerminal_processActive] at ht
    have hnow : (left'.kernel.termBlk newTermVal.toNat).processActive ≠ -1 := by
      rw [hactive, if_pos rfl, hnew]
      decide
    have hcard : left'.kernel.opened.card = k.opened.card + 1 := by
      refine opened_insert (by omega) (fun hmem => (mem_opened.mp hmem).2 hnew) hnow fun t ht => ?_
      rw [hactive, if_neg ht]
    rw [hleft]
    refine ⟨fun p hp => ?_, fun t ht => ?_, hnow, ?_⟩
    · rw [hcard]
      rcases hslots p hp with rfl | hused
      · omega
      · have hlow := hk p hused
        omega
    · by_cases htn : t = newTermVal.toNat
      · rw [htn]
        exact hnow
      · rwa [hactive, if_neg htn]
    · rw [Kernel.swapText, if_pos hnew, Kernel.executeText, hfree, if_neg (by simp)]

end

/-! ### Runs -/

structure Kept (s : Kernel × Departures) : Prop where
  cursors : CursorsWithin (-79) s.1
  pages : s.1.PagesApart
  shells : s.1.ShellsOnly
  synced : s.1.dev.console.crtcCursor = cursorPos s.1.dev.console.screenX s.1.dev.console.screenY
  active : (s.1.termBlk s.1.currActiveTerminal).processActive ≠ -1
  opened : ∀ t was, s.2 t = some was → (s.1.termBlk t).processActive ≠ -1
  left : ∀ t was, s.2 t = some was → t ≠ s.1.currActiveTerminal →
    was = (s.1.saved t, cursorPos (s.1.saved t).x (s.1.saved t).y)

theorem ConsoleOp.synced (term : Nat) (op : ConsoleOp) (s : Console) :
    (op.run term s).crtcCursor = cursorPos (op.run term s).screenX (op.run term s).screenY := by
  cases op with
  | putc c => rfl
  | backspace => rfl
  | clear => rfl

theorem Kept.draw {k : Kernel} {left : Departures} (h : Kept (k, left)) (op : ConsoleOp) :
    Kept (k.draw op, left) where
  cursors := ⟨op.within k.currActiveTerminal h.cursors.screen, h.cursors.saved⟩
  pages := h.pages
  shells := h.shells
  synced := op.synced k.currActiveTerminal k.dev.console
  active := h.active
  opened := h.opened
  left := fun t was hwas ht => by
    have hsaved := draw_saved h.pages h.cursors.screen op t
    rw [hsaved]
    exact h.left t was hwas ht

theorem Kept.switched {img : Image} {junk : StackBytes} {frame : Frame} {newTermVal : Int}
    {k : Kernel} {left : Departures} {l : Left} (h : Kept (k, left)) (hs : k.Switches newTermVal)
    (hswap : terminalSwap img junk frame newTermVal k = .ok l) :
    Shows (k.switchTerminal newTermVal.toNat) [] l.kernel ∧ Opens k newTermVal l.kernel := by
  have hopens := terminalSwap_opens h.shells hs hswap
  obtain ⟨-, ⟨hno, -⟩ | ⟨-, hshows⟩⟩ := terminalSwap_effect hswap
  · exact absurd hs hno
  · rw [hopens.silent] at hshows
    exact ⟨hshows, hopens⟩

section
variable {k k' : Kernel}

theorem Shows.screen (h : Shows k [] k') : k'.screen = k.screen := by
  unfold Kernel.screen
  rw [h.console]
  rfl

theorem Shows.savedScreen (h : Shows k [] k') (t : Nat) : k'.saved t = k.saved t := by
  obtain ⟨hx, hy, hvideo⟩ := h.saved t
  unfold Kernel.saved
  rw [h.console, hx, hy, hvideo]
  rfl

end

theorem Shows.cursorsWithin {lo : Int} {k k' : Kernel} (h : Shows k [] k')
    (hk : CursorsWithin lo k) : CursorsWithin lo k' := by
  refine ⟨?_, fun t => ?_⟩
  · rw [h.console]
    exact hk.screen
  · exact (h.cursorWithin_iff t).mpr (hk.saved t)

structure Swapped (k : Kernel) (n : Nat) (k' : Kernel) : Prop where
  ne : n ≠ k.currActiveTerminal
  active : k'.currActiveTerminal = n
  screen : k'.screen = k.saved n
  crtcCursor : k'.dev.console.crtcCursor = cursorPos (k.saved n).x (k.saved n).y
  saved : ∀ t, k'.saved t = if t = k.currActiveTerminal then k.screen else k.saved t

theorem Shows.swapped {k k' : Kernel} {newTermVal : Int} (hs : k.Switches newTermVal)
    (h : Shows (k.switchTerminal newTermVal.toNat) [] k') (hpages : k.PagesApart) :
    Swapped k newTermVal.toNat k' := by
  have hn : newTermVal.toNat ≠ k.currActiveTerminal := by
    obtain ⟨h0, -, hne⟩ := hs
    omega
  refine ⟨hn, h.active, h.screen.trans (switchTerminal_screen hpages hn), ?_, fun t => ?_⟩
  · have hblk : (k.saveVisibleTerminal k.currActiveTerminal).termBlk newTermVal.toNat =
        k.termBlk newTermVal.toNat := Function.update_of_ne hn ..
    rw [h.console]
    exact congrArg (fun b : Terminal => cursorPos b.cursorX b.cursorY) hblk
  · exact (h.savedScreen t).trans (switchTerminal_saved hpages _ t)

section
variable {k k' : Kernel} {n : Nat} {left : Departures}

theorem Swapped.next_eq_some (h : Swapped k n k') {t : Nat} {was : Screen × Nat}
    (hwas : left.next k k' t = some was) :
    t = k.currActiveTerminal ∧ was = (k.screen, k.dev.console.crtcCursor) ∨
      t ≠ k.currActiveTerminal ∧ left t = some was := by
  have hnext : left.next k k' =
      Function.update left k.currActiveTerminal (some (k.screen, k.dev.console.crtcCursor)) :=
    if_neg fun hsame => h.ne (h.active.symm.trans hsame)
  rw [hnext] at hwas
  by_cases ht : t = k.currActiveTerminal
  · rw [ht, Function.update_self] at hwas
    exact .inl ⟨ht, (Option.some.inj hwas).symm⟩
  · rw [Function.update_of_ne ht] at hwas
    exact .inr ⟨ht, hwas⟩

theorem Swapped.screensKept {c : ScreenEvent} {newTermVal : Int} (h : Swapped k n k')
    (hk : Kept (k, left)) (hs : k.Switches newTermVal) (hop : c.op = .swap newTermVal) (o : Exit) :
    ScreensKept (k, left) c o (k', left.next k k') := by
  refine ⟨fun _ was hwas => ?_, fun t ht _ => ?_, fun m hm hno => ?_⟩
  · -- what was noted when `n` was left is still saved for it
    change left k'.currActiveTerminal = some was at hwas
    rw [h.active] at hwas
    rw [hk.left n was hwas h.ne, h.screen, h.crtcCursor]
  · exact (h.saved t).trans (if_neg ht)
  · obtain rfl := ScreenOp.swap.inj (hop.symm.trans hm)
    exact absurd hs hno

end

theorem Kept.swap {newTermVal : Int} {k k' : Kernel} {left : Departures} (h : Kept (k, left))
    (hs : k.Switches newTermVal) (hshows : Shows (k.switchTerminal newTermVal.toNat) [] k')
    (hopens : Opens k newTermVal k') : Kept (k', left.next k k') := by
  have hswapped := hshows.swapped hs h.pages
  refine ⟨hshows.cursorsWithin (h.cursors.switchTerminal _), fun t => ?_, hopens.shells, ?_, ?_,
    fun t was hwas => ?_, fun t was hwas _ => ?_⟩
  · exact (hshows.saved t).2.2.trans ((switchTerminal_videoMem k _ t).trans (h.pages t))
  · have hx : k'.dev.console.screenX = _ := congrArg Screen.x hswapped.screen
    have hy : k'.dev.console.screenY = _ := congrArg Screen.y hswapped.screen
    change k'.dev.console.crtcCursor = cursorPos k'.dev.console.screenX k'.dev.console.screenY
    rw [hswapped.crtcCursor, hx, hy]
  · change (k'.termBlk k'.currActiveTerminal).processActive ≠ -1
    rw [hswapped.active]
    exact hopens.now
  · rcases hswapped.next_eq_some hwas with ⟨rfl, -⟩ | ⟨-, hleft⟩
    · exact hopens.mono _ h.active
    · exact hopens.mono t (h.opened t was hleft)
  · change was = (k'.saved t, cursorPos (k'.saved t).x (k'.saved t).y)
    rw [hswapped.saved]
    rcases hswapped.next_eq_some hwas with ⟨rfl, hnoted⟩ | ⟨ht, hleft⟩
    · rw [if_pos rfl, hnoted, h.synced]
      rfl
    · rw [if_neg ht]
      exact h.left t was hleft ht

theorem Kept.step {img : Image} {c : ScreenEvent} {s s' : Kernel × Departures} {o : Exit}
    (h : Kept s) (hstep : screenEvents img s c = some (o, s')) :
    ScreensKept s c o s' ∧ Kept s' := by
  obtain ⟨k, left⟩ := s
  unfold screenEvents at hstep
  cases henter : c.enter img k with
  | error e => rw [henter] at hstep; exact absurd hstep (by simp)
  | ok l =>
    rw [henter] at hstep
    cases hstep
    unfold ScreenEvent.enter at henter
    cases hop : c.op with
    | draw op =>
      rw [hop] at henter
      cases henter
      -- nothing is left by drawing: the terminal stays the active one
      have hnext : left.next k (k.draw op) = left := if_pos rfl
      change ScreensKept _ _ _ (k.draw op, left.next k (k.draw op)) ∧ Kept (k.draw op, _)
      rw [hnext]
      refine ⟨⟨fun hne => absurd rfl hne, fun t _ _ => ?_, fun n hn => ?_⟩, h.draw op⟩
      · exact draw_saved h.pages h.cursors.screen op t
      · exact absurd (hop.symm.trans hn) nofun
    | swap newTermVal =>
      rw [hop] at henter
      obtain ⟨-, ⟨hno, hsame⟩ | ⟨hs, -⟩⟩ := terminalSwap_effect henter
      · have hnext : left.next k l.kernel = left := if_pos (by rw [hsame])
        change ScreensKept _ _ _ (l.kernel, left.next k l.kernel) ∧ Kept (l.kernel, _)
        rw [hnext, hsame]
        exact ⟨⟨fun hne => absurd rfl hne, fun _ _ _ => rfl,
          fun _ _ _ => ⟨rfl, rfl, fun _ => rfl⟩⟩, h⟩
      · obtain ⟨hshows, hopens⟩ := h.switched hs henter
        exact ⟨(hshows.swapped hs h.pages).screensKept h hs hop _, h.swap hs hshows hopens⟩

theorem Boots.kept {img : Image} {k : Kernel} (h : Boots img k) : Kept (k, fun _ => none) := by
  have hcursors := h.cursorsWithin (show (-79 : Int) ≤ 0 by decide)
  obtain ⟨hw, hshows⟩ := h.shows
  obtain ⟨hw', junk, frame, stores, hexec⟩ := h
  have hslot : (initTerminal hw').freeSlot = some 0 := rfl
  obtain ⟨hslots, hactive⟩ := execute_opens hslot hexec
  have hopen : (k.termBlk 0).processActive = 1 := hactive 0
  have hne : (k.termBlk 0).processActive ≠ -1 := by
    rw [hopen]
    decide
  have hmem : 0 ∈ k.opened := mem_opened.mpr ⟨by decide, hne⟩
  refine ⟨hcursors, fun t => ?_, fun p hp => ?_, ?_, ?_, nofun, nofun⟩
  · have hvideo : (addrVideo / bytesToAlignTo : Nat) = 184 := rfl
    have hscreen : video = 4096 * 184 := rfl
    rw [(hshows.saved t).2.2]
    change 4096 * ((addrVideo / bytesToAlignTo : Nat) + (t : Int) + 1) = video + 4096 * (t + 1)
    omega
  · have hp0 : p = 0 := (hslots p hp).resolve_right fun hp' => hp' rfl
    rw [hp0]
    exact Finset.card_pos.mpr ⟨0, hmem⟩
  · have hconsole : k.dev.console = ConsoleOp.clear.run 0 _ := hshows.console
    change k.dev.console.crtcCursor = cursorPos k.dev.console.screenX k.dev.console.screenY
    rw [hconsole]
    exact ConsoleOp.clear.synced 0 _
  · change (k.termBlk k.currActiveTerminal).processActive ≠ -1
    rw [hshows.active]
    exact hne

/-- Along every run from boot, a terminal shows again what it showed when it was left. A first visit
is the only step that starts a program, so the process table never fills: with all slots taken the
visit would switch and leave the message of `execute` there, once more each time. -/
theorem screens_kept {img : Image} {k : Kernel} (hk : Boots img k) (events : List ScreenEvent) :
    (screenEvents img).Always ScreensKept (k, fun _ => none) events := by
  refine Machine.always_of_invariant Kept ?_ hk.kept
  intro s c o s' h hstep
  exact h.step hstep

/-- The second terminal is opened, drawn on and left again. -/
theorem sample_screens_kept : ∃ k, Boots sampleImage k ∧
    (screenEvents sampleImage).Always ScreensKept (k, fun _ => none)
      [⟨.draw (.putc 97), sampleJunk, sampleFrame⟩, ⟨.swap 1, sampleJunk, sampleFrame⟩,
        ⟨.draw .backspace, sampleJunk, sampleFrame⟩, ⟨.swap 0, sampleJunk, sampleFrame⟩,
        ⟨.swap 3, sampleJunk, sampleFrame⟩] := by
  obtain ⟨args, d, hboot⟩ := sampleImage_boots
  exact ⟨_, hboot, screens_kept hboot _⟩

end MyLinuxOS
