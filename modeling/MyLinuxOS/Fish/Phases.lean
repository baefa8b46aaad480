import MyLinuxOS.Fish.BlinkList

/-! What the screen shows of the blinking characters: the phase each of them is in, as long as no
SYNC copies the on phase. -/

namespace MyLinuxOS
open Foundation

def Blink.phaseChar (b : Blink) : UInt8 := if b.status &&& 1 = 0 then b.offChar else b.onChar

namespace Fish

def Shows (s : Fish) (i : Slot) : Prop :=
  s.vmem (s.blinkArray i).offset = (s.blinkArray i).phaseChar

instance (s : Fish) (i : Slot) : Decidable (s.Shows i) :=
  inferInstanceAs (Decidable (s.vmem (s.blinkArray i).offset = (s.blinkArray i).phaseChar))

theorem flipped_status (x : UInt16) : (x ^^^ 1) &&& 1 = 0 ↔ ¬x &&& 1 = 0 := by
  simp only [← UInt16.toNat_inj, UInt16.toNat_and, UInt16.toNat_xor, UInt16.toNat_one,
    UInt16.toNat_zero, Nat.and_one_is_mod]
  have hflip := @Nat.xor_mod_two_eq_one x.toNat 1
  omega

theorem syncChar_eq (b : Blink) : syncChar b = b.offChar := by
  have hbit : (b.status.toUInt8 &&& 0x1) &&& 0x80 = 0 := by
    rw [UInt8.and_assoc]
    exact UInt8.and_zero
  rw [syncChar, if_neg (not_not.mpr hbit)]

theorem offset_eq_iff {b b' : Blink} : b.offset = b'.offset ↔ b.location = b'.location := by
  rw [Blink.offset, Blink.offset, ← UInt16.toNat_inj]
  omega

@[simp] theorem mp1Poke_vmem_self (s : Fish) (offset : Nat) (cl : UInt8) :
    (s.mp1Poke offset cl).vmem offset = cl := Function.update_self ..

@[simp] theorem mp1Poke_vmem_of_ne {n offset : Nat} (h : n ≠ offset) (s : Fish) (cl : UInt8) :
    (s.mp1Poke offset cl).vmem n = s.vmem n := Function.update_of_ne h ..

theorem store_vmem (s : Fish) (q : Option Slot) (edx : Place) : (s.store q edx).vmem = s.vmem := by
  cases edx <;> rfl

@[simp] theorem setBlink_vmem (s : Fish) (i : Slot) (b : Blink) :
    (s.setBlink i b).vmem = s.vmem := rfl

theorem Shows.redraw_of_ne {s : Fish} {i j : Slot} {b : Blink} {cl : UInt8} (h : s.Shows j)
    (hj : j ≠ i) (hloc : (s.blinkArray j).location ≠ b.location) :
    ((s.mp1Poke b.offset cl).setBlink i b).Shows j := by
  rw [Shows, setBlink_of_ne hj, setBlink_vmem, mp1Poke_blinkArray,
    mp1Poke_vmem_of_ne (mt offset_eq_iff.mp hloc)]
  exact h

theorem shows_redraw {s : Fish} {i : Slot} {b : Blink} {cl : UInt8} :
    ((s.mp1Poke b.offset cl).setBlink i b).Shows i ↔ cl = b.phaseChar := by
  rw [Shows, setBlink_self, setBlink_vmem, mp1Poke_vmem_self]

def toggled (b : Blink) : Blink :=
  { b with
    countdown := if b.status &&& 1 = 0 then b.onLength else b.offLength
    status := b.status ^^^ 1 }

theorem toggled_phaseChar (b : Blink) :
    (toggled b).phaseChar = if b.status &&& 1 = 0 then b.onChar else b.offChar := by
  rw [Blink.phaseChar, toggled]
  by_cases hoff : b.status &&& 1 = 0
  · rw [if_neg ((not_congr (flipped_status _)).mpr (not_not.mpr hoff)), if_pos hoff, if_pos hoff]
  · rw [if_pos ((flipped_status _).mpr hoff), if_neg hoff, if_neg hoff]

theorem taskletEntry_cases (s : Fish) (i : Slot) :
    (∃ countdown, s.taskletEntry i = s.setBlink i { s.blinkArray i with countdown }) ∨
      s.taskletEntry i = (s.mp1Poke (toggled (s.blinkArray i)).offset
        (toggled (s.blinkArray i)).phaseChar).setBlink i (toggled (s.blinkArray i)) := by
  by_cases hcount : ((s.blinkArray i).countdown - 1).toInt16 > 0
  · exact .inl ⟨(s.blinkArray i).countdown - 1, by simp only [taskletEntry, if_pos hcount]⟩
  · right
    rw [toggled_phaseChar, toggled]
    by_cases hoff : (s.blinkArray i).status &&& 1 = 0
    · simp only [taskletEntry, if_neg hcount, if_pos hoff]
      rfl
    · simp only [taskletEntry, if_neg hcount, if_neg hoff]
      rfl

/-- Entries on the list sit at different locations, none of them 0, and the screen shows them. -/
structure Displayed (s : Fish) (l : List Slot) : Prop where
  apart : ∀ i ∈ l, ∀ j ∈ l, (s.blinkArray i).location = (s.blinkArray j).location → i = j
  nonzero : ∀ i ∈ l, (s.blinkArray i).location ≠ 0
  shown : ∀ i ∈ l, s.Shows i

namespace Displayed
variable {s s' : Fish} {l : List Slot} {i : Slot}

theorem of_shown (h : Displayed s l) (hsame : SameList s s') (hshown : ∀ j ∈ l, s'.Shows j) :
    Displayed s' l := by
  refine ⟨fun i hi j hj hloc => h.apart i hi j hj ?_, fun i hi => ?_, hshown⟩
  · rwa [hsame.location, hsame.location] at hloc
  · rw [hsame.location]
    exact h.nonzero i hi

theorem redraw_of_ne (h : Displayed s l) (hi : i ∈ l) {b : Blink} {cl : UInt8}
    (hloc : b.location = (s.blinkArray i).location) :
    ∀ j ∈ l, j ≠ i → ((s.mp1Poke b.offset cl).setBlink i b).Shows j := by
  intro j hj hne
  refine (h.shown j hj).redraw_of_ne hne ?_
  rw [hloc]
  exact fun he => hne (h.apart j hj i hi he)

theorem taskletEntry (h : Displayed s l) (hi : i ∈ l) : Displayed (s.taskletEntry i) l := by
  refine h.of_shown (taskletEntry_sameList s i) fun j hj => ?_
  rcases taskletEntry_cases s i with ⟨countdown, hcount⟩ | htoggle
  · rw [hcount]
    by_cases hji : j = i
    · subst hji
      rw [Shows, setBlink_self]
      exact h.shown j hj
    · rw [Shows, setBlink_of_ne hji]
      exact h.shown j hj
  · rw [htoggle]
    by_cases hji : j = i
    · subst hji
      exact shows_redraw.mpr rfl
    · have hloc : (toggled (s.blinkArray i)).location = (s.blinkArray i).location := rfl
      exact h.redraw_of_ne hi hloc j hj hji

theorem tasklet (h : Displayed s l) {visited : List Slot} (hsub : ∀ i ∈ visited, i ∈ l) :
    Displayed (visited.foldl Fish.taskletEntry s) l := by
  induction visited generalizing s with
  | nil => exact h
  | cons i visited ih =>
    exact ih (h.taskletEntry (hsub i (List.mem_cons_self ..)))
      fun j hj => hsub j (List.mem_cons_of_mem _ hj)

theorem add (h : Displayed s l) {arg : Blink} (hloc : arg.location < 80 * 25)
    (hfree : s.mp1Malloc = some i) (hzero : arg.location ≠ 0)
    (hapart : ∀ j ∈ l, (s.blinkArray j).location ≠ arg.location) :
    i ∉ l ∧ Displayed (s.mp1IoctlAdd arg).2 (i :: l) := by
  have hi : i ∉ l := fun hmem => h.nonzero i hmem (mp1Malloc_eq_some.mp hfree).1
  have hnew := add_location hloc hfree
  have hold : ∀ j ∈ l, (s.mp1IoctlAdd arg).2.blinkArray j = s.blinkArray j := by
    intro j hj
    refine add_contents_of_ne hloc hfree ?_
    rintro rfl
    exact hi hj
  refine ⟨hi, ⟨?_, ?_, ?_⟩⟩
  · intro j hj k hk hjk
    rcases List.mem_cons.mp hj with hji | hjl <;> rcases List.mem_cons.mp hk with hki | hkl
    · rw [hji, hki]
    · rw [hji, hnew, hold k hkl] at hjk
      exact absurd hjk.symm (hapart k hkl)
    · rw [hki, hnew, hold j hjl] at hjk
      exact absurd hjk (hapart j hjl)
    · rw [hold j hjl, hold k hkl] at hjk
      exact h.apart j hjl k hkl hjk
  · intro j hj
    rcases List.mem_cons.mp hj with rfl | hj
    · rwa [hnew]
    · rw [hold j hj]
      exact h.nonzero j hj
  · intro j hj
    rcases List.mem_cons.mp hj with rfl | hj
    · have hon : ¬(1 : UInt16) &&& 1 = 0 := by decide
      rw [mp1IoctlAdd_eq hloc hfree]
      exact shows_redraw.mpr (if_neg hon).symm
    · have hoffset : (s.blinkArray j).offset ≠ arg.offset := mt offset_eq_iff.mp (hapart j hj)
      rw [Shows, hold j hj, mp1IoctlAdd_eq hloc hfree, mp1Poke_vmem_of_ne hoffset]
      exact h.shown j hj

theorem erase (h : Displayed s l) {eax : Slot} (hvmem : s'.vmem = s.vmem)
    (hkept : ∀ j ≠ eax, s'.contents j = s.contents j) (hnodup : l.Nodup) :
    Displayed s' (l.erase eax) := by
  have hmem : ∀ j ∈ l.erase eax, j ∈ l ∧ j ≠ eax := fun j hj =>
    ⟨List.mem_of_mem_erase hj, fun he => hnodup.not_mem_erase (he ▸ hj)⟩
  have hloc : ∀ j ∈ l.erase eax, (s'.blinkArray j).location = (s.blinkArray j).location := by
    intro j hj
    rw [← contents_location, hkept j (hmem j hj).2, contents_location]
  refine ⟨fun j hj k hk hjk => ?_, fun j hj => ?_, fun j hj => ?_⟩
  · rw [hloc j hj, hloc k hk] at hjk
    exact h.apart j (hmem j hj).1 k (hmem k hk).1 hjk
  · rw [hloc j hj]
    exact h.nonzero j (hmem j hj).1
  · change s'.vmem (s'.contents j).offset = (s'.contents j).phaseChar
    rw [hvmem, hkept j (hmem j hj).2]
    exact h.shown j (hmem j hj).1

/-- A SYNC displays the character of the off phase on the second entry, whatever it copied. -/
theorem sync_iff (h : Displayed s l) {esi edi : Slot} (hi : edi ∈ l) :
    (∀ j ∈ l, ((s.setBlink edi (s.synced esi edi)).mp1Poke (s.synced esi edi).offset
        (syncChar (s.synced esi edi))).Shows j) ↔
      (s.blinkArray esi).status &&& 1 = 0 ∨
        (s.blinkArray edi).onChar = (s.blinkArray edi).offChar := by
  have hedi : ((s.setBlink edi (s.synced esi edi)).mp1Poke (s.synced esi edi).offset
      (syncChar (s.synced esi edi))).Shows edi ↔
        syncChar (s.synced esi edi) = (s.synced esi edi).phaseChar := shows_redraw
  have hchar : syncChar (s.synced esi edi) = (s.synced esi edi).phaseChar ↔
      (s.blinkArray esi).status &&& 1 = 0 ∨
        (s.blinkArray edi).onChar = (s.blinkArray edi).offChar := by
    have hstatus : (s.synced esi edi).status = (s.blinkArray esi).status := rfl
    rw [syncChar_eq, Blink.phaseChar, hstatus]
    by_cases hoff : (s.blinkArray esi).status &&& 1 = 0
    · rw [if_pos hoff]
      exact iff_of_true rfl (.inl hoff)
    · rw [if_neg hoff, or_iff_right hoff]
      exact eq_comm
  rw [← hchar, ← hedi]
  constructor
  · exact fun hall => hall edi hi
  · intro hshown j hj
    by_cases hji : j = edi
    · rwa [hji]
    · have hloc : (s.synced esi edi).location = (s.blinkArray edi).location := rfl
      exact h.redraw_of_ne hi hloc j hj hji

end Displayed
end Fish

open Fish

def ShowsPhases (_ : Fish) (_ : Mp1Call) (_ : Mp1Answer) (s' : Fish) : Prop :=
  ∀ i, s'.OnList i → s'.Shows i

def AddsApart (s : Fish) (call : Mp1Call) (_ : Mp1Answer) (_ : Fish) : Prop :=
  ∀ arg, call = .add arg →
    arg.location ≠ 0 ∧ ∀ i, s.OnList i → (s.blinkArray i).location ≠ arg.location

/-- A SYNC copies the off phase, or the second entry has one character for both phases. -/
def SyncsOffPhase (s : Fish) (call : Mp1Call) (_ : Mp1Answer) (_ : Fish) : Prop :=
  ∀ arg, call = .sync arg → ∀ i j, s.OnList i → s.OnList j →
    (s.blinkArray i).location = (arg >>> 16).toUInt16 →
    (s.blinkArray j).location = (arg &&& 0xFFFF).toUInt16 →
      (s.blinkArray i).status &&& 1 = 0 ∨ (s.blinkArray j).onChar = (s.blinkArray j).offChar

theorem syncsOffPhase_of_ne {s s' : Fish} {call : Mp1Call} {answer : Mp1Answer}
    (h : ∀ arg, call ≠ .sync arg) : SyncsOffPhase s call answer s' :=
  fun arg harg => absurd harg (h arg)

def Rephased (s : Fish) (call : Mp1Call) (answer : Mp1Answer) (s' : Fish) : Prop :=
  ∃ l, Threaded s' l ∧ (SyncsOffPhase s call answer s' → Displayed s' l) ∧
    ((∀ i ∈ l, s'.Shows i) → SyncsOffPhase s call answer s')

section calls
variable {s s' : Fish} {answer : Mp1Answer} {l : List Slot}

theorem rephased_of_displayed {call : Mp1Call} (h : Threaded s' l) (hd : Displayed s' l)
    (hne : ∀ arg, call ≠ .sync arg) : Rephased s call answer s' :=
  ⟨l, h, fun _ => hd, fun _ => syncsOffPhase_of_ne hne⟩

theorem add_rephased {arg : Blink} (h : Threaded s l) (hd : Displayed s l)
    (hcall : mp1Calls s (.add arg) = some (answer, s')) (hadds : AddsApart s (.add arg) answer s') :
    Rephased s (.add arg) answer s' := by
  simp only [mp1Calls, Option.some.injEq, Prod.mk.injEq] at hcall
  obtain ⟨-, rfl⟩ := hcall
  obtain ⟨hzero, hapart⟩ := hadds arg rfl
  have hapart' : ∀ j ∈ l, (s.blinkArray j).location ≠ arg.location :=
    fun j hj => hapart j (h.onList_iff.mpr hj)
  by_cases hloc : arg.location < 80 * 25
  · cases hfree : s.mp1Malloc with
    | none =>
      rw [mp1IoctlAdd_refused (.inr hfree)]
      exact rephased_of_displayed h hd (by simp)
    | some i =>
      obtain ⟨hi, hdisplayed⟩ := hd.add hloc hfree hzero hapart'
      exact rephased_of_displayed (h.add hloc hfree hi) hdisplayed (by simp)
  · rw [mp1IoctlAdd_refused (.inl hloc)]
    exact rephased_of_displayed h hd (by simp)

theorem remove_rephased {arg : UInt32} (h : Threaded s l) (hd : Displayed s l)
    (hcall : mp1Calls s (.remove arg) = some (answer, s')) :
    Rephased s (.remove arg) answer s' := by
  simp only [mp1Calls, Option.map_eq_some_iff, Prod.mk.injEq] at hcall
  obtain ⟨⟨ret, t⟩, hremoved, -, rfl⟩ := hcall
  obtain ⟨l', h', -⟩ := remove_step h hremoved
  rcases mp1IoctlRemove_cases h.linked hremoved with ⟨-, rfl⟩ |
    ⟨eax, -, edx, -, -, ht, hlinked⟩
  · exact rephased_of_displayed h hd (by simp)
  · obtain rfl := h'.linked.unique hlinked
    refine rephased_of_displayed h' (hd.erase ?_ (fun j hj => ?_) h.linked.nodup) (by simp)
    · rw [ht]
      exact store_vmem ..
    · rw [ht, mp1Free_contents hj, store_contents]

theorem sync_rephased {arg : UInt32} (h : Threaded s l) (hd : Displayed s l)
    (hcall : mp1Calls s (.sync arg) = some (answer, s')) : Rephased s (.sync arg) answer s' := by
  simp only [mp1Calls, Option.map_eq_some_iff, Prod.mk.injEq] at hcall
  obtain ⟨⟨ret, t⟩, hsync, -, rfl⟩ := hcall
  rcases mp1IoctlSync_cases h.linked hsync with ⟨rfl, hmissing⟩ |
    ⟨esi, hesi, edi, hedi, hfirst, hsecond, rfl⟩
  · refine ⟨l, h, fun _ => hd, fun _ => ?_⟩
    rintro _ ⟨⟩ i j hi hj hi' hj'
    exact absurd hj' (hmissing i (h.onList_iff.mp hi) j (h.onList_iff.mp hj) hi')
  · have hset : SameList s (s.setBlink edi (s.synced esi edi)) := sameList_setBlink rfl rfl
    have hsame := hset.trans (sameList_poke _ (s.synced esi edi).offset
      (syncChar (s.synced esi edi)))
    refine ⟨l, h.congr hsame, fun hoff => hd.of_shown hsame ?_, fun hshown => ?_⟩
    · exact (hd.sync_iff hedi).mpr
        (hoff arg rfl esi edi ⟨l, h.linked, hesi⟩ ⟨l, h.linked, hedi⟩ hfirst hsecond)
    · rintro _ ⟨⟩ i j hi hj hi' hj'
      obtain rfl := hd.apart i (h.onList_iff.mp hi) esi hesi (hi'.trans hfirst.symm)
      obtain rfl := hd.apart j (h.onList_iff.mp hj) edi hedi (hj'.trans hsecond.symm)
      exact (hd.sync_iff hedi).mp hshown

end calls

theorem phases_step {s s' : Fish} {call : Mp1Call} {answer : Mp1Answer}
    (hinv : ∃ l, Threaded s l ∧ Displayed s l) (hcall : mp1Calls s call = some (answer, s'))
    (hadds : AddsApart s call answer s') :
    (ShowsPhases s call answer s' ↔ SyncsOffPhase s call answer s') ∧
      (SyncsOffPhase s call answer s' → ∃ l, Threaded s' l ∧ Displayed s' l) := by
  obtain ⟨l, h, hd⟩ := hinv
  have hmain : Rephased s call answer s' := by
    cases call with
    | add arg => exact add_rephased h hd hcall hadds
    | remove arg => exact remove_rephased h hd hcall
    | find location =>
      simp only [mp1Calls, Option.map_eq_some_iff, Prod.mk.injEq] at hcall
      obtain ⟨_, -, -, rfl⟩ := hcall
      exact rephased_of_displayed h hd (by simp)
    | sync arg => exact sync_rephased h hd hcall
    | tasklet =>
      simp only [mp1Calls, tasklet_eq h.linked, Option.map_some, Option.some.injEq,
        Prod.mk.injEq] at hcall
      obtain ⟨-, rfl⟩ := hcall
      exact rephased_of_displayed (h.congr (foldl_taskletEntry_sameList s l))
        (hd.tasklet fun _ hi => hi) (by simp)
  obtain ⟨l', h', hgood, hneeds⟩ := hmain
  refine ⟨⟨fun hshows => hneeds fun i hi => hshows i (h'.onList_iff.mpr hi), ?_⟩,
    fun hsync => ⟨l', h', hgood hsync⟩⟩
  exact fun hsync i hi => (hgood hsync).shown i (h'.onList_iff.mp hi)

/-- Along every sequence of calls that adds entries at different locations other than 0, the screen
shows each entry's phase exactly as long as no SYNC copies the on phase to an entry with two
characters. -/
theorem screen_shows_phases_iff (vmem : Nat → UInt8) (calls : List Mp1Call)
    (hadds : mp1Calls.Always AddsApart (.start vmem) calls) :
    mp1Calls.Always ShowsPhases (.start vmem) calls ↔
      mp1Calls.Always SyncsOffPhase (.start vmem) calls := by
  refine Machine.always_iff_on (fun s => ∃ l, Threaded s l ∧ Displayed s l) ?_
    ⟨[], .start vmem, nofun, nofun, nofun⟩ hadds
  intro s call answer s' hinv h hadd
  exact phases_step hinv h hadd

def sampleFirst : Fish := ((Fish.start fun _ => 0).mp1IoctlAdd sampleBlink).2

def sampleNeighbour : Blink := ⟨541, 65, 66, 7, 6, 0, 0, none⟩

def sampleSecond : Fish := (sampleFirst.mp1IoctlAdd sampleNeighbour).2

theorem sampleFirst_linked : Linked sampleFirst.next sampleFirst.listHead [0] := by
  have hhead : sampleFirst.listHead = some 0 := rfl
  have hnext : sampleFirst.next 0 = none := rfl
  rw [hhead]
  refine .cons ?_
  rw [hnext]
  exact .nil

theorem sampleSecond_linked : Linked sampleSecond.next sampleSecond.listHead [1, 0] := by
  have hhead : sampleSecond.listHead = some 1 := rfl
  have hnext : sampleSecond.next 1 = some 0 := rfl
  have hlast : sampleSecond.next 0 = none := rfl
  rw [hhead]
  refine .cons ?_
  rw [hnext]
  refine .cons ?_
  rw [hlast]
  exact .nil

theorem sampleBlink_apart : ∀ o s', AddsApart (.start fun _ => 0) (.add sampleBlink) o s' := by
  rintro o s' _ ⟨⟩
  refine ⟨by decide, ?_⟩
  rintro i ⟨l, hl, hi⟩
  cases hl
  simp at hi

theorem sampleNeighbour_apart : ∀ o s', AddsApart sampleFirst (.add sampleNeighbour) o s' := by
  rintro o s' _ ⟨⟩
  refine ⟨by decide, ?_⟩
  rintro i ⟨l, hl, hi⟩
  obtain rfl := sampleFirst_linked.unique hl
  obtain rfl : i = 0 := by simpa using hi
  decide

def sampleSync : List Mp1Call := [.add sampleBlink, .add sampleNeighbour, .sync 0x21C021D]

theorem sampleSync_addsApart : mp1Calls.Always AddsApart (.start fun _ => 0) sampleSync := by
  rintro o s ⟨⟩
  refine ⟨sampleBlink_apart _ _, ?_⟩
  rintro o s ⟨⟩
  refine ⟨sampleNeighbour_apart _ _, ?_⟩
  rintro o s -
  exact ⟨nofun, trivial⟩

theorem sample_phases_iff :
    mp1Calls.Always ShowsPhases (.start fun _ => 0) sampleSync ↔
      mp1Calls.Always SyncsOffPhase (.start fun _ => 0) sampleSync :=
  screen_shows_phases_iff _ _ sampleSync_addsApart

/-- The second character is in its on phase after the SYNC, and the screen shows its off
character. -/
theorem sync_displays_the_wrong_phase :
    ¬∀ calls, mp1Calls.Always AddsApart (.start fun _ => 0) calls →
      mp1Calls.Always ShowsPhases (.start fun _ => 0) calls := by
  intro hall
  have h := hall sampleSync sampleSync_addsApart
  obtain ⟨-, h⟩ := h _ _ rfl
  obtain ⟨-, h⟩ := h _ _ rfl
  have hsync : ∃ o s', mp1Calls sampleSecond (.sync 0x21C021D) = some (o, s') ∧
      SameList sampleSecond s' ∧ ¬s'.Shows 1 := by
    refine ⟨_, _, rfl, ?_, by decide⟩
    have hset : SameList sampleSecond (sampleSecond.setBlink 1 (sampleSecond.synced 0 1)) :=
      sameList_setBlink rfl rfl
    exact hset.trans (sameList_poke ..)
  obtain ⟨o, s', hcall, hsame, hshows⟩ := hsync
  obtain ⟨hphases, -⟩ := h _ _ hcall
  refine hshows (hphases 1 ⟨[1, 0], ?_, by decide⟩)
  rw [hsame.next, hsame.listHead]
  exact sampleSecond_linked

end MyLinuxOS
