import MyLinuxOS.Foundation.Linked
import MyLinuxOS.Fish.Blink

/-! The list of blinking characters over every sequence of calls: it ends in NULL and no slot on it
is handed out, as long as no entry sits at location 0. -/

namespace MyLinuxOS
open Foundation

namespace Fish

def next (s : Fish) : Slot → Option Slot := fun i => (s.blinkArray i).next

@[simp] theorem setBlink_listHead (s : Fish) (i : Slot) (b : Blink) :
    (s.setBlink i b).listHead = s.listHead := rfl

@[simp] theorem setBlink_self (s : Fish) (i : Slot) (b : Blink) :
    (s.setBlink i b).blinkArray i = b := Function.update_self ..

@[simp] theorem setBlink_of_ne {i j : Slot} (h : j ≠ i) (s : Fish) (b : Blink) :
    (s.setBlink i b).blinkArray j = s.blinkArray j := Function.update_of_ne h ..

@[simp] theorem mp1Poke_listHead (s : Fish) (offset : Nat) (cl : UInt8) :
    (s.mp1Poke offset cl).listHead = s.listHead := rfl

@[simp] theorem mp1Poke_blinkArray (s : Fish) (offset : Nat) (cl : UInt8) :
    (s.mp1Poke offset cl).blinkArray = s.blinkArray := rfl

@[simp] theorem mp1Poke_next (s : Fish) (offset : Nat) (cl : UInt8) :
    (s.mp1Poke offset cl).next = s.next := rfl

@[simp] theorem setBlink_next (s : Fish) (i : Slot) (b : Blink) :
    (s.setBlink i b).next = Function.update s.next i b.next := by
  funext j
  by_cases hj : j = i
  · subst hj
    rw [next, setBlink_self, Function.update_self]
  · rw [next, setBlink_of_ne hj, Function.update_of_ne hj, next]

theorem slot_ofNat (i : Slot) : Fin.ofNat 2000 i.val = i := Fin.ext (Nat.mod_eq_of_lt i.isLt)

theorem mp1Malloc_eq_none {s : Fish} : s.mp1Malloc = none ↔ ∀ i, (s.blinkArray i).location ≠ 0 := by
  rw [mp1Malloc, Option.map_eq_none_iff, firstFrom_eq_none_iff]
  constructor
  · intro h i
    have hi := h i.val (Nat.zero_le _) (by omega)
    rwa [slot_ofNat] at hi
  · intro h j _ _
    exact h _

theorem mp1Malloc_eq_some {s : Fish} {i : Slot} :
    s.mp1Malloc = some i ↔ (s.blinkArray i).location = 0 ∧
      ∀ j < i, (s.blinkArray j).location ≠ 0 := by
  simp only [mp1Malloc, Option.map_eq_some_iff, firstFrom_eq_some_iff]
  constructor
  · rintro ⟨n, ⟨-, hn, hfree, hmin⟩, rfl⟩
    refine ⟨hfree, fun j hj => ?_⟩
    have hjn : j.val < n := by
      have hval : (Fin.ofNat 2000 n).val = n := Nat.mod_eq_of_lt (by omega)
      have hlt : j.val < (Fin.ofNat 2000 n).val := hj
      omega
    have hused := hmin j.val (Nat.zero_le _) hjn
    rwa [slot_ofNat] at hused
  · rintro ⟨hfree, hmin⟩
    refine ⟨i.val, ⟨Nat.zero_le _, by omega, ?_, fun j _ hj => ?_⟩, slot_ofNat i⟩
    · rwa [slot_ofNat]
    · refine hmin _ ?_
      have hval : (Fin.ofNat 2000 j).val = j := Nat.mod_eq_of_lt (by omega)
      exact Fin.lt_def.mpr (by omega)

def nextUntil (s : Fish) (ax : UInt16) : Slot → Option Slot := fun i =>
  if (s.blinkArray i).location = ax then none else s.next i

theorem mp1FindHelper_isSome (s : Fish) (ax : UInt16) (fuel : Nat) (p : Option Slot) :
    (s.mp1FindHelper ax fuel p).isSome = (follow (s.nextUntil ax) fuel p).isSome := by
  induction fuel generalizing p with
  | zero => cases p <;> rfl
  | succ fuel ih =>
    cases p with
    | none => rfl
    | some i =>
      rw [mp1FindHelper, follow, Option.isSome_map]
      by_cases hloc : (s.blinkArray i).location = ax
      · rw [if_pos hloc, nextUntil, if_pos hloc, follow]
        rfl
      · rw [if_neg hloc, nextUntil, if_neg hloc]
        exact ih _

theorem mp1FindHelper_ends {s : Fish} {ax : UInt16} {fuel : Nat} {p : Option Slot}
    (h : (s.mp1FindHelper ax fuel p).isSome) : (s.mp1FindHelper ax 2000 p).isSome := by
  rw [mp1FindHelper_isSome, Option.isSome_iff_exists] at h
  obtain ⟨l, hl⟩ := h
  have hcard := follow_card hl
  rw [Fintype.card_fin] at hcard
  rw [mp1FindHelper_isSome, hcard]
  rfl

theorem mp1FindHelper_eq {s : Fish} {p : Option Slot} {l : List Slot} (h : Linked s.next p l)
    (ax : UInt16) {fuel : Nat} (hfuel : l.length ≤ fuel) :
    s.mp1FindHelper ax fuel p = some (l.find? fun i => (s.blinkArray i).location = ax) := by
  induction fuel generalizing p l with
  | zero =>
    obtain rfl := List.length_eq_zero_iff.mp (Nat.le_zero.mp hfuel)
    cases h
    rfl
  | succ fuel ih =>
    cases h with
    | nil => rfl
    | @cons i l h =>
      rw [mp1FindHelper]
      by_cases hloc : (s.blinkArray i).location = ax
      · rw [if_pos hloc, List.find?_cons_of_pos (by simpa using hloc)]
      · rw [if_neg hloc, List.find?_cons_of_neg (by simpa using hloc)]
        exact ih h (Nat.le_of_succ_le_succ hfuel)

theorem slots_length_le {s : Fish} {p : Option Slot} {l : List Slot} (h : Linked s.next p l) :
    l.length ≤ 2000 := by
  simpa using h.length_le_card

theorem find_eq {s : Fish} {l : List Slot} (h : Linked s.next s.listHead l) (ax : UInt16) :
    s.find ax = some (l.find? fun i => (s.blinkArray i).location = ax) :=
  mp1FindHelper_eq h ax (slots_length_le h)

theorem removeFindPrev_eq {s : Fish} {eax : Slot} {edx : Place} {front back : List Slot}
    (h : Linked s.next (s.load edx) (front ++ eax :: back)) {fuel : Nat}
    (hfuel : front.length < fuel) :
    ∃ found, s.removeFindPrev eax fuel edx = some found ∧
      (front = [] ∧ found = edx ∨ ∃ init b, front = init ++ [b] ∧ found = .next b) := by
  induction front generalizing edx fuel with
  | nil =>
    obtain ⟨fuel, rfl⟩ := Nat.exists_eq_add_of_lt hfuel
    have hload : s.load edx = some eax := by
      generalize s.load edx = q at h
      cases h
      rfl
    exact ⟨edx, by simp [removeFindPrev, hload], .inl ⟨rfl, rfl⟩⟩
  | cons b front ih =>
    obtain ⟨fuel, rfl⟩ : ∃ n, fuel = n + 1 := ⟨fuel - 1, by simp at hfuel; omega⟩
    -- no entry occurs twice, so the one that is searched for is further along
    have hne : b ≠ eax := by
      rintro rfl
      exact (List.nodup_cons.mp h.nodup).1 (by simp)
    have hload : s.load edx = some b := by
      generalize s.load edx = q at h
      cases h
      rfl
    rw [hload] at h
    cases h with
    | cons h =>
      have hrest : Linked s.next (s.load (.next b)) (front ++ eax :: back) := h
      obtain ⟨found, hfound, hplace⟩ := ih hrest (Nat.lt_of_succ_lt_succ hfuel)
      refine ⟨found, ?_, .inr ?_⟩
      · rw [removeFindPrev, hload, if_neg (by simpa using hne)]
        exact hfound
      · rcases hplace with ⟨rfl, rfl⟩ | ⟨init, c, rfl, rfl⟩
        · exact ⟨[], b, rfl, rfl⟩
        · exact ⟨b :: init, c, rfl, rfl⟩

def contents (s : Fish) (i : Slot) : Blink := { s.blinkArray i with next := none }

theorem store_contents (s : Fish) (q : Option Slot) (edx : Place) (i : Slot) :
    (s.store q edx).contents i = s.contents i := by
  cases edx with
  | listHead => rfl
  | next j =>
    by_cases hi : i = j
    · subst hi
      simp [store, contents]
    · simp [store, contents, hi]

theorem mp1Free_contents {i j : Slot} (h : j ≠ i) (s : Fish) :
    (s.mp1Free i).contents j = s.contents j := by
  rw [mp1Free, contents, setBlink_of_ne h, contents]

theorem contents_location (s : Fish) (i : Slot) :
    (s.contents i).location = (s.blinkArray i).location := rfl

theorem remove_eq {s : Fish} {l : List Slot} {eax : Slot} (h : Linked s.next s.listHead l)
    (hmem : eax ∈ l) :
    ∃ edx, s.removeFindPrev eax 2000 .listHead = some edx ∧
      Linked ((s.store (s.blinkArray eax).next edx).mp1Free eax).next
        ((s.store (s.blinkArray eax).next edx).mp1Free eax).listHead (l.erase eax) := by
  obtain ⟨front, back, rfl⟩ := List.append_of_mem hmem
  have hlen := slots_length_le h
  simp only [List.length_append, List.length_cons] at hlen
  have hsplit := List.nodup_append.mp h.nodup
  have hfront : eax ∉ front := fun hin => hsplit.2.2 _ hin _ (List.mem_cons_self ..) rfl
  have hback : eax ∉ back := (List.nodup_cons.mp hsplit.2.1).1
  have herase : (front ++ eax :: back).erase eax = front ++ back := by
    rw [List.erase_append_right _ hfront, List.erase_cons_head]
  have hload : Linked s.next (s.load .listHead) (front ++ eax :: back) := h
  obtain ⟨edx, hedx, hplace⟩ := removeFindPrev_eq hload (show front.length < 2000 by omega)
  refine ⟨edx, hedx, ?_⟩
  rw [herase, mp1Free, setBlink_next]
  rcases hplace with ⟨rfl, rfl⟩ | ⟨init, b, rfl, rfl⟩
  · have hrest := h.from_node
    cases hrest with
    | cons hrest => exact hrest.update hback _
  · rw [List.append_assoc] at h
    have hunlinked := h.unlink
    rw [List.append_assoc, store, setBlink_next]
    refine hunlinked.update ?_ _
    simp only [List.mem_append, List.mem_singleton, not_or] at hfront
    simp only [List.mem_append, List.mem_cons, not_or]
    exact ⟨hfront.1, hfront.2, hback⟩

structure SameList (s s' : Fish) : Prop where
  listHead : s'.listHead = s.listHead
  next : s'.next = s.next
  location : ∀ i, (s'.blinkArray i).location = (s.blinkArray i).location

theorem SameList.refl (s : Fish) : SameList s s := ⟨rfl, rfl, fun _ => rfl⟩

theorem SameList.trans {s t u : Fish} (h : SameList s t) (h' : SameList t u) : SameList s u :=
  ⟨h'.listHead.trans h.listHead, h'.next.trans h.next,
    fun i => (h'.location i).trans (h.location i)⟩

theorem sameList_poke (s : Fish) (offset : Nat) (cl : UInt8) : SameList s (s.mp1Poke offset cl) :=
  ⟨rfl, rfl, fun _ => rfl⟩

theorem sameList_setBlink {s : Fish} {i : Slot} {b : Blink} (hnext : b.next = s.next i)
    (hloc : b.location = (s.blinkArray i).location) : SameList s (s.setBlink i b) := by
  refine ⟨rfl, ?_, fun j => ?_⟩
  · rw [setBlink_next, hnext, Function.update_eq_self]
  · by_cases hj : j = i
    · subst hj
      rw [setBlink_self, hloc]
    · rw [setBlink_of_ne hj]

theorem taskletEntry_sameList (s : Fish) (i : Slot) : SameList s (s.taskletEntry i) := by
  rw [taskletEntry]
  split_ifs
  · exact sameList_setBlink rfl rfl
  · exact (sameList_poke ..).trans (sameList_setBlink rfl rfl)
  · exact (sameList_poke ..).trans (sameList_setBlink rfl rfl)

theorem foldl_taskletEntry_sameList (s : Fish) (l : List Slot) :
    SameList s (l.foldl taskletEntry s) := by
  induction l generalizing s with
  | nil => exact .refl s
  | cons i l ih => exact (taskletEntry_sameList s i).trans (ih _)

theorem mp1RtcTasklet_eq (s : Fish) (fuel : Nat) (p : Option Slot) :
    mp1RtcTasklet fuel p s = (follow s.next fuel p).map fun l => l.foldl taskletEntry s := by
  induction fuel generalizing s p with
  | zero => cases p <;> rfl
  | succ fuel ih =>
    cases p with
    | none => rfl
    | some i =>
      have hsame := (taskletEntry_sameList s i).next
      rw [mp1RtcTasklet, ih, follow, Option.map_map, hsame]
      exact congrArg (fun q => (follow s.next fuel q).map _) (congrFun hsame i)

theorem mp1RtcTasklet_ends {s t : Fish} {fuel : Nat} {p : Option Slot}
    (h : mp1RtcTasklet fuel p s = some t) : mp1RtcTasklet 2000 p s = some t := by
  rw [mp1RtcTasklet_eq, Option.map_eq_some_iff] at h
  obtain ⟨l, hl, rfl⟩ := h
  have hcard := follow_card hl
  rw [Fintype.card_fin] at hcard
  rw [mp1RtcTasklet_eq, hcard]
  rfl

theorem tasklet_eq {s : Fish} {l : List Slot} (h : Linked s.next s.listHead l) :
    mp1RtcTasklet 2000 s.listHead s = some (l.foldl taskletEntry s) := by
  rw [mp1RtcTasklet_eq, follow_eq_some_iff.mpr ⟨h, slots_length_le h⟩]
  rfl

theorem mp1IoctlRemove_cases {s s' : Fish} {l : List Slot} {arg : UInt32} {ret : Int}
    (h : Linked s.next s.listHead l) (hcall : s.mp1IoctlRemove arg = some (ret, s')) :
    (ret = -1 ∧ s' = s) ∨
      ∃ eax ∈ l, ∃ edx, (s.blinkArray eax).location = arg.toUInt16 ∧ ret = 0 ∧
        s' = (s.store (s.blinkArray eax).next edx).mp1Free eax ∧
        Linked s'.next s'.listHead (l.erase eax) := by
  rw [mp1IoctlRemove, find_eq h, Option.bind_some] at hcall
  cases hfind : l.find? fun i => (s.blinkArray i).location = arg.toUInt16 with
  | none =>
    simp only [hfind, Option.some.injEq, Prod.mk.injEq] at hcall
    exact .inl ⟨hcall.1.symm, hcall.2.symm⟩
  | some eax =>
    have hmem := List.mem_of_find?_eq_some hfind
    have hloc := List.find?_some hfind
    obtain ⟨edx, hedx, hlinked⟩ := remove_eq h hmem
    simp only [hfind, hedx, Option.map_some, Option.some.injEq, Prod.mk.injEq] at hcall
    obtain ⟨rfl, rfl⟩ := hcall
    exact .inr ⟨eax, hmem, edx, by simpa using hloc, rfl, rfl, hlinked⟩

theorem mp1IoctlSync_cases {s s' : Fish} {l : List Slot} {arg : UInt32} {ret : Int}
    (h : Linked s.next s.listHead l) (hcall : s.mp1IoctlSync arg = some (ret, s')) :
    (s' = s ∧ ∀ i ∈ l, ∀ j ∈ l, (s.blinkArray i).location = (arg >>> 16).toUInt16 →
        (s.blinkArray j).location ≠ (arg &&& 0xFFFF).toUInt16) ∨
      ∃ esi ∈ l, ∃ edi ∈ l, (s.blinkArray esi).location = (arg >>> 16).toUInt16 ∧
        (s.blinkArray edi).location = (arg &&& 0xFFFF).toUInt16 ∧
        s' = (s.setBlink edi (s.synced esi edi)).mp1Poke (s.synced esi edi).offset
          (syncChar (s.synced esi edi)) := by
  rw [mp1IoctlSync, find_eq h, Option.bind_some] at hcall
  cases hfirst : l.find? fun i => (s.blinkArray i).location = (arg >>> 16).toUInt16 with
  | none =>
    simp only [hfirst, Option.some.injEq, Prod.mk.injEq] at hcall
    refine .inl ⟨hcall.2.symm, fun i hi j _ hloc => ?_⟩
    exact absurd hloc (by simpa using List.find?_eq_none.mp hfirst i hi)
  | some esi =>
    simp only [hfirst] at hcall
    rw [find_eq h, Option.map_some] at hcall
    cases hsecond : l.find? fun i => (s.blinkArray i).location = (arg &&& 0xFFFF).toUInt16 with
    | none =>
      simp only [hsecond, Option.some.injEq, Prod.mk.injEq] at hcall
      refine .inl ⟨hcall.2.symm, fun i _ j hj _ => ?_⟩
      simpa using List.find?_eq_none.mp hsecond j hj
    | some edi =>
      simp only [hsecond, Option.some.injEq, Prod.mk.injEq] at hcall
      have hesi := List.find?_some hfirst
      have hedi := List.find?_some hsecond
      exact .inr ⟨esi, List.mem_of_find?_eq_some hfirst, edi, List.mem_of_find?_eq_some hsecond,
        by simpa using hesi, by simpa using hedi, hcall.2.symm⟩

/-- The list leads through `l` to NULL, and every slot off it is free. -/
structure Threaded (s : Fish) (l : List Slot) : Prop where
  linked : Linked s.next s.listHead l
  free : ∀ i, i ∉ l → (s.blinkArray i).location = 0

def OnList (s : Fish) (i : Slot) : Prop := ∃ l, Linked s.next s.listHead l ∧ i ∈ l

namespace Threaded
variable {s s' : Fish} {l : List Slot}

theorem start (vmem : Nat → UInt8) : Threaded (.start vmem) [] := ⟨.nil, fun _ _ => rfl⟩

theorem onList_iff (h : Threaded s l) {i : Slot} : s.OnList i ↔ i ∈ l := by
  constructor
  · rintro ⟨l', h', hi⟩
    rwa [h.linked.unique h']
  · exact fun hi => ⟨l, h.linked, hi⟩

theorem congr (h : Threaded s l) (hsame : SameList s s') : Threaded s' l := by
  refine ⟨?_, fun i hi => (hsame.location i).trans (h.free i hi)⟩
  rw [hsame.next, hsame.listHead]
  exact h.linked

theorem call_ends (h : Threaded s l) (call : Mp1Call) : (mp1Calls s call).isSome := by
  have hfind := find_eq h.linked
  cases call with
  | add arg => rfl
  | remove arg =>
    simp only [mp1Calls, mp1IoctlRemove, hfind, Option.bind_some, Option.isSome_map]
    cases hfound : l.find? fun i => (s.blinkArray i).location = arg.toUInt16 with
    | none => rfl
    | some eax =>
      obtain ⟨edx, hedx, -⟩ := remove_eq h.linked (List.mem_of_find?_eq_some hfound)
      simp only [hedx, Option.map_some, Option.isSome_some]
  | find location =>
    simp only [mp1Calls, mp1IoctlFind, hfind, Option.map_some, Option.isSome_some]
  | sync arg =>
    simp only [mp1Calls, mp1IoctlSync, hfind, Option.bind_some, Option.isSome_map]
    cases l.find? fun i => (s.blinkArray i).location = (arg >>> 16).toUInt16 <;> rfl
  | tasklet => simp only [mp1Calls, tasklet_eq h.linked, Option.map_some, Option.isSome_some]

end Threaded
end Fish

def Mp1Call.Relinks (call : Mp1Call) (answer : Mp1Answer) : Prop :=
  answer.ret = 0 ∧ ((∃ arg, call = .add arg) ∨ ∃ arg, call = .remove arg)

theorem not_relinks {call : Mp1Call} {answer : Mp1Answer} (h : answer.ret = -1) :
    ¬call.Relinks answer := by
  rintro ⟨hret, -⟩
  omega

/-- A call takes the list `l` to the list `l'`: the slot handed out was not on it, the slot taken
out is free again, no other entry comes, goes or moves, and every call made next ends. -/
structure KeepsList (s : Fish) (call : Mp1Call) (answer : Mp1Answer) (s' : Fish)
    (l l' : List Slot) : Prop where
  before : Linked s.next s.listHead l
  after : Linked s'.next s'.listHead l'
  distinct : l'.Nodup
  added : answer.ret = 0 → ∀ arg, call = .add arg → ∃ i, s.mp1Malloc = some i ∧ i ∉ l ∧
    l' = i :: l ∧ (s'.blinkArray i).location = arg.location
  removed : answer.ret = 0 → ∀ arg, call = .remove arg → ∃ i ∈ l,
    (s.blinkArray i).location = arg.toUInt16 ∧ l' = l.erase i ∧ i ∉ l' ∧
      (s'.blinkArray i).location = 0
  kept : ¬call.Relinks answer → l' = l
  entries : ∀ i ∈ l, i ∈ l' → (s'.blinkArray i).location = (s.blinkArray i).location
  ends : ∀ next, (mp1Calls s' next).isSome
  finds : ∀ ax, s'.find ax = some (l'.find? fun i => (s'.blinkArray i).location = ax)

def ListStaysWellFormed (s : Fish) (call : Mp1Call) (answer : Mp1Answer) (s' : Fish) : Prop :=
  ∃ l l', KeepsList s call answer s' l l'

/-- When an entry is added, below every listed slot whose location is 0 there is a slot that is not
listed. -/
def FreeSlotComesFirst (s : Fish) (call : Mp1Call) (_ : Mp1Answer) (_ : Fish) : Prop :=
  ∀ arg, call = .add arg → arg.location < 80 * 25 →
    ∀ i, s.OnList i → (s.blinkArray i).location = 0 → ∃ j < i, ¬s.OnList j

open Fish

theorem keepsList_of_same {s s' : Fish} {l : List Slot} {call : Mp1Call} {answer : Mp1Answer}
    (h : Threaded s l) (hsame : SameList s s') (hcall : ¬call.Relinks answer) :
    KeepsList s call answer s' l l := by
  have h' := h.congr hsame
  refine ⟨h.linked, h'.linked, h.linked.nodup, ?_, ?_, fun _ => rfl, fun i _ _ => hsame.location i,
    h'.call_ends, find_eq h'.linked⟩
  · exact fun hret arg harg => absurd ⟨hret, .inl ⟨arg, harg⟩⟩ hcall
  · exact fun hret arg harg => absurd ⟨hret, .inr ⟨arg, harg⟩⟩ hcall

theorem freeSlotComesFirst_iff {s : Fish} {l : List Slot} {arg : Blink} {answer : Mp1Answer}
    {s' : Fish} {i : Slot} (h : Threaded s l) (hloc : arg.location < 80 * 25)
    (hfree : s.mp1Malloc = some i) : FreeSlotComesFirst s (.add arg) answer s' ↔ i ∉ l := by
  obtain ⟨hzero, hmin⟩ := mp1Malloc_eq_some.mp hfree
  constructor
  · intro hfirst hi
    obtain ⟨j, hj, hoff⟩ := hfirst arg rfl hloc i (h.onList_iff.mpr hi) hzero
    exact hmin j hj (h.free j fun hmem => hoff (h.onList_iff.mpr hmem))
  · rintro hi _ ⟨⟩ - j hj hjzero
    have hjl := h.onList_iff.mp hj
    have hne : i ≠ j := fun he => hi (he ▸ hjl)
    have hle : i ≤ j := Fin.not_lt.mp fun hlt => hmin j hlt hjzero
    exact ⟨i, lt_of_le_of_ne hle hne, fun hon => hi (h.onList_iff.mp hon)⟩

theorem mp1IoctlAdd_eq {s : Fish} {arg : Blink} {i : Slot} (hloc : arg.location < 80 * 25)
    (hfree : s.mp1Malloc = some i) :
    s.mp1IoctlAdd arg =
      (0, ({ s.setBlink i { arg with
          status := 1, countdown := arg.onLength, next := s.listHead } with
        listHead := some i } : Fish).mp1Poke arg.offset arg.onChar) := by
  have hpass : ¬80 * 25 ≤ arg.location := UInt16.not_le.mpr hloc
  simp only [mp1IoctlAdd, if_neg hpass, hfree]
  rfl

theorem mp1IoctlAdd_refused {s : Fish} {arg : Blink}
    (h : ¬arg.location < 80 * 25 ∨ s.mp1Malloc = none) : s.mp1IoctlAdd arg = (-1, s) := by
  rw [mp1IoctlAdd]
  by_cases hloc : 80 * 25 ≤ arg.location
  · rw [if_pos hloc]
  · rw [if_neg hloc]
    rcases h with h | h
    · exact absurd (UInt16.not_le.mp hloc) h
    · simp only [h]

theorem Fish.Threaded.add {s : Fish} {l : List Slot} {arg : Blink} {i : Slot} (h : Threaded s l)
    (hloc : arg.location < 80 * 25) (hfree : s.mp1Malloc = some i) (hi : i ∉ l) :
    Threaded (s.mp1IoctlAdd arg).2 (i :: l) := by
  rw [mp1IoctlAdd_eq hloc hfree]
  refine ⟨?_, fun j hj => ?_⟩
  · have hpushed := h.linked.push hi
    rw [mp1Poke_next]
    change Linked (s.setBlink i _).next (some i) (i :: l)
    rwa [setBlink_next]
  · obtain ⟨hji, hjl⟩ := not_or.mp (mt List.mem_cons.mpr hj)
    rw [mp1Poke_blinkArray]
    change ((s.setBlink i _).blinkArray j).location = 0
    rw [setBlink_of_ne hji]
    exact h.free j hjl

theorem add_location {s : Fish} {arg : Blink} {i : Slot} (hloc : arg.location < 80 * 25)
    (hfree : s.mp1Malloc = some i) :
    ((s.mp1IoctlAdd arg).2.blinkArray i).location = arg.location := by
  rw [mp1IoctlAdd_eq hloc hfree, mp1Poke_blinkArray]
  change ((s.setBlink i _).blinkArray i).location = _
  rw [setBlink_self]

theorem add_contents_of_ne {s : Fish} {arg : Blink} {i j : Slot} (hloc : arg.location < 80 * 25)
    (hfree : s.mp1Malloc = some i) (hj : j ≠ i) :
    (s.mp1IoctlAdd arg).2.blinkArray j = s.blinkArray j := by
  rw [mp1IoctlAdd_eq hloc hfree, mp1Poke_blinkArray]
  exact setBlink_of_ne hj ..

theorem add_step {s : Fish} {l : List Slot} (arg : Blink) (h : Threaded s l) :
    ListStaysWellFormed s (.add arg) ⟨(s.mp1IoctlAdd arg).1, none⟩ (s.mp1IoctlAdd arg).2 ↔
      FreeSlotComesFirst s (.add arg) ⟨(s.mp1IoctlAdd arg).1, none⟩ (s.mp1IoctlAdd arg).2 := by
  by_cases hloc : arg.location < 80 * 25
  · cases hfree : s.mp1Malloc with
    | none =>
      rw [mp1IoctlAdd_refused (.inr hfree)]
      refine iff_of_true ⟨l, l, keepsList_of_same h (.refl s) ?_⟩ ?_
      · exact not_relinks rfl
      · exact fun _ _ _ i _ hzero => absurd hzero (mp1Malloc_eq_none.mp hfree i)
    | some i =>
      rw [freeSlotComesFirst_iff h hloc hfree]
      -- the slot that is taken becomes the head: a list again unless it is on the list already
      have hret : (s.mp1IoctlAdd arg).1 = 0 := by rw [mp1IoctlAdd_eq hloc hfree]
      constructor
      · rintro ⟨l₀, l', hkeeps⟩
        obtain ⟨i', hi', hnot, -⟩ := hkeeps.added hret arg rfl
        obtain rfl := hkeeps.before.unique h.linked
        rw [hfree, Option.some.injEq] at hi'
        rwa [hi']
      · intro hi
        have h' := h.add hloc hfree hi
        refine ⟨l, i :: l, h.linked, h'.linked, h'.linked.nodup, ?_, nofun, ?_, ?_, h'.call_ends,
          find_eq h'.linked⟩
        · rintro - _ ⟨⟩
          exact ⟨i, hfree, hi, rfl, add_location hloc hfree⟩
        · exact fun hrelinks => absurd ⟨hret, .inl ⟨arg, rfl⟩⟩ hrelinks
        · intro j hj _
          have hji : j ≠ i := fun he => hi (he ▸ hj)
          rw [add_contents_of_ne hloc hfree hji]
  · rw [mp1IoctlAdd_refused (.inl hloc)]
    refine iff_of_true ⟨l, l, keepsList_of_same h (.refl s) ?_⟩ ?_
    · exact not_relinks rfl
    · rintro _ ⟨⟩ hlt
      exact absurd hlt hloc

theorem remove_step {s s' : Fish} {l : List Slot} {arg : UInt32} {ret : Int} (h : Threaded s l)
    (hcall : s.mp1IoctlRemove arg = some (ret, s')) :
    ∃ l', Threaded s' l' ∧ KeepsList s (.remove arg) ⟨ret, none⟩ s' l l' := by
  rcases mp1IoctlRemove_cases h.linked hcall with ⟨rfl, rfl⟩ |
    ⟨eax, hmem, edx, hloc, rfl, hs', hlinked⟩
  · exact ⟨l, h, keepsList_of_same h (.refl s') (not_relinks rfl)⟩
  · have hcontents : ∀ j ≠ eax, (s'.blinkArray j).location = (s.blinkArray j).location := by
      intro j hj
      rw [← contents_location, ← contents_location, hs', mp1Free_contents hj, store_contents]
    have hzero : (s'.blinkArray eax).location = 0 := by
      rw [hs', mp1Free, setBlink_self]
      rfl
    have hnot : eax ∉ l.erase eax := h.linked.nodup.not_mem_erase
    have h' : Threaded s' (l.erase eax) := by
      refine ⟨hlinked, fun j hj => ?_⟩
      by_cases hje : j = eax
      · rw [hje, hzero]
      · rw [hcontents j hje]
        exact h.free j fun hjl => hj ((List.mem_erase_of_ne hje).mpr hjl)
    refine ⟨l.erase eax, h', h.linked, hlinked, hlinked.nodup, nofun, ?_, ?_, ?_, h'.call_ends,
      find_eq hlinked⟩
    · rintro - _ ⟨⟩
      exact ⟨eax, hmem, hloc, rfl, hnot, hzero⟩
    · exact fun hrelinks => absurd ⟨rfl, .inr ⟨arg, rfl⟩⟩ hrelinks
    · intro j _ hj
      refine hcontents j ?_
      rintro rfl
      exact hnot hj

theorem sameList_of_call {s s' : Fish} {l : List Slot} {call : Mp1Call} {answer : Mp1Answer}
    (h : Threaded s l) (hcall : mp1Calls s call = some (answer, s'))
    (hadd : ∀ arg, call ≠ .add arg) (hremove : ∀ arg, call ≠ .remove arg) : SameList s s' := by
  cases call with
  | add arg => exact absurd rfl (hadd arg)
  | remove arg => exact absurd rfl (hremove arg)
  | find location =>
    simp only [mp1Calls, Option.map_eq_some_iff, Prod.mk.injEq] at hcall
    obtain ⟨_, -, -, rfl⟩ := hcall
    exact .refl s
  | sync arg =>
    simp only [mp1Calls, Option.map_eq_some_iff, Prod.mk.injEq] at hcall
    obtain ⟨⟨ret, t⟩, hsync, -, rfl⟩ := hcall
    rcases mp1IoctlSync_cases h.linked hsync with ⟨rfl, -⟩ | ⟨esi, -, edi, -, -, -, rfl⟩
    · exact .refl _
    · have hset : SameList s (s.setBlink edi (s.synced esi edi)) := sameList_setBlink rfl rfl
      exact hset.trans (sameList_poke ..)
  | tasklet =>
    simp only [mp1Calls, tasklet_eq h.linked, Option.map_some, Option.some.injEq,
      Prod.mk.injEq] at hcall
    obtain ⟨-, rfl⟩ := hcall
    exact foldl_taskletEntry_sameList s l

theorem blinkList_step {s s' : Fish} {call : Mp1Call} {answer : Mp1Answer}
    (hinv : ∃ l, Threaded s l) (hcall : mp1Calls s call = some (answer, s')) :
    (ListStaysWellFormed s call answer s' ↔ FreeSlotComesFirst s call answer s') ∧
      (FreeSlotComesFirst s call answer s' → ∃ l', Threaded s' l') := by
  obtain ⟨l, h⟩ := hinv
  by_cases hadd : ∃ arg, call = .add arg
  · obtain ⟨arg, rfl⟩ := hadd
    simp only [mp1Calls, Option.some.injEq, Prod.mk.injEq] at hcall
    obtain ⟨rfl, rfl⟩ := hcall
    refine ⟨add_step arg h, fun hfirst => ?_⟩
    by_cases hloc : arg.location < 80 * 25
    · cases hfree : s.mp1Malloc with
      | none => exact ⟨l, by rwa [mp1IoctlAdd_refused (.inr hfree)]⟩
      | some i => exact ⟨i :: l, h.add hloc hfree ((freeSlotComesFirst_iff h hloc hfree).mp hfirst)⟩
    · exact ⟨l, by rwa [mp1IoctlAdd_refused (.inl hloc)]⟩
  · have hfirst : FreeSlotComesFirst s call answer s' := fun arg harg => absurd ⟨arg, harg⟩ hadd
    by_cases hremove : ∃ arg, call = .remove arg
    · obtain ⟨arg, rfl⟩ := hremove
      simp only [mp1Calls, Option.map_eq_some_iff, Prod.mk.injEq] at hcall
      obtain ⟨⟨ret, t⟩, hremoved, rfl, rfl⟩ := hcall
      obtain ⟨l', h', hkeeps⟩ := remove_step h hremoved
      exact ⟨iff_of_true ⟨l, l', hkeeps⟩ hfirst, fun _ => ⟨l', h'⟩⟩
    · have hsame := sameList_of_call h hcall (not_exists.mp hadd) (not_exists.mp hremove)
      have hkeeps : KeepsList s call answer s' l l :=
        keepsList_of_same h hsame fun hrelinks => hrelinks.2.elim hadd hremove
      exact ⟨iff_of_true ⟨l, l, hkeeps⟩ hfirst, fun _ => ⟨l, h.congr hsame⟩⟩

/-- From the empty list over the cleared pool, along every sequence of calls: the list stays well
formed exactly as long as no entry at location 0 is the first free slot when one is added. -/
theorem list_stays_well_formed_iff (vmem : Nat → UInt8) (calls : List Mp1Call) :
    mp1Calls.Always ListStaysWellFormed (.start vmem) calls ↔
      mp1Calls.Always FreeSlotComesFirst (.start vmem) calls := by
  refine Machine.always_iff (fun s => ∃ l, Threaded s l) ?_ ⟨[], .start vmem⟩
  intro s call answer s' hinv h
  exact blinkList_step hinv h

def sampleCorner : Blink := ⟨0, 73, 77, 7, 6, 0, 0, none⟩

def sampleBlink : Blink := ⟨540, 73, 77, 7, 6, 0, 0, none⟩

/-- The slot of the character at location 0 is handed out again while it is on the list. -/
theorem location_zero_is_handed_out_again :
    ¬mp1Calls.Always ListStaysWellFormed (.start fun _ => 0)
      [.add sampleCorner, .add sampleBlink] := by
  intro h
  obtain ⟨⟨l₀, l, hcorner⟩, h⟩ := h _ _ rfl
  obtain ⟨⟨l₁, l', hblink⟩, -⟩ := h _ _ rfl
  obtain ⟨i, hi, -, hl, -⟩ := hcorner.added rfl sampleCorner rfl
  obtain ⟨j, hj, hnot, -⟩ := hblink.added rfl sampleBlink rfl
  have hi0 : i = 0 := (Option.some.inj hi).symm
  have hj0 : j = 0 := (Option.some.inj hj).symm
  have hsame := hblink.before.unique hcorner.after
  rw [hsame, hl, hi0, hj0] at hnot
  exact hnot (List.mem_cons_self ..)

end MyLinuxOS
