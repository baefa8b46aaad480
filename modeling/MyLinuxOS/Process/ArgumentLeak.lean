import MyLinuxOS.Process.Arguments

/-! What `getargs` shows of the kernel: the loop runs over `nbytes` bytes and looks one ahead, and
behind the array comes the kernel stack of the calling process. -/

namespace MyLinuxOS
open Foundation

def Kernel.SameArgs (k k' : Kernel) : Prop :=
  ∀ i < argLength, k'.currPcb.args i = k.currPcb.args i

/-- What the caller can tell of a call: its value, and what it leaves of the caller's memory. -/
def SeenAlike (left left' : Left) : Prop :=
  left.exit = left'.exit ∧ ∀ mem, applyStores mem left.stores = applyStores mem left'.stores

/-- No other state with the same arguments gives the caller anything else to see. -/
def ShowsOnlyArgs (buf : UInt32) (nbytes : Int32) (k : Kernel) : Prop :=
  ∀ k', k.SameArgs k' → ∃ left left', syscallGetargs buf nbytes k = .ok left ∧
    syscallGetargs buf nbytes k' = .ok left' ∧ SeenAlike left left'

theorem copyArgs_length_le (f : Nat → UInt8) (n i : Nat) : (copyArgs f n i).length ≤ 2 * n := by
  induction n generalizing i with
  | zero => exact Nat.zero_le _
  | succ n ih =>
    have h := ih (i + 1)
    rw [copyArgs]
    split
    · omega
    · split
      · simp only [List.length_cons]
        omega
      · simp only [List.length_cons]
        omega

theorem copyArgs_one (f : Nat → UInt8) (i : Nat) : copyArgs f 1 i =
    if f i = 32 then [] else if f (i + 1) = 32 then [f i, 32] else [f i] := rfl

section
variable {k : Kernel} {buf : UInt32} {nbytes : Int32}

theorem getargs_ok (hbuf : buf ≠ 0) (h0 : k.currPcb.args 0 ≠ 0) : syscallGetargs buf nbytes k =
    .ok ⟨.ret 0, k, storesAt buf (copyArgs k.currPcb.args nbytes.toInt.toNat 0 ++ [0])⟩ := by
  rw [syscallGetargs, if_neg hbuf, if_neg h0]

theorem seenAlike_iff {k' : Kernel} (hbuf : buf ≠ 0) (h0 : k.currPcb.args 0 ≠ 0)
    (hsame : k.SameArgs k') :
    (∃ left left', syscallGetargs buf nbytes k = .ok left ∧
      syscallGetargs buf nbytes k' = .ok left' ∧ SeenAlike left left') ↔
    copyArgs k.currPcb.args nbytes.toInt.toNat 0 =
      copyArgs k'.currPcb.args nbytes.toInt.toNat 0 := by
  have h0' : k'.currPcb.args 0 ≠ 0 := by rwa [hsame 0 (by decide)]
  have hmax : nbytes.toInt.toNat < 2147483648 := by
    have := nbytes.toInt_lt
    omega
  have hlen : ∀ f : Nat → UInt8, (copyArgs f nbytes.toInt.toNat 0 ++ [0]).length ≤ 4294967296 := by
    intro f
    have := copyArgs_length_le f nbytes.toInt.toNat 0
    rw [List.length_append, List.length_singleton]
    omega
  rw [getargs_ok hbuf h0, getargs_ok hbuf h0']
  constructor
  · rintro ⟨left, left', h, h', -, hmem⟩
    obtain rfl := Except.ok.inj h
    obtain rfl := Except.ok.inj h'
    exact List.append_cancel_right ((applyStores_inj (hlen _) (hlen _)).mp hmem)
  · intro h
    refine ⟨_, _, rfl, rfl, rfl, ?_⟩
    rw [h]
    exact fun _ => rfl

def Kernel.fillBehindArgs (k : Kernel) (c : UInt8) : Kernel :=
  k.setPcb k.pid
    { k.currPcb with args := fun i => if i < argLength then k.currPcb.args i else c }

theorem fillBehindArgs_args (c : UInt8) (i : Nat) : (k.fillBehindArgs c).currPcb.args i =
    if i < argLength then k.currPcb.args i else c := by
  simp only [Kernel.fillBehindArgs, Kernel.currPcb, Kernel.setPcb, Function.update_self]

theorem fillBehindArgs_same (c : UInt8) : k.SameArgs (k.fillBehindArgs c) := by
  intro i hi
  rw [fillBehindArgs_args, if_pos hi]

theorem fillBehindArgs_inside (c : UInt8) {n : Nat} (hn : n ≤ 127) :
    copyArgs (k.fillBehindArgs c).currPcb.args n 0 = copyArgs k.currPcb.args n 0 := by
  apply copyArgs_congr
  intro j _ hj
  exact fillBehindArgs_same c j (by unfold argLength; omega)

theorem fillBehindArgs_copied (c : UInt8) (m : Nat) :
    copyArgs (k.fillBehindArgs c).currPcb.args (128 + m) 0 =
      copyArgs k.currPcb.args 127 0 ++
        ((if k.currPcb.args 127 = 32 then []
          else if c = 32 then [k.currPcb.args 127, 32] else [k.currPcb.args 127]) ++
        copyArgs (k.fillBehindArgs c).currPcb.args m 128) := by
  have hlast : (k.fillBehindArgs c).currPcb.args 127 = k.currPcb.args 127 :=
    fillBehindArgs_same c 127 (by decide)
  have hnext : (k.fillBehindArgs c).currPcb.args 128 = c := by
    rw [fillBehindArgs_args, if_neg (by decide)]
  have hsplit : 128 + m = 127 + (1 + m) := by omega
  rw [hsplit, copyArgs_append, fillBehindArgs_inside c (Nat.le_refl _), copyArgs_append,
    copyArgs_one, Nat.zero_add, hlast, hnext]

theorem copied_alike {m : Nat} (h : copyArgs (k.fillBehindArgs 0).currPcb.args (128 + m) 0 =
    copyArgs (k.fillBehindArgs 32).currPcb.args (128 + m) 0) :
    m = 0 ∧ k.currPcb.args 127 = 32 := by
  have hbehind : ∀ c i, argLength ≤ i → (k.fillBehindArgs c).currPcb.args i = c := by
    intro c i hi
    rw [fillBehindArgs_args, if_neg (Nat.not_lt.mpr hi)]
  have hzeros : copyArgs (k.fillBehindArgs 0).currPcb.args m 128 = List.replicate m 0 :=
    copyArgs_zeros fun j hj _ => hbehind 0 j hj
  have hspaces : copyArgs (k.fillBehindArgs 32).currPcb.args m 128 = [] :=
    copyArgs_spaces fun j hj _ => hbehind 32 j hj
  rw [fillBehindArgs_copied, fillBehindArgs_copied, hzeros, hspaces] at h
  have htail := List.append_cancel_left h
  by_cases hlast : k.currPcb.args 127 = 32
  · rw [if_pos hlast, if_pos hlast] at htail
    have hlen := congrArg List.length htail
    rw [List.nil_append, List.length_replicate] at hlen
    exact ⟨hlen, hlast⟩
  · rw [if_neg hlast, if_neg hlast, if_neg (by decide), if_pos rfl] at htail
    simp only [List.cons_append, List.nil_append] at htail
    have hrest := (List.cons.inj htail).2
    -- the look-ahead stores a space that the copied zeros cannot be
    have hmem : (32 : UInt8) ∈ List.replicate m 0 := by rw [hrest]; exact List.mem_singleton_self _
    exact absurd (List.eq_of_mem_replicate hmem) (by decide)

theorem not_showsOnlyArgs {m : Nat} (hbuf : buf ≠ 0) (h0 : k.currPcb.args 0 ≠ 0)
    (hm : nbytes.toInt.toNat = 128 + m) (hnot : ¬ (m = 0 ∧ k.currPcb.args 127 = 32)) :
    ¬ ShowsOnlyArgs buf nbytes k := by
  intro h
  have hzero := (seenAlike_iff hbuf h0 (fillBehindArgs_same 0)).mp (h _ (fillBehindArgs_same 0))
  have hspace := (seenAlike_iff hbuf h0 (fillBehindArgs_same 32)).mp (h _ (fillBehindArgs_same 32))
  rw [hm] at hzero hspace
  exact hnot (copied_alike (hzero.symm.trans hspace))

/-- Nothing but the arguments shows exactly if the loop does not look behind the array. -/
theorem showsOnlyArgs_iff (buf : UInt32) (nbytes : Int32) (k : Kernel) :
    ShowsOnlyArgs buf nbytes k ↔ buf = 0 ∨ k.currPcb.args 0 = 0 ∨ nbytes.toInt ≤ 127 ∨
      nbytes.toInt = 128 ∧ k.currPcb.args 127 = 32 := by
  by_cases hbuf : buf = 0
  · refine iff_of_true (fun k' _ => ?_) (.inl hbuf)
    exact ⟨_, _, if_pos hbuf, if_pos hbuf, rfl, fun _ => rfl⟩
  by_cases h0 : k.currPcb.args 0 = 0
  · refine iff_of_true (fun k' hsame => ?_) (.inr (.inl h0))
    have h0' : k'.currPcb.args 0 = 0 := (hsame 0 (by decide)).trans h0
    refine ⟨⟨.ret (-1), k, []⟩, ⟨.ret (-1), k', []⟩, ?_, ?_, rfl, fun _ => rfl⟩
    · rw [syscallGetargs, if_neg hbuf, if_pos h0, Kernel.returns]
    · rw [syscallGetargs, if_neg hbuf, if_pos h0', Kernel.returns]
  constructor
  · intro h
    right; right
    by_contra hnot
    obtain ⟨m, hm⟩ : ∃ m, nbytes.toInt.toNat = 128 + m := ⟨nbytes.toInt.toNat - 128, by omega⟩
    -- the 129th byte copied, or the look-ahead of the 128th, is behind the array
    refine not_showsOnlyArgs hbuf h0 hm ?_ h
    rintro ⟨rfl, hlast⟩
    exact hnot (.inr ⟨by omega, hlast⟩)
  · intro h k' hsame
    refine (seenAlike_iff hbuf h0 hsame).mpr ?_
    have hinside : ∀ n ≤ 127, copyArgs k.currPcb.args n 0 = copyArgs k'.currPcb.args n 0 := by
      intro n hn
      apply copyArgs_congr
      intro j _ hj
      exact (hsame j (by unfold argLength; omega)).symm
    rcases h with h | h | h | ⟨h, hlast⟩
    · exact absurd h hbuf
    · exact absurd h h0
    · exact hinside _ (by omega)
    · -- at the last byte only a space stops the look-ahead behind the array
      have hlast' : k'.currPcb.args 127 = 32 := (hsame 127 (by decide)).trans hlast
      have hn : nbytes.toInt.toNat = 127 + 1 := by omega
      rw [hn, copyArgs_append, copyArgs_append, hinside 127 (Nat.le_refl _), copyArgs_one,
        copyArgs_one, Nat.zero_add, if_pos hlast, if_pos hlast']

end

/-- A program that asks for 1024 bytes, as `cat` and `grep` do, gets what stands behind its block on
the kernel stack. -/
theorem cat_sees_the_kernel_stack : ∃ k₀ k stores, Boots sampleImage k₀ ∧
    syscallExecute sampleImage sampleJunk sampleFrame (sampleLine 0).command k₀ =
      .ok ⟨.iret, k, stores⟩ ∧ ¬ ShowsOnlyArgs 0x8000000 1024 k := by
  obtain ⟨k₀, k, stores, hboot, hexec⟩ := sampleLine_starts (Nat.zero_le 1)
  obtain ⟨_, parsed, hparse, hargs⟩ := started_args hexec
  have h0 : k.currPcb.args 0 ≠ 0 := by
    rw [hargs, (sampleLine 0).parseCommand_args (by decide) hparse (by decide)]
    decide
  have hm : (1024 : Int32).toInt.toNat = 128 + 896 := rfl
  exact ⟨_, k, stores, hboot, hexec, not_showsOnlyArgs (by decide) h0 hm (by simp)⟩

end MyLinuxOS
