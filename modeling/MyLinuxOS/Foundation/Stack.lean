import MyLinuxOS.Foundation.Bytes

/-! A stack of 32-bit words in byte memory that grows downwards. The words from the stack pointer up
are a list: a push puts a word in front of it, and whoever keeps the bytes from the pointer up keeps
the list. -/

namespace Foundation

def loadWord (m : Nat → UInt8) (a : Nat) : UInt32 := le32 (m a) (m (a + 1)) (m (a + 2)) (m (a + 3))

def storeWord (m : Nat → UInt8) (a : Nat) (w : UInt32) : Nat → UInt8 := fun b =>
  if a ≤ b ∧ b < a + 4 then (le32Bytes w).getD (b - a) 0 else m b

def AgreeOn (lo hi : Nat) (m m' : Nat → UInt8) : Prop := ∀ b, lo ≤ b → b < hi → m' b = m b

section
variable {m m' m'' : Nat → UInt8} {a b lo hi sp : Nat} {w : UInt32} {ws vs : List UInt32}

theorem le32_bytes (w : UInt32) :
    le32 (UInt8.ofNat w.toNat) (UInt8.ofNat (w.toNat / 256)) (UInt8.ofNat (w.toNat / 65536))
      (UInt8.ofNat (w.toNat / 16777216)) = w := by
  have hw := w.toNat_lt
  have hsum : w.toNat % 256 + 256 * (w.toNat / 256 % 256) + 65536 * (w.toNat / 65536 % 256) +
      16777216 * (w.toNat / 16777216 % 256) = w.toNat := by omega
  have hbyte : ∀ n, (UInt8.ofNat n).toNat = n % 256 := fun n => rfl
  rw [le32, hbyte, hbyte, hbyte, hbyte, hsum, UInt32.ofNat_toNat]

theorem storeWord_of_apart (h : b < a ∨ a + 4 ≤ b) : storeWord m a w b = m b := by
  apply if_neg
  omega

theorem loadWord_storeWord (m : Nat → UInt8) (a : Nat) (w : UInt32) :
    loadWord (storeWord m a w) a = w := by
  have hbyte : ∀ i < 4, storeWord m a w (a + i) = (le32Bytes w).getD i 0 := by
    intro i hi
    rw [storeWord, if_pos (by omega), Nat.add_sub_cancel_left]
  have h0 := hbyte 0 (by omega)
  rw [Nat.add_zero] at h0
  rw [loadWord, h0, hbyte 1 (by omega), hbyte 2 (by omega), hbyte 3 (by omega)]
  exact le32_bytes w

theorem loadWord_congr (h : AgreeOn a (a + 4) m m') : loadWord m' a = loadWord m a := by
  rw [loadWord, h a (by omega) (by omega), h (a + 1) (by omega) (by omega),
    h (a + 2) (by omega) (by omega), h (a + 3) (by omega) (by omega), loadWord]

theorem AgreeOn.trans (h : AgreeOn lo hi m m') (h' : AgreeOn lo hi m' m'') : AgreeOn lo hi m m'' :=
  fun b hl hh => (h' b hl hh).trans (h b hl hh)

theorem AgreeOn.mono {lo' hi' : Nat} (h : AgreeOn lo hi m m') (hl : lo ≤ lo') (hh : hi' ≤ hi) :
    AgreeOn lo' hi' m m' :=
  fun b hb hb' => h b (hl.trans hb) (hb'.trans_le hh)

theorem agreeOn_storeWord (h : hi ≤ a ∨ a + 4 ≤ lo) : AgreeOn lo hi m (storeWord m a w) :=
  fun b hl hh => storeWord_of_apart (by omega)

/-! ### Stores through a mapping -/

theorem applyStores_congr {stores : List Store} (h : m a = m' a) :
    applyStores m stores a = applyStores m' stores a := by
  induction stores using List.reverseRecOn with
  | nil => exact h
  | append_singleton stores s ih =>
    rw [applyStores_concat, applyStores_concat]
    by_cases hs : a = s.1
    · rw [hs, Function.update_self, Function.update_self]
    · rw [Function.update_of_ne hs, Function.update_of_ne hs, ih]

def Stacked (m : Nat → UInt8) : Nat → List UInt32 → Prop
  | _, [] => True
  | sp, w :: ws => loadWord m sp = w ∧ Stacked m (sp + 4) ws

theorem Stacked.congr (h : Stacked m sp ws) (hm : AgreeOn sp (sp + 4 * ws.length) m m') :
    Stacked m' sp ws := by
  induction ws generalizing sp with
  | nil => trivial
  | cons w ws ih =>
    rw [List.length_cons] at hm
    refine ⟨(loadWord_congr (hm.mono (Nat.le_refl _) (by omega))).trans h.1, ih h.2 ?_⟩
    exact hm.mono (by omega) (by omega)

theorem stacked_append :
    Stacked m sp (ws ++ vs) ↔ Stacked m sp ws ∧ Stacked m (sp + 4 * ws.length) vs := by
  induction ws generalizing sp with
  | nil => exact ⟨fun h => ⟨trivial, h⟩, fun h => h.2⟩
  | cons w ws ih =>
    have hsp : sp + 4 * (w :: ws).length = sp + 4 + 4 * ws.length := by
      rw [List.length_cons]
      omega
    rw [List.cons_append, Stacked, ih, Stacked, hsp, and_assoc]

theorem Stacked.push (h : Stacked m (sp + 4) ws) (w : UInt32) :
    Stacked (storeWord m sp w) sp (w :: ws) :=
  ⟨loadWord_storeWord m sp w, h.congr (agreeOn_storeWord (.inr (Nat.le_refl _)))⟩

end

end Foundation
