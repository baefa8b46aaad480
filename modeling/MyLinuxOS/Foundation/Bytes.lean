import Mathlib.Data.List.Basic
import Mathlib.Data.List.GetD
import Mathlib.Data.List.Induction
import Mathlib.Data.List.TakeWhile
import Mathlib.Tactic.Common

/-! Bytes in memory: C strings, little-endian words, and the stores a copy makes through a
pointer, whose addresses wrap at 2^32. -/

namespace Foundation

theorem toNat_pos {v : UInt32} (h : v ≠ 0) : 0 < v.toNat :=
  UInt32.lt_iff_toNat_lt.mp (UInt32.pos_iff_ne_zero.mpr h)

structure CString where
  bytes : List UInt8
  noNul : ∀ b ∈ bytes, b ≠ 0

namespace CString

theorem noNul_of_all {bytes : List UInt8} (h : bytes.all (· ≠ 0) = true) : ∀ b ∈ bytes, b ≠ 0 := by
  intro b hb
  exact of_decide_eq_true (List.all_eq_true.mp h b hb)

def charAt (s : CString) (i : Nat) : UInt8 := s.bytes.getD i 0

def strlen (s : CString) : Nat := s.bytes.length

def ofBuffer (buffer : List UInt8) : CString where
  bytes := buffer.takeWhile (· ≠ 0)
  noNul := fun b hb => by simpa using List.mem_takeWhile_imp hb

theorem map_charAt (s : CString) {n : Nat} (h : s.strlen ≤ n) :
    (List.range' 0 n).map s.charAt = s.bytes ++ List.replicate (n - s.strlen) 0 := by
  have hlen : s.bytes.length ≤ n := h
  refine List.ext_getElem ?_ fun i h₁ h₂ => ?_
  · simp only [List.length_map, List.length_range', List.length_append, List.length_replicate,
      strlen]
    omega
  · rw [List.getElem_map, List.getElem_range', charAt, Nat.zero_add, Nat.one_mul]
    rcases Nat.lt_or_ge i s.bytes.length with hlt | hge
    · rw [List.getD_eq_getElem _ _ hlt, List.getElem_append_left hlt]
    · rw [List.getD_eq_default _ _ hge, List.getElem_append_right hge, List.getElem_replicate]

theorem takeWhile_charAt (s : CString) {n : Nat} (h : s.strlen ≤ n) :
    ((List.range' 0 n).map s.charAt).takeWhile (· ≠ 0) = s.bytes := by
  rw [s.map_charAt h, List.takeWhile_append_of_pos (by simpa using s.noNul),
    List.takeWhile_replicate]
  simp

end CString

def le32 (b₀ b₁ b₂ b₃ : UInt8) : UInt32 :=
  UInt32.ofNat (b₀.toNat + 256 * b₁.toNat + 65536 * b₂.toNat + 16777216 * b₃.toNat)

def le32Bytes (w : UInt32) : List UInt8 :=
  [UInt8.ofNat w.toNat, UInt8.ofNat (w.toNat / 256), UInt8.ofNat (w.toNat / 65536),
    UInt8.ofNat (w.toNat / 16777216)]

abbrev Store := Nat × UInt8

def storesAt (buf : UInt32) (bytes : List UInt8) : List Store :=
  bytes.mapIdx fun i b => ((buf.toNat + i) % 4294967296, b)

@[simp] theorem storesAt_length (buf : UInt32) (bytes : List UInt8) :
    (storesAt buf bytes).length = bytes.length := List.length_mapIdx

theorem storesAt_snd (buf : UInt32) (bytes : List UInt8) :
    (storesAt buf bytes).map Prod.snd = bytes := by
  refine List.ext_getElem (by simp) fun i h₁ h₂ => ?_
  simp only [storesAt, List.getElem_map, List.getElem_mapIdx]

theorem mem_storesAt {buf : UInt32} {bytes : List UInt8} {s : Store} :
    s ∈ storesAt buf bytes ↔
      ∃ i, ∃ h : i < bytes.length, s = ((buf.toNat + i) % 4294967296, bytes[i]) := by
  simp only [storesAt, List.mem_mapIdx, eq_comm]

theorem storesAt_within_iff {buf : UInt32} {bytes : List UInt8} {n : Nat}
    (hlen : bytes.length ≤ 4294967296) :
    (∀ s ∈ storesAt buf bytes, ∃ i, i < n ∧ s.1 = (buf.toNat + i) % 4294967296) ↔
      bytes.length ≤ n := by
  constructor
  · intro h
    by_contra hgt
    obtain ⟨i, hi, he⟩ := h _ (mem_storesAt.mpr ⟨n, by omega, rfl⟩)
    simp only at he
    omega
  · rintro hle s hs
    obtain ⟨i, hi, rfl⟩ := mem_storesAt.mp hs
    exact ⟨i, by omega, rfl⟩

theorem storesAt_range_iff {buf : UInt32} {bytes : List UInt8} {lo hi : Nat}
    (hhi : hi < 4294967296) :
    (∀ s ∈ storesAt buf bytes, lo ≤ s.1 ∧ s.1 < hi) ↔
      bytes.length = 0 ∨ lo ≤ buf.toNat ∧ buf.toNat + bytes.length ≤ hi := by
  have hbuf := buf.toNat_lt
  constructor
  · intro h
    rcases Nat.eq_zero_or_pos bytes.length with h0 | hpos
    · exact .inl h0
    · right
      have hfirst := h _ (mem_storesAt.mpr ⟨0, hpos, rfl⟩)
      refine ⟨by simp only at hfirst; omega, ?_⟩
      by_contra hgt
      -- the store that would land on `hi` itself
      have hcross := h _ (mem_storesAt.mpr ⟨hi - buf.toNat, by simp only at hfirst; omega, rfl⟩)
      simp only at hfirst hcross
      omega
  · rintro (h0 | ⟨hlo, hle⟩) s hs
    · obtain ⟨i, hi', -⟩ := mem_storesAt.mp hs
      omega
    · obtain ⟨i, hi', rfl⟩ := mem_storesAt.mp hs
      simp only
      omega

def applyStores (mem : Nat → UInt8) (stores : List Store) : Nat → UInt8 :=
  stores.foldl (fun m s => Function.update m s.1 s.2) mem

theorem storesAt_concat (buf : UInt32) (bytes : List UInt8) (b : UInt8) :
    storesAt buf (bytes ++ [b]) =
      storesAt buf bytes ++ [((buf.toNat + bytes.length) % 4294967296, b)] := by
  rw [storesAt, List.mapIdx_concat]
  rfl

theorem applyStores_concat (mem : Nat → UInt8) (stores : List Store) (s : Store) :
    applyStores mem (stores ++ [s]) = Function.update (applyStores mem stores) s.1 s.2 := by
  rw [applyStores, List.foldl_concat]
  rfl

theorem applyStores_of_ne {mem : Nat → UInt8} {stores : List Store} {a : Nat}
    (h : ∀ s ∈ stores, s.1 ≠ a) : applyStores mem stores a = mem a := by
  induction stores using List.reverseRecOn with
  | nil => rfl
  | append_singleton stores s ih =>
    have hs := h s (List.mem_append_right _ (List.mem_singleton_self s))
    rw [applyStores_concat, Function.update_of_ne hs.symm,
      ih fun s' hs' => h s' (List.mem_append_left _ hs')]

theorem applyStores_storesAt {mem : Nat → UInt8} {buf : UInt32} {bytes : List UInt8} {i : Nat}
    (hlen : bytes.length ≤ 4294967296) (hi : i < 4294967296) :
    applyStores mem (storesAt buf bytes) ((buf.toNat + i) % 4294967296) =
      bytes.getD i (mem ((buf.toNat + i) % 4294967296)) := by
  induction bytes using List.reverseRecOn with
  | nil => rfl
  | append_singleton bytes b ih =>
    rw [List.length_append, List.length_singleton] at hlen
    rw [storesAt_concat, applyStores_concat]
    by_cases he : i = bytes.length
    · subst he
      rw [Function.update_self, List.getD_append_right _ _ _ _ (Nat.le_refl _), Nat.sub_self]
      rfl
    · rw [Function.update_of_ne (by omega), ih (by omega)]
      rcases Nat.lt_or_ge i bytes.length with hlt | hge
      · rw [List.getD_append _ _ _ _ hlt]
      · rw [List.getD_eq_default _ _ hge, List.getD_eq_default]
        rw [List.length_append, List.length_singleton]
        omega

/-- Lists that look the same with every default behind them: the first one is not the longer. -/
theorem length_le_of_getD {l l' : List UInt8}
    (h : ∀ d, ∀ i < l.length, l.getD i d = l'.getD i d) : l.length ≤ l'.length := by
  by_contra hlt
  -- a byte behind the end of `l'` would be equal to every default
  have hone : ∀ d : UInt8, l.getD l'.length d = d := by
    intro d
    rw [h d _ (Nat.not_le.mp hlt), List.getD_eq_default _ _ (Nat.le_refl _)]
  have hsame : ∀ d d' : UInt8, d = d' := by
    intro d d'
    rw [← hone d, ← hone d', List.getD_eq_getElem _ _ (Nat.not_le.mp hlt),
      List.getD_eq_getElem _ _ (Nat.not_le.mp hlt)]
  exact absurd (hsame 0 1) (by decide)

theorem applyStores_inj {buf : UInt32} {bytes bytes' : List UInt8}
    (hlen : bytes.length ≤ 4294967296) (hlen' : bytes'.length ≤ 4294967296) :
    (∀ mem, applyStores mem (storesAt buf bytes) = applyStores mem (storesAt buf bytes')) ↔
      bytes = bytes' := by
  constructor
  · intro h
    have hget : ∀ (d : UInt8) (i : Nat), i < 4294967296 → bytes.getD i d = bytes'.getD i d := by
      intro d i hi
      have he := congrFun (h fun _ => d) ((buf.toNat + i) % 4294967296)
      rwa [applyStores_storesAt hlen hi, applyStores_storesAt hlen' hi] at he
    apply List.ext_getElem
    · apply Nat.le_antisymm
      · exact length_le_of_getD fun d i hi => hget d i (hi.trans_le hlen)
      · exact length_le_of_getD fun d i hi => (hget d i (hi.trans_le hlen')).symm
    · intro i h₁ h₂
      have he := hget 0 i (by omega)
      rwa [List.getD_eq_getElem _ _ h₁, List.getD_eq_getElem _ _ h₂] at he
  · rintro rfl mem
    rfl

/-! ### Contents kept in blocks -/

theorem flatMap_blocks {α : Type*} (f : Nat → Nat → α) (m : Nat) {n : Nat} (hn : 0 < n) :
    (List.range m).flatMap (fun j => (List.range n).map (f j)) =
      (List.range (m * n)).map fun p => f (p / n) (p % n) := by
  induction m with
  | zero => simp only [Nat.zero_mul, List.range_zero, List.flatMap_nil, List.map_nil]
  | succ m ih =>
    have hlast : ∀ x ∈ List.range n, f m x = f ((m * n + x) / n) ((m * n + x) % n) := by
      intro x hx
      have hx' := List.mem_range.mp hx
      rw [Nat.add_comm (m * n), Nat.add_mul_div_right _ _ hn, Nat.div_eq_of_lt hx', Nat.zero_add,
        Nat.add_mul_mod_self_right, Nat.mod_eq_of_lt hx']
    rw [List.range_succ, List.flatMap_append, ih, Nat.succ_mul, List.range_add, List.map_append,
      List.map_map, List.flatMap_singleton]
    exact congrArg _ (List.map_congr_left hlast)

theorem take_drop_map_range {α : Type*} (f : Nat → α) (n start len : Nat) :
    (((List.range n).map f).drop start).take len =
      (List.range' start (min len (n - start))).map f := by
  rw [← List.map_drop, List.range_eq_range', List.drop_range', ← List.map_take, Nat.zero_add,
    Nat.mul_one]
  rcases Nat.le_total len (n - start) with h | h
  · rw [List.take_range'_of_length_ge h, Nat.min_eq_left h]
  · rw [List.take_range'_of_length_le h, Nat.min_eq_right h]

end Foundation
