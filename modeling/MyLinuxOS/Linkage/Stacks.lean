import MyLinuxOS.Kernel.Linkage

/-! The stacks in the memory of the processor: a stack that lies in one page is a list of words, and
the instructions that push and pop work on its head. -/

namespace MyLinuxOS
open Foundation

/-- Virtual addresses from `lo` up to `hi` that are mapped in order, from `base` on. -/
structure Window where
  lo : Nat
  hi : Nat
  base : Nat

def Window.phys (w : Window) (v : Nat) : Nat := w.base + (v - w.lo)

def Window.Covers (w : Window) (a : Nat) : Prop := w.base ≤ a ∧ a < w.base + (w.hi - w.lo)

namespace Processor
variable {s t : Processor} {w : Window} {v x : UInt32} {n : Nat} {ws : List UInt32}

@[simp] theorem withReg_reg (r : Registers) : (s.withReg r).reg = r := rfl
@[simp] theorem push_reg (x : UInt32) : (s.push x).reg = .setEsp (s.reg.esp - 4) s.reg := rfl
@[simp] theorem pop_reg (set : UInt32 → Registers → Registers) :
    (s.pop set).reg = set (s.load s.reg.esp) (.setEsp (s.reg.esp + 4) s.reg) := rfl
@[simp] theorem pop_phys (set : UInt32 → Registers → Registers) :
    (s.pop set).phys = s.phys := rfl
@[simp] theorem pop_kernel (set : UInt32 → Registers → Registers) :
    (s.pop set).kernel = s.kernel := rfl

structure Maps (s : Processor) (w : Window) : Prop where
  bound : w.hi < 2 ^ 32
  physical : ∀ v, w.lo ≤ v → v < w.hi → s.physical v = w.phys v

theorem Maps.of_base (h : s.Maps w) (hk : t.kernel.programBase = s.kernel.programBase) :
    t.Maps w := by
  refine ⟨h.bound, fun v hl hh => ?_⟩
  rw [Processor.physical, hk]
  exact h.physical v hl hh

theorem Window.phys_add {i a : Nat} (h : w.lo ≤ a) : w.phys (a + i) = w.phys a + i := by
  unfold Window.phys
  rw [Nat.sub_add_comm h, Nat.add_assoc]

theorem Maps.load (h : s.Maps w) (hl : w.lo ≤ v.toNat) (hh : v.toNat + 4 ≤ w.hi) :
    s.load v = loadWord s.phys (w.phys v.toNat) := by
  have hbound := h.bound
  have hbyte : ∀ i : UInt32, i.toNat < 4 →
      s.view (v + i).toNat = s.phys (w.phys v.toNat + i.toNat) := by
    intro i hi
    have hv : (v + i).toNat = v.toNat + i.toNat := by
      rw [UInt32.toNat_add]
      omega
    rw [view, hv, h.physical _ (by omega) (by omega), Window.phys_add hl]
  have h0 : s.view v.toNat = s.phys (w.phys v.toNat) := by
    rw [view, h.physical _ hl (by omega)]
  rw [Processor.load, h0, hbyte 1 (by decide), hbyte 2 (by decide), hbyte 3 (by decide)]
  rfl

theorem Maps.store (h : s.Maps w) (hl : w.lo ≤ v.toNat) (hh : v.toNat + 4 ≤ w.hi) (x : UInt32) :
    (s.store v x).phys = storeWord s.phys (w.phys v.toNat) x := by
  have hbound := h.bound
  have haddr : ∀ i, i < 4 → s.physical ((v.toNat + i) % 4294967296) = w.phys v.toNat + i := by
    intro i hi
    rw [Nat.mod_eq_of_lt (by omega), h.physical _ (by omega) (by omega), Window.phys_add hl]
  simp only [Processor.store, storesAt, le32Bytes, List.mapIdx_cons, List.mapIdx_nil, List.map_cons,
    List.map_nil, Nat.reduceAdd, applyStores, List.foldl_cons, List.foldl_nil,
    haddr 0 (by omega), haddr 1 (by omega), haddr 2 (by omega), haddr 3 (by omega)]
  funext b
  unfold storeWord le32Bytes
  generalize w.phys v.toNat = a
  by_cases hin : a ≤ b ∧ b < a + 4
  · rw [if_pos hin]
    obtain ⟨i, rfl⟩ := Nat.exists_eq_add_of_le hin.1
    rw [Nat.add_sub_cancel_left]
    have hi : i = 0 ∨ i = 1 ∨ i = 2 ∨ i = 3 := by omega
    rcases hi with rfl | rfl | rfl | rfl <;> simp [Function.update]
  · rw [if_neg hin, Function.update_of_ne (by omega), Function.update_of_ne (by omega),
      Function.update_of_ne (by omega), Function.update_of_ne (by omega)]

/-! ### The stack as a list -/

/-- The stack of `s` lies in a window with room for `n` words more. Outside the window, memory is
as in `m`, and the kernel's variables are those in `k`. -/
structure OnStack (w : Window) (k : Kernel) (m : Nat → UInt8) (n : Nat) (s : Processor)
    (ws : List UInt32) : Prop where
  kernel : s.kernel = k
  outside : ∀ a, ¬ w.Covers a → s.phys a = m a
  maps : s.Maps w
  room : w.lo + 4 * n ≤ s.reg.esp.toNat
  below : s.reg.esp.toNat + 4 * ws.length ≤ w.hi
  stacked : Stacked s.phys (w.phys s.reg.esp.toNat) ws

section
variable {k : Kernel} {m : Nat → UInt8}

theorem OnStack.withReg (h : OnStack w k m n s ws) {r : Registers} (hr : r.esp = s.reg.esp) :
    OnStack w k m n (s.withReg r) ws := by
  refine ⟨h.kernel, h.outside, h.maps.of_base rfl, ?_, ?_, ?_⟩
  · rw [withReg_reg, hr]; exact h.room
  · rw [withReg_reg, hr]; exact h.below
  · rw [withReg_reg, hr]; exact h.stacked

theorem OnStack.push_esp (h : OnStack w k m (n + 1) s ws) :
    (s.reg.esp - 4).toNat = s.reg.esp.toNat - 4 := by
  have hroom := h.room
  apply UInt32.toNat_sub_of_le
  rw [UInt32.le_iff_toNat_le]
  change 4 ≤ _
  omega

theorem OnStack.push_phys (h : OnStack w k m (n + 1) s ws) (x : UInt32) :
    (s.push x).phys = storeWord s.phys (w.phys (s.reg.esp.toNat - 4)) x := by
  have hroom := h.room
  have hbelow := h.below
  have hesp := h.push_esp
  rw [← hesp]
  exact h.maps.store (by omega) (by omega) x

theorem OnStack.push (h : OnStack w k m (n + 1) s ws) (x : UInt32) :
    OnStack w k m n (s.push x) (x :: ws) := by
  have hroom := h.room
  have hbelow := h.below
  have hesp := h.push_esp
  have hphys := h.push_phys x
  refine ⟨h.kernel, fun a ha => ?_, h.maps.of_base rfl, ?_, ?_, ?_⟩
  · rw [hphys, storeWord_of_apart, h.outside a ha]
    unfold Window.Covers at ha
    unfold Window.phys
    omega
  · rw [push_reg, Registers.setEsp, hesp]
    omega
  · rw [push_reg, Registers.setEsp, hesp, List.length_cons]
    omega
  · have hnext : w.phys (s.reg.esp.toNat - 4) + 4 = w.phys s.reg.esp.toNat := by
      unfold Window.phys
      omega
    rw [hphys, push_reg, Registers.setEsp, hesp]
    apply Stacked.push
    rw [hnext]
    exact h.stacked

theorem OnStack.load (h : OnStack w k m n s (x :: ws)) : s.load s.reg.esp = x := by
  have hbelow := h.below
  rw [List.length_cons] at hbelow
  rw [h.maps.load (by have := h.room; omega) (by omega)]
  exact h.stacked.1

theorem OnStack.tail (h : OnStack w k m n s (x :: ws)) (hk : t.kernel = s.kernel)
    (hp : t.phys = s.phys) (hesp : t.reg.esp = s.reg.esp + 4) : OnStack w k m (n + 1) t ws := by
  have hroom := h.room
  have hbelow := h.below
  have hbound := h.maps.bound
  rw [List.length_cons] at hbelow
  have hnat : t.reg.esp.toNat = s.reg.esp.toNat + 4 := by
    rw [hesp, UInt32.toNat_add]
    exact Nat.mod_eq_of_lt (by change s.reg.esp.toNat + 4 < 2 ^ 32; omega)
  refine ⟨hk.trans h.kernel, fun a ha => ?_, h.maps.of_base (by rw [hk]), by omega, by omega, ?_⟩
  · rw [hp]
    exact h.outside a ha
  · rw [hp, hnat, Window.phys_add (by omega)]
    exact h.stacked.2

theorem OnStack.pop (h : OnStack w k m n s (x :: ws)) {set : UInt32 → Registers → Registers}
    (hset : ∀ v r, (set v r).esp = r.esp) : OnStack w k m (n + 1) (s.pop set) ws :=
  h.tail rfl rfl (hset _ _)

theorem OnStack.load_at (h : OnStack w k m n s ws) {i : Nat} (hi : i < ws.length) {d : UInt32}
    (hd : d.toNat = 4 * i) : s.load (s.reg.esp + d) = ws[i] := by
  have hroom := h.room
  have hbelow := h.below
  have hbound := h.maps.bound
  have hnat : (s.reg.esp + d).toNat = s.reg.esp.toNat + 4 * i := by
    rw [UInt32.toNat_add, hd]
    exact Nat.mod_eq_of_lt (by omega)
  have hsplit := h.stacked
  rw [← List.take_append_drop i ws, stacked_append, List.length_take_of_le hi.le,
    List.drop_eq_getElem_cons hi] at hsplit
  rw [h.maps.load (by omega) (by omega), hnat, Window.phys_add (by omega)]
  exact hsplit.2.1

/-! ### Several registers -/

def OffStack (read : Registers → UInt32) : Prop := ∀ r x, read (.setEsp x r) = read r

theorem pushAll_cons (r : Registers → UInt32) (regs : List (Registers → UInt32)) :
    s.pushAll (r :: regs) = (s.push (r s.reg)).pushAll regs := rfl

theorem pushAll_reg (regs : List (Registers → UInt32)) :
    (s.pushAll regs).reg = .setEsp (s.reg.esp - 4 * UInt32.ofNat regs.length) s.reg := by
  induction regs generalizing s with
  | nil =>
    have hzero : s.reg.esp - 4 * UInt32.ofNat 0 = s.reg.esp := UInt32.sub_zero _
    rw [List.length_nil, hzero]
    rfl
  | cons r regs ih =>
    have hnext : s.reg.esp - 4 - 4 * UInt32.ofNat regs.length =
        s.reg.esp - 4 * UInt32.ofNat (regs.length + 1) := by
      rw [UInt32.ofNat_add]
      grind
    rw [List.length_cons, ← hnext]
    exact ih

theorem OnStack.pushAll {regs : List (Registers → UInt32)} (hregs : ∀ r ∈ regs, OffStack r)
    (h : OnStack w k m (n + regs.length) s ws) :
    OnStack w k m n (s.pushAll regs) ((regs.map (· s.reg)).reverse ++ ws) := by
  induction regs generalizing s ws with
  | nil => exact h
  | cons r regs ih =>
    have hrest := ih (fun r hr => hregs r (List.mem_cons_of_mem _ hr)) (h.push (r s.reg))
    have hsame : regs.map (· (s.push (r s.reg)).reg) = regs.map (· s.reg) :=
      List.map_congr_left fun r' hr' => hregs r' (List.mem_cons_of_mem _ hr') s.reg _
    rw [hsame] at hrest
    rw [List.map_cons, List.reverse_cons, List.append_assoc]
    exact hrest

def SetsOff (set : UInt32 → Registers → Registers) : Prop :=
  ∀ v r x, set v (.setEsp x r) = .setEsp x (set v r)

theorem popAll_concat (sets : List (UInt32 → Registers → Registers))
    (set : UInt32 → Registers → Registers) :
    s.popAll (sets ++ [set]) = (s.popAll sets).pop set :=
  List.foldl_concat ..

theorem popAll_phys (sets : List (UInt32 → Registers → Registers)) :
    (s.popAll sets).phys = s.phys := by
  induction sets generalizing s with
  | nil => rfl
  | cons set sets ih => exact ih

theorem popAll_kernel (sets : List (UInt32 → Registers → Registers)) :
    (s.popAll sets).kernel = s.kernel := by
  induction sets generalizing s with
  | nil => rfl
  | cons set sets ih => exact ih

def assign (sets : List (UInt32 → Registers → Registers)) (xs : List UInt32) (r : Registers) :
    Registers :=
  (sets.zip xs).foldl (fun r p => p.1 p.2 r) r

theorem assign_setEsp {sets : List (UInt32 → Registers → Registers)}
    (hsets : ∀ set ∈ sets, SetsOff set) (xs : List UInt32) (r : Registers) (e : UInt32) :
    assign sets xs (.setEsp e r) = .setEsp e (assign sets xs r) := by
  induction sets generalizing xs r with
  | nil => rfl
  | cons set sets ih =>
    cases xs with
    | nil => rfl
    | cons x xs =>
      have hrest := ih (fun set hset => hsets set (List.mem_cons_of_mem _ hset)) xs (set x r)
      calc assign (set :: sets) (x :: xs) (.setEsp e r)
          = assign sets xs (set x (.setEsp e r)) := rfl
        _ = assign sets xs (.setEsp e (set x r)) := by rw [hsets set (List.mem_cons_self ..)]
        _ = _ := hrest

theorem OnStack.popAll {sets : List (UInt32 → Registers → Registers)}
    (hsets : ∀ set ∈ sets, SetsOff set) {xs : List UInt32} (hlen : xs.length = sets.length)
    (h : OnStack w k m n s (xs ++ ws)) :
    OnStack w k m (n + sets.length) (s.popAll sets) ws ∧
      (s.popAll sets).reg =
        .setEsp (s.reg.esp + 4 * UInt32.ofNat sets.length) (assign sets xs s.reg) := by
  induction sets generalizing xs s n with
  | nil =>
    obtain rfl := List.eq_nil_of_length_eq_zero hlen
    have hzero : s.reg.esp + 4 * UInt32.ofNat 0 = s.reg.esp := UInt32.add_zero _
    refine ⟨h, ?_⟩
    rw [List.length_nil, hzero]
    rfl
  | cons set sets ih =>
    cases xs with
    | nil => exact absurd hlen (by simp)
    | cons x xs =>
      have hoff := hsets set (List.mem_cons_self ..)
      have hrest : ∀ set ∈ sets, SetsOff set :=
        fun set hset => hsets set (List.mem_cons_of_mem _ hset)
      have hreg : (s.pop set).reg = .setEsp (s.reg.esp + 4) (set x s.reg) := by
        rw [pop_reg, h.load]
        exact hoff x s.reg _
      have htail : OnStack w k m (n + 1) (s.pop set) (xs ++ ws) :=
        h.tail rfl rfl (congrArg Registers.esp hreg)
      obtain ⟨hstack, hregs⟩ := ih hrest (Nat.succ.inj hlen) htail
      have hcount : n + (set :: sets).length = n + 1 + sets.length := by
        rw [List.length_cons]
        omega
      have hsum : s.reg.esp + 4 + 4 * UInt32.ofNat sets.length =
          s.reg.esp + 4 * UInt32.ofNat (sets.length + 1) := by
        rw [UInt32.ofNat_add]
        grind
      refine ⟨hcount ▸ hstack, ?_⟩
      calc ((s.pop set).popAll sets).reg
          = .setEsp ((s.pop set).reg.esp + 4 * UInt32.ofNat sets.length)
              (assign sets xs (s.pop set).reg) := hregs
        _ = .setEsp (s.reg.esp + 4 + 4 * UInt32.ofNat sets.length)
              (.setEsp (s.reg.esp + 4) (assign sets xs (set x s.reg))) := by
            rw [hreg, assign_setEsp hrest]
            rfl
        _ = .setEsp (s.reg.esp + 4 * UInt32.ofNat (sets.length + 1))
              (assign sets xs (set x s.reg)) := by
            rw [hsum]
            rfl

end

end Processor
end MyLinuxOS
