import Mathlib.Data.Nat.ModEq

/-!
# Counters

The counters of a ring run freely modulo 2^32.  A ring has a power of two of
slots, and the lowest bits of a counter name a slot.  So counters that are less
than a ring size apart name different slots, also where the counter wraps
(`slotOf_ne`).
-/

namespace IoRing

/-- A number of slots that a ring can have. -/
def IsRingSize (size : UInt32) : Prop := ∃ bits, size.toNat = 2 ^ bits

/-- The slot that a counter names. -/
def slotOf (size c : UInt32) : UInt32 := c &&& (size - 1)

theorem toNat_ofNat {n : Nat} (h : n < 2 ^ 32) : (UInt32.ofNat n).toNat = n :=
  UInt32.toNat_ofNat_of_lt' h

theorem IsRingSize.pos {size : UInt32} (h : IsRingSize size) : 0 < size.toNat := by
  obtain ⟨bits, hbits⟩ := h
  rw [hbits]
  exact Nat.two_pow_pos bits

/-- A ring size divides the number of counters, so slots wrap with the counters.
-/
theorem IsRingSize.dvd {size : UInt32} (h : IsRingSize size) : size.toNat ∣ 2 ^ 32 := by
  obtain ⟨bits, hbits⟩ := h
  have hlt := size.toNat_lt
  rw [hbits] at hlt ⊢
  exact Nat.pow_dvd_pow 2 (Nat.le_of_lt ((Nat.pow_lt_pow_iff_right (by decide)).mp hlt))

theorem IsRingSize.toNat_sub_one {size : UInt32} (h : IsRingSize size) :
    (size - 1).toNat = size.toNat - 1 := by
  have hpos := h.pos
  exact UInt32.toNat_sub_of_le size 1 (UInt32.le_iff_toNat_le.mpr hpos)

/-- The slot of a counter is the counter modulo the size. -/
theorem toNat_slotOf {size : UInt32} (h : IsRingSize size) (c : UInt32) :
    (slotOf size c).toNat = c.toNat % size.toNat := by
  have hmask := h.toNat_sub_one
  obtain ⟨bits, hbits⟩ := h
  rw [slotOf, UInt32.toNat_and, hmask, hbits, Nat.and_two_pow_sub_one_eq_mod]

theorem slotOf_lt {size : UInt32} (h : IsRingSize size) (c : UInt32) :
    (slotOf size c).toNat < size.toNat := by
  rw [toNat_slotOf h]
  exact Nat.mod_lt _ h.pos

/-- Counters less than a ring size apart name different slots. -/
theorem slotOf_ne {size : UInt32} (h : IsRingSize size) (c : UInt32) {i n : Nat} (hin : i < n)
    (hn : n < size.toNat) :
    slotOf size (c + UInt32.ofNat i) ≠ slotOf size (c + UInt32.ofNat n) := by
  intro heq
  have hlt := size.toNat_lt
  have hmod : c.toNat + i ≡ c.toNat + n [MOD size.toNat] := by
    have hnat := congrArg UInt32.toNat heq
    rw [toNat_slotOf h, toNat_slotOf h, UInt32.toNat_add, UInt32.toNat_add,
      toNat_ofNat (by omega), toNat_ofNat (by omega), Nat.mod_mod_of_dvd _ h.dvd,
      Nat.mod_mod_of_dvd _ h.dvd] at hnat
    exact hnat
  have hmod' : i ≡ n [MOD size.toNat] := Nat.ModEq.add_left_cancel' _ hmod
  have := hmod'.eq_of_lt_of_lt (by omega) hn
  omega

/-- A full turn on, a counter names the same slot. -/
theorem slotOf_add_size {size : UInt32} (h : IsRingSize size) (c : UInt32) :
    slotOf size (c + size) = slotOf size c := by
  apply UInt32.toNat_inj.mp
  rw [toNat_slotOf h, toNat_slotOf h, UInt32.toNat_add, Nat.mod_mod_of_dvd _ h.dvd,
    Nat.add_mod_right]

/-- The distance back to a counter is the number of steps taken from it. -/
theorem add_ofNat_sub (c : UInt32) (n : Nat) : c + UInt32.ofNat n - c = UInt32.ofNat n := by
  rw [UInt32.add_comm, UInt32.add_sub_cancel]

/-- A counter that moves on is as much further from another. -/
theorem add_sub_eq_sub_add (c n d : UInt32) : c + n - d = c - d + n := by
  rw [UInt32.sub_eq_add_neg, UInt32.sub_eq_add_neg, UInt32.add_assoc, UInt32.add_comm n,
    ← UInt32.add_assoc]

/-- The distance to another counter shrinks by one with each step. -/
theorem toNat_sub_succ {c d : UInt32} (h : c ≠ d) : (d - c).toNat = (d - (c + 1)).toNat + 1 := by
  have hne : c.toNat ≠ d.toNat := fun heq => h (UInt32.toNat_inj.mp heq)
  have hc := c.toNat_lt
  have hd := d.toNat_lt
  have hone : (1 : UInt32).toNat = 1 := rfl
  rw [UInt32.toNat_sub, UInt32.toNat_sub, UInt32.toNat_add, hone]
  omega

theorem toNat_add_ofNat_sub (c : UInt32) {n : Nat} (h : n < 2 ^ 32) :
    (c + UInt32.ofNat n - c).toNat = n := by
  rw [add_ofNat_sub, toNat_ofNat h]

/-- A counter comes back to itself only after a full turn. -/
theorem add_ofNat_eq_self_iff (c : UInt32) {n : Nat} (h : n < 2 ^ 32) :
    c = c + UInt32.ofNat n ↔ n = 0 := by
  constructor
  · intro heq
    have hsub := toNat_add_ofNat_sub c h
    rw [← heq, UInt32.sub_self] at hsub
    exact hsub.symm
  · rintro rfl
    simp

theorem add_ofNat_add (c : UInt32) (i j : Nat) :
    c + UInt32.ofNat (i + j) = c + UInt32.ofNat i + UInt32.ofNat j := by
  rw [UInt32.ofNat_add, UInt32.add_assoc]

end IoRing
