import IoRing.Region
import Mathlib.Algebra.Group.Nat.Defs

/-!
# Which ranges may be accessed

A region is asked for a count of elements of some size at an offset.  They fit if
the region is mapped and the end of the last one, counted exactly, lies inside
(`Region.Fits`).  The check counts the bytes in 64 bits.  If there are too many for
that, it sees only what is left of them modulo `2 ^ 64`, and that may lie inside
(`Region.Wraps`).

So the check is not exact.  It accepts what fits and what wraps
(`Region.locate_iff`), and it is right about a request exactly if that does not
wrap.  Elements of at most 64 bytes wrap from a count of `2 ^ 58` on, so no array
of a ring does, whose count has 32 bits.
-/

namespace IoRing

namespace Region

variable (r : Region) (size offset count : UInt64)

/-- The elements fit into the mapping, counted exactly. -/
def Fits : Prop :=
  ∃ m, r.mapping? = some m ∧ m.Holds offset.toNat (size.toNat * count.toNat)

/-- The elements have more bytes than 64 bits count, and what is counted of them
fits. -/
def Wraps : Prop :=
  2 ^ 64 ≤ size.toNat * count.toNat ∧
    ∃ m, r.mapping? = some m ∧ m.Holds offset.toNat (size.toNat * count.toNat % 2 ^ 64)

variable {r size offset count}

/-- What wraps does not fit, since no mapping is that long. -/
theorem Wraps.not_fits (hwraps : r.Wraps size offset count) : ¬ r.Fits size offset count := by
  rintro ⟨m, -, hholds⟩
  have hlong := hwraps.1
  have hlength := m.length.toNat_lt
  simp only [Mapping.Holds] at hholds
  omega

/-- Few enough elements do not wrap. -/
theorem not_wraps_of_lt (hlt : size.toNat * count.toNat < 2 ^ 64) :
    ¬ r.Wraps size offset count := by
  intro hwraps
  exact Nat.not_le_of_lt hlt hwraps.1

theorem not_wraps_of_le (hsize : size.toNat ≤ 64) (hcount : count.toNat < 2 ^ 58) :
    ¬ r.Wraps size offset count := by
  refine not_wraps_of_lt (Nat.lt_of_le_of_lt (Nat.mul_le_mul_right count.toNat hsize) ?_)
  omega

/-- A mapping is located if the elements fit or wrap. -/
theorem locate_eq_ok_iff_fits_or_wraps {m : Mapping} :
    r.locate size offset count = .ok m ↔
      r.mapping? = some m ∧ (r.Fits size offset count ∨ r.Wraps size offset count) := by
  rw [locate_eq_ok_iff, UInt64.toNat_mul]
  refine and_congr_right fun hmapped => ?_
  constructor
  · intro hholds
    by_cases hlt : size.toNat * count.toNat < 2 ^ 64
    · rw [Nat.mod_eq_of_lt hlt] at hholds
      exact .inl ⟨m, hmapped, hholds⟩
    · exact .inr ⟨Nat.le_of_not_lt hlt, m, hmapped, hholds⟩
  · rintro (⟨m', hmapped', hholds⟩ | ⟨-, m', hmapped', hholds⟩)
    · cases hmapped.symm.trans hmapped'
      exact Nat.le_trans (Nat.add_le_add_left (Nat.mod_le _ _) _) hholds
    · cases hmapped.symm.trans hmapped'
      exact hholds

/-- Else the fault names the offset, the bytes as they were counted and the length. -/
theorem locate_eq_error (hnone : ∀ m, r.locate size offset count ≠ .ok m) :
    r.locate size offset count = .error (.outsideMapping offset (size * count) r.length) := by
  cases hmapped : r.mapping? with
  | none => simp only [locate, length, hmapped]
  | some m =>
    have hrefused := hnone m
    simp only [locate, length, hmapped] at hrefused ⊢
    split at hrefused
    · exact absurd rfl hrefused
    · next hout => rw [if_neg hout]

/-- The elements of what was located lie inside, one and all, unless they wrap. -/
theorem elements_inside_iff {m : Mapping} (hlocated : r.locate size offset count = .ok m) :
    (∀ i < count.toNat, m.Holds (offset.toNat + size.toNat * i) size.toNat) ↔
      ¬ r.Wraps size offset count := by
  obtain ⟨hmapped, hcases⟩ := locate_eq_ok_iff_fits_or_wraps.mp hlocated
  constructor
  · intro hinside hwraps
    -- The last element ends where the range does, beyond any length.
    have hlong := hwraps.1
    have hpos : 0 < count.toNat := by
      refine Nat.pos_of_ne_zero fun hzero => ?_
      rw [hzero] at hlong
      omega
    have hlast := hinside (count.toNat - 1) (by omega)
    have hend : size.toNat * (count.toNat - 1) + size.toNat = size.toNat * count.toNat := by
      rw [← Nat.mul_succ, Nat.succ_eq_add_one, Nat.sub_add_cancel hpos]
    have hlength := m.length.toNat_lt
    simp only [Mapping.Holds] at hlast
    omega
  · intro hexact i hi
    obtain ⟨m', hmapped', hholds⟩ := hcases.resolve_right hexact
    cases hmapped.symm.trans hmapped'
    have hcell := Nat.mul_le_mul_left size.toNat (Nat.succ_le_of_lt hi)
    rw [Nat.mul_succ] at hcell
    simp only [Mapping.Holds] at hholds ⊢
    omega

/-- **Exactly what fits or wraps may be accessed.**  Anything else is out of range.
The check says whether the elements fit exactly if they do not wrap, and then all
elements of what it accepts lie inside. -/
theorem locate_iff (r : Region) (size offset count : UInt64) :
    (∀ m, r.locate size offset count = .ok m ↔
      r.mapping? = some m ∧ (r.Fits size offset count ∨ r.Wraps size offset count)) ∧
    (¬ (r.Fits size offset count ∨ r.Wraps size offset count) →
      ∃ f, r.locate size offset count = .error f ∧ f.kind = .outOfRange ∧
        f = .outsideMapping offset (size * count) r.length) ∧
    (((∃ m, r.locate size offset count = .ok m) ↔ r.Fits size offset count) ↔
      ¬ r.Wraps size offset count) ∧
    (∀ m, r.locate size offset count = .ok m →
      ((∀ i < count.toNat, m.Holds (offset.toNat + size.toNat * i) size.toNat) ↔
        ¬ r.Wraps size offset count)) ∧
    (size.toNat ≤ 64 → count.toNat < 2 ^ 58 → ¬ r.Wraps size offset count) := by
  have hlocated (hcases : r.Fits size offset count ∨ r.Wraps size offset count) :
      ∃ m, r.locate size offset count = .ok m := by
    have hmapped : ∃ m, r.mapping? = some m := by
      rcases hcases with ⟨m, hmapped, -⟩ | ⟨-, m, hmapped, -⟩
      · exact ⟨m, hmapped⟩
      · exact ⟨m, hmapped⟩
    obtain ⟨m, hmapped⟩ := hmapped
    exact ⟨m, locate_eq_ok_iff_fits_or_wraps.mpr ⟨hmapped, hcases⟩⟩
  refine ⟨fun m => locate_eq_ok_iff_fits_or_wraps, fun hneither => ?_, ?_,
    fun m => elements_inside_iff, not_wraps_of_le⟩
  · refine ⟨_, locate_eq_error fun m hm => ?_, rfl, rfl⟩
    exact hneither (locate_eq_ok_iff_fits_or_wraps.mp hm).2
  · constructor
    · intro hexact hwraps
      exact hwraps.not_fits (hexact.mp (hlocated (.inr hwraps)))
    · intro hexact
      constructor
      · rintro ⟨m, hm⟩
        exact (locate_eq_ok_iff_fits_or_wraps.mp hm).2.resolve_right hexact
      · intro hfits
        exact hlocated (.inl hfits)

/-- A word of a small region. -/
theorem locate_iff_word :
    (⟨some ⟨1, 8⟩⟩ : Region).locate 4 4 1 = .ok ⟨1, 8⟩ ∧
      ∀ i < 1, (⟨1, 8⟩ : Mapping).Holds (4 + 4 * i) 4 := by
  obtain ⟨haccepts, -, -, hinside, hexact⟩ := locate_iff ⟨some ⟨1, 8⟩⟩ 4 4 1
  have hlocated := (haccepts ⟨1, 8⟩).mpr ⟨rfl, .inl ⟨⟨1, 8⟩, rfl, by decide⟩⟩
  exact ⟨hlocated, (hinside _ hlocated).mpr (hexact (by decide) (by decide))⟩

/-- A region of eight bytes accepts `2 ^ 62` words, although only two fit. -/
theorem locate_accepts_wrapped :
    let r : Region := ⟨some ⟨1, 8⟩⟩
    let count : UInt64 := 0x4000000000000000
    ¬ ((∃ m, r.locate 4 0 count = .ok m) ↔ r.Fits 4 0 count) ∧
      r.locate 4 0 count = .ok ⟨1, 8⟩ ∧ ¬ (⟨1, 8⟩ : Mapping).Holds (4 * 2) 4 := by
  intro r count
  have hwraps : r.Wraps 4 0 count := ⟨by decide, ⟨1, 8⟩, rfl, by decide⟩
  have hlocated : r.locate 4 0 count = .ok ⟨1, 8⟩ :=
    locate_eq_ok_iff_fits_or_wraps.mpr ⟨rfl, .inr hwraps⟩
  refine ⟨fun hexact => hwraps.not_fits (hexact.mp ⟨_, hlocated⟩), hlocated, by decide⟩

end Region

end IoRing
