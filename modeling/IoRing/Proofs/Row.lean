import IoRing.Proofs.Counter

/-!
# Rows of cells

A *cell* is what a counter stands for, if anything.  `CellsHold` says that the
cells from a counter on hold the given items, and `itemsFrom` reads them off.

A `Row` is a stretch of cells in two parts, the front between the first counter
and the middle one, the back between the middle one and the last.  It is never
longer than there are slots.  Both queues of a ring are rows.  Of submissions
the front is published and the back is not.  Of completions the front was taken
and its slots are still kept, and the back waits.

Four things happen to a row.  Items leave at the front (`Row.drop`), the middle
moves on (`Row.advance`), an item is written behind the last one (`Row.push`),
or memory changes elsewhere (`Row.congr`).  A push overwrites the slot of no
other item, however often the counters have wrapped.
-/

namespace IoRing

section Cells

variable {α : Type}

/-- The cells from a counter on hold the given items. -/
def CellsHold (cell : UInt32 → Option α) (c : UInt32) (items : List α) : Prop :=
  ∀ i a, items[i]? = some a → cell (c + UInt32.ofNat i) = some a

/-- The items in the next `n` cells from a counter on. -/
def itemsFrom (cell : UInt32 → Option α) : UInt32 → Nat → List α
  | _, 0 => []
  | c, n + 1 => (cell c).toList ++ itemsFrom cell (c + 1) n

variable {cell cell' : UInt32 → Option α} {c : UInt32} {items : List α}

theorem CellsHold.nil : CellsHold cell c [] := by
  intro i a h
  simp at h

/-- The first item is in the first cell and the rest in those after it. -/
theorem CellsHold.cons_iff {a : α} :
    CellsHold cell c (a :: items) ↔ cell c = some a ∧ CellsHold cell (c + 1) items := by
  have step (i : Nat) : c + UInt32.ofNat (i + 1) = c + 1 + UInt32.ofNat i := by
    rw [Nat.add_comm, add_ofNat_add]
    rfl
  constructor
  · intro h
    refine ⟨by simpa using h 0 a, ?_⟩
    intro i b hb
    rw [← step]
    exact h (i + 1) b (by simpa using hb)
  · rintro ⟨hhead, htail⟩ i b hb
    cases i with
    | zero => simpa [← Option.some.inj hb] using hhead
    | succ i =>
      rw [step]
      exact htail i b (by simpa using hb)

/-- Two runs of items lie one behind the other. -/
theorem CellsHold.append_iff {items' : List α} :
    CellsHold cell c (items ++ items') ↔
      CellsHold cell c items ∧ CellsHold cell (c + UInt32.ofNat items.length) items' := by
  induction items generalizing c with
  | nil => simp [CellsHold.nil]
  | cons a items ih =>
    rw [List.cons_append, CellsHold.cons_iff, ih, CellsHold.cons_iff, List.length_cons,
      Nat.add_comm items.length 1, add_ofNat_add, and_assoc]
    rfl

theorem CellsHold.append_singleton {a : α} (h : CellsHold cell c items)
    (ha : cell (c + UInt32.ofNat items.length) = some a) : CellsHold cell c (items ++ [a]) :=
  CellsHold.append_iff.mpr ⟨h, CellsHold.cons_iff.mpr ⟨ha, .nil⟩⟩

/-- Only the cells from the start on, as many as there are items, matter. -/
theorem CellsHold.congr (h : CellsHold cell c items)
    (hcell : ∀ i < items.length, cell' (c + UInt32.ofNat i) = cell (c + UInt32.ofNat i)) :
    CellsHold cell' c items := by
  intro i a ha
  rw [hcell i (List.getElem?_eq_some_iff.mp ha).1]
  exact h i a ha

/-- Reading as many cells as there are items gives the items. -/
theorem CellsHold.itemsFrom_eq (h : CellsHold cell c items) :
    itemsFrom cell c items.length = items := by
  induction items generalizing c with
  | nil => rfl
  | cons a items ih =>
    obtain ⟨hhead, htail⟩ := CellsHold.cons_iff.mp h
    rw [List.length_cons, itemsFrom, hhead, ih htail]
    rfl

end Cells

/-! ## Rows -/

/-- The cells from the first counter to the last one, in two parts. -/
structure Row {α : Type} (cell : UInt32 → Option α) (size first middle last : UInt32)
    (front back : List α) : Prop where
  middle_eq : middle = first + UInt32.ofNat front.length
  last_eq : last = middle + UInt32.ofNat back.length
  length_le : front.length + back.length ≤ size.toNat
  held : CellsHold cell first (front ++ back)

namespace Row

variable {α : Type} {cell cell' : UInt32 → Option α} {size first middle last c : UInt32}
  {front back : List α}

theorem nil : Row cell size c c c [] [] where
  middle_eq := by simp
  last_eq := by simp
  length_le := Nat.zero_le _
  held := .nil

/-- The last counter is the first one, moved on by all items. -/
theorem last_eq_add (h : Row cell size first middle last front back) :
    last = first + UInt32.ofNat (front.length + back.length) := by
  rw [h.last_eq, h.middle_eq, add_ofNat_add]

theorem length_lt (h : Row cell size first middle last front back) :
    front.length + back.length < 2 ^ 32 :=
  Nat.lt_of_le_of_lt h.length_le size.toNat_lt

/-! ### Distances -/

theorem toNat_front (h : Row cell size first middle last front back) :
    (middle - first).toNat = front.length := by
  rw [h.middle_eq, toNat_add_ofNat_sub _ (Nat.lt_of_le_of_lt (Nat.le_add_right _ _) h.length_lt)]

theorem toNat_back (h : Row cell size first middle last front back) :
    (last - middle).toNat = back.length := by
  rw [h.last_eq, toNat_add_ofNat_sub _ (Nat.lt_of_le_of_lt (Nat.le_add_left _ _) h.length_lt)]

theorem toNat_all (h : Row cell size first middle last front back) :
    (last - first).toNat = front.length + back.length := by
  rw [h.last_eq_add, toNat_add_ofNat_sub _ h.length_lt]

/-! ### Contents -/

theorem held_front (h : Row cell size first middle last front back) :
    CellsHold cell first front := (CellsHold.append_iff.mp h.held).1

theorem held_back (h : Row cell size first middle last front back) :
    CellsHold cell middle back := by
  rw [h.middle_eq]
  exact (CellsHold.append_iff.mp h.held).2

/-! ### Changes -/

theorem congr (h : Row cell size first middle last front back)
    (hcell : ∀ i < front.length + back.length,
      cell' (first + UInt32.ofNat i) = cell (first + UInt32.ofNat i)) :
    Row cell' size first middle last front back where
  middle_eq := h.middle_eq
  last_eq := h.last_eq
  length_le := h.length_le
  held := h.held.congr fun i hi => hcell i (by rwa [List.length_append] at hi)

/-- Items leave at the front. -/
theorem drop (h : Row cell size first middle last front back) (n : Nat) :
    Row cell size (first + UInt32.ofNat (front.take n).length) middle last (front.drop n) back := by
  have hcount : (front.take n).length + (front.drop n).length = front.length := by
    rw [← List.length_append, List.take_append_drop]
  constructor
  case middle_eq => rw [← add_ofNat_add, hcount, h.middle_eq]
  case last_eq => exact h.last_eq
  case length_le =>
    have hle := h.length_le
    omega
  case held =>
    have hheld := h.held
    rw [← List.take_append_drop n front, List.append_assoc, CellsHold.append_iff] at hheld
    exact hheld.2

/-- The middle moves on. -/
theorem advance (h : Row cell size first middle last front back) (n : Nat) :
    Row cell size first (middle + UInt32.ofNat (back.take n).length) last
      (front ++ back.take n) (back.drop n) := by
  have hcount : (back.take n).length + (back.drop n).length = back.length := by
    rw [← List.length_append, List.take_append_drop]
  constructor
  case middle_eq => rw [h.middle_eq, List.length_append, add_ofNat_add]
  case last_eq => rw [← add_ofNat_add, hcount, h.last_eq]
  case length_le =>
    have hle := h.length_le
    rw [List.length_append]
    omega
  case held =>
    rw [List.append_assoc, List.take_append_drop]
    exact h.held

/-- The middle moves to the end. -/
theorem advanceAll (h : Row cell size first middle last front back) :
    Row cell size first last last (front ++ back) [] := by
  have hall := h.advance back.length
  rwa [List.take_length, ← h.last_eq, List.drop_length] at hall

/-- The front leaves. -/
theorem dropAll (h : Row cell size first middle last front back) :
    Row cell size middle middle last [] back := by
  have hall := h.drop front.length
  rwa [List.take_length, ← h.middle_eq, List.drop_length] at hall

/-- The back is forgotten. -/
theorem withoutBack (h : Row cell size first middle last front back) :
    Row cell size first middle middle front [] where
  middle_eq := h.middle_eq
  last_eq := by simp
  length_le := Nat.le_trans (Nat.le_add_right _ _) h.length_le
  held := by simpa using h.held_front

/-- The middle moves back to the first counter. -/
theorem rewound (h : Row cell size first middle last front back) :
    Row cell size first first last [] (front ++ back) where
  middle_eq := by simp
  last_eq := by rw [List.length_append, ← h.last_eq_add]
  length_le := by simpa using h.length_le
  held := h.held

/-- An item is written into the slot of the last counter. -/
theorem push (h : Row cell size first middle last front back) (hsize : IsRingSize size)
    (hroom : front.length + back.length < size.toNat) {a : α} (hnew : cell' last = some a)
    (hold : ∀ c, slotOf size c ≠ slotOf size last → cell' c = cell c) :
    Row cell' size first middle (last + 1) front (back ++ [a]) := by
  have hlast := h.last_eq_add
  constructor
  case middle_eq => exact h.middle_eq
  case last_eq =>
    rw [List.length_append, add_ofNat_add, ← h.last_eq]
    rfl
  case length_le =>
    rw [List.length_append, List.length_singleton]
    omega
  case held =>
    rw [← List.append_assoc]
    refine CellsHold.append_singleton (h.held.congr fun i hi => hold _ ?_) ?_
    · -- the cells in use are less than a turn behind the last counter
      rw [List.length_append] at hi
      rw [hlast]
      exact slotOf_ne hsize _ hi hroom
    · rwa [List.length_append, ← hlast]

end Row

end IoRing
