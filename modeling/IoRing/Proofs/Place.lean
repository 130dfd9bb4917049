import IoRing.Region
import Mathlib.Algebra.Group.Nat.Defs

/-!
# Places and what a write leaves alone

A `Place` is a row of bytes in one block.  `SameOutside ps m m'` says that two
memories differ at most in the places `ps`.  Every operation on a ring has such
a list of places, and a place apart from them is the same before and after
(`SameOutside.sameAt`), so what is read there is too.

The kernel reads and writes words through its mappings and ignores those that do
not lie inside.  Inside a mapping its words are plain words of memory
(`Kernel.word_eq`, `Kernel.setWord_eq`), and all that a write changes about the
kernel is its memory.  The process reads and writes through regions, which allow
what lies inside (`Region.locate_cells`).
-/

namespace IoRing

/-- A row of bytes in a block. -/
structure Place where
  /-- The block. -/
  block : Nat
  /-- The first byte. -/
  offset : Nat
  /-- The number of bytes. -/
  count : Nat
deriving DecidableEq

namespace Place

/-- A byte belongs to the place. -/
def Covers (p : Place) (block offset : Nat) : Prop :=
  p.block = block ∧ p.offset ≤ offset ∧ offset < p.offset + p.count

/-- Two places share no byte. -/
def Apart (p q : Place) : Prop :=
  Memory.Apart p.block p.offset p.count q.block q.offset q.count

instance (p q : Place) : Decidable (p.Apart q) := inferInstanceAs (Decidable (Memory.Apart ..))

/-- All bytes of the first place belong to the second. -/
def Within (p q : Place) : Prop :=
  p.block = q.block ∧ q.offset ≤ p.offset ∧ p.offset + p.count ≤ q.offset + q.count

variable {p q r : Place}

theorem Within.refl (p : Place) : p.Within p := ⟨rfl, Nat.le_refl _, Nat.le_refl _⟩

theorem Within.covers (h : p.Within q) {b i : Nat} (hi : p.Covers b i) : q.Covers b i := by
  obtain ⟨hblock, hlow, hhigh⟩ := h
  obtain ⟨hb, hfrom, hto⟩ := hi
  exact ⟨hblock.symm.trans hb, by omega, by omega⟩

/-- An array of equal cells, cut to one cell. -/
theorem within_of_cell {block base size count i : Nat} (h : i < count) :
    (⟨block, base + size * i, size⟩ : Place).Within ⟨block, base, size * count⟩ := by
  have hle := Nat.mul_le_mul_left size (Nat.succ_le_of_lt h)
  rw [Nat.mul_succ] at hle
  exact ⟨rfl, Nat.le_add_right _ _, by simp only; omega⟩

theorem Apart.symm (h : p.Apart q) : q.Apart p := Memory.Apart.symm h

/-- What is apart from a place is apart from each part of it. -/
theorem Apart.mono_right (h : p.Apart q) (hr : r.Within q) : p.Apart r := by
  obtain ⟨hblock, hlow, hhigh⟩ := hr
  rcases h with h | h | h
  · exact .inl (by rwa [hblock])
  · exact .inr (.inl (by omega))
  · exact .inr (.inr (by omega))

theorem Apart.mono_left (h : p.Apart q) (hr : r.Within p) : r.Apart q :=
  (h.symm.mono_right hr).symm

theorem Apart.not_covers (h : p.Apart q) {b i : Nat} (hi : q.Covers b i) : ¬ p.Covers b i := by
  obtain ⟨hb, hfrom, hto⟩ := hi
  rintro ⟨hb', hfrom', hto'⟩
  rcases h with h | h | h
  · exact h (hb'.trans hb.symm)
  · omega
  · omega

end Place

/-- The place of some bytes of a mapping. -/
def Mapping.place (m : Mapping) (offset count : Nat) : Place := ⟨m.block, offset, count⟩

/-! ## Memories that differ in few places -/

/-- The second memory differs from the first at most in the given places. -/
def SameOutside (ps : List Place) (m m' : Memory) : Prop :=
  ∀ b i, (∀ p ∈ ps, ¬ p.Covers b i) → m'.byte b i = m.byte b i

namespace SameOutside

variable {ps qs : List Place} {m m' m'' : Memory}

theorem refl (ps : List Place) (m : Memory) : SameOutside ps m m := fun _ _ _ => rfl

theorem trans (h : SameOutside ps m m') (h' : SameOutside ps m' m'') : SameOutside ps m m'' := by
  intro b i hi
  rw [h' b i hi, h b i hi]

/-- The places may be replaced by more and larger ones. -/
theorem mono (h : SameOutside ps m m') (hps : ∀ p ∈ ps, ∃ q ∈ qs, p.Within q) :
    SameOutside qs m m' := by
  intro b i hi
  refine h b i fun p hp hcovers => ?_
  obtain ⟨q, hq, hwithin⟩ := hps p hp
  exact hi q hq (hwithin.covers hcovers)

theorem widen {p q : Place} (h : SameOutside [p] m m') (hpq : p.Within q) :
    SameOutside [q] m m' := by
  refine h.mono fun r hr => ⟨q, List.mem_singleton.mpr rfl, ?_⟩
  rwa [List.mem_singleton.mp hr]

theorem of_subset (h : SameOutside ps m m') (hps : ps ⊆ qs) : SameOutside qs m m' :=
  h.mono fun p hp => ⟨p, hps hp, .refl p⟩

end SameOutside

/-- Both memories have the same bytes in a place. -/
def SameAt (p : Place) (m m' : Memory) : Prop :=
  ∀ i, p.offset ≤ i → i < p.offset + p.count → m'.byte p.block i = m.byte p.block i

/-- A place apart from all that may differ is the same. -/
theorem SameOutside.sameAt {ps : List Place} {m m' : Memory} (h : SameOutside ps m m')
    {q : Place} (hapart : ∀ p ∈ ps, p.Apart q) : SameAt q m m' :=
  fun i hfrom hto => h q.block i fun p hp => (hapart p hp).not_covers ⟨rfl, hfrom, hto⟩

namespace SameAt

variable {p q : Place} {m m' m'' : Memory}

theorem refl (p : Place) (m : Memory) : SameAt p m m := fun _ _ _ => rfl

theorem trans (h : SameAt p m m') (h' : SameAt p m' m'') : SameAt p m m'' :=
  fun i hfrom hto => (h' i hfrom hto).trans (h i hfrom hto)

theorem mono (h : SameAt p m m') (hqp : q.Within p) : SameAt q m m' := by
  obtain ⟨hblock, hlow, hhigh⟩ := hqp
  intro i hfrom hto
  rw [hblock]
  exact h i (by omega) (by omega)

theorem read_eq {block offset count : Nat} (h : SameAt ⟨block, offset, count⟩ m m') :
    m'.read block offset count = m.read block offset count := by
  simp only [Memory.read, List.map_inj_left, List.mem_range]
  intro i hi
  exact h (offset + i) (Nat.le_add_right _ _) (Nat.add_lt_add_left hi _)

theorem word_eq {block offset : Nat} (h : SameAt ⟨block, offset, 4⟩ m m') :
    m'.word block offset = m.word block offset := by
  rw [Memory.word, Memory.word, h.read_eq]

end SameAt

theorem Memory.sameOutside_write (m : Memory) (block offset : Nat) (bytes : List UInt8) :
    SameOutside [⟨block, offset, bytes.length⟩] m (m.write block offset bytes) := by
  intro b i hi
  apply m.byte_write_of_apart
  have hout := hi _ (List.mem_singleton.mpr rfl)
  simp only [Place.Covers, not_and, Nat.not_lt] at hout
  by_cases hb : block = b
  · by_cases hlow : offset ≤ i
    · exact .inr (.inl (hout hb hlow))
    · exact .inr (.inr (by omega))
  · exact .inl hb

theorem Memory.sameOutside_setWord (m : Memory) (block offset : Nat) (value : UInt32) :
    SameOutside [⟨block, offset, 4⟩] m (m.setWord block offset value) := by
  have h := m.sameOutside_write block offset (LittleEndian.encode 4 value.toNat)
  rwa [LittleEndian.length_encode] at h

namespace SameOutside

variable {ps : List Place} {m m' : Memory}

/-- The same write keeps memories that differ in few places that way. -/
theorem write (h : SameOutside ps m m') (block offset : Nat) (bytes : List UInt8) :
    SameOutside ps (m.write block offset bytes) (m'.write block offset bytes) := by
  intro b i hi
  rw [Memory.byte_write, Memory.byte_write, h b i hi]

theorem setWord (h : SameOutside ps m m') (block offset : Nat) (value : UInt32) :
    SameOutside ps (m.setWord block offset value) (m'.setWord block offset value) :=
  h.write block offset _

/-- A write over all that differs leaves no difference. -/
theorem write_eq {block offset : Nat} {bytes : List UInt8}
    (h : SameOutside [⟨block, offset, bytes.length⟩] m m') :
    m'.write block offset bytes = m.write block offset bytes := by
  ext b i
  rw [Memory.byte_write, Memory.byte_write]
  by_cases hin : (b = block ∧ offset ≤ i) ∧ i - offset < bytes.length
  · rw [if_pos hin.1, if_pos hin.1, List.getElem?_eq_getElem hin.2]
    rfl
  · have hsame : m'.byte b i = m.byte b i := by
      refine h b i fun p hp => ?_
      rw [List.mem_singleton.mp hp]
      rintro ⟨rfl, hfrom, hto⟩
      simp only at hfrom hto
      exact hin ⟨⟨rfl, hfrom⟩, by omega⟩
    rw [hsame]

theorem setWord_eq {block offset : Nat} (h : SameOutside [⟨block, offset, 4⟩] m m')
    (value : UInt32) : m'.setWord block offset value = m.setWord block offset value := by
  refine write_eq ?_
  rwa [LittleEndian.length_encode]

end SameOutside

/-- The memory with consecutive words stored. -/
def Memory.setWords (m : Memory) (block offset : Nat) : List UInt32 → Memory
  | [] => m
  | w :: ws => (m.setWord block offset w).setWords block (offset + 4) ws

theorem Memory.sameOutside_setWords (m : Memory) (block offset : Nat) (ws : List UInt32) :
    SameOutside [⟨block, offset, 4 * ws.length⟩] m (m.setWords block offset ws) := by
  induction ws generalizing m offset with
  | nil => exact .refl _ _
  | cons w ws ih =>
    have hhead : (⟨block, offset, 4⟩ : Place).Within ⟨block, offset, 4 * (w :: ws).length⟩ :=
      ⟨rfl, Nat.le_refl _, by simp only [List.length_cons]; omega⟩
    have htail : (⟨block, offset + 4, 4 * ws.length⟩ : Place).Within
        ⟨block, offset, 4 * (w :: ws).length⟩ :=
      ⟨rfl, Nat.le_add_right _ _, by simp only [List.length_cons]; omega⟩
    exact ((m.sameOutside_setWord block offset w).widen hhead).trans
      ((ih (m.setWord block offset w) (offset + 4)).widen htail)

/-! ## The kernel's words -/

/-- The kernel with its memory replaced. -/
def Kernel.withMemory (k : Kernel) (m : Memory) : Kernel := { k with memory := m }

/-- The host with its memory replaced. -/
def Host.withMemory (h : Host) (m : Memory) : Host := { h with kernel := h.kernel.withMemory m }

namespace Kernel

variable {k : Kernel} {area : Area} {mapping : Mapping}

@[simp] theorem mapping?_withMemory (k : Kernel) (m : Memory) (area : Area) :
    (k.withMemory m).mapping? area = k.mapping? area := by
  cases area <;> rfl

/-- A word inside the mapping of an area is a word of memory. -/
theorem word_eq (hmap : k.mapping? area = some mapping) {offset : Nat}
    (hin : mapping.Holds offset 4) : k.word area offset = k.memory.word mapping.block offset := by
  simp only [word, hmap, Mapping.guardedWord, if_pos hin]

theorem setWord_eq (hmap : k.mapping? area = some mapping) {offset : Nat}
    (hin : mapping.Holds offset 4) (value : UInt32) :
    k.setWord area offset value = k.withMemory (k.memory.setWord mapping.block offset value) := by
  simp only [setWord, hmap, Mapping.guardedSetWord, if_pos hin, withMemory]

theorem setWords_eq (hmap : k.mapping? area = some mapping) {offset : Nat} (ws : List UInt32)
    (hin : mapping.Holds offset (4 * ws.length)) :
    k.setWords area offset ws = k.withMemory (k.memory.setWords mapping.block offset ws) := by
  induction ws generalizing k offset with
  | nil => rfl
  | cons w ws ih =>
    have hhead : mapping.Holds offset 4 := by
      simp only [Mapping.Holds, List.length_cons] at hin ⊢
      omega
    have htail : mapping.Holds (offset + 4) (4 * ws.length) := by
      simp only [Mapping.Holds, List.length_cons] at hin ⊢
      omega
    rw [setWords, setWord_eq hmap hhead, ih (by simpa using hmap) htail]
    rfl

end Kernel

/-! ## Access through a region -/

/-- The bytes of an array are counted in 64 bits, and a 32-bit count of small cells
does not wrap. -/
theorem toNat_cells (size : UInt64) (hsize : size.toNat < 2 ^ 32) (count : UInt32) :
    (size * count.toUInt64).toNat = size.toNat * count.toNat := by
  have hlt : size.toNat * count.toNat < 2 ^ 64 :=
    Nat.lt_of_le_of_lt (Nat.mul_le_mul_left _ (Nat.le_of_lt count.toNat_lt))
      (Nat.mul_lt_mul_of_pos_right hsize (by decide))
  rw [UInt64.toNat_mul, UInt32.toNat_toUInt64, Nat.mod_eq_of_lt hlt]

/-- Cells that lie inside a mapping may be accessed. -/
theorem Region.locate_cells {mapping : Mapping} (size : UInt64) (hsize : size.toNat < 2 ^ 32)
    (offset : UInt32) {count : UInt32}
    (h : mapping.Holds offset.toNat (size.toNat * count.toNat)) :
    (⟨some mapping⟩ : Region).locate size offset.toUInt64 count.toUInt64 = .ok mapping := by
  refine Region.locate_eq_ok_iff.mpr ⟨rfl, ?_⟩
  rwa [toNat_cells size hsize, UInt32.toNat_toUInt64]

theorem Region.locate_word {mapping : Mapping} {offset : UInt32}
    (h : mapping.Holds offset.toNat 4) :
    (⟨some mapping⟩ : Region).locate 4 offset.toUInt64 1 = .ok mapping :=
  Region.locate_eq_ok_iff.mpr ⟨rfl, by simpa using h⟩

end IoRing
