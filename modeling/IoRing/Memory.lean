import IoRing.LittleEndian
import IoRing.Sparse

/-!
# Byte memory

Shared memory is a set of numbered *blocks*, one per mapping.  A block is an
unbounded row of bytes, all zero until written.  How long a mapping is, and
which accesses are allowed, is decided by whoever holds the mapping.

A *word* is an unsigned 32-bit number in four little-endian bytes.  The ring
headers and the index array are made of words.

Memory is determined by its bytes (`Memory.ext`).  The laws are read over write.
A write is seen by a read of the same place (`read_write`, `word_setWord`) and by
no read of a place apart from it (`read_write_of_apart`, `word_setWord_of_apart`).
-/

namespace IoRing

/-- The contents of all blocks. -/
structure Memory where
  /-- The bytes of each block. -/
  blocks : Sparse (Sparse UInt8)
deriving DecidableEq

namespace Memory

/-- Memory that was never written. -/
def zero : Memory := ⟨.empty⟩

/-- The byte at an offset of a block. -/
def byte (m : Memory) (block offset : Nat) : UInt8 := (m.blocks.get block).get offset

/-- The bytes of one block set to zero. -/
def clear (m : Memory) (block : Nat) : Memory := ⟨m.blocks.set block .empty⟩

/-- The `count` bytes of a block from an offset on. -/
def read (m : Memory) (block offset count : Nat) : List UInt8 :=
  let bytes := m.blocks.get block
  (List.range count).map fun i => bytes.get (offset + i)

/-- The memory with `bytes` stored in a block from an offset on. -/
def write (m : Memory) (block offset : Nat) (bytes : List UInt8) : Memory :=
  ⟨m.blocks.set block ((m.blocks.get block).setAll offset bytes)⟩

/-- The word at an offset of a block. -/
def word (m : Memory) (block offset : Nat) : UInt32 :=
  UInt32.ofNat (LittleEndian.decode (m.read block offset 4))

/-- The memory with a word stored. -/
def setWord (m : Memory) (block offset : Nat) (value : UInt32) : Memory :=
  m.write block offset (LittleEndian.encode 4 value.toNat)

/-! ## Places

A place is a block, an offset and a count of bytes. -/

/-- Two places share no byte. -/
def Apart (block offset count block' offset' count' : Nat) : Prop :=
  block ≠ block' ∨ offset + count ≤ offset' ∨ offset' + count' ≤ offset

instance (block offset count block' offset' count' : Nat) :
    Decidable (Apart block offset count block' offset' count') :=
  inferInstanceAs (Decidable (_ ∨ _))

theorem Apart.symm {block offset count block' offset' count' : Nat}
    (h : Apart block offset count block' offset' count') :
    Apart block' offset' count' block offset count := by
  rcases h with h | h | h
  · exact .inl h.symm
  · exact .inr (.inr h)
  · exact .inr (.inl h)

/-- Two slots of an array are apart. -/
theorem apart_slots (block base size : Nat) {i j : Nat} (h : i ≠ j) :
    Apart block (base + size * i) size block (base + size * j) size := by
  rcases Nat.lt_or_gt_of_ne h with h | h
  · have := Nat.mul_le_mul_left size (Nat.succ_le_of_lt h)
    rw [Nat.mul_succ] at this
    exact .inr (.inl (by omega))
  · have := Nat.mul_le_mul_left size (Nat.succ_le_of_lt h)
    rw [Nat.mul_succ] at this
    exact .inr (.inr (by omega))

/-! ## Read over write -/

/-- Memories with the same bytes are equal. -/
@[ext] theorem ext {m m' : Memory} (h : ∀ b i, m.byte b i = m'.byte b i) : m = m' := by
  have : m.blocks = m'.blocks := Sparse.ext fun b => Sparse.ext fun i => h b i
  cases m
  cases m'
  cases this
  rfl

@[simp] theorem length_read (m : Memory) (block offset count : Nat) :
    (m.read block offset count).length = count := by
  simp [read]

theorem byte_write (m : Memory) (block offset : Nat) (bytes : List UInt8) (b i : Nat) :
    (m.write block offset bytes).byte b i =
      if b = block ∧ offset ≤ i then bytes[i - offset]?.getD (m.byte b i) else m.byte b i := by
  simp only [byte, write, Sparse.get_set]
  by_cases hb : b = block
  · subst hb
    simp [Sparse.get_setAll]
  · simp [hb]

/-- A byte outside the written place keeps its value. -/
theorem byte_write_of_apart (m : Memory) (block offset : Nat) (bytes : List UInt8) (b i : Nat)
    (h : Apart block offset bytes.length b i 1) :
    (m.write block offset bytes).byte b i = m.byte b i := by
  rw [byte_write]
  split
  · next hin =>
    rw [List.getElem?_eq_none]
    · rfl
    · rcases h with h | h | h
      · exact absurd hin.1.symm h
      · omega
      · omega
  · rfl

/-- A read of the written place gives the bytes written. -/
theorem read_write (m : Memory) (block offset : Nat) (bytes : List UInt8) :
    (m.write block offset bytes).read block offset bytes.length = bytes := by
  apply List.ext_getElem
  · simp
  · intro i h₁ h₂
    have h : ((m.write block offset bytes).read block offset bytes.length)[i] =
        (m.write block offset bytes).byte block (offset + i) := by
      simp [read, byte]
    rw [h, byte_write, if_pos ⟨rfl, by omega⟩, Nat.add_sub_cancel_left,
      List.getElem?_eq_getElem h₂]
    rfl

/-- A read apart from the written place gives what it gave before. -/
theorem read_write_of_apart (m : Memory) (block offset : Nat) (bytes : List UInt8)
    (b o n : Nat) (h : Apart block offset bytes.length b o n) :
    (m.write block offset bytes).read b o n = m.read b o n := by
  simp only [read, List.map_inj_left, List.mem_range]
  intro i hi
  refine byte_write_of_apart _ _ _ _ b (o + i) ?_
  rcases h with h | h | h
  · exact .inl h
  · exact .inr (.inl (by omega))
  · exact .inr (.inr (by omega))

@[simp] theorem word_setWord (m : Memory) (block offset : Nat) (value : UInt32) :
    (m.setWord block offset value).word block offset = value := by
  have h := m.read_write block offset (LittleEndian.encode 4 value.toNat)
  rw [LittleEndian.length_encode] at h
  have hlt : value.toNat < LittleEndian.capacity 4 := value.toNat_lt
  rw [word, setWord, h, LittleEndian.decode_encode, Nat.mod_eq_of_lt hlt]
  simp

theorem word_setWord_of_apart (m : Memory) (block offset : Nat) (value : UInt32) (b o : Nat)
    (h : Apart block offset 4 b o 4) : (m.setWord block offset value).word b o = m.word b o := by
  rw [word, setWord, read_write_of_apart _ _ _ _ _ _ _ (by simpa using h), word]

/-! ## Zeroed blocks -/

@[simp] theorem word_zero (block offset : Nat) : zero.word block offset = 0 := rfl

theorem byte_clear (m : Memory) (block b i : Nat) :
    (m.clear block).byte b i = if b = block then 0 else m.byte b i := by
  simp only [byte, clear, Sparse.get_set]
  split <;> rfl

end Memory

end IoRing
