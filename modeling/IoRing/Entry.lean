import IoRing.Memory

/-!
# Entries and completions

A submission entry is 64 bytes.  Only three of its fields are known here: the
opcode at byte 0, the flags at byte 1 and the user data, eight bytes from byte
32 on.  The rest belongs to the single operations and passes through untouched.

A completion is 16 bytes: the user data, the signed result and the flags.  It is
handled as four words, the unit in which the kernel writes it.
-/

namespace IoRing

/-! ## Submission entries -/

/-- The bytes of one submission entry. -/
structure Entry where
  /-- The bytes, in memory order. -/
  bytes : List UInt8
  /-- There are 64 of them. -/
  length_eq : bytes.length = 64
deriving DecidableEq

namespace Entry

/-- The entry with the three generic fields set and all other bytes zero. -/
def make (opcode flags : UInt8) (userData : UInt64) : Entry where
  bytes := opcode :: flags :: List.replicate 30 0 ++
    LittleEndian.encode 8 userData.toNat ++ List.replicate 24 0
  length_eq := by simp

/-- The entry made of the given bytes, if there are 64. -/
def ofBytes? (bytes : List UInt8) : Option Entry :=
  if h : bytes.length = 64 then some ⟨bytes, h⟩ else none

/-- The entry stored at an offset of a block. -/
def load (m : Memory) (block offset : Nat) : Entry :=
  ⟨m.read block offset 64, by simp⟩

/-- The memory with an entry stored at an offset of a block. -/
def store (m : Memory) (block offset : Nat) (e : Entry) : Memory :=
  m.write block offset e.bytes

/-- The operation asked for. -/
def opcode (e : Entry) : UInt8 := e.bytes.headD 0

/-- The number that the completion of this entry carries. -/
def userData (e : Entry) : UInt64 :=
  UInt64.ofNat (LittleEndian.decode ((e.bytes.drop 32).take 8))

@[simp] theorem opcode_make (opcode flags : UInt8) (userData : UInt64) :
    (make opcode flags userData).opcode = opcode := rfl

@[simp] theorem userData_make (opcode flags : UInt8) (userData : UInt64) :
    (make opcode flags userData).userData = userData := by
  have h : ((make opcode flags userData).bytes.drop 32).take 8 =
      LittleEndian.encode 8 userData.toNat := rfl
  have hlt : userData.toNat < LittleEndian.capacity 8 := userData.toNat_lt
  rw [Entry.userData, h, LittleEndian.decode_encode, Nat.mod_eq_of_lt hlt]
  simp

/-- An entry is read back as it was stored. -/
@[simp] theorem load_store (m : Memory) (block offset : Nat) (e : Entry) :
    load (store m block offset e) block offset = e := by
  have h := m.read_write block offset e.bytes
  rw [e.length_eq] at h
  simp only [load, store, h]

end Entry

/-! ## Completions -/

/-- What the kernel reports about one entry. -/
structure Completion where
  /-- The user data of the entry. -/
  userData : UInt64
  /-- The result of the operation, negative for an error. -/
  result : Int32
  /-- Flags of the completion. -/
  flags : UInt32
deriving DecidableEq

namespace Completion

/-- The four words of a completion, in memory order. -/
def words (c : Completion) : List UInt32 :=
  [UInt32.ofNat c.userData.toNat, UInt32.ofNat (c.userData.toNat / UInt32.size),
    c.result.toUInt32, c.flags]

/-- The completion stored at an offset of a block. -/
def load (m : Memory) (block offset : Nat) : Completion where
  userData := UInt64.ofNat
    ((m.word block offset).toNat + UInt32.size * (m.word block (offset + 4)).toNat)
  result := (m.word block (offset + 8)).toInt32
  flags := m.word block (offset + 12)

end Completion

end IoRing
