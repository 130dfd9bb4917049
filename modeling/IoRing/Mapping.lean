import IoRing.Memory

/-!
# Mappings

A *mapping* is a stretch of shared memory that the kernel handed out.  It has
its own block of `Memory`, and only the first `length` bytes belong to it.

A ring has three *areas* that can be mapped, told apart by the offset given to
the mapping call.  The kernel sees each of them as words.  A word that does not
lie wholly inside the mapping reads as 0 and cannot be written.
-/

namespace IoRing

/-- A stretch of shared memory. -/
structure Mapping where
  /-- The block that holds the bytes, which is also the number of the mapping. -/
  block : Nat
  /-- The number of bytes. -/
  length : UInt64
deriving DecidableEq

namespace Mapping

/-- The `count` bytes from `offset` on lie inside the mapping. -/
def Holds (m : Mapping) (offset count : Nat) : Prop := offset + count ≤ m.length.toNat

instance (m : Mapping) (offset count : Nat) : Decidable (m.Holds offset count) :=
  inferInstanceAs (Decidable (_ ≤ _))

/-- The word at an offset, 0 if it does not lie inside. -/
def guardedWord (m : Mapping) (memory : Memory) (offset : Nat) : UInt32 :=
  if m.Holds offset 4 then memory.word m.block offset else 0

/-- The memory with a word stored, unchanged if the word does not lie inside. -/
def guardedSetWord (m : Mapping) (memory : Memory) (offset : Nat) (value : UInt32) : Memory :=
  if m.Holds offset 4 then memory.setWord m.block offset value else memory

/-- The memory with preset words stored one after the other. -/
def preset (m : Mapping) (memory : Memory) (words : List (Nat × UInt32)) : Memory :=
  words.foldl (fun memory w => m.guardedSetWord memory w.1 w.2) memory

end Mapping

/-! ## Areas of a ring -/

/-- A part of a ring that can be mapped. -/
inductive Area where
  /-- The submission ring: header and index array. -/
  | sqRing
  /-- The completion ring: header and completions. -/
  | cqRing
  /-- The array of entries. -/
  | sqes
deriving DecidableEq, Repr

namespace Area

/-- The offset by which the mapping call names the area. -/
def offset : Area → Int
  | .sqRing => 0
  | .cqRing => 0x8000000
  | .sqes => 0x10000000

/-- The area that an offset names. -/
def ofOffset? (n : Int) : Option Area :=
  if n = 0 then some .sqRing
  else if n = 0x8000000 then some .cqRing
  else if n = 0x10000000 then some .sqes
  else none

theorem ofOffset?_offset (a : Area) : ofOffset? a.offset = some a := by
  cases a <;> decide

end Area

/-! ## Arguments of the mapping call -/

/-- Protection of every mapping: readable and writable. -/
def MapFlag.readWrite : UInt32 := 3

/-- Shared with the kernel, with all pages present. -/
def MapFlag.sharedPopulated : UInt32 := 0x8001

/-- The bit that asks for memory of no file. -/
def MapFlag.anonymous : UInt32 := 0x20

/-- Private memory of no file. -/
def MapFlag.privateAnonymous : UInt32 := 0x22

end IoRing
