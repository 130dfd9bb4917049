import IoRing.Params

/-!
# Layout of the mappings

The granted parameters fix how many bytes each part of a ring takes.  The index
array ends the submission ring and the completions end the completion ring, so
the length of a ring is the place of its array plus the size of the array.
Lengths are 64-bit and the fields are 32-bit, so nothing wraps.
-/

namespace IoRing

/-- Lengths of the parts of a ring, in bytes. -/
structure Layout where
  /-- The submission ring: header and index array. -/
  sqRingLength : UInt64 := 0
  /-- The completion ring: header and completions. -/
  cqRingLength : UInt64 := 0
  /-- The array of entries. -/
  sqesLength : UInt64 := 0
  /-- Both rings share one mapping. -/
  singleMap : Bool := false
deriving DecidableEq, Inhabited

namespace Layout

/-- The layout that granted parameters call for. -/
def ofParams (p : Params) : Layout where
  sqRingLength := p.sqOffsets.array.toUInt64 + 4 * p.sqEntries.toUInt64
  cqRingLength := p.cqOffsets.cqes.toUInt64 + 16 * p.cqEntries.toUInt64
  sqesLength := 64 * p.sqEntries.toUInt64
  singleMap := p.hasFeature Feature.singleMap

/-- Length of the one mapping that holds both rings. -/
def combinedLength (l : Layout) : UInt64 :=
  if l.cqRingLength < l.sqRingLength then l.sqRingLength else l.cqRingLength

end Layout

end IoRing
