import IoRing.Region

/-!
# The submission queue

The process produces entries and the kernel consumes them.  Both counters run
freely modulo 2^32.  The kernel owns the head.  The process owns the tail and
keeps a private copy, which may run ahead of the published one.

A push writes the entry into the slot of the private tail, lets the index array
name that slot, and moves the private tail.  `publish` stores the private tail
for the kernel to see.  A push into a full queue gives `none` and changes
nothing.

The queue finds its fields at fixed places of the ring's mapping.  The places,
the mask and the size are read once, when the queue is attached, and attaching
checks that every field lies inside its mapping.
-/

namespace IoRing

/-- The producer's view of a submission ring. -/
structure SubmissionQueue where
  /-- The mapping of the header and the index array. -/
  ring : Mapping
  /-- The mapping of the entries. -/
  sqes : Mapping
  /-- Where the fields are. -/
  offsets : SubmissionOffsets
  /-- The mask that turns a counter into a slot. -/
  mask : UInt32
  /-- The number of slots. -/
  entries : UInt32
  /-- The private tail. -/
  localTail : UInt32
deriving DecidableEq

namespace SubmissionQueue

/-! ## Attaching -/

/-- Attach to a ring.  The header fields are checked in order, then the index
array and the entries, as many as the ring itself says it has. -/
def attach (ring sqes : Region) (off : SubmissionOffsets) (m : Memory) :
    Except Fault SubmissionQueue := do
  let _ ← ring.locate 4 off.head.toUInt64 1
  let _ ← ring.locate 4 off.tail.toUInt64 1
  let _ ← ring.locate 4 off.flags.toUInt64 1
  let _ ← ring.locate 4 off.dropped.toUInt64 1
  let _ ← ring.locate 4 off.ringMask.toUInt64 1
  let header ← ring.locate 4 off.ringEntries.toUInt64 1
  let entries := m.word header.block off.ringEntries.toNat
  let _ ← ring.locate 4 off.array.toUInt64 entries.toUInt64
  let slots ← sqes.locate 64 0 entries.toUInt64
  return {
    ring := header
    sqes := slots
    offsets := off
    mask := m.word header.block off.ringMask.toNat
    entries
    localTail := m.word header.block off.tail.toNat }

variable (q : SubmissionQueue) (m : Memory)

/-! ## Counters -/

/-- The head, moved on by the kernel. -/
def head : UInt32 := m.word q.ring.block q.offsets.head.toNat

/-- The tail that the kernel sees. -/
def publishedTail : UInt32 := m.word q.ring.block q.offsets.tail.toNat

/-- Flags set by the kernel. -/
def flags : UInt32 := m.word q.ring.block q.offsets.flags.toNat

/-- The count of entries that the kernel found invalid. -/
def dropped : UInt32 := m.word q.ring.block q.offsets.dropped.toNat

/-- The number of entries pushed and not consumed. -/
def len : UInt32 := q.localTail - q.head m

/-- The number of free slots. -/
def available : UInt32 := q.entries - q.len m

/-- No entry waits to be consumed. -/
def isEmpty : Bool := q.len m == 0

/-- Every slot is taken. -/
def isFull : Bool := decide (q.entries ≤ q.len m)

/-- The number of entries pushed and not published. -/
def unpublished : UInt32 := q.localTail - q.publishedTail m

/-- The poll thread sleeps and must be woken. -/
def needWakeup : Bool := hasBits (q.flags m) RingFlag.needWakeup

/-- A completion found no room. -/
def cqOverflow : Bool := hasBits (q.flags m) RingFlag.cqOverflow

/-! ## Pushing and publishing -/

/-- Store the private tail for the kernel to see. -/
def publish : Memory := m.setWord q.ring.block q.offsets.tail.toNat q.localTail

/-- Write an entry into the slot of the private tail and move the tail. -/
def writeSlot (e : Entry) : SubmissionQueue × Memory :=
  let slot := q.localTail &&& q.mask
  let m := e.store m q.sqes.block (64 * slot.toNat)
  let m := m.setWord q.ring.block (q.offsets.array.toNat + 4 * slot.toNat) slot
  ({ q with localTail := q.localTail + 1 }, m)

/-- Write entries one after the other. -/
def writeSlots (q : SubmissionQueue) (m : Memory) : List Entry → SubmissionQueue × Memory
  | [] => (q, m)
  | e :: es =>
      let (q, m) := q.writeSlot m e
      q.writeSlots m es

/-- Push an entry without publishing it. -/
def pushDeferred? (e : Entry) : Option (SubmissionQueue × Memory) :=
  if q.isFull m then none else some (q.writeSlot m e)

/-- Push an entry and publish the tail. -/
def push? (e : Entry) : Option (SubmissionQueue × Memory) :=
  (q.pushDeferred? m e).map fun (q, m) => (q, q.publish m)

/-- Push all entries or none, and publish the tail once. -/
def pushAll? (es : List Entry) : Option (SubmissionQueue × Memory) :=
  if (q.available m).toNat < es.length then none
  else
    let (q, m) := q.writeSlots m es
    some (q, q.publish m)

/-! ## What publishing and writing do to the counters -/

@[simp] theorem publishedTail_publish : q.publishedTail (q.publish m) = q.localTail := by
  simp [publishedTail, publish]

/-- After publishing, nothing is left to publish. -/
@[simp] theorem unpublished_publish : q.unpublished (q.publish m) = 0 := by
  simp [unpublished]

@[simp] theorem localTail_writeSlot (e : Entry) :
    (q.writeSlot m e).1.localTail = q.localTail + 1 := rfl

/-- Writing moves the private tail by the number of entries. -/
theorem localTail_writeSlots (es : List Entry) :
    (q.writeSlots m es).1.localTail = q.localTail + UInt32.ofNat es.length := by
  induction es generalizing q m with
  | nil => simp [writeSlots]
  | cons e es ih =>
    rw [writeSlots, ih, localTail_writeSlot, List.length_cons, UInt32.ofNat_add, UInt32.add_assoc,
      UInt32.add_comm 1]
    rfl

end SubmissionQueue

/-! ## On a host -/

/-- Take over the outcome of a push, or fail because the queue is full. -/
def Sys.ofPush (outcome : Memory → Option (SubmissionQueue × Memory)) : Sys SubmissionQueue := do
  match outcome (← Sys.memory) with
  | some (q, m) => do
      Sys.setMemory m
      return q
  | none => throw .submissionQueueFull

namespace SubmissionQueue

/-- Push an entry and publish the tail. -/
def push (q : SubmissionQueue) (e : Entry) : Sys SubmissionQueue :=
  Sys.ofPush fun m => q.push? m e

/-- Push an entry without publishing it. -/
def pushDeferred (q : SubmissionQueue) (e : Entry) : Sys SubmissionQueue :=
  Sys.ofPush fun m => q.pushDeferred? m e

/-- Push all entries or none, and publish the tail once. -/
def pushAll (q : SubmissionQueue) (es : List Entry) : Sys SubmissionQueue :=
  Sys.ofPush fun m => q.pushAll? m es

/-- Publish the private tail. -/
def sync (q : SubmissionQueue) : Sys Unit := do
  Sys.setMemory (q.publish (← Sys.memory))

end SubmissionQueue

end IoRing
