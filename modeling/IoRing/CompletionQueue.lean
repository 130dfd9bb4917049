import IoRing.Region

/-!
# The completion queue

The kernel produces completions and the process consumes them.  Both counters
run freely modulo 2^32.  The kernel owns the tail.  The process owns the head and
keeps a private copy, which may run ahead of the published one.

`next?` takes the oldest completion and moves the private head.  The slot stays
reserved until `publish` stores the private head for the kernel to see.
-/

namespace IoRing

/-- The consumer's view of a completion ring. -/
structure CompletionQueue where
  /-- The mapping of the header and the completions. -/
  ring : Mapping
  /-- Where the fields are. -/
  offsets : CompletionOffsets
  /-- The mask that turns a counter into a slot. -/
  mask : UInt32
  /-- The number of slots. -/
  entries : UInt32
  /-- The private head. -/
  localHead : UInt32
deriving DecidableEq

namespace CompletionQueue

/-! ## Attaching -/

/-- Attach to a ring.  The header fields are checked in order, then the
completions, as many as the ring itself says it has. -/
def attach (ring : Region) (off : CompletionOffsets) (m : Memory) :
    Except Fault CompletionQueue := do
  let _ ← ring.locate 4 off.head.toUInt64 1
  let _ ← ring.locate 4 off.tail.toUInt64 1
  let _ ← ring.locate 4 off.overflow.toUInt64 1
  let _ ← ring.locate 4 off.ringMask.toUInt64 1
  let header ← ring.locate 4 off.ringEntries.toUInt64 1
  let entries := m.word header.block off.ringEntries.toNat
  let _ ← ring.locate 16 off.cqes.toUInt64 entries.toUInt64
  return {
    ring := header
    offsets := off
    mask := m.word header.block off.ringMask.toNat
    entries
    localHead := m.word header.block off.head.toNat }

variable (q : CompletionQueue) (m : Memory)

/-! ## Counters -/

/-- The head that the kernel sees. -/
def publishedHead : UInt32 := m.word q.ring.block q.offsets.head.toNat

/-- The tail, moved on by the kernel. -/
def tail : UInt32 := m.word q.ring.block q.offsets.tail.toNat

/-- The count of completions that found no room. -/
def overflow : UInt32 := m.word q.ring.block q.offsets.overflow.toNat

/-- The number of completions posted and not taken. -/
def len : UInt32 := q.tail m - q.localHead

/-- No completion waits to be taken. -/
def isEmpty : Bool := q.len m == 0

/-! ## Taking and publishing -/

/-- Store the private head for the kernel to see. -/
def publish : Memory := m.setWord q.ring.block q.offsets.head.toNat q.localHead

/-- Take the oldest completion, if there is one. -/
def next? : Option (Completion × CompletionQueue) :=
  if q.localHead = q.tail m then none
  else
    let slot := q.localHead &&& q.mask
    let c := Completion.load m q.ring.block (q.offsets.cqes.toNat + 16 * slot.toNat)
    some (c, { q with localHead := q.localHead + 1 })

/-- Take completions until none is left or `limit` are taken. -/
def drain (q : CompletionQueue) (m : Memory) : (limit : Nat) → List Completion × CompletionQueue
  | 0 => ([], q)
  | limit + 1 =>
      match q.next? m with
      | none => ([], q)
      | some (c, q) =>
          let (cs, q) := q.drain m limit
          (c :: cs, q)

@[simp] theorem publishedHead_publish : q.publishedHead (q.publish m) = q.localHead := by
  simp [publishedHead, publish]

variable {q m}

theorem next?_eq_none (h : q.localHead = q.tail m) : q.next? m = none := if_pos h

theorem next?_eq_some (h : ¬ q.localHead = q.tail m) :
    q.next? m = some (Completion.load m q.ring.block
        (q.offsets.cqes.toNat + 16 * (q.localHead &&& q.mask).toNat),
      { q with localHead := q.localHead + 1 }) := if_neg h

/-- Taking a completion only moves the private head, by one. -/
theorem queue_of_next? {q' : CompletionQueue} {c : Completion} (h : q.next? m = some (c, q')) :
    q' = { q with localHead := q.localHead + 1 } := by
  by_cases hempty : q.localHead = q.tail m
  · rw [next?_eq_none hempty] at h
    cases h
  · rw [next?_eq_some hempty] at h
    cases h
    rfl

/-! ## On a host -/

/-- Publish the private head. -/
def sync (q : CompletionQueue) : Sys Unit := do
  Sys.setMemory (q.publish (← Sys.memory))

/-- Take the oldest completion, if there is one. -/
def next (q : CompletionQueue) : Sys (Option Completion × CompletionQueue) := do
  match q.next? (← Sys.memory) with
  | some (c, q) => return (some c, q)
  | none => return (none, q)

end CompletionQueue

end IoRing
