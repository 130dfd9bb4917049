import IoRing.Kernel.Basic

/-!
# The kernel's side: queue work

The kernel consumes submissions and posts completions.

`consumeEach` follows the head of the submission ring up to the tail it sees at
the start.  A slot names an entry through the index array.  A slot that names no
entry is counted as dropped, and it counts as taken like any other.  The head is
written once, after the last slot.

What is done with an entry is an argument, a function on the kernel.  It runs as
soon as the entry is taken, before the next slot is read and before the head is
written.  So the slots after it are read from the memory that it left.
`consume` does nothing with the entries, and `serve` of the next module
completes them.

`post` puts a completion at the tail of the completion ring.  A ring that holds
as many completions as it has slots takes no more.  The kernel then counts an
overflow and sets a flag in the submission ring.
-/

namespace IoRing

/-- Flag of the submission ring: the poll thread sleeps and must be woken. -/
def RingFlag.needWakeup : UInt32 := 1

/-- Flag of the submission ring: a completion found no room. -/
def RingFlag.cqOverflow : UInt32 := 2

namespace Kernel

/-! ## Consuming submissions -/

/-- The entry that a slot of the submission ring names, if there is one. -/
def slotEntry? (k : Kernel) (slot : UInt32) : Option Entry :=
  let index := k.word .sqRing (k.granted.sqOffsets.array.toNat + 4 * slot.toNat)
  match k.mapping? .sqes with
  | some m =>
      if index < k.granted.sqEntries ∧ m.Holds (64 * index.toNat) 64 then
        some (Entry.load k.memory m.block (64 * index.toNat))
      else none
  | none => none

/-- The kernel with one more entry counted as dropped. -/
def countDropped (k : Kernel) : Kernel :=
  let offset := k.granted.sqOffsets.dropped.toNat
  k.setWord .sqRing offset (k.word .sqRing offset + 1)

/-- What a run over the submission ring took. -/
structure Taken where
  /-- The kernel after it. -/
  kernel : Kernel
  /-- The head after the last slot. -/
  head : UInt32
  /-- The number of slots, with the dropped ones. -/
  count : Nat
  /-- The entries, in order. -/
  entries : List Entry

/-- What the kernel does with an entry that it takes. -/
abbrev Handler := Entry → Kernel → Kernel

/-- The handler that leaves the kernel as it is. -/
def keep : Handler := fun _ k => k

/-- Take slots from `head` on, until the tail or the limit. -/
def takeSlots (handle : Handler) (tail mask : UInt32) :
    (limit : Nat) → (head : UInt32) → (k : Kernel) → Taken
  | 0, head, k => ⟨k, head, 0, []⟩
  | limit + 1, head, k =>
      if head = tail then ⟨k, head, 0, []⟩
      else
        match k.slotEntry? (head &&& mask) with
        | none =>
            let rest := takeSlots handle tail mask limit (head + 1) k.countDropped
            { rest with count := rest.count + 1 }
        | some e =>
            let rest := takeSlots handle tail mask limit (head + 1) (handle e k)
            { rest with count := rest.count + 1, entries := e :: rest.entries }

/-- Consume at most `limit?` submissions, handle each one, and give the slots
back. -/
def consumeEach (handle : Handler) (k : Kernel) (limit? : Option Nat) : Taken :=
  let off := k.granted.sqOffsets
  let size := k.granted.sqEntries.toNat
  let taken := takeSlots handle (k.word .sqRing off.tail.toNat) (k.word .sqRing off.ringMask.toNat)
    ((limit?.getD size).min size) (k.word .sqRing off.head.toNat) k
  { taken with kernel := taken.kernel.setWord .sqRing off.head.toNat taken.head }

/-- Consume at most `limit?` submissions and give the slots back. -/
def consume (k : Kernel) (limit? : Option Nat) : Taken := consumeEach keep k limit?

/-- Drop the oldest submission unseen, if there is one. -/
def drop (k : Kernel) : Kernel :=
  let off := k.granted.sqOffsets
  let head := k.word .sqRing off.head.toNat
  if head = k.word .sqRing off.tail.toNat then k
  else (k.setWord .sqRing off.head.toNat (head + 1)).countDropped

/-! ## Posting completions -/

/-- Count a completion that found no room. -/
def overflow (k : Kernel) : Kernel :=
  let count := k.granted.cqOffsets.overflow.toNat
  let flags := k.granted.sqOffsets.flags.toNat
  let k := k.setWord .cqRing count (k.word .cqRing count + 1)
  k.setWord .sqRing flags (k.word .sqRing flags ||| RingFlag.cqOverflow)

/-- Post a completion.  The answer says whether there was room for it. -/
def post (k : Kernel) (c : Completion) : Bool × Kernel :=
  let off := k.granted.cqOffsets
  let tail := k.word .cqRing off.tail.toNat
  if k.granted.cqEntries ≤ tail - k.word .cqRing off.head.toNat then (false, k.overflow)
  else
    let slot := tail &&& k.word .cqRing off.ringMask.toNat
    let k := k.setWords .cqRing (off.cqes.toNat + 16 * slot.toNat) c.words
    (true, k.setWord .cqRing off.tail.toNat (tail + 1))

/-- The completion of an entry: success for operation 0, an error for others. -/
def completionOf (e : Entry) : Completion where
  userData := e.userData
  result := if e.opcode = 0 then 0 else -22
  flags := 0

/-- The handler that posts the completion of an entry, or counts it as lost. -/
def complete : Handler := fun e k => (k.post (completionOf e)).2

end Kernel

end IoRing
