import IoRing.Ring

/-!
# Shared rings

A `SharedRing` lets any number of threads push, pop and submit.  One lock guards
each queue, so an operation on a queue is one atomic step.  The ring can be
handed back once, and every operation after that fails.

Submitting takes two steps.  `prepare` publishes and decides under the lock of
the submission queue.  The kernel is entered later, with no lock held, so other
threads may run in between and during the call.  `startEnter` looks for the ring
again, since it may have been handed back in the meantime.

A pop that yields a completion gives the slot back to the kernel at once.
-/

namespace IoRing

/-- A ring shared between threads. -/
structure SharedRing where
  /-- The ring, until it is handed back. -/
  ring? : Option Ring
deriving DecidableEq

namespace SharedRing

/-- Share a ring, which must be open. -/
def ofRing? : Option Ring → Except Fault SharedRing
  | some r => if r.isClosed then .error .sharingNeedsOpenRing else .ok ⟨some r⟩
  | none => .error .sharingNeedsOpenRing

variable (s : SharedRing)

/-- The ring, unless it was handed back. -/
def ring : Except Fault Ring :=
  match s.ring? with
  | some r => .ok r
  | none => .error .sharedRingReleased

/-- Hand the ring back. -/
def release : Except Fault (Ring × SharedRing) := return (← s.ring, ⟨none⟩)

/-! ## Queue operations -/

/-- Push an entry and publish it. -/
def push (e : Entry) : Sys SharedRing := do
  let r ← Sys.ofExcept s.ring
  let q ← (← Sys.ofExcept r.submission).push e
  return ⟨some (r.withSubmission q)⟩

/-- Take the oldest completion and give its slot back to the kernel. -/
def pop : Sys (Option Completion × SharedRing) := do
  let r ← Sys.ofExcept s.ring
  let (c?, q) ← (← Sys.ofExcept r.completion).next
  if c?.isSome then q.sync
  return (c?, ⟨some (r.withCompletion q)⟩)

/-! ## Submitting -/

/-- Publish and decide how to enter the kernel. -/
def prepare (want : UInt32) : Sys EnterRequest := do
  let r ← Sys.ofExcept s.ring
  (← Sys.ofExcept r.submitter).prepare want

/-- Start to enter the kernel as decided before. -/
def startEnter (request : EnterRequest) : Sys Sys.RunningEnter := do
  let r ← Sys.ofExcept s.ring
  let submitter ← Sys.ofExcept r.submitter
  Sys.startEnter
    ⟨submitter.fd, request.toSubmit, request.minComplete, request.flags, none⟩

/-- Submit and wait for `want` completions. -/
def submit (want : UInt32) : Sys Int32 := do
  let request ← s.prepare want
  if request.needed then Sys.finishEnter (← s.startEnter request)
  else return request.toSubmit.toInt32

/-! ## Registering -/

/-- Register a target. -/
def register (t : Target) : Sys Unit := do
  (← Sys.ofExcept s.ring).register t

/-- Unregister a kind of resource. -/
def unregister (resource : Resource) : Sys Unit := do
  (← Sys.ofExcept s.ring).unregister resource

/-! ## Counters -/

variable (m : Memory)

/-- The number of free slots for submission. -/
def available : Except Fault UInt32 := return (← (← s.ring).submission).available m

/-- The number of completions that wait. -/
def completionLen : Except Fault UInt32 := return (← (← s.ring).completion).len m

/-- The count of entries that the kernel found invalid. -/
def dropped : Except Fault UInt32 := return (← (← s.ring).submission).dropped m

/-- The count of completions that found no room. -/
def overflow : Except Fault UInt32 := return (← (← s.ring).completion).overflow m

/-- The descriptor. -/
def fd : Except Fault Int32 := return (← s.ring).fd

end SharedRing

end IoRing
