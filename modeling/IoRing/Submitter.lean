import IoRing.SubmissionQueue

/-!
# Submitting

A `Submitter` is what it takes to reach the kernel: the ring's descriptor, its
setup flags and its submission queue.

`EnterRequest.decide` says how the kernel must be entered once the tail is
published.  Without a poll thread it is always entered.  An awake poll thread
picks the entries up by itself, so it is entered only to wait for completions.
A sleeping poll thread must be woken.

Publishing and deciding are separate from entering, so that a lock held for the
first need not be held during the second.
-/

namespace IoRing

/-- Flag of the enter call: wait for completions. -/
def EnterFlag.getEvents : UInt32 := 1

/-- Flag of the enter call: wake the poll thread. -/
def EnterFlag.sqWakeup : UInt32 := 2

/-- How the kernel must be entered. -/
structure EnterRequest where
  /-- How many entries it may take. -/
  toSubmit : UInt32
  /-- How many completions to wait for. -/
  minComplete : UInt32
  /-- Flags of the call. -/
  flags : UInt32
  /-- The call must be made at all. -/
  needed : Bool
deriving DecidableEq

/-- Decide how to enter the kernel, from the setup flags, the number of pending
entries, the number of completions wanted and whether the poll thread sleeps. -/
def EnterRequest.decide (setupFlags pending want : UInt32) (asleep : Bool) : EnterRequest :=
  let wait := if 0 < want then EnterFlag.getEvents else 0
  if !hasBits setupFlags SetupFlag.sqPoll then ⟨pending, want, wait, true⟩
  else if asleep then ⟨pending, want, wait ||| EnterFlag.sqWakeup, true⟩
  else ⟨pending, want, wait, want != 0⟩

/-- What it takes to reach the kernel. -/
structure Submitter where
  /-- The ring's descriptor. -/
  fd : Int32
  /-- The ring's setup flags. -/
  setupFlags : UInt32
  /-- The ring's submission queue. -/
  queue : SubmissionQueue

namespace Submitter

variable (s : Submitter)

/-- Publish the pending entries and decide how to enter the kernel. -/
def prepare (want : UInt32) : Sys EnterRequest := do
  s.queue.sync
  let m ← Sys.memory
  return .decide s.setupFlags (s.queue.len m) want (s.queue.needWakeup m)

/-- Enter the kernel with arguments of the caller's choice. -/
def enter (toSubmit minComplete flags : UInt32) (mask? : Option UInt64) : Sys Int32 :=
  Sys.enter ⟨s.fd, toSubmit, minComplete, flags, mask?⟩

/-- Publish the pending entries, enter the kernel if needed, and wait for `want`
completions.  Gives the number of entries taken, or of those pending if the
kernel was not entered. -/
def submit (want : UInt32) (mask? : Option UInt64) : Sys Int32 := do
  let r ← s.prepare want
  if r.needed then s.enter r.toSubmit r.minComplete r.flags mask?
  else return r.toSubmit.toInt32

/-- Register a target. -/
def register (t : Target) : Sys Unit := do
  let _ ← Sys.register s.fd t.op t.argument t.count

/-- Unregister a kind of resource. -/
def unregister (resource : Resource) : Sys Unit := do
  let _ ← Sys.register s.fd resource.unregisterOp .none 0

end Submitter

end IoRing
