import IoRing.Errno
import IoRing.Resource

/-!
# What can go wrong

A `Fault` is the cause of a refused or failed operation.  Its `message` is the
text shown for it and its `kind` is the class of error a caller would catch.
Only a failed system call has an error number.
-/

namespace IoRing

/-- The cause of a refused or failed operation. -/
inductive Fault where
  /-- A ring cannot be set up without parameters. -/
  | setupWithoutParams
  /-- The kernel refused to set up a ring. -/
  | setupFailed (errno : Errno)
  /-- The kernel refused an enter call. -/
  | enterFailed (errno : Errno)
  /-- The kernel refused to register or unregister. -/
  | registerFailed (op : UInt32) (errno : Errno)
  /-- A named part of a ring could not be mapped. -/
  | mapFailed (what : String) (errno : Errno)
  /-- Private memory could not be mapped. -/
  | anonymousMapFailed (errno : Errno)
  /-- A named part of a ring has no bytes to map. -/
  | emptyMapping (what : String)
  /-- Private memory of no bytes was asked for. -/
  | emptyAnonymousMapping
  /-- A ring needs at least one entry. -/
  | noEntries
  /-- A processor was chosen for a poll thread that was not asked for. -/
  | affinityWithoutPolling
  /-- The completion queue asked for is smaller than the submission queue. -/
  | completionSizeTooSmall (size entries : UInt32)
  /-- The idle time of the poll thread does not fit its field. -/
  | idleOutOfRange
  /-- A set to register has no items. -/
  | emptySet (resource : Resource)
  /-- A set to register has more items than can be counted. -/
  | tooManyItems (resource : Resource)
  /-- The submission queue has no free slot. -/
  | submissionQueueFull
  /-- An access does not fit into its mapping. -/
  | outsideMapping (offset bytes length : UInt64)
  /-- The ring is closed. -/
  | ringClosed
  /-- Only an open ring can be shared. -/
  | sharingNeedsOpenRing
  /-- The shared ring was handed back. -/
  | sharedRingReleased
deriving DecidableEq

namespace Fault

/-- The class of error that a caller tells apart. -/
inductive Kind where
  /-- A system call failed. -/
  | system
  /-- There is no room in the submission queue. -/
  | queueFull
  /-- An argument was refused. -/
  | invalidArgument
  /-- An access was out of bounds. -/
  | outOfRange
  /-- The object is past its use. -/
  | misuse
deriving DecidableEq, Repr

/-- The error number, if a system call failed. -/
def errno? : Fault → Option Errno
  | .setupFailed e | .enterFailed e | .registerFailed _ e | .mapFailed _ e
  | .anonymousMapFailed e => some e
  | _ => none

/-- The class of the fault. -/
def kind : Fault → Kind
  | .setupFailed _ | .enterFailed _ | .registerFailed .. | .mapFailed ..
  | .anonymousMapFailed _ => .system
  | .submissionQueueFull => .queueFull
  | .setupWithoutParams | .emptyMapping _ | .emptyAnonymousMapping | .noEntries
  | .affinityWithoutPolling | .completionSizeTooSmall .. | .idleOutOfRange | .emptySet _
  | .tooManyItems _ | .sharingNeedsOpenRing => .invalidArgument
  | .outsideMapping .. => .outOfRange
  | .ringClosed | .sharedRingReleased => .misuse

/-- What was attempted or required, without the words of the system. -/
def summary : Fault → String
  | .setupWithoutParams => "io_uring_setup: params must not be null"
  | .setupFailed _ => "io_uring_setup failed"
  | .enterFailed _ => "io_uring_enter failed"
  | .registerFailed op _ => "io_uring_register op " ++ toString op ++ " failed"
  | .mapFailed what _ => "mmap failed on " ++ what
  | .anonymousMapFailed _ => "mmap failed on anonymous region"
  | .emptyMapping what => "mmap of empty region " ++ what
  | .emptyAnonymousMapping => "mmap of empty anonymous region"
  | .noEntries => "ring entries must be > 0"
  | .affinityWithoutPolling => "setup_sqpoll_cpu requires setup_sqpoll"
  | .completionSizeTooSmall size entries =>
      "cq size " ++ toString size ++ " must not be smaller than " ++ toString entries ++ " entries"
  | .idleOutOfRange => "sq_thread_idle out of range"
  | .emptySet r => "cannot register an empty " ++ r.item ++ " set"
  | .tooManyItems r => "too many " ++ r.item ++ " to register"
  | .submissionQueueFull => "out of space in submission queue!"
  | .outsideMapping offset bytes length =>
      "offset " ++ toString offset ++ " (+" ++ toString bytes ++ ") outside mapped region of " ++
        toString length ++ " bytes"
  | .ringClosed => "ring is closed"
  | .sharingNeedsOpenRing => "ConcurrentRing needs an open ring"
  | .sharedRingReleased => "ConcurrentRing no longer owns a ring"

/-- The text shown for the fault.  A failed system call adds the words of the
system. -/
def message (f : Fault) : String :=
  match f.errno? with
  | some e => f.summary ++ ": " ++ e.message
  | none => f.summary

end Fault

end IoRing
