import IoRing.Session.Basic

/-!
# Replies

What a step of a session answers, and the summaries of queues and rings that
appear in answers and views.
-/

namespace IoRing

/-! ## Summaries -/

/-- The counters of a submission queue. -/
structure SubmissionSummary where
  /-- The number of slots. -/
  capacity : UInt32
  /-- Entries pushed and not consumed. -/
  len : UInt32
  /-- Free slots. -/
  available : UInt32
  /-- No entry waits. -/
  empty : Bool
  /-- Every slot is taken. -/
  full : Bool
  /-- The tail that the kernel sees. -/
  publishedTail : UInt32
  /-- Entries pushed and not published. -/
  unpublished : UInt32
  /-- Flags set by the kernel. -/
  flags : UInt32
  /-- The poll thread must be woken. -/
  needWakeup : Bool
  /-- A completion found no room. -/
  cqOverflow : Bool
  /-- Entries that the kernel found invalid. -/
  dropped : UInt32

/-- The summary of a submission queue. -/
def SubmissionQueue.summary (q : SubmissionQueue) (m : Memory) : SubmissionSummary where
  capacity := q.entries
  len := q.len m
  available := q.available m
  empty := q.isEmpty m
  full := q.isFull m
  publishedTail := q.publishedTail m
  unpublished := q.unpublished m
  flags := q.flags m
  needWakeup := q.needWakeup m
  cqOverflow := q.cqOverflow m
  dropped := q.dropped m

/-- The counters of a completion queue. -/
structure CompletionSummary where
  /-- The number of slots. -/
  capacity : UInt32
  /-- Completions posted and not taken. -/
  len : UInt32
  /-- No completion waits. -/
  empty : Bool
  /-- The head that the kernel sees. -/
  publishedHead : UInt32
  /-- Completions that found no room. -/
  overflow : UInt32

/-- The summary of a completion queue. -/
def CompletionQueue.summary (q : CompletionQueue) (m : Memory) : CompletionSummary where
  capacity := q.entries
  len := q.len m
  empty := q.isEmpty m
  publishedHead := q.publishedHead m
  overflow := q.overflow m

/-- The two queues of a ring, as far as they are there. -/
structure QueueView where
  /-- The submission queue. -/
  sq? : Option SubmissionSummary
  /-- The completion queue. -/
  cq? : Option CompletionSummary

/-- What is known of a ring, open or closed. -/
structure RingInfo where
  /-- The ring is closed. -/
  closed : Bool
  /-- Its descriptor. -/
  fd : Int32
  /-- The setup flags granted. -/
  flags : UInt32
  /-- The features granted. -/
  features : UInt32
  /-- The layout of its mappings. -/
  layout : Layout

/-- The counters of a shared ring. -/
structure SharedInfo where
  /-- Free slots for submission. -/
  available : UInt32
  /-- Completions that wait. -/
  completionLen : UInt32
  /-- Entries that the kernel found invalid. -/
  dropped : UInt32
  /-- Completions that found no room. -/
  overflow : UInt32
  /-- The descriptor. -/
  fd : Int32

/-- The counters of a shared ring, unless it was handed back. -/
def SharedRing.info (s : SharedRing) (m : Memory) : Except Fault SharedInfo :=
  return {
    available := ← s.available m
    completionLen := ← s.completionLen m
    dropped := ← s.dropped m
    overflow := ← s.overflow m
    fd := ← s.fd }

/-! ## Replies -/

/-- What a step answers. -/
inductive Reply where
  /-- Nothing. -/
  | nothing
  /-- Yes or no. -/
  | flag (value : Bool)
  /-- A word of memory. -/
  | word (value : UInt32)
  /-- What a system call returned. -/
  | count (value : Int32)
  /-- A length or an offset in bytes. -/
  | size (value : UInt64)
  /-- Entries that the kernel took. -/
  | entries (items : List Entry)
  /-- A completion, or none. -/
  | completion (item? : Option Completion)
  /-- Completions. -/
  | completions (items : List Completion)
  /-- How the kernel must be entered. -/
  | request (r : EnterRequest)
  /-- The state of a submission queue. -/
  | submission (s : SubmissionSummary)
  /-- The state of a completion queue. -/
  | completionQueue (s : CompletionSummary)
  /-- Ring parameters. -/
  | params (p : Params)
  /-- What is known of a ring. -/
  | ring (info : RingInfo)
  /-- The regions of a ring. -/
  | regions (r : RingRegions)
  /-- A text. -/
  | text (value : String)
  /-- The parts of a ring: its queues, and how the kernel must be entered. -/
  | parts (queues : QueueView) (r : EnterRequest)
  /-- The state of a shared ring. -/
  | shared (info : SharedInfo)
  /-- What an enter call returned, and what came of the steps during it. -/
  | during (value : Int32) (outcomes : List (Except Refusal Reply))

end IoRing
