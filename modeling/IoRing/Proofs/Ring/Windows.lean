import IoRing.CompletionQueue
import IoRing.SubmissionQueue

/-!
# What a queue checks when it is attached

A `Window` is what a queue reaches through a mapping: a place in it and a number
of bytes.  Attaching a queue goes through its windows in order and fails at the
first that does not lie inside (`SubmissionQueue.attach_eq`,
`CompletionQueue.attach_eq`).  The last windows are as long as the ring itself
says it is, so they depend on memory.
-/

namespace IoRing

/-! ## Windows -/

/-- Bytes that a queue reaches through a mapping. -/
structure Window where
  mapping : Mapping
  offset : UInt64
  bytes : UInt64

namespace Window

variable (w : Window)

def Inside : Prop := w.mapping.Holds w.offset.toNat w.bytes.toNat

instance : Decidable w.Inside := inferInstanceAs (Decidable (Mapping.Holds ..))

/-- Why the bytes cannot be reached. -/
def fault? : Option Fault :=
  if w.Inside then none else some (.outsideMapping w.offset w.bytes w.mapping.length)

variable {w}

theorem fault?_eq_none_iff : w.fault? = none ↔ w.Inside := by
  rw [fault?]
  split
  · next h => exact iff_of_true rfl h
  · next h => exact iff_of_false (by simp) h

end Window

/-! ## Checks -/

/-- A result, unless something is at fault. -/
def unlessFault {α : Type} (fault? : Option Fault) (result : Except Fault α) : Except Fault α :=
  match fault? with
  | some f => .error f
  | none => result

section

variable {α β : Type} (fault? : Option Fault)

theorem unlessFault_bind (a : α) (next : α → Except Fault β) :
    unlessFault fault? (.ok a) >>= next = unlessFault fault? (next a) := by
  cases fault? <;> rfl

theorem unlessFault_eq_ok_iff {a b : α} :
    unlessFault fault? (.ok a) = .ok b ↔ fault? = none ∧ a = b := by
  cases fault? <;> simp [unlessFault]

theorem unlessFault_nil (result : Except Fault α) :
    unlessFault (List.findSome? Window.fault? []) result = result := rfl

theorem unlessFault_cons (w : Window) (ws : List Window) (result : Except Fault α) :
    unlessFault ((w :: ws).findSome? Window.fault?) result =
      unlessFault w.fault? (unlessFault (ws.findSome? Window.fault?) result) := by
  rw [List.findSome?_cons]
  cases w.fault? <;> rfl

theorem unlessFault_append (ws vs : List Window) (result : Except Fault α) :
    unlessFault ((ws ++ vs).findSome? Window.fault?) result =
      unlessFault (ws.findSome? Window.fault?)
        (unlessFault (vs.findSome? Window.fault?) result) := by
  rw [List.findSome?_append]
  cases ws.findSome? Window.fault? <;> rfl

end

/-- A region locates what lies inside its mapping. -/
theorem Region.locate_eq (m : Mapping) (size offset count : UInt64) :
    (⟨some m⟩ : Region).locate size offset count =
      unlessFault (⟨m, offset, size * count⟩ : Window).fault? (.ok m) := by
  have hiff : (⟨some m⟩ : Region).locate size offset count = .ok m ↔
      some m = some m ∧ m.Holds offset.toNat (size * count).toNat := Region.locate_eq_ok_iff
  simp only [true_and] at hiff
  rw [Window.fault?]
  by_cases h : (⟨m, offset, size * count⟩ : Window).Inside
  · rw [if_pos h]
    exact hiff.mpr h
  · have hout := mt hiff.mp h
    rw [if_neg h]
    simp only [Region.locate] at hout ⊢
    split
    · next hin => exact absurd (if_pos hin) hout
    · rfl

/-- What a submission queue reaches, in the order of the checks. -/
def SubmissionOffsets.windows (off : SubmissionOffsets) (ring sqes : Mapping) (entries : UInt32) :
    List Window :=
  [⟨ring, off.head.toUInt64, 4⟩, ⟨ring, off.tail.toUInt64, 4⟩, ⟨ring, off.flags.toUInt64, 4⟩,
    ⟨ring, off.dropped.toUInt64, 4⟩, ⟨ring, off.ringMask.toUInt64, 4⟩,
    ⟨ring, off.ringEntries.toUInt64, 4⟩, ⟨ring, off.array.toUInt64, 4 * entries.toUInt64⟩,
    ⟨sqes, 0, 64 * entries.toUInt64⟩]

/-- What a completion queue reaches, in the order of the checks. -/
def CompletionOffsets.windows (off : CompletionOffsets) (ring : Mapping) (entries : UInt32) :
    List Window :=
  [⟨ring, off.head.toUInt64, 4⟩, ⟨ring, off.tail.toUInt64, 4⟩, ⟨ring, off.overflow.toUInt64, 4⟩,
    ⟨ring, off.ringMask.toUInt64, 4⟩, ⟨ring, off.ringEntries.toUInt64, 4⟩,
    ⟨ring, off.cqes.toUInt64, 16 * entries.toUInt64⟩]

def SubmissionQueue.windows (q : SubmissionQueue) : List Window :=
  q.offsets.windows q.ring q.sqes q.entries

def CompletionQueue.windows (q : CompletionQueue) : List Window :=
  q.offsets.windows q.ring q.entries

/-- The queue that the words of a submission ring describe. -/
def SubmissionQueue.ofWords (ring sqes : Mapping) (off : SubmissionOffsets) (m : Memory) :
    SubmissionQueue where
  ring
  sqes
  offsets := off
  mask := m.word ring.block off.ringMask.toNat
  entries := m.word ring.block off.ringEntries.toNat
  localTail := m.word ring.block off.tail.toNat

/-- The queue that the words of a completion ring describe. -/
def CompletionQueue.ofWords (ring : Mapping) (off : CompletionOffsets) (m : Memory) :
    CompletionQueue where
  ring
  offsets := off
  mask := m.word ring.block off.ringMask.toNat
  entries := m.word ring.block off.ringEntries.toNat
  localHead := m.word ring.block off.head.toNat

/-- Attaching checks every window, in order. -/
theorem SubmissionQueue.attach_eq (ring sqes : Mapping) (off : SubmissionOffsets) (m : Memory) :
    attach ⟨some ring⟩ ⟨some sqes⟩ off m =
      unlessFault ((ofWords ring sqes off m).windows.findSome? Window.fault?)
        (.ok (ofWords ring sqes off m)) := by
  have hword : (4 : UInt64) * 1 = 4 := rfl
  simp only [attach, Region.locate_eq, unlessFault_bind, hword, windows, SubmissionOffsets.windows,
    ofWords, unlessFault_cons, unlessFault_nil]
  rfl

theorem CompletionQueue.attach_eq (ring : Mapping) (off : CompletionOffsets) (m : Memory) :
    attach ⟨some ring⟩ off m =
      unlessFault ((ofWords ring off m).windows.findSome? Window.fault?)
        (.ok (ofWords ring off m)) := by
  have hword : (4 : UInt64) * 1 = 4 := rfl
  simp only [attach, Region.locate_eq, unlessFault_bind, hword, windows, CompletionOffsets.windows,
    ofWords, unlessFault_cons, unlessFault_nil]
  rfl

end IoRing
