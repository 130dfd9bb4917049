import IoRing.SubmissionQueue

/-!
# What a push does

A push looks at the head alone to decide whether there is room (`isFull_congr`,
`available_congr`).  Without room it gives nothing.  With room it writes slots and
moves the private tail by the number of entries, and it changes nothing else about
the queue.

Entries written one part after the other are written one after the other
(`writeSlots_append`).
-/

namespace IoRing

namespace SubmissionQueue

variable {q q' : SubmissionQueue} {m m' : Memory}

/-! ## Room -/

theorem isFull_congr (h : q.head m' = q.head m) : q.isFull m' = q.isFull m := by
  rw [isFull, isFull, len, len, h]

theorem available_congr (h : q.head m' = q.head m) : q.available m' = q.available m := by
  rw [available, available, len, len, h]

/-! ## Writing -/

/-- Writing moves the private tail by one for each entry. -/
theorem fst_writeSlots (q : SubmissionQueue) (m : Memory) (es : List Entry) :
    (q.writeSlots m es).1 = { q with localTail := q.localTail + UInt32.ofNat es.length } := by
  induction es generalizing q m with
  | nil => simp [writeSlots]
  | cons e es ih =>
    have hcount : q.localTail + UInt32.ofNat (e :: es).length =
        q.localTail + 1 + UInt32.ofNat es.length := by
      rw [← localTail_writeSlots (m := m), writeSlots, localTail_writeSlots]
      rfl
    rw [writeSlots, ih, hcount]
    rfl

theorem writeSlots_append (q : SubmissionQueue) (m : Memory) (es es' : List Entry) :
    q.writeSlots m (es ++ es') =
      (q.writeSlots m es).1.writeSlots (q.writeSlots m es).2 es' := by
  induction es generalizing q m with
  | nil => rfl
  | cons e es ih => exact ih _ _

/-! ## Pushing -/

theorem pushDeferred?_full (hfull : q.isFull m = true) (e : Entry) :
    q.pushDeferred? m e = none := if_pos hfull

theorem pushDeferred?_room (hroom : ¬ q.isFull m = true) (e : Entry) :
    q.pushDeferred? m e = some ({ q with localTail := q.localTail + 1 }, (q.writeSlot m e).2) :=
  if_neg hroom

theorem push?_full (hfull : q.isFull m = true) (e : Entry) : q.push? m e = none := by
  rw [push?, pushDeferred?_full hfull, Option.map_none]

theorem push?_room (hroom : ¬ q.isFull m = true) (e : Entry) :
    q.push? m e = some ({ q with localTail := q.localTail + 1 },
      publish { q with localTail := q.localTail + 1 } (q.writeSlot m e).2) := by
  rw [push?, pushDeferred?_room hroom, Option.map_some]

theorem pushAll?_full {es : List Entry} (hfull : (q.available m).toNat < es.length) :
    q.pushAll? m es = none := if_pos hfull

theorem pushAll?_room {es : List Entry} (hroom : ¬ (q.available m).toNat < es.length) :
    q.pushAll? m es = some ({ q with localTail := q.localTail + UInt32.ofNat es.length },
      publish { q with localTail := q.localTail + UInt32.ofNat es.length }
        (q.writeSlots m es).2) := by
  rw [pushAll?, if_neg hroom, ← fst_writeSlots]

/-! ### The queue after a push -/

theorem queue_of_pushDeferred? {e : Entry} (h : q.pushDeferred? m e = some (q', m')) :
    ∃ t, q' = { q with localTail := t } := by
  by_cases hfull : q.isFull m = true
  · rw [pushDeferred?_full hfull] at h
    cases h
  · rw [pushDeferred?_room hfull] at h
    cases h
    exact ⟨_, rfl⟩

theorem queue_of_push? {e : Entry} (h : q.push? m e = some (q', m')) :
    ∃ t, q' = { q with localTail := t } := by
  obtain ⟨⟨q₁, m₁⟩, hpush, hpair⟩ := Option.map_eq_some_iff.mp h
  cases hpair
  exact queue_of_pushDeferred? hpush

theorem queue_of_pushAll? {es : List Entry} (h : q.pushAll? m es = some (q', m')) :
    ∃ t, q' = { q with localTail := t } := by
  by_cases hfull : (q.available m).toNat < es.length
  · rw [pushAll?_full hfull] at h
    cases h
  · rw [pushAll?_room hfull] at h
    cases h
    exact ⟨_, rfl⟩

end SubmissionQueue

end IoRing
