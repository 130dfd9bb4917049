import IoRing.Proofs.Access.Basic
import IoRing.Proofs.Ring.Windows
import IoRing.Proofs.Submission.Contents
import IoRing.Proofs.Submission.Pushing

/-!
# What a submission queue reads and writes

`SubmissionStep.accesses` lists the accesses of a step, in order.  A push reads
the head and, if there is room, writes the slots of its entries, each of them an
entry and a word of the index array.  The list is complete
(`SubmissionStep.confined`).

A counter is masked before it names a slot.  So all accesses are parts of what
belongs to the queue, whatever the private tail is and whatever memory holds
(`SubmissionQueue.partOf_of_mem_accesses`).  What belongs to the queue was checked
when it was attached, and no step changes it (`SubmissionStep.queue_of_perform`).
-/

namespace IoRing

/-! ## Accesses -/

/-- The access to what a window shows. -/
def Window.access (w : Window) : Access := ⟨w.mapping, w.offset.toNat, w.bytes.toNat⟩

namespace SubmissionQueue

variable (q : SubmissionQueue)

abbrev headAccess : Access := q.ring.wordAccess q.offsets.head

abbrev tailAccess : Access := q.ring.wordAccess q.offsets.tail

/-- All that belongs to the queue: the six words of the header, the index array
and the entries. -/
def extent : List Access :=
  [q.headAccess, q.tailAccess, q.ring.wordAccess q.offsets.flags,
    q.ring.wordAccess q.offsets.dropped, q.ring.wordAccess q.offsets.ringMask,
    q.ring.wordAccess q.offsets.ringEntries,
    ⟨q.ring, q.offsets.array.toNat, 4 * q.entries.toNat⟩, ⟨q.sqes, 0, 64 * q.entries.toNat⟩]

/-- The accesses that write the slot of a counter. -/
def slotAccesses (c : UInt32) : List Access :=
  [⟨q.sqes, 64 * (c &&& q.mask).toNat, 64⟩,
    ⟨q.ring, q.offsets.array.toNat + 4 * (c &&& q.mask).toNat, 4⟩]

/-- The accesses that write the slots from a counter on. -/
def slotsAccesses : (c : UInt32) → (n : Nat) → List Access
  | _, 0 => []
  | c, n + 1 => q.slotAccesses c ++ slotsAccesses (c + 1) n

end SubmissionQueue

/-- What a step reads and writes, in order. -/
def SubmissionStep.accesses (q : SubmissionQueue) (m : Memory) : SubmissionStep → List Access
  | .push _ =>
      q.headAccess :: if q.isFull m then [] else q.slotAccesses q.localTail ++ [q.tailAccess]
  | .pushDeferred _ => q.headAccess :: if q.isFull m then [] else q.slotAccesses q.localTail
  | .pushAll es =>
      q.headAccess :: if (q.available m).toNat < es.length then []
        else q.slotsAccesses q.localTail es.length ++ [q.tailAccess]
  | .sync => [q.tailAccess]
  | .inspect =>
      [q.headAccess, q.tailAccess, q.ring.wordAccess q.offsets.flags,
        q.ring.wordAccess q.offsets.dropped]

/-! ## The list is complete -/

namespace SubmissionQueue

variable (q : SubmissionQueue)

theorem stores_publish : Stores [q.tailAccess] q.publish := stores_setWord ..

/-- To fill a slot writes its entry and its index. -/
theorem stores_writeSlot (e : Entry) :
    Stores (q.slotAccesses q.localTail) fun m => (q.writeSlot m e).2 := by
  have hsqe := stores_write q.sqes (64 * (q.localTail &&& q.mask).toNat) e.bytes
  rw [e.length_eq] at hsqe
  exact hsqe.andThen (stores_setWord ..)

theorem slotsAccesses_withTail (t c : UInt32) (n : Nat) :
    slotsAccesses { q with localTail := t } c n = q.slotsAccesses c n := by
  induction n generalizing c with
  | zero => rfl
  | succ n ih => exact congrArg (q.slotAccesses c ++ ·) (ih (c + 1))

/-- To fill slots writes their entries and indices. -/
theorem stores_writeSlots (es : List Entry) :
    Stores (q.slotsAccesses q.localTail es.length) fun m => (q.writeSlots m es).2 := by
  induction es generalizing q with
  | nil => exact .nothing
  | cons e es ih =>
    have hrest := ih { q with localTail := q.localTail + 1 }
    rw [slotsAccesses_withTail] at hrest
    exact (q.stores_writeSlot e).andThen hrest

/-! ### On a host -/

variable {q} {h : Host} {as bs : List Access} {outcome : Memory → Option (SubmissionQueue × Memory)}

/-- A push that the head decides to refuse reads the head and writes nothing. -/
theorem confined_refused (hmem : q.headAccess ∈ as)
    (hnone : ∀ m, q.head m = q.head h.kernel.memory → outcome m = none) :
    (do return (.nothing, ← Sys.ofPush outcome) : Sys (Reply × SubmissionQueue)).Confined h as :=
  .of_stores .nothing (List.nil_subset _) (.error .submissionQueueFull) fun m hsame =>
    Sys.bind_error (Sys.ofPush_none (hnone m (hsame.word_eq hmem)))

/-- A push that the head decides to accept reads the head and stores. -/
theorem confined_accepted (hmem : q.headAccess ∈ as) {f : Memory → Memory} (hf : Stores bs f)
    (hsub : bs ⊆ as) {q' : SubmissionQueue}
    (hsome : ∀ m, q.head m = q.head h.kernel.memory → outcome m = some (q', f m)) :
    (do return (.nothing, ← Sys.ofPush outcome) : Sys (Reply × SubmissionQueue)).Confined h as :=
  .of_stores hf hsub (.ok (.nothing, q')) fun m hsame =>
    Sys.bind_ok (Sys.ofPush_some (hsome m (hsame.word_eq hmem)))

end SubmissionQueue

namespace SubmissionStep

open SubmissionQueue

/-- **A step reads and writes what its accesses say, and nothing else.** -/
theorem confined (q : SubmissionQueue) (h : Host) (step : SubmissionStep) :
    (step.perform q).Confined h (step.accesses q h.kernel.memory) := by
  cases step with
  | push e =>
    rw [accesses]
    split
    · next hfull =>
      exact confined_refused (List.mem_cons_self ..) fun m hhead =>
        push?_full ((isFull_congr hhead).trans hfull) e
    · next hroom =>
      have hstores := (q.stores_writeSlot e).andThen
        (stores_publish { q with localTail := q.localTail + 1 })
      exact confined_accepted (List.mem_cons_self ..) hstores (List.subset_cons_self ..)
        fun m hhead => push?_room (by rwa [isFull_congr hhead]) e
  | pushDeferred e =>
    rw [accesses]
    split
    · next hfull =>
      exact confined_refused (List.mem_cons_self ..) fun m hhead =>
        pushDeferred?_full ((isFull_congr hhead).trans hfull) e
    · next hroom =>
      exact confined_accepted (List.mem_cons_self ..) (q.stores_writeSlot e)
        (List.subset_cons_self ..) fun m hhead =>
          pushDeferred?_room (by rwa [isFull_congr hhead]) e
  | pushAll es =>
    rw [accesses]
    split
    · next hfull =>
      exact confined_refused (List.mem_cons_self ..) fun m hhead =>
        pushAll?_full (by rwa [available_congr hhead])
    · next hroom =>
      have hstores := (q.stores_writeSlots es).andThen
        (stores_publish { q with localTail := q.localTail + UInt32.ofNat es.length })
      exact confined_accepted (List.mem_cons_self ..) hstores (List.subset_cons_self ..)
        fun m hhead => pushAll?_room (by rwa [available_congr hhead])
  | sync =>
    exact .of_stores q.stores_publish (List.Subset.refl _) (.ok (.nothing, q)) fun _ _ => rfl
  | inspect =>
    refine .of_stores .nothing (List.nil_subset _)
      (.ok (.submission (q.summary h.kernel.memory), q)) fun m hsame => ?_
    have hhead : q.head m = q.head h.kernel.memory := hsame.word_eq (by simp [accesses])
    have htail : q.publishedTail m = q.publishedTail h.kernel.memory :=
      hsame.word_eq (by simp [accesses])
    have hflags : q.flags m = q.flags h.kernel.memory := hsame.word_eq (by simp [accesses])
    have hdropped : q.dropped m = q.dropped h.kernel.memory := hsame.word_eq (by simp [accesses])
    have hsummary : q.summary m = q.summary h.kernel.memory := by
      simp only [summary, isFull_congr hhead, available_congr hhead, isEmpty, len, unpublished,
        needWakeup, cqOverflow, hhead, htail, hflags, hdropped]
    rw [← hsummary]
    rfl

/-! ## The queue stays the same -/

/-- A step that takes over an outcome gives a queue that the outcome gave. -/
theorem queue_of_ofPush {outcome : Memory → Option (SubmissionQueue × Memory)}
    {P : SubmissionQueue → Prop} (houtcome : ∀ {m q m'}, outcome m = some (q, m') → P q)
    {q' : SubmissionQueue} {h h' : Host} {reply : Reply}
    (hstep : (do return (.nothing, ← Sys.ofPush outcome) : Sys (Reply × SubmissionQueue)) h =
      .ok (reply, q') h') : P q' := by
  obtain ⟨q₁, h₁, hpush, hpure⟩ := Sys.bind_eq_ok_iff.mp hstep
  cases hpure
  cases hresult : outcome h.kernel.memory with
  | none =>
    rw [Sys.ofPush_none hresult] at hpush
    cases hpush
  | some r =>
    rw [Sys.ofPush_some hresult] at hpush
    cases hpush
    exact houtcome hresult

/-- A step changes nothing about the queue but the private tail. -/
theorem queue_of_perform {step : SubmissionStep} {q q' : SubmissionQueue} {h h' : Host}
    {reply : Reply} (hstep : step.perform q h = .ok (reply, q') h') :
    ∃ t, q' = { q with localTail := t } := by
  cases step with
  | push e => exact queue_of_ofPush (fun hsome => queue_of_push? hsome) hstep
  | pushDeferred e => exact queue_of_ofPush (fun hsome => queue_of_pushDeferred? hsome) hstep
  | pushAll es => exact queue_of_ofPush (fun hsome => queue_of_pushAll? hsome) hstep
  | sync =>
    cases hstep
    exact ⟨_, rfl⟩
  | inspect =>
    cases hstep
    exact ⟨_, rfl⟩

end SubmissionStep

/-! ## The accesses belong to the queue -/

namespace SubmissionQueue

variable {q : SubmissionQueue} {a : Access}

/-- The slot of any counter belongs to the queue. -/
theorem partOf_of_mem_slotAccesses (hmask : q.mask < q.entries) {c : UInt32}
    (ha : a ∈ q.slotAccesses c) : ∃ b ∈ q.extent, a.PartOf b := by
  have hlt := toNat_and_lt hmask c
  have hsqe := Access.partOf_cells q.sqes 0 64 hlt
  rw [Nat.zero_add] at hsqe
  have hindex := Access.partOf_cells q.ring q.offsets.array.toNat 4 hlt
  simp only [slotAccesses, List.mem_cons, List.not_mem_nil, or_false] at ha
  rcases ha with rfl | rfl
  · exact ⟨_, by simp [extent], hsqe⟩
  · exact ⟨_, by simp [extent], hindex⟩

/-- A mask below the size keeps every access in the extent. -/
theorem partOf_of_mem_slotsAccesses (hmask : q.mask < q.entries) {c : UInt32} {n : Nat}
    (ha : a ∈ q.slotsAccesses c n) : ∃ b ∈ q.extent, a.PartOf b := by
  induction n generalizing c with
  | zero => cases ha
  | succ n ih =>
    rcases List.mem_append.mp ha with hslot | hrest
    · exact partOf_of_mem_slotAccesses hmask hslot
    · exact ih hrest

/-- What a step reads and writes belongs to the queue, whatever memory holds. -/
theorem partOf_of_mem_accesses (hmask : q.mask < q.entries) {m : Memory} {step : SubmissionStep}
    (ha : a ∈ step.accesses q m) : ∃ b ∈ q.extent, a.PartOf b := by
  have hword (hmem : a ∈ q.extent) : ∃ b ∈ q.extent, a.PartOf b := ⟨a, hmem, .refl a⟩
  have hhead : q.headAccess ∈ q.extent := by simp [extent]
  have htail : q.tailAccess ∈ q.extent := by simp [extent]
  cases step with
  | push e =>
    simp only [SubmissionStep.accesses, List.mem_cons, List.mem_ite_nil_left, List.mem_append,
      List.not_mem_nil, or_false] at ha
    rcases ha with rfl | ⟨-, hslot | rfl⟩
    · exact hword hhead
    · exact partOf_of_mem_slotAccesses hmask hslot
    · exact hword htail
  | pushDeferred e =>
    simp only [SubmissionStep.accesses, List.mem_cons, List.mem_ite_nil_left] at ha
    rcases ha with rfl | ⟨-, hslot⟩
    · exact hword hhead
    · exact partOf_of_mem_slotAccesses hmask hslot
  | pushAll es =>
    simp only [SubmissionStep.accesses, List.mem_cons, List.mem_ite_nil_left, List.mem_append,
      List.not_mem_nil, or_false] at ha
    rcases ha with rfl | ⟨-, hslots | rfl⟩
    · exact hword hhead
    · exact partOf_of_mem_slotsAccesses hmask hslots
    · exact hword htail
  | sync =>
    rw [List.mem_singleton.mp ha]
    exact ⟨_, htail, .refl _⟩
  | inspect =>
    refine hword ?_
    simp only [SubmissionStep.accesses, List.mem_cons, List.not_mem_nil, or_false] at ha
    rcases ha with rfl | rfl | rfl | rfl <;> simp [extent]

end SubmissionQueue

end IoRing
