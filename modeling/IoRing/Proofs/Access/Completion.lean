import IoRing.Proofs.Access.Basic
import IoRing.Proofs.Completion.Contents
import IoRing.Proofs.Ring.Windows

/-!
# What a completion queue reads and writes

`CompletionStep.accesses` lists the accesses of a step, in order.  Taking reads
the tail and, if a completion waits, the slot of the private head, and so on until
none waits or enough are taken.  Publishing writes the head.  The list is complete
(`CompletionStep.confined`).

As with submissions a counter is masked before it names a slot, so all accesses
are parts of what belongs to the queue (`CompletionQueue.partOf_of_mem_accesses`),
and no step changes what that is (`CompletionStep.queue_of_perform`).
-/

namespace IoRing

/-! ## Accesses -/

namespace CompletionQueue

variable (q : CompletionQueue)

abbrev headAccess : Access := q.ring.wordAccess q.offsets.head

abbrev tailAccess : Access := q.ring.wordAccess q.offsets.tail

/-- All that belongs to the queue: the five words of the header and the
completions. -/
def extent : List Access :=
  [q.headAccess, q.tailAccess, q.ring.wordAccess q.offsets.overflow,
    q.ring.wordAccess q.offsets.ringMask, q.ring.wordAccess q.offsets.ringEntries,
    ⟨q.ring, q.offsets.cqes.toNat, 16 * q.entries.toNat⟩]

/-- The access that reads the slot of the private head. -/
def slotAccess : Access := ⟨q.ring, q.offsets.cqes.toNat + 16 * (q.localHead &&& q.mask).toNat, 16⟩

/-- The accesses that take completions up to a number. -/
def takeAccesses (q : CompletionQueue) (m : Memory) : (limit : Nat) → List Access
  | 0 => []
  | limit + 1 =>
      q.tailAccess :: if q.localHead = q.tail m then []
        else q.slotAccess :: takeAccesses { q with localHead := q.localHead + 1 } m limit

end CompletionQueue

/-- What a step reads and writes, in order. -/
def CompletionStep.accesses (q : CompletionQueue) (m : Memory) : CompletionStep → List Access
  | .next => q.takeAccesses m 1
  | .drain limit => q.takeAccesses m limit
  | .sync => [q.headAccess]
  | .inspect => [q.tailAccess, q.headAccess, q.ring.wordAccess q.offsets.overflow]

/-! ## The list is complete -/

namespace CompletionQueue

variable (q : CompletionQueue) {m m' : Memory}

theorem stores_publish : Stores [q.headAccess] q.publish := stores_setWord ..

/-- What is taken is decided by the tail and the slot. -/
theorem next?_congr (htail : q.tail m' = q.tail m)
    (hslot : ¬ q.localHead = q.tail m → SameAt q.slotAccess.place m m') :
    q.next? m' = q.next? m := by
  by_cases hempty : q.localHead = q.tail m
  · rw [next?_eq_none hempty, next?_eq_none (hempty.trans htail.symm)]
  · have hload : Completion.load m' q.ring.block
        (q.offsets.cqes.toNat + 16 * (q.localHead &&& q.mask).toNat) =
        Completion.load m q.ring.block
          (q.offsets.cqes.toNat + 16 * (q.localHead &&& q.mask).toNat) :=
      Completion.load_congr (hslot hempty)
    rw [next?_eq_some hempty, next?_eq_some (by rwa [htail]), hload]

/-- What is taken depends only on the bytes that the accesses name. -/
theorem drain_congr {limit : Nat} (h : SameOn (q.takeAccesses m limit) m m') :
    q.drain m' limit = q.drain m limit := by
  induction limit generalizing q with
  | zero => rfl
  | succ limit ih =>
    rw [takeAccesses] at h
    have htail : q.tail m' = q.tail m := h.word_eq (List.mem_cons_self ..)
    by_cases hempty : q.localHead = q.tail m
    · rw [drain, drain, next?_eq_none hempty, next?_eq_none (hempty.trans htail.symm)]
    · rw [if_neg hempty] at h
      have hnext : q.next? m' = q.next? m := q.next?_congr htail fun _ => h _ (by simp)
      have hrest : SameOn (takeAccesses { q with localHead := q.localHead + 1 } m limit) m m' :=
        fun a ha => h a (by simp [ha])
      simp only [drain, hnext, next?_eq_some hempty, ih _ hrest]

end CompletionQueue

namespace CompletionStep

open CompletionQueue

/-- **A step reads and writes what its accesses say, and nothing else.** -/
theorem confined (q : CompletionQueue) (h : Host) (step : CompletionStep) :
    (step.perform q).Confined h (step.accesses q h.kernel.memory) := by
  cases step with
  | next =>
    have hcongr (m : Memory)
        (hsame : SameOn (q.takeAccesses h.kernel.memory 1) h.kernel.memory m) :
        q.next? m = q.next? h.kernel.memory := by
      rw [takeAccesses] at hsame
      refine q.next?_congr (hsame.word_eq (List.mem_cons_self ..)) fun hwaiting => ?_
      rw [if_neg hwaiting] at hsame
      exact hsame _ (by simp)
    have hrun (m : Memory) : (CompletionStep.next).perform q (h.withMemory m) =
        .ok (.completion ((q.next? m).map (·.1)), ((q.next? m).map (·.2)).getD q)
          (h.withMemory m) := Sys.bind_ok (q.next_eq (h.withMemory m))
    refine .of_stores .nothing (List.nil_subset _)
      (.ok (.completion ((q.next? h.kernel.memory).map (·.1)),
        ((q.next? h.kernel.memory).map (·.2)).getD q)) fun m hsame => ?_
    rw [hrun, hcongr m hsame]
    rfl
  | drain limit =>
    refine .of_stores .nothing (List.nil_subset _)
      (.ok (.completions (q.drain h.kernel.memory limit).1, (q.drain h.kernel.memory limit).2))
      fun m hsame => ?_
    rw [← q.drain_congr hsame]
    rfl
  | sync =>
    exact .of_stores q.stores_publish (List.Subset.refl _) (.ok (.nothing, q)) fun _ _ => rfl
  | inspect =>
    refine .of_stores .nothing (List.nil_subset _)
      (.ok (.completionQueue (q.summary h.kernel.memory), q)) fun m hsame => ?_
    have htail : q.tail m = q.tail h.kernel.memory := hsame.word_eq (by simp [accesses])
    have hhead : q.publishedHead m = q.publishedHead h.kernel.memory :=
      hsame.word_eq (by simp [accesses])
    have hoverflow : q.overflow m = q.overflow h.kernel.memory :=
      hsame.word_eq (by simp [accesses])
    have hsummary : q.summary m = q.summary h.kernel.memory := by
      simp only [summary, isEmpty, len, htail, hhead, hoverflow]
    rw [← hsummary]
    rfl

end CompletionStep

/-! ## The queue stays the same -/

namespace CompletionQueue

/-- To take completions only moves the private head. -/
theorem queue_of_drain (q : CompletionQueue) (m : Memory) (limit : Nat) :
    ∃ t, (q.drain m limit).2 = { q with localHead := t } := by
  induction limit generalizing q with
  | zero => exact ⟨_, rfl⟩
  | succ limit ih =>
    by_cases hempty : q.localHead = q.tail m
    · rw [drain, next?_eq_none hempty]
      exact ⟨_, rfl⟩
    · rw [drain, next?_eq_some hempty]
      exact ih _

end CompletionQueue

/-- A step changes nothing about the queue but the private head. -/
theorem CompletionStep.queue_of_perform {step : CompletionStep} {q q' : CompletionQueue}
    {h h' : Host} {reply : Reply} (hstep : step.perform q h = .ok (reply, q') h') :
    ∃ t, q' = { q with localHead := t } := by
  cases step with
  | next =>
    obtain ⟨⟨c?, q₁⟩, h₁, hnext, hpure⟩ := Sys.bind_eq_ok_iff.mp hstep
    cases hpure
    rw [q.next_eq h] at hnext
    cases hnext
    cases hsome : q.next? h.kernel.memory with
    | none => exact ⟨_, rfl⟩
    | some r => exact ⟨_, CompletionQueue.queue_of_next? hsome⟩
  | drain limit =>
    cases hstep
    exact q.queue_of_drain h.kernel.memory limit
  | sync =>
    cases hstep
    exact ⟨_, rfl⟩
  | inspect =>
    cases hstep
    exact ⟨_, rfl⟩

/-! ## The accesses belong to the queue -/

namespace CompletionQueue

variable {q : CompletionQueue} {a : Access}

/-- A mask below the size keeps every access in the extent. -/
theorem partOf_of_mem_takeAccesses (hmask : q.mask < q.entries) {m : Memory} {limit : Nat}
    (ha : a ∈ q.takeAccesses m limit) : ∃ b ∈ q.extent, a.PartOf b := by
  induction limit generalizing q with
  | zero => cases ha
  | succ limit ih =>
    simp only [takeAccesses, List.mem_cons, List.mem_ite_nil_left] at ha
    rcases ha with rfl | ⟨-, rfl | hrest⟩
    · exact ⟨_, by simp [extent], .refl _⟩
    · have hslot := Access.partOf_cells q.ring q.offsets.cqes.toNat 16
        (toNat_and_lt hmask q.localHead)
      exact ⟨_, by simp [extent], hslot⟩
    · -- What belongs to the queue does not depend on the private head.
      exact ih (q := { q with localHead := q.localHead + 1 }) hmask hrest

/-- What a step reads and writes belongs to the queue, whatever memory holds. -/
theorem partOf_of_mem_accesses (hmask : q.mask < q.entries) {m : Memory} {step : CompletionStep}
    (ha : a ∈ step.accesses q m) : ∃ b ∈ q.extent, a.PartOf b := by
  cases step with
  | next => exact partOf_of_mem_takeAccesses hmask ha
  | drain limit => exact partOf_of_mem_takeAccesses hmask ha
  | sync =>
    rw [List.mem_singleton.mp ha]
    exact ⟨_, by simp [extent], .refl _⟩
  | inspect =>
    refine ⟨a, ?_, .refl a⟩
    simp only [CompletionStep.accesses, List.mem_cons, List.not_mem_nil, or_false] at ha
    rcases ha with rfl | rfl | rfl <;> simp [extent]

end CompletionQueue

end IoRing
