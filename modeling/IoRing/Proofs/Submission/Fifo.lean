import IoRing.Proofs.Submission.Consumption

/-!
# A submission ring is a bounded queue

A run over a submission ring is a list of moves: steps of the process on its
queue, and the kernel consuming.  `SubmissionTrace` records beside the queue and
the host what the calls accepted, what was released to the kernel by a call that
publishes, and what the kernel took.

`run_fifo` says that, from an empty ring at any counter, the entries taken, then
those waiting, then those not yet published are the accepted ones in order, at
the end of every run.  What waits is read through the kernel's own look-up of
slots.  The kernel takes nothing that was not released, the length counts what
was accepted and not taken, and a call fails exactly if its entries do not fit.

The invariant is `SubmissionTrace.Follows`.  It ties the recorded lists to what
the ring carries, and every move keeps it.
-/

namespace IoRing

/-- A move on a submission ring. -/
inductive SubmissionMove where
  /-- The process takes a step on its queue. -/
  | step (step : SubmissionStep)
  /-- The kernel consumes. -/
  | consume (limit? : Option Nat)

/-- A submission queue on a host, and what happened to it so far. -/
structure SubmissionTrace where
  queue : SubmissionQueue
  host : Host
  /-- The entries of the steps that succeeded, in order. -/
  accepted : List Entry := []
  /-- Those accepted up to the last step that publishes. -/
  released : List Entry := []
  /-- The entries that the kernel took, in order. -/
  taken : List Entry := []

namespace SubmissionTrace

/-- Make a move and record what came of it. -/
def move (r : SubmissionTrace) : SubmissionMove → SubmissionTrace
  | .step step =>
      match step.perform r.queue r.host with
      | .ok (_, queue) host =>
          let accepted := r.accepted ++ step.entries
          { r with queue, host, accepted,
                   released := if step.publishes then accepted else r.released }
      | .error _ host => { r with host }
  | .consume limit? =>
      let taken := r.host.kernel.consume limit?
      { r with host := { r.host with kernel := taken.kernel }
               taken := r.taken ++ taken.entries }

/-- Make moves one after the other. -/
def run (r : SubmissionTrace) (moves : List SubmissionMove) : SubmissionTrace :=
  moves.foldl move r

/-- The record agrees with what the ring carries. -/
def Follows (r : SubmissionTrace) (s : SubmissionSite) : Prop :=
  ∃ t published deferred, r.queue = s.queue t ∧ r.host.kernel.ServesSubmission s ∧
    s.Carries r.host.kernel.memory t published deferred ∧
    r.released = r.taken ++ published ∧ r.accepted = r.released ++ deferred

/-- The ring is a bounded queue of what was accepted. -/
structure IsFifo (r : SubmissionTrace) (s : SubmissionSite) : Prop where
  /-- The entries taken, those waiting and those not published are the accepted
  ones, in order. -/
  accepted_eq : r.taken ++ r.queue.waiting r.host.kernel ++ r.queue.hidden r.host.kernel =
    r.accepted
  /-- Those taken and those waiting are the ones released. -/
  released_eq : r.taken ++ r.queue.waiting r.host.kernel = r.released
  /-- The length counts the accepted ones that were not taken. -/
  length_eq : r.taken.length + (r.queue.len r.host.kernel.memory).toNat = r.accepted.length
  /-- It is at most the number of slots. -/
  length_le : r.queue.len r.host.kernel.memory ≤ s.entries
  /-- A step fails, changing nothing, exactly if its entries do not fit. -/
  perform (step : SubmissionStep) :
    if (r.queue.len r.host.kernel.memory).toNat + step.entries.length ≤ s.entries.toNat then
      ∃ reply q' h', step.perform r.queue r.host = .ok (reply, q') h'
    else step.perform r.queue r.host = .error .submissionQueueFull r.host

variable {r : SubmissionTrace} {s : SubmissionSite}

/-- A step adds its entries to those accepted, or fails and changes nothing. -/
theorem Follows.step (hs : s.Sound) (hr : r.Follows s) (step : SubmissionStep) :
    (r.move (.step step)).Follows s := by
  obtain ⟨queue, host, accepted, released, taken⟩ := r
  obtain ⟨t, published, deferred, hqueue, hserves, hc, hreleased, haccepted⟩ := hr
  simp only at hqueue hserves hc hreleased haccepted
  subst hqueue
  by_cases hroom : published.length + deferred.length + step.entries.length ≤ s.entries.toNat
  · obtain ⟨reply, t', m', hperform, -, hc'⟩ := hc.perform_ok hs step hroom
    simp only [move, hperform]
    refine ⟨t', _, _, rfl, hserves.withMemory m', hc', ?_, ?_⟩
    · simp only
      split
      · rw [haccepted, hreleased, List.append_assoc, List.append_assoc]
        rw [List.append_assoc]
      · exact hreleased
    · simp only
      split
      · rw [List.append_nil]
      · rw [haccepted, List.append_assoc]
  · have hperform := hc.perform_full step (Nat.lt_of_not_le hroom)
    simp only [move, hperform]
    exact ⟨t, published, deferred, rfl, hserves, hc, hreleased, haccepted⟩

/-- The kernel takes the oldest of the published entries. -/
theorem Follows.consume (hs : s.Sound) (hr : r.Follows s) (limit? : Option Nat) :
    (r.move (.consume limit?)).Follows s := by
  obtain ⟨t, published, deferred, hqueue, hserves, hc, hreleased, haccepted⟩ := hr
  have hconsume := hc.consumeEach_eq hs (Kernel.handlesAt_keep s) hserves limit? rfl
  rw [Kernel.handleAll_keep] at hconsume
  simp only [move, Kernel.consume, hconsume]
  refine ⟨t, published.drop (limit?.getD published.length), deferred, hqueue,
    hserves.withMemory _, hc.retire hs _, ?_, haccepted⟩
  rw [hreleased, List.append_assoc, List.take_append_drop]

/-- Every move keeps the record. -/
theorem Follows.move (hs : s.Sound) (hr : r.Follows s) (move : SubmissionMove) :
    (r.move move).Follows s := by
  cases move with
  | step step => exact hr.step hs step
  | consume limit? => exact hr.consume hs limit?

/-- The record is right after any moves. -/
theorem Follows.run (hs : s.Sound) (hr : r.Follows s) (moves : List SubmissionMove) :
    (r.run moves).Follows s :=
  List.foldlRecOn (motive := (Follows · s)) moves _ hr fun _ hr move _ => hr.move hs move

/-- What the ring holds is told by the queue and the kernel. -/
theorem Follows.accepted_eq (hs : s.Sound) (hr : r.Follows s) :
    r.taken ++ r.queue.waiting r.host.kernel ++ r.queue.hidden r.host.kernel = r.accepted ∧
      r.taken ++ r.queue.waiting r.host.kernel = r.released := by
  obtain ⟨t, published, deferred, hqueue, hserves, hc, hreleased, haccepted⟩ := hr
  rw [hqueue, hc.waiting_eq hs hserves, hc.hidden_eq hs hserves, haccepted, hreleased]
  exact ⟨rfl, rfl⟩

/-- The length counts what was accepted and not taken, and it is at most the
number of slots. -/
theorem Follows.length_eq (hr : r.Follows s) :
    r.taken.length + (r.queue.len r.host.kernel.memory).toNat = r.accepted.length ∧
      r.queue.len r.host.kernel.memory ≤ s.entries := by
  obtain ⟨t, published, deferred, hqueue, -, hc, hreleased, haccepted⟩ := hr
  have hle := hc.length_le
  rw [hqueue, UInt32.le_iff_toNat_le, hc.toNat_len, haccepted, hreleased, List.length_append,
    List.length_append]
  omega

/-- A step whose entries fit beside what the length counts succeeds. -/
theorem Follows.perform_ok (hs : s.Sound) (hr : r.Follows s) (step : SubmissionStep)
    (hroom : (r.queue.len r.host.kernel.memory).toNat + step.entries.length ≤ s.entries.toNat) :
    ∃ reply q h, step.perform r.queue r.host = .ok (reply, q) h := by
  obtain ⟨t, published, deferred, hqueue, -, hc, -, -⟩ := hr
  rw [hqueue, hc.toNat_len] at hroom
  obtain ⟨reply, t', m', hperform, -, -⟩ := hc.perform_ok hs step hroom
  exact ⟨reply, s.queue t', _, hqueue ▸ hperform⟩

/-- A step whose entries do not fit fails and changes nothing. -/
theorem Follows.perform_full (hr : r.Follows s) (step : SubmissionStep)
    (hfull : s.entries.toNat < (r.queue.len r.host.kernel.memory).toNat + step.entries.length) :
    step.perform r.queue r.host = .error .submissionQueueFull r.host := by
  obtain ⟨t, published, deferred, hqueue, -, hc, -, -⟩ := hr
  rw [hqueue, hc.toNat_len] at hfull
  rw [hqueue]
  exact hc.perform_full step hfull

/-- A record that agrees with the ring is that of a bounded queue. -/
theorem Follows.isFifo (hs : s.Sound) (hr : r.Follows s) : r.IsFifo s where
  accepted_eq := (hr.accepted_eq hs).1
  released_eq := (hr.accepted_eq hs).2
  length_eq := hr.length_eq.1
  length_le := hr.length_eq.2
  perform step := by
    split
    · next hroom => exact hr.perform_ok hs step hroom
    · next hfull => exact hr.perform_full step (Nat.lt_of_not_le hfull)

end SubmissionTrace

namespace SubmissionSite

variable {s : SubmissionSite} {h : Host}

/-- **The submission ring is a bounded queue.**  Attach to an empty ring at any
counter and make any moves.  Then the entries taken, those waiting and those not
published are the accepted ones in order.  Those taken and those waiting are the
ones released.  The length counts the accepted ones that were not taken.  It is
at most the number of slots, and a step fails, changing nothing, exactly if its
entries do not fit beside them. -/
theorem run_fifo (hs : s.Sound) (hk : h.kernel.ServesSubmission s)
    (hm : s.Formatted h.kernel.memory)
    (hempty : s.word h.kernel.memory .tail = s.word h.kernel.memory .head) :
    ∃ q, SubmissionQueue.attach ⟨some s.ring⟩ ⟨some s.sqes⟩ s.offsets h.kernel.memory = .ok q ∧
      ∀ moves : List SubmissionMove,
        (SubmissionTrace.run { queue := q, host := h } moves).IsFifo s := by
  refine ⟨_, hs.attach_eq hm, fun moves => ?_⟩
  have hstart : SubmissionTrace.Follows
      { queue := s.queue (s.word h.kernel.memory .tail), host := h } s :=
    ⟨_, [], [], rfl, hk, .nil hm hempty, rfl, rfl⟩
  exact (hstart.run hs moves).isFifo hs

/-- A ring of four slots. -/
def small : SubmissionSite where
  ring := ⟨1, 40⟩
  sqes := ⟨2, 256⟩
  offsets := ⟨0, 4, 8, 12, 16, 20, 24⟩
  entries := 4

theorem sound_small : small.Sound where
  isRingSize := ⟨2, rfl⟩
  fits f := by cases f <;> decide
  apart f g hne := by cases f <;> cases g <;> first | exact absurd rfl hne | decide

/-- A host with the small ring, both counters two steps before they wrap. -/
def smallHost : Host := .ofKernel
  { config := {}
    granted := { sqEntries := small.entries, sqOffsets := small.offsets }
    sqRing? := some small.ring
    sqes? := some small.sqes
    memory := Memory.zero.setWords 1 0 [0xFFFFFFFE, 0xFFFFFFFE, 3, 4] }

/-- The small ring is a bounded queue, also past the wrap. -/
theorem run_fifo_small :
    small.Sound ∧ smallHost.kernel.ServesSubmission small ∧
      small.Formatted smallHost.kernel.memory ∧
      small.word smallHost.kernel.memory .tail = small.word smallHost.kernel.memory .head ∧
      ∃ q, SubmissionQueue.attach ⟨some small.ring⟩ ⟨some small.sqes⟩ small.offsets
          smallHost.kernel.memory = .ok q ∧
        ∀ moves : List SubmissionMove,
          (SubmissionTrace.run { queue := q, host := smallHost } moves).IsFifo small := by
  have hk : smallHost.kernel.ServesSubmission small := ⟨rfl, rfl, rfl, rfl⟩
  have hm : small.Formatted smallHost.kernel.memory := ⟨by decide +kernel, by decide +kernel⟩
  have hempty : small.word smallHost.kernel.memory .tail =
      small.word smallHost.kernel.memory .head := by decide +kernel
  exact ⟨sound_small, hk, hm, hempty, run_fifo sound_small hk hm hempty⟩

end SubmissionSite

end IoRing
