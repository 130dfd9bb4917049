import IoRing.Proofs.Ring.Contents
import IoRing.Proofs.Ring.Opening

/-!
# Attaching a queue anew

A queue is a private counter over a ring in shared memory.  Whoever attaches anew
starts from the published counter.  A new submission queue forgets the deferred
entries, and a new completion queue hands over once more what was taken and not
given back.

`ViewTrace` runs both queues over one ring, with the kernel consuming and posting,
and any move may attach one of the queues anew.  Whatever was done before, the new
view goes on from what was published (`renewal_rolls_back`).  The slots between the
published counters were disturbed neither by deferred pushes nor by posts.

The invariant is `ViewTrace.Follows`.  It is told against what the ring held when
the record began, so it serves a new view as well as a first one.
-/

namespace IoRing

/-! ## New views -/

/-- Attach to the same places anew. -/
def SubmissionQueue.reattach (q : SubmissionQueue) (m : Memory) : Except Fault SubmissionQueue :=
  attach ⟨some q.ring⟩ ⟨some q.sqes⟩ q.offsets m

/-- Attach to the same places anew. -/
def CompletionQueue.reattach (q : CompletionQueue) (m : Memory) : Except Fault CompletionQueue :=
  attach ⟨some q.ring⟩ q.offsets m

/-! ## Runs -/

/-- A move on a ring with two views. -/
inductive ViewMove where
  /-- A step on the submission queue. -/
  | submission (step : SubmissionStep)
  /-- A step on the completion queue. -/
  | completion (step : CompletionStep)
  /-- The kernel consumes. -/
  | consume (limit? : Option Nat)
  /-- The kernel posts. -/
  | post (c : Completion)
  /-- The submission queue is attached anew. -/
  | renewSubmission
  /-- The completion queue is attached anew. -/
  | renewCompletion

/-- Two views of a ring on a host, and what happened so far. -/
structure ViewTrace where
  sq : SubmissionQueue
  cq : CompletionQueue
  host : Host
  /-- The entries pushed and not forgotten, in order. -/
  accepted : List Entry := []
  /-- Those accepted up to the last step that publishes. -/
  released : List Entry := []
  /-- The entries that the kernel took, in order. -/
  taken : List Entry := []
  /-- The completions that the kernel posted with room for them, in order. -/
  posted : List Completion := []
  /-- The completions handed over and not to be handed over again, in order. -/
  returned : List Completion := []
  /-- Those handed over when the head was last published. -/
  settled : List Completion := []

namespace ViewTrace

/-- Make a move and record what came of it. -/
def move (r : ViewTrace) : ViewMove → ViewTrace
  | .submission step =>
      match step.perform r.sq r.host with
      | .ok (_, sq) host =>
          let accepted := r.accepted ++ step.entries
          { r with sq, host, accepted,
                   released := if step.publishes then accepted else r.released }
      | .error _ host => { r with host }
  | .completion step =>
      match step.perform r.cq r.host with
      | .ok (reply, cq) host =>
          let returned := r.returned ++ reply.taken
          { r with cq, host, returned,
                   settled := if step.publishes then returned else r.settled }
      | .error _ host => { r with host }
  | .consume limit? =>
      let taken := r.host.kernel.consume limit?
      { r with host := { r.host with kernel := taken.kernel }
               taken := r.taken ++ taken.entries }
  | .post c =>
      let (fits, kernel) := r.host.kernel.post c
      { r with host := { r.host with kernel }
               posted := if fits then r.posted ++ [c] else r.posted }
  | .renewSubmission =>
      match r.sq.reattach r.host.kernel.memory with
      | .ok sq => { r with sq, accepted := r.released }
      | .error _ => r
  | .renewCompletion =>
      match r.cq.reattach r.host.kernel.memory with
      | .ok cq => { r with cq, returned := r.settled }
      | .error _ => r

/-- Make moves one after the other. -/
def run (r : ViewTrace) (moves : List ViewMove) : ViewTrace := moves.foldl move r

/-- Go on with another submission queue, and begin a new record of submissions. -/
def beginSubmission (r : ViewTrace) (sq : SubmissionQueue) : ViewTrace :=
  { r with sq, accepted := [], released := [], taken := [] }

/-- Go on with another completion queue, and begin a new record of completions. -/
def beginCompletion (r : ViewTrace) (cq : CompletionQueue) : ViewTrace :=
  { r with cq, posted := [], returned := [], settled := [] }

/-- The two queues as those of a ring.  Its descriptor and its regions do not
matter here. -/
def body (r : ViewTrace) : RingBody := ⟨-1, {}, r.sq, r.cq⟩

/-- The record agrees with what the ring carries, if it held the entries `before`
published and the completions `ahead` readable when the record began. -/
structure Follows (r : ViewTrace) (s : RingSite) (before : List Entry) (ahead : List Completion)
    (published deferred : List Entry) (kept waiting : List Completion) : Prop where
  carries : s.Carries r.body r.host.kernel published deferred kept waiting
  released_eq : before ++ r.released = r.taken ++ published
  accepted_eq : r.accepted = r.released ++ deferred
  posted_eq : ahead ++ r.posted = r.returned ++ waiting
  returned_eq : r.returned = r.settled ++ kept

namespace Follows

variable {r : ViewTrace} {s : RingSite} {before published deferred : List Entry}
  {ahead kept waiting : List Completion}

/-! ### What the record tells -/

/-- What the two views show is what the invariant lists. -/
theorem seen (hs : s.Sound) (hr : r.Follows s before ahead published deferred kept waiting) :
    r.sq.waiting r.host.kernel = published ∧ r.sq.hidden r.host.kernel = deferred ∧
      r.cq.readable r.host.kernel.memory = waiting := by
  obtain ⟨hpublished, hdeferred, hwaiting, -⟩ := hr.carries.seen hs
  exact ⟨hpublished, hdeferred, hwaiting⟩

/-! ### Steps -/

/-- A step on the submission queue whose entries fit. -/
theorem submission_ok (hs : s.Sound)
    (hr : r.Follows s before ahead published deferred kept waiting) (step : SubmissionStep)
    (hroom : published.length + deferred.length + step.entries.length ≤
      s.submission.entries.toNat) :
    (r.move (.submission step)).Follows s before ahead
      (if step.publishes then published ++ deferred ++ step.entries else published)
      (if step.publishes then [] else deferred ++ step.entries) kept waiting := by
  obtain ⟨reply, sq, m, hperform, hc, -⟩ := hr.carries.submission_ok (h := r.host) hs step hroom
  have hmove : step.perform r.sq r.host = .ok (reply, sq) (r.host.withMemory m) := hperform
  simp only [move, hmove]
  constructor
  case carries => exact hc
  case released_eq =>
    simp only
    split
    · rw [hr.accepted_eq, ← List.append_assoc, ← List.append_assoc, hr.released_eq,
        List.append_assoc, List.append_assoc, List.append_assoc]
    · exact hr.released_eq
  case accepted_eq =>
    simp only
    split
    · rw [List.append_nil]
    · rw [hr.accepted_eq, List.append_assoc]
  case posted_eq => exact hr.posted_eq
  case returned_eq => exact hr.returned_eq

/-- A step without room changes nothing, whatever view takes it. -/
theorem submission_full (hr : r.Follows s before ahead published deferred kept waiting)
    (step : SubmissionStep)
    (hfull : s.submission.entries.toNat <
      published.length + deferred.length + step.entries.length) :
    r.move (.submission step) = r := by
  have hperform : step.perform r.sq r.host = .error .submissionQueueFull r.host :=
    hr.carries.submission_full (h := r.host) step hfull
  simp only [move, hperform]

/-- A step on the completion queue takes from the front of what waits. -/
theorem completion (hs : s.Sound)
    (hr : r.Follows s before ahead published deferred kept waiting) (step : CompletionStep) :
    (r.move (.completion step)).Follows s before ahead published deferred
      (if step.publishes then [] else kept ++ waiting.take step.demand)
      (waiting.drop step.demand) := by
  obtain ⟨reply, cq, m, hperform, htaken, hc, -⟩ := hr.carries.completion_ok (h := r.host) hs step
  have hmove : step.perform r.cq r.host = .ok (reply, cq) (r.host.withMemory m) := hperform
  simp only [move, hmove, htaken]
  constructor
  case carries => exact hc
  case released_eq => exact hr.released_eq
  case accepted_eq => exact hr.accepted_eq
  case posted_eq =>
    simp only
    rw [hr.posted_eq, List.append_assoc, List.take_append_drop]
  case returned_eq =>
    simp only
    split
    · rw [List.append_nil]
    · rw [hr.returned_eq, List.append_assoc]

/-- The kernel takes published entries and leaves the deferred ones. -/
theorem consume (hs : s.Sound)
    (hr : r.Follows s before ahead published deferred kept waiting) (limit? : Option Nat) :
    ∃ rest, (r.move (.consume limit?)).Follows s before ahead rest deferred kept waiting := by
  obtain ⟨taken, rest, hsplit, hentries, hc⟩ := hr.carries.consume hs limit?
  refine ⟨rest, hc, ?_, hr.accepted_eq, hr.posted_eq, hr.returned_eq⟩
  simp only [move, hentries]
  rw [hr.released_eq, hsplit, List.append_assoc]

/-- A completion posted comes behind those that wait, or is lost. -/
theorem post (hs : s.Sound) (hr : r.Follows s before ahead published deferred kept waiting)
    (c : Completion) :
    ∃ waiting', (r.move (.post c)).Follows s before ahead published deferred kept waiting' := by
  obtain ⟨-, hc⟩ := hr.carries.post_eq hs c
  refine ⟨_, hc, hr.released_eq, hr.accepted_eq, ?_, hr.returned_eq⟩
  simp only [move]
  split
  · rw [← List.append_assoc, hr.posted_eq, List.append_assoc]
  · exact hr.posted_eq

/-! ### New views -/

/-- A new submission queue starts at the published tail. -/
theorem reattach_submission (hs : s.Sound)
    (hr : r.Follows s before ahead published deferred kept waiting) :
    r.sq.reattach r.host.kernel.memory =
      .ok (s.submission.queue (s.submission.word r.host.kernel.memory .tail)) := by
  have hsq : r.sq = s.submission.queue r.sq.localTail := hr.carries.sq_eq
  rw [hsq]
  exact hs.submission.attach_eq hr.carries.submission.formatted

/-- A new completion queue starts at the published head. -/
theorem reattach_completion (hs : s.Sound)
    (hr : r.Follows s before ahead published deferred kept waiting) :
    r.cq.reattach r.host.kernel.memory =
      .ok (s.completion.queue (s.completion.word r.host.kernel.memory .head)) := by
  have hcq : r.cq = s.completion.queue r.cq.localHead := hr.carries.cq_eq
  rw [hcq]
  exact hs.completion.attach_eq hr.carries.completion.formatted

/-- The new submission queue, in the old record. -/
theorem renewSubmission (hs : s.Sound)
    (hr : r.Follows s before ahead published deferred kept waiting) :
    (r.move .renewSubmission).Follows s before ahead published [] kept waiting := by
  simp only [move, hr.reattach_submission hs]
  have hc := hr.carries
  refine ⟨⟨rfl, hc.cq_eq, hc.serves, hc.submission.restart, hc.completion⟩, hr.released_eq, ?_,
    hr.posted_eq, hr.returned_eq⟩
  simp only [List.append_nil]

/-- The new completion queue, in the old record. -/
theorem renewCompletion (hs : s.Sound)
    (hr : r.Follows s before ahead published deferred kept waiting) :
    (r.move .renewCompletion).Follows s before ahead published deferred [] (kept ++ waiting) := by
  simp only [move, hr.reattach_completion hs]
  have hc := hr.carries
  refine ⟨⟨hc.sq_eq, rfl, hc.serves, hc.submission, hc.completion.restart⟩, hr.released_eq,
    hr.accepted_eq, ?_, ?_⟩
  · simp only
    rw [hr.posted_eq, hr.returned_eq, List.append_assoc]
  · simp only [List.append_nil]

/-- The new submission queue, in a new record. -/
theorem beginSubmission (hr : r.Follows s before ahead published deferred kept waiting) :
    (r.beginSubmission (s.submission.queue (s.submission.word r.host.kernel.memory .tail))).Follows
      s published ahead published [] kept waiting := by
  have hc := hr.carries
  exact ⟨⟨rfl, hc.cq_eq, hc.serves, hc.submission.restart, hc.completion⟩, List.append_nil _, rfl,
    hr.posted_eq, hr.returned_eq⟩

/-- The new completion queue, in a new record. -/
theorem beginCompletion (hr : r.Follows s before ahead published deferred kept waiting) :
    (r.beginCompletion (s.completion.queue (s.completion.word r.host.kernel.memory .head))).Follows
      s before (kept ++ waiting) published deferred [] (kept ++ waiting) := by
  have hc := hr.carries
  exact ⟨⟨hc.sq_eq, rfl, hc.serves, hc.submission, hc.completion.restart⟩, hr.released_eq,
    hr.accepted_eq, List.append_nil _, rfl⟩

/-- With nothing deferred the new submission queue is the old one. -/
theorem reattach_submission_self (hs : s.Sound)
    (hr : r.Follows s before ahead published [] kept waiting) :
    r.sq.reattach r.host.kernel.memory = .ok r.sq := by
  have htail : r.sq.localTail = s.submission.word r.host.kernel.memory .tail + 0 :=
    hr.carries.submission.last_eq
  have hsq : r.sq = s.submission.queue r.sq.localTail := hr.carries.sq_eq
  rw [hr.reattach_submission hs, hsq, htail, UInt32.add_zero]

/-- With nothing kept the new completion queue is the old one. -/
theorem reattach_completion_self (hs : s.Sound)
    (hr : r.Follows s before ahead published deferred [] waiting) :
    r.cq.reattach r.host.kernel.memory = .ok r.cq := by
  have hhead : r.cq.localHead = s.completion.word r.host.kernel.memory .head + 0 :=
    hr.carries.completion.middle_eq
  have hcq : r.cq = s.completion.queue r.cq.localHead := hr.carries.cq_eq
  rw [hr.reattach_completion hs, hcq, hhead, UInt32.add_zero]

end Follows

/-! ## All runs -/

/-- Both queues tell what was done, and a new view of either goes on from what was
published. -/
structure RollsBack (r : ViewTrace) : Prop where
  /-- The entries taken and those waiting are the ones released, in order. -/
  released_eq : r.taken ++ r.sq.waiting r.host.kernel = r.released
  /-- Those released and those not published are the accepted ones, in order. -/
  accepted_eq : r.released ++ r.sq.hidden r.host.kernel = r.accepted
  /-- The completions handed over and those to be read are the posted ones, in order. -/
  posted_eq : r.returned ++ r.cq.readable r.host.kernel.memory = r.posted
  /-- The next one handed over is the first of those to be read. -/
  next_eq : ∃ cq', r.cq.next r.host =
      .ok ((r.cq.readable r.host.kernel.memory).head?, cq') r.host ∧
    cq'.readable r.host.kernel.memory = (r.cq.readable r.host.kernel.memory).tail
  /-- A new submission queue has what waits and nothing else.  Whatever is done with
  it, what waited is taken first, and then what was released since. -/
  submission : ∃ sq', r.sq.reattach r.host.kernel.memory = .ok sq' ∧
    sq'.waiting r.host.kernel = r.sq.waiting r.host.kernel ∧ sq'.hidden r.host.kernel = [] ∧
    ∀ more, let r' := (r.beginSubmission sq').run more
      r'.taken ++ r'.sq.waiting r'.host.kernel = r.sq.waiting r.host.kernel ++ r'.released ∧
      r'.released ++ r'.sq.hidden r'.host.kernel = r'.accepted
  /-- A new completion queue hands over once more what was not given back, before
  what was to be read.  Whatever is done with it, these come first, and then what
  was posted since. -/
  completion : ∃ cq' kept, r.cq.reattach r.host.kernel.memory = .ok cq' ∧
    r.returned = r.settled ++ kept ∧
    cq'.readable r.host.kernel.memory = kept ++ r.cq.readable r.host.kernel.memory ∧
    (∃ cq'', cq'.next r.host =
        .ok ((kept ++ r.cq.readable r.host.kernel.memory).head?, cq'') r.host ∧
      cq''.readable r.host.kernel.memory =
        (kept ++ r.cq.readable r.host.kernel.memory).tail) ∧
    ∀ more, let r' := (r.beginCompletion cq').run more
      r'.returned ++ r'.cq.readable r'.host.kernel.memory =
        kept ++ r.cq.readable r.host.kernel.memory ++ r'.posted
  /-- Right after a `sync` a new submission queue is as good as the old one in all that
  follows. -/
  submission_sync : let r' := r.move (.submission .sync)
    ∃ sq', r'.sq.reattach r'.host.kernel.memory = .ok sq' ∧
      ∀ more, ViewTrace.run { r' with sq := sq' } more = r'.run more
  /-- So is a new completion queue. -/
  completion_sync : let r' := r.move (.completion .sync)
    ∃ cq', r'.cq.reattach r'.host.kernel.memory = .ok cq' ∧
      ∀ more, ViewTrace.run { r' with cq := cq' } more = r'.run more

/-- The record agrees with what the ring carries. -/
def Agrees (r : ViewTrace) (s : RingSite) (before : List Entry) (ahead : List Completion) : Prop :=
  ∃ published deferred kept waiting, r.Follows s before ahead published deferred kept waiting

variable {r : ViewTrace} {s : RingSite} {before : List Entry} {ahead : List Completion}

/-- To attach a view anew starts its half over, and any other move is a step of
the invariant. -/
theorem Agrees.move (hs : s.Sound) (hr : r.Agrees s before ahead) (move : ViewMove) :
    (r.move move).Agrees s before ahead := by
  obtain ⟨published, deferred, kept, waiting, hr⟩ := hr
  cases move with
  | submission step =>
    by_cases hroom : published.length + deferred.length + step.entries.length ≤
        s.submission.entries.toNat
    · exact ⟨_, _, _, _, hr.submission_ok hs step hroom⟩
    · rw [hr.submission_full step (Nat.lt_of_not_le hroom)]
      exact ⟨_, _, _, _, hr⟩
  | completion step => exact ⟨_, _, _, _, hr.completion hs step⟩
  | consume limit? =>
    obtain ⟨rest, hr'⟩ := hr.consume hs limit?
    exact ⟨_, _, _, _, hr'⟩
  | post c =>
    obtain ⟨waiting', hr'⟩ := hr.post hs c
    exact ⟨_, _, _, _, hr'⟩
  | renewSubmission => exact ⟨_, _, _, _, hr.renewSubmission hs⟩
  | renewCompletion => exact ⟨_, _, _, _, hr.renewCompletion hs⟩

/-- The views agree with the record after any moves. -/
theorem Agrees.run (hs : s.Sound) (hr : r.Agrees s before ahead) (moves : List ViewMove) :
    (r.run moves).Agrees s before ahead :=
  List.foldlRecOn (motive := (Agrees · s before ahead)) moves _ hr
    fun _ hr move _ => hr.move hs move

/-- What the queues tell adds up to the record. -/
theorem Agrees.accounts (hs : s.Sound) (hr : r.Agrees s before ahead) :
    r.taken ++ r.sq.waiting r.host.kernel = before ++ r.released ∧
      r.released ++ r.sq.hidden r.host.kernel = r.accepted ∧
      r.returned ++ r.cq.readable r.host.kernel.memory = ahead ++ r.posted := by
  obtain ⟨published, deferred, kept, waiting, hr⟩ := hr
  obtain ⟨hpublished, hdeferred, hwaiting⟩ := hr.seen hs
  rw [hpublished, hdeferred, hwaiting, hr.released_eq, hr.accepted_eq, hr.posted_eq]
  exact ⟨rfl, rfl, rfl⟩

/-- **A new submission queue goes on from what was published.** -/
theorem Agrees.submission_rolls_back (hs : s.Sound) (hr : r.Agrees s before ahead) :
    ∃ sq, r.sq.reattach r.host.kernel.memory = .ok sq ∧
      sq.waiting r.host.kernel = r.sq.waiting r.host.kernel ∧ sq.hidden r.host.kernel = [] ∧
      ∀ more, ((r.beginSubmission sq).run more).Agrees s (r.sq.waiting r.host.kernel) ahead := by
  obtain ⟨published, deferred, kept, waiting, hr⟩ := hr
  have hbegin := hr.beginSubmission
  obtain ⟨hpublished, -, -⟩ := hr.seen hs
  obtain ⟨hwaiting, hhidden, -⟩ := hbegin.seen hs
  rw [hpublished]
  exact ⟨_, hr.reattach_submission hs, hwaiting, hhidden,
    fun more => Agrees.run hs ⟨_, _, _, _, hbegin⟩ more⟩

/-- **A new completion queue goes on from what was given back.** -/
theorem Agrees.completion_rolls_back (hs : s.Sound) (hr : r.Agrees s before ahead) :
    ∃ cq kept, r.cq.reattach r.host.kernel.memory = .ok cq ∧ r.returned = r.settled ++ kept ∧
      cq.readable r.host.kernel.memory = kept ++ r.cq.readable r.host.kernel.memory ∧
      ∀ more, ((r.beginCompletion cq).run more).Agrees s before
        (kept ++ r.cq.readable r.host.kernel.memory) := by
  obtain ⟨published, deferred, kept, waiting, hr⟩ := hr
  have hbegin := hr.beginCompletion
  obtain ⟨-, -, hold⟩ := hr.seen hs
  obtain ⟨-, -, hreadable⟩ := hbegin.seen hs
  rw [hold]
  exact ⟨_, kept, hr.reattach_completion hs, hr.returned_eq, hreadable,
    fun more => Agrees.run hs ⟨_, _, _, _, hbegin⟩ more⟩

/-- Right after a `sync` the new submission queue is the old one. -/
theorem Agrees.reattach_submission_sync (hs : s.Sound) (hr : r.Agrees s before ahead) :
    let r' := r.move (.submission .sync)
    r'.sq.reattach r'.host.kernel.memory = .ok r'.sq := by
  obtain ⟨published, deferred, kept, waiting, hr⟩ := hr
  have hroom : published.length + deferred.length + SubmissionStep.sync.entries.length ≤
      s.submission.entries.toNat := hr.carries.submission.length_le
  exact (hr.submission_ok hs .sync hroom).reattach_submission_self hs

/-- Right after a `sync` the new completion queue is the old one. -/
theorem Agrees.reattach_completion_sync (hs : s.Sound) (hr : r.Agrees s before ahead) :
    let r' := r.move (.completion .sync)
    r'.cq.reattach r'.host.kernel.memory = .ok r'.cq := by
  obtain ⟨published, deferred, kept, waiting, hr⟩ := hr
  exact (hr.completion hs .sync).reattach_completion_self hs

/-- A record that begins on an empty ring rolls back. -/
theorem Agrees.rollsBack (hs : s.Sound) (hr : r.Agrees s [] []) : r.RollsBack := by
  obtain ⟨hreleased, haccepted, hposted⟩ := hr.accounts hs
  constructor
  case released_eq => exact hreleased
  case accepted_eq => exact haccepted
  case posted_eq => exact hposted
  case next_eq => exact r.cq.next_readable r.host
  case submission =>
    obtain ⟨sq', hattach, hwaiting, hhidden, hmore⟩ := hr.submission_rolls_back hs
    refine ⟨sq', hattach, hwaiting, hhidden, fun more => ?_⟩
    obtain ⟨hreleased', haccepted', -⟩ := (hmore more).accounts hs
    exact ⟨hreleased', haccepted'⟩
  case completion =>
    obtain ⟨cq', kept, hattach, hreturned, hreadable, hmore⟩ := hr.completion_rolls_back hs
    have hnext := cq'.next_readable r.host
    rw [hreadable] at hnext
    refine ⟨cq', kept, hattach, hreturned, hreadable, hnext, fun more => ?_⟩
    obtain ⟨-, -, hposted'⟩ := (hmore more).accounts hs
    exact hposted'
  case submission_sync => exact ⟨_, hr.reattach_submission_sync hs, fun _ => rfl⟩
  case completion_sync => exact ⟨_, hr.reattach_completion_sync hs, fun _ => rfl⟩

end ViewTrace

namespace RingSite

variable {s : RingSite} {h : Host}

/-- **Attaching a queue anew rolls back exactly to what was published.**  Attach both
queues to an empty ring at any counters and make any moves.

A submission queue attached then forgets the hidden entries, which were accepted and
not released, and nothing else.  Whatever follows, the kernel takes those that were
waiting and then those that the new queue released, in order.

A completion queue attached then hands over once more the completions that were
handed over and not settled, and then those that were still to be read, each of
them by `next`.  Whatever follows, these come first and then those posted since.

Right after a `sync`, a queue attached anew is as good as the old one in all that
follows. -/
theorem renewal_rolls_back (hs : s.Sound) (hk : h.kernel.Serves s)
    (hm : s.Formatted h.kernel.memory)
    (hsq : s.submission.word h.kernel.memory .tail = s.submission.word h.kernel.memory .head)
    (hcq : s.completion.word h.kernel.memory .tail = s.completion.word h.kernel.memory .head) :
    ∃ sq cq,
      SubmissionQueue.attach ⟨some s.submission.ring⟩ ⟨some s.submission.sqes⟩
        s.submission.offsets h.kernel.memory = .ok sq ∧
      CompletionQueue.attach ⟨some s.cqRing⟩ s.cqOffsets h.kernel.memory = .ok cq ∧
      ∀ moves : List ViewMove, (ViewTrace.run { sq, cq, host := h } moves).RollsBack := by
  refine ⟨_, _, hs.submission.attach_eq hm.submission, hs.completion.attach_eq hm.completion,
    fun moves => ?_⟩
  have hstart : ViewTrace.Agrees
      { sq := s.submission.queue (s.submission.word h.kernel.memory .tail)
        cq := s.completion.queue (s.completion.word h.kernel.memory .head)
        host := h } s [] [] :=
    ⟨[], [], [], [], ⟨rfl, rfl, hk, .nil hm.submission hsq, .nil hm.completion hcq⟩, rfl, rfl,
      rfl, rfl⟩
  exact (hstart.run hs moves).rollsBack hs

/-- The views of the small ring, whose counters are about to wrap, roll back as well. -/
theorem renewal_rolls_back_small :
    small.Sound ∧ smallHost.kernel.Serves small ∧ small.Formatted smallHost.kernel.memory ∧
      small.submission.word smallHost.kernel.memory .tail =
        small.submission.word smallHost.kernel.memory .head ∧
      small.completion.word smallHost.kernel.memory .tail =
        small.completion.word smallHost.kernel.memory .head ∧
      ∃ sq cq,
        SubmissionQueue.attach ⟨some small.submission.ring⟩ ⟨some small.submission.sqes⟩
          small.submission.offsets smallHost.kernel.memory = .ok sq ∧
        CompletionQueue.attach ⟨some small.cqRing⟩ small.cqOffsets smallHost.kernel.memory =
          .ok cq ∧
        ∀ moves : List ViewMove,
          (ViewTrace.run { sq, cq, host := smallHost } moves).RollsBack := by
  have hk : smallHost.kernel.Serves small := ⟨⟨rfl, rfl, rfl, rfl⟩, rfl, rfl, rfl⟩
  exact ⟨sound_small, hk, opened_small.formatted, opened_small.sqEmpty, opened_small.cqEmpty,
    renewal_rolls_back sound_small hk opened_small.formatted opened_small.sqEmpty
      opened_small.cqEmpty⟩

/-- Past the wrap, one entry published and one deferred, one completion taken and one
not.  New queues forget the deferred entry and hand over both completions. -/
example :
    let e (n : UInt64) := Entry.make 0 0 n
    let c (n : UInt64) : Completion := ⟨n, 0, 0⟩
    let r := ViewTrace.run
      { sq := small.submission.queue 0xFFFFFFFE
        cq := small.completion.queue 0xFFFFFFFF
        host := smallHost }
      [.submission (.pushAll [e 0, e 1]), .consume (some 1), .submission (.pushDeferred (e 2)),
        .post (c 3), .post (c 4), .completion .next, .renewSubmission, .renewCompletion]
    r.sq.waiting r.host.kernel = [e 1] ∧ r.sq.hidden r.host.kernel = [] ∧
      r.cq.readable r.host.kernel.memory = [c 3, c 4] := by
  decide +kernel

end RingSite

end IoRing
