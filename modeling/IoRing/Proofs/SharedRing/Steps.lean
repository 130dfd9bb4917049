import IoRing.Proofs.Ring.Taking
import IoRing.SharedRing

/-!
# The atomic steps of a shared ring

What each step does to what the ring carries.  Every push publishes, so after the
first one nothing is deferred, and a request to enter the kernel counts what is
published.  Without a poll thread the kernel must always be entered.
-/

namespace IoRing.SharedRing

variable {s : RingSite} {ring : Ring} {b : RingBody} {h : Host}
  {published deferred : List Entry} {kept waiting : List Completion}

theorem ring_some (ring : Ring) (h : Host) :
    Sys.ofExcept (⟨some ring⟩ : SharedRing).ring h = .ok ring h := rfl

/-- A push that fits publishes its entry behind all those deferred before. -/
theorem push_ok (hs : s.Sound) (hbody : ring.body? = some b)
    (hc : s.Carries b h.kernel published deferred kept waiting)
    (hroom : published.length + deferred.length < s.submission.entries.toNat) (e : Entry) :
    ∃ q m, push ⟨some ring⟩ e h = .ok ⟨some (ring.withSubmission q)⟩ (h.withMemory m) ∧
      s.Carries { b with sq := q } (h.kernel.withMemory m) (published ++ deferred ++ [e]) [] kept
        waiting ∧
      s.completion.word m .overflow = s.completion.word h.kernel.memory .overflow := by
  obtain ⟨reply, q, m, hperform, hc', hoverflow⟩ := hc.submission_ok hs (.push e) hroom
  have hfind := Sys.ofExcept_ok (Ring.submission_eq hbody) h
  refine ⟨q, m, ?_, by simpa [SubmissionStep.publishes, SubmissionStep.entries] using hc',
    hoverflow⟩
  rw [push, Sys.bind_ok (ring_some ring h), Sys.bind_ok hfind,
    Sys.bind_ok (SubmissionQueue.push_of_perform_ok hperform)]
  rfl

/-- A push that does not fit fails and changes nothing. -/
theorem push_full (hbody : ring.body? = some b)
    (hc : s.Carries b h.kernel published deferred kept waiting)
    (hfull : s.submission.entries.toNat ≤ published.length + deferred.length) (e : Entry) :
    push ⟨some ring⟩ e h = .error .submissionQueueFull h := by
  have hperform := hc.submission_full (.push e) (Nat.lt_succ_of_le hfull)
  have hfind := Sys.ofExcept_ok (Ring.submission_eq hbody) h
  rw [push, Sys.bind_ok (ring_some ring h), Sys.bind_ok hfind,
    Sys.bind_error (SubmissionQueue.push_of_perform_error hperform)]

/-- A pop takes the oldest completion that waits, if there is one, and then it
gives up the slots of all completions taken. -/
theorem pop_ok (hs : s.Sound) (hbody : ring.body? = some b)
    (hc : s.Carries b h.kernel published deferred kept waiting) :
    ∃ q m, pop ⟨some ring⟩ h =
        .ok (waiting.head?, ⟨some (ring.withCompletion q)⟩) (h.withMemory m) ∧
      s.Carries { b with cq := q } (h.kernel.withMemory m) published deferred
        (if waiting = [] then kept else []) waiting.tail ∧
      s.completion.word m .overflow = s.completion.word h.kernel.memory .overflow := by
  have hfind := Sys.ofExcept_ok (Ring.completion_eq hbody) h
  cases waiting with
  | nil =>
    have hnext := hc.completion.next_nil
    rw [← hc.cq_eq] at hnext
    refine ⟨b.cq, h.kernel.memory, ?_, hc, rfl⟩
    rw [pop, Sys.bind_ok (ring_some ring h), Sys.bind_ok hfind, Sys.bind_ok hnext]
    rfl
  | cons c waiting =>
    have hnext := hc.completion.next_cons
    rw [← hc.cq_eq] at hnext
    have htaken : s.Carries { b with cq := s.completion.queue (b.cq.localHead + 1) } h.kernel
        published deferred (kept ++ [c]) waiting :=
      ⟨hc.sq_eq, rfl, hc.serves, hc.submission, hc.completion.take 1⟩
    obtain ⟨reply, q, m, hsync, -, hc', hoverflow⟩ := htaken.completion_ok hs .sync
    cases hsync
    refine ⟨_, _, ?_, hc', hoverflow⟩
    rw [pop, Sys.bind_ok (ring_some ring h), Sys.bind_ok hfind, Sys.bind_ok hnext]
    rfl

/-- A pop gives the first completion that is readable, if there is one, and the
others stay readable. -/
theorem pop_readable (hs : s.Sound) (hbody : ring.body? = some b)
    (hc : s.Carries b h.kernel published deferred kept waiting) :
    ∃ ring' b' h', pop ⟨some ring⟩ h =
        .ok ((b.cq.readable h.kernel.memory).head?, ⟨some ring'⟩) h' ∧
      ring'.body? = some b' ∧
      b'.cq.readable h'.kernel.memory = (b.cq.readable h.kernel.memory).tail := by
  obtain ⟨q, m, hpop, hc', -⟩ := pop_ok hs hbody hc
  obtain ⟨-, -, hbefore, -⟩ := hc.seen hs
  obtain ⟨-, -, hafter, -⟩ := hc'.seen hs
  rw [hbefore]
  exact ⟨_, _, _, hpop, Ring.body_withCompletion hbody q, hafter⟩

/-- To prepare on a shared ring is to prepare on the ring it holds. -/
theorem prepare_eq (hbody : ring.body? = some b) (want : UInt32) (h : Host) :
    prepare ⟨some ring⟩ want h =
      .ok (.decide ring.setupFlags (b.sq.len (b.sq.publish h.kernel.memory)) want
          (b.sq.needWakeup (b.sq.publish h.kernel.memory)))
        (h.withMemory (b.sq.publish h.kernel.memory)) := by
  have hfind := Sys.ofExcept_ok (Ring.submitter_eq hbody) h
  rw [prepare, Sys.bind_ok (ring_some ring h), Sys.bind_ok hfind, Submitter.prepare_eq]

/-- Without a poll thread, a request asks to enter the kernel for everything that
is published. -/
theorem prepare_ok (hs : s.Sound) (hbody : ring.body? = some b)
    (hpoll : hasBits ring.setupFlags SetupFlag.sqPoll = false)
    (hc : s.Carries b h.kernel published [] kept waiting) (want : UInt32) :
    ∃ request m, prepare ⟨some ring⟩ want h = .ok request (h.withMemory m) ∧
      request.needed = true ∧ request.toSubmit.toNat = published.length ∧
      s.Carries b (h.kernel.withMemory m) published [] kept waiting ∧
      s.completion.word m .overflow = s.completion.word h.kernel.memory .overflow := by
  obtain ⟨hc', -, hoverflow⟩ := hc.publish hs
  rw [List.append_nil] at hc'
  have hlen : (b.sq.len (b.sq.publish h.kernel.memory)).toNat = published.length := by
    have hcount := hc'.submission.toNat_len
    rw [← hc'.sq_eq] at hcount
    exact hcount
  have hprepare : prepare ⟨some ring⟩ want h =
      .ok ⟨b.sq.len (b.sq.publish h.kernel.memory), want,
          if 0 < want then EnterFlag.getEvents else 0, true⟩
        (h.withMemory (b.sq.publish h.kernel.memory)) := by
    rw [prepare_eq hbody]
    simp only [EnterRequest.decide, hpoll, Bool.not_false, if_true]
  exact ⟨_, _, hprepare, rfl, hlen, hc', hoverflow⟩

/-- A request starts to enter the kernel with the count that it carries. -/
theorem startEnter_ok (hbody : ring.body? = some b) (hadmits : h.kernel.admits b.fd = true)
    (request : EnterRequest) :
    ∃ running, startEnter ⟨some ring⟩ request h = .ok running h ∧
      running.call.toSubmit = request.toSubmit := by
  have hfind := Sys.ofExcept_ok (Ring.submitter_eq hbody) h
  refine ⟨⟨⟨b.fd, request.toSubmit, request.minComplete, request.flags, none⟩, h.calls.length⟩,
    ?_, rfl⟩
  rw [startEnter, Sys.bind_ok (ring_some ring h), Sys.bind_ok hfind]
  exact Sys.startEnter_admitted hadmits

/-- The kernel takes the oldest published entries, as many as the running call
asks for and as there are. -/
theorem finishEnter_ok (hs : s.Sound) (hc : s.Carries b h.kernel published [] kept waiting)
    (hscript : h.kernel.enterScript = []) (haccept : h.kernel.accept? = none)
    (running : Sys.RunningEnter) :
    ∃ h' m, Sys.finishEnter running h =
        .ok (Int32.ofNat (published.take running.call.toSubmit.toNat).length) h' ∧
      h'.kernel = h.kernel.withMemory m ∧
      s.Took b h.kernel h'.kernel published [] kept waiting
        (published.take running.call.toSubmit.toNat)
        (published.drop running.call.toSubmit.toNat) [] := by
  have hlimit : running.call.toSubmit.toNat =
      min (h.kernel.accept?.getD running.call.toSubmit.toNat) running.call.toSubmit.toNat := by
    rw [haccept, Option.getD_none, Nat.min_self]
  obtain ⟨m, hserve, htook⟩ := hc.took_unscripted hs hscript running.call.toSubmit hlimit
  have hfinish := Sys.finishEnter_eq running h
  rw [hserve] at hfinish
  exact ⟨_, m, hfinish, rfl, htook⟩

end IoRing.SharedRing
