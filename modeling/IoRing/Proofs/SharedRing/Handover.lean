import IoRing.Proofs.SharedRing.Interleaving
import IoRing.Proofs.SharedRing.OneThread

/-!
# Handing a shared ring back

Threads push, pop and submit, with or without a poll thread, and the kernel works
by itself.  At any moment a thread may take the ring back, also while another
thread has a request prepared or the kernel runs its enter call.

The first attempt to take the ring back gives it, and the later ones fail.  From
then on every operation of the shared ring fails and leaves the host as it is
(`SharedOperation.perform_released`), so nobody but the kernel changes what the
ring carries.  The kernel still serves the enter calls that it was running, and
what it takes for them are the oldest entries, as always.

So the invariant `HandoverTrace.Follows` is the same before and after.  It is
about the ring inside the shared ring, or about the ring that was handed back.
-/

namespace IoRing

/-! ## Steps -/

namespace RingSite.Carries

variable {s : RingSite} {b : RingBody} {k : Kernel} {published deferred : List Entry}
  {kept waiting : List Completion}

/-- The flags say nothing about the contents. -/
theorem setFlags (hs : s.Sound) (hc : s.Carries b k published deferred kept waiting)
    (value : UInt32) :
    s.Carries b ((KernelStep.setFlags value).work k).2 published deferred kept waiting := by
  have hset : k.setWord .sqRing k.granted.sqOffsets.flags.toNat value = k.withMemory
      (k.memory.setWord s.submission.ring.block s.submission.offsets.flags.toNat value) := by
    rw [hc.serves.offsets]
    exact hs.submission.kernelSetWord_eq (f := .flags) hc.serves.ring rfl value
  have hsame : SameOutside ([SubmissionField.flags].map s.submission.place) k.memory
      (k.memory.setWord s.submission.ring.block s.submission.offsets.flags.toNat value) :=
    Fields.sameOutside_setWord rfl k.memory value
  have hwork : ((KernelStep.setFlags value).work k).2 = k.withMemory
      (k.memory.setWord s.submission.ring.block s.submission.offsets.flags.toNat value) := hset
  rw [hwork]
  refine ⟨hc.sq_eq, hc.cq_eq, hc.serves.withMemory _, ?_, ?_⟩
  · exact hc.submission.congr hs.submission fun f hf _ =>
      hs.submission.sameAt hsame (by simpa using hf)
  · exact hc.completion.congr hs.completion fun g _ hg => hs.completion_sameAt_of_ne hsame hg

end RingSite.Carries

namespace SharedRing

/-- To start an enter call leaves the kernel alone. -/
theorem kernel_after_startEnter {ring : Ring} {b : RingBody} (hbody : ring.body? = some b)
    (request : EnterRequest) (h : Host) :
    (Sys.after (startEnter ⟨some ring⟩ request) h).kernel = h.kernel := by
  cases hadmits : h.kernel.admits b.fd with
  | true =>
    obtain ⟨running, hstart, -⟩ := startEnter_ok hbody hadmits request
    rw [Sys.after, hstart]
  | false =>
    have hfind := Sys.ofExcept_ok (Ring.submitter_eq hbody) h
    rw [startEnter, Sys.after_bind_ok (ring_some ring h), Sys.after_bind_ok hfind]
    rw [Sys.after_of_error (Sys.startEnter_refused hadmits)]

/-! ### After the ring was handed back -/

/-- No thread prepares a submit on a released ring. -/
theorem prepare_released (want : UInt32) (h : Host) :
    prepare ⟨none⟩ want h = .error .sharedRingReleased h := rfl

/-- No thread enters a released ring. -/
theorem startEnter_released (request : EnterRequest) (h : Host) :
    startEnter ⟨none⟩ request h = .error .sharedRingReleased h := rfl

end SharedRing

/-- A move of a thread, an attempt to take the ring back, or work of the kernel. -/
inductive HandoverMove (Thread : Type) where
  /-- A thread pushes, pops or submits. -/
  | thread (m : SharedMove Thread)
  /-- Take the ring back. -/
  | release
  /-- The kernel consumes entries by itself. -/
  | consume (limit? : Option Nat)
  /-- The kernel posts a completion by itself. -/
  | post (c : Completion)
  /-- The kernel writes the flags of the submission ring. -/
  | setFlags (value : UInt32)
  /-- Limit the entries that one enter call takes. -/
  | setAccept (limit? : Option Nat)
  /-- Add the result of a later enter call. -/
  | scriptEnter (result : Int)

def HandoverMove.isRelease {Thread : Type} : HandoverMove Thread → Bool
  | .release => true
  | _ => false

/-- Threads that share a ring, and what happened to the ring so far. -/
structure HandoverTrace (Thread : Type) where
  threads : SharedTrace Thread
  /-- What came of each attempt to take the ring back, in order. -/
  handed : List (Except Fault Ring) := []
  /-- The entries that the kernel took, in order. -/
  taken : List Entry := []
  /-- The completions that found room, in order. -/
  posted : List Completion := []

namespace HandoverTrace

variable {Thread : Type}

/-- Replace the kernel. -/
def withKernel (t : HandoverTrace Thread) (k : Kernel) : HandoverTrace Thread :=
  { t with threads := { t.threads with host := { t.threads.host with kernel := k } } }

variable [DecidableEq Thread]

/-- Make a move and record what came of it. -/
def move (t : HandoverTrace Thread) : HandoverMove Thread → HandoverTrace Thread
  | .thread m =>
      let threads := t.threads.move m
      let served : Served := threads.served.drop t.threads.served.length
      { t with threads, taken := t.taken ++ served.entries, posted := t.posted ++ served.posted }
  | .release =>
      match t.threads.shared.release with
      | .ok (ring, shared) =>
          { t with threads := { t.threads with shared }, handed := t.handed ++ [.ok ring] }
      | .error f => { t with handed := t.handed ++ [.error f] }
  | .consume limit? =>
      let taken := t.threads.host.kernel.consume limit?
      { t.withKernel taken.kernel with taken := t.taken ++ taken.entries }
  | .post c =>
      let (room, k) := t.threads.host.kernel.post c
      { t.withKernel k with posted := t.posted ++ if room then [c] else [] }
  | .setFlags value => t.withKernel ((KernelStep.setFlags value).work t.threads.host.kernel).2
  | .setAccept limit? => t.withKernel ((KernelStep.setAccept limit?).work t.threads.host.kernel).2
  | .scriptEnter n => t.withKernel ((KernelStep.scriptEnter n).work t.threads.host.kernel).2

/-- Make moves one after the other. -/
def run (t : HandoverTrace Thread) (moves : List (HandoverMove Thread)) : HandoverTrace Thread :=
  moves.foldl move t

end HandoverTrace

/-! ## The invariant -/

/-- What comes of attempts to take a ring back: the first one gives it. -/
def Ring.handedBack (ring : Ring) : (attempts : Nat) → List (Except Fault Ring)
  | 0 => []
  | n + 1 => .ok ring :: List.replicate n (.error .sharedRingReleased)

/-- Each attempt to release after the first one fails. -/
theorem Ring.handedBack_again (ring : Ring) (n : Nat) :
    ring.handedBack (n + 2) = ring.handedBack (n + 1) ++ [.error .sharedRingReleased] := by
  rw [handedBack, handedBack, List.replicate_succ', List.cons_append]

/-- What a thread is told about a call that the kernel served. -/
def CallResult.entered : CallResult → Except Fault Int32
  | .ok n => .ok (Int32.ofNat n)
  | .error e => .error (.enterFailed e)

/-- A running enter call gives what the kernel answers, whatever became of the
shared ring. -/
theorem SharedTrace.move_finishEnter {Thread : Type} [DecidableEq Thread] {r : SharedTrace Thread}
    {thread : Thread} {running : Sys.RunningEnter} {before : List Entry}
    (hphase : r.phase thread = .entering running before) :
    ∃ host, r.move ⟨thread, .finishEnter⟩ = r.finish
        ⟨thread, before,
          r.host.kernel.postings
            (r.host.kernel.passed (r.host.kernel.serve running.call.toSubmit).2),
          (r.host.kernel.serve running.call.toSubmit).1.entered⟩ host ∧
      host.kernel = (r.host.kernel.serve running.call.toSubmit).2 := by
  have hfinish := Sys.finishEnter_eq running r.host
  refine ⟨{ r.host with
    kernel := (r.host.kernel.serve running.call.toSubmit).2
    calls := r.host.calls.take running.before ++
      Call.enter running.call (r.host.kernel.serve running.call.toSubmit).1.code ::
        r.host.calls.drop running.before }, ?_, rfl⟩
  cases hresult : (r.host.kernel.serve running.call.toSubmit).1 with
  | ok count =>
    rw [hresult, Sys.returned] at hfinish
    simp only [move, hphase, hfinish]
    rfl
  | error e =>
    rw [hresult] at hfinish
    simp only [move, hphase, hfinish]
    rfl

namespace HandoverTrace

variable {Thread : Type}

/-- After some attempts to take the ring back, the record agrees with what the
ring carries, wherever the ring is. -/
structure Follows (t : HandoverTrace Thread) (s : RingSite) (attempts : Nat) (ring : Ring)
    (b : RingBody) (published : List Entry) (kept waiting : List Completion) : Prop where
  shared_eq : t.threads.shared = ⟨if attempts = 0 then some ring else none⟩
  handed_eq : t.handed = ring.handedBack attempts
  body_eq : ring.body? = some b
  carries : s.Carries b t.threads.host.kernel published [] kept waiting
  pushed_eq : t.threads.pushed = t.taken ++ published
  posted_eq : t.posted = t.threads.popped ++ waiting

/-- Some ring and contents agree with the record. -/
def Balanced (t : HandoverTrace Thread) (s : RingSite) (attempts : Nat) : Prop :=
  ∃ ring b published kept waiting, t.Follows s attempts ring b published kept waiting

variable [DecidableEq Thread] {t : HandoverTrace Thread} {s : RingSite} {n : Nat} {ring : Ring}
  {b : RingBody} {published : List Entry} {kept waiting : List Completion}

/-- What a move of a thread served is added to the record of what was taken and
posted. -/
theorem move_thread {m : SharedMove Thread} {served : Served}
    (hserved : (t.threads.move m).served = t.threads.served ++ served) :
    t.move (.thread m) = { t with threads := t.threads.move m
                                  taken := t.taken ++ served.entries
                                  posted := t.posted ++ served.posted } := by
  simp only [move, hserved, List.drop_left]

namespace Follows

variable {thread : Thread} {m : SharedMove Thread}

/-- A move keeps the record if the ring carries the same after it. -/
theorem unmoved (ht : t.Follows s n ring b published kept waiting)
    (hshared : (t.threads.move m).shared = t.threads.shared)
    (hcarries : s.Carries b (t.threads.move m).host.kernel published [] kept waiting)
    (hpushed : (t.threads.move m).pushed = t.threads.pushed)
    (hpopped : (t.threads.move m).popped = t.threads.popped)
    (hserved : (t.threads.move m).served = t.threads.served) :
    (t.move (.thread m)).Balanced s n := by
  have hnone : (t.threads.move m).served = t.threads.served ++ [] := by
    rw [hserved, List.append_nil]
  rw [move_thread hnone]
  refine ⟨ring, b, published, kept, waiting, ?_⟩
  exact {
    ht with
    shared_eq := hshared.trans ht.shared_eq
    carries := hcarries
    pushed_eq := by
      simp only [hpushed, ht.pushed_eq, Served.entries, List.map_nil, List.append_nil]
    posted_eq := by
      simp only [hpopped, ht.posted_eq, Served.posted, List.filter_nil, List.map_nil,
        List.append_nil] }

/-- A move that does nothing keeps the record. -/
theorem unmoved_of_eq (ht : t.Follows s n ring b published kept waiting)
    (hmove : t.threads.move m = t.threads) : (t.move (.thread m)).Balanced s n :=
  ht.unmoved (by rw [hmove]) (by rw [hmove]; exact ht.carries) (by rw [hmove]) (by rw [hmove])
    (by rw [hmove])

/-- A push puts its entry behind those published.  Without room or without the
ring, it does nothing. -/
theorem push (hs : s.Sound) (ht : t.Follows s n ring b published kept waiting)
    (hphase : t.threads.phase thread = .idle) (e : Entry) :
    (t.move (.thread ⟨thread, .push e⟩)).Balanced s n := by
  have hfails (f : Fault)
      (hpush : t.threads.shared.push e t.threads.host = .error f t.threads.host) :
      (t.move (.thread ⟨thread, .push e⟩)).Balanced s n :=
    ht.unmoved_of_eq (by simp only [SharedTrace.move, hphase, hpush])
  cases n with
  | succ n =>
    have hshared : t.threads.shared = ⟨none⟩ := ht.shared_eq
    refine hfails .sharedRingReleased ?_
    rw [hshared]
    rfl
  | zero =>
    have hshared : t.threads.shared = ⟨some ring⟩ := ht.shared_eq
    by_cases hroom : published.length < s.submission.entries.toNat
    · obtain ⟨q, m, hpush, hcarries, -⟩ :=
        SharedRing.push_ok hs ht.body_eq ht.carries hroom e
      rw [List.append_nil] at hcarries
      have hmove : t.threads.move ⟨thread, .push e⟩ =
          { t.threads with shared := ⟨some (ring.withSubmission q)⟩
                           host := t.threads.host.withMemory m
                           pushed := t.threads.pushed ++ [e] } := by
        simp only [SharedTrace.move, hphase, hshared, hpush]
      have hserved : (t.threads.move ⟨thread, .push e⟩).served = t.threads.served ++ [] := by
        rw [hmove, List.append_nil]
        rfl
      rw [move_thread hserved, hmove]
      refine ⟨ring.withSubmission q, { b with sq := q }, published ++ [e], kept, waiting, ?_⟩
      exact {
        shared_eq := rfl
        handed_eq := ht.handed_eq
        body_eq := Ring.body_withSubmission ht.body_eq q
        carries := hcarries
        pushed_eq := by simp [ht.pushed_eq, Served.entries]
        posted_eq := by simp [ht.posted_eq, Served.posted] }
    · refine hfails .submissionQueueFull ?_
      rw [hshared]
      exact SharedRing.push_full ht.body_eq ht.carries (Nat.le_of_not_lt hroom) e

/-- A pop takes the oldest completion that waits.  Without the ring, it does
nothing. -/
theorem pop (hs : s.Sound) (ht : t.Follows s n ring b published kept waiting)
    (hphase : t.threads.phase thread = .idle) :
    (t.move (.thread ⟨thread, .pop⟩)).Balanced s n := by
  cases n with
  | succ n =>
    have hshared : t.threads.shared = ⟨none⟩ := ht.shared_eq
    have hpop : t.threads.shared.pop t.threads.host =
        .error .sharedRingReleased t.threads.host := by
      rw [hshared]
      rfl
    exact ht.unmoved_of_eq (by simp only [SharedTrace.move, hphase, hpop])
  | zero =>
    have hshared : t.threads.shared = ⟨some ring⟩ := ht.shared_eq
    obtain ⟨q, m, hpop, hcarries, -⟩ := SharedRing.pop_ok hs ht.body_eq ht.carries
    have hmove : t.threads.move ⟨thread, .pop⟩ =
        { t.threads with shared := ⟨some (ring.withCompletion q)⟩
                         host := t.threads.host.withMemory m
                         popped := t.threads.popped ++ waiting.head?.toList } := by
      simp only [SharedTrace.move, hphase, hshared, hpop]
    have hserved : (t.threads.move ⟨thread, .pop⟩).served = t.threads.served ++ [] := by
      rw [hmove, List.append_nil]
      rfl
    rw [move_thread hserved, hmove]
    refine ⟨ring.withCompletion q, { b with cq := q }, published,
      if waiting = [] then kept else [], waiting.tail, ?_⟩
    exact {
      shared_eq := rfl
      handed_eq := ht.handed_eq
      body_eq := Ring.body_withCompletion ht.body_eq q
      carries := hcarries
      pushed_eq := by simp [ht.pushed_eq, Served.entries]
      posted_eq := by cases waiting <;> simp [ht.posted_eq, Served.posted] }

/-- To change the phase of a thread does nothing to the ring. -/
theorem phased (ht : t.Follows s n ring b published kept waiting) {phase : Phase} {host : Host}
    (hmove : t.threads.move m = t.threads.enterPhase thread phase host)
    (hcarries : s.Carries b host.kernel published [] kept waiting) :
    (t.move (.thread m)).Balanced s n :=
  ht.unmoved (by rw [hmove]; rfl) (by rw [hmove]; exact hcarries) (by rw [hmove]; rfl)
    (by rw [hmove]; rfl) (by rw [hmove]; rfl)

/-- Nor does a submit that ends without having entered the kernel. -/
theorem ended (ht : t.Follows s n ring b published kept waiting) {before : List Entry}
    {result : Except Fault Int32} {host : Host}
    (hmove : t.threads.move m = t.threads.finish ⟨thread, before, [], result⟩ host)
    (hcarries : s.Carries b host.kernel published [] kept waiting) :
    (t.move (.thread m)).Balanced s n :=
  ht.unmoved (by rw [hmove]; rfl) (by rw [hmove]; exact hcarries) (by rw [hmove]; rfl)
    (by rw [hmove]; rfl) (by rw [hmove, SharedTrace.served_finish, List.append_nil])

/-- A submit begins by publishing the tail.  Without the ring, it ends at once.
-/
theorem prepare (hs : s.Sound) (ht : t.Follows s n ring b published kept waiting)
    (hphase : t.threads.phase thread = .idle) (want : UInt32) :
    (t.move (.thread ⟨thread, .prepare want⟩)).Balanced s n := by
  cases n with
  | succ n =>
    have hshared : t.threads.shared = ⟨none⟩ := ht.shared_eq
    have hmove : t.threads.move ⟨thread, .prepare want⟩ = t.threads.finish
        ⟨thread, t.threads.pushed, [], .error .sharedRingReleased⟩ t.threads.host := by
      simp only [SharedTrace.move, hphase, hshared, SharedRing.prepare_released]
    exact ht.ended hmove ht.carries
  | zero =>
    have hshared : t.threads.shared = ⟨some ring⟩ := ht.shared_eq
    obtain ⟨hcarries, -⟩ := ht.carries.publish hs
    rw [List.append_nil] at hcarries
    have hprepare := SharedRing.prepare_eq ht.body_eq want t.threads.host
    generalize EnterRequest.decide _ _ _ _ = request at hprepare
    cases hneeded : request.needed with
    | true =>
      have hmove : t.threads.move ⟨thread, .prepare want⟩ =
          t.threads.enterPhase thread (.prepared request t.threads.pushed)
            (t.threads.host.withMemory (b.sq.publish t.threads.host.kernel.memory)) := by
        simp only [SharedTrace.move, hphase, hshared, hprepare, hneeded, if_true]
      exact ht.phased hmove hcarries
    | false =>
      have hmove : t.threads.move ⟨thread, .prepare want⟩ =
          t.threads.finish ⟨thread, t.threads.pushed, [], .ok request.toSubmit.toInt32⟩
            (t.threads.host.withMemory (b.sq.publish t.threads.host.kernel.memory)) := by
        simp only [SharedTrace.move, hphase, hshared, hprepare, hneeded, Bool.false_eq_true,
          if_false]
      exact ht.ended hmove hcarries

/-- A thread enters the kernel, or ends its submit without having done so. -/
theorem startEnter (ht : t.Follows s n ring b published kept waiting) {request : EnterRequest}
    {before : List Entry} (hphase : t.threads.phase thread = .prepared request before) :
    (t.move (.thread ⟨thread, .startEnter⟩)).Balanced s n := by
  cases n with
  | succ n =>
    have hshared : t.threads.shared = ⟨none⟩ := ht.shared_eq
    have hmove : t.threads.move ⟨thread, .startEnter⟩ = t.threads.finish
        ⟨thread, before, [], .error .sharedRingReleased⟩ t.threads.host := by
      simp only [SharedTrace.move, hphase, hshared, SharedRing.startEnter_released]
    exact ht.ended hmove ht.carries
  | zero =>
    have hshared : t.threads.shared = ⟨some ring⟩ := ht.shared_eq
    have hcarries := ht.carries
    rw [← SharedRing.kernel_after_startEnter ht.body_eq request t.threads.host] at hcarries
    cases hstart : SharedRing.startEnter ⟨some ring⟩ request t.threads.host with
    | ok running host =>
      rw [Sys.after, hstart] at hcarries
      have hmove : t.threads.move ⟨thread, .startEnter⟩ =
          t.threads.enterPhase thread (.entering running before) host := by
        simp only [SharedTrace.move, hphase, hshared, hstart]
      exact ht.phased hmove hcarries
    | error f host =>
      rw [Sys.after, hstart] at hcarries
      have hmove : t.threads.move ⟨thread, .startEnter⟩ =
          t.threads.finish ⟨thread, before, [], .error f⟩ host := by
        simp only [SharedTrace.move, hphase, hshared, hstart]
      exact ht.ended hmove hcarries

/-- The kernel serves a call that it runs, wherever the ring is by then. -/
theorem finishEnter (hs : s.Sound) (ht : t.Follows s n ring b published kept waiting)
    {running : Sys.RunningEnter} {before : List Entry}
    (hphase : t.threads.phase thread = .entering running before) :
    (t.move (.thread ⟨thread, .finishEnter⟩)).Balanced s n := by
  obtain ⟨taken, published', -, htook⟩ := ht.carries.took_serve hs running.call.toSubmit
  obtain ⟨host, hmove, hkernel⟩ := SharedTrace.move_finishEnter hphase
  rw [htook.passed_eq hs ht.carries] at hmove
  have hserved : (t.threads.move ⟨thread, .finishEnter⟩).served =
      t.threads.served ++ t.threads.host.kernel.postings taken := by
    rw [hmove, SharedTrace.served_finish]
  have hsplit := htook.split
  have hcarries := htook.carries
  rw [List.append_nil, List.append_nil] at hsplit
  rw [← hkernel] at hcarries
  rw [move_thread hserved, hmove]
  refine ⟨ring, b, published', kept,
    waiting ++ Served.posted (t.threads.host.kernel.postings taken), ?_⟩
  exact {
    shared_eq := ht.shared_eq
    handed_eq := ht.handed_eq
    body_eq := ht.body_eq
    carries := hcarries
    pushed_eq := by
      rw [Kernel.entries_postings, List.append_assoc, ← hsplit]
      exact ht.pushed_eq
    posted_eq := by
      rw [ht.posted_eq, List.append_assoc]
      rfl }

/-- To take the ring back changes only where it is. -/
theorem release (ht : t.Follows s n ring b published kept waiting) :
    (t.move .release).Balanced s (n + 1) := by
  refine ⟨ring, b, published, kept, waiting, ?_⟩
  cases n with
  | zero =>
    have hshared : t.threads.shared = ⟨some ring⟩ := ht.shared_eq
    have hrelease : t.threads.shared.release = .ok (ring, ⟨none⟩) := by
      rw [hshared]
      rfl
    simp only [move, hrelease]
    exact {
      ht with
      shared_eq := rfl
      handed_eq := by
        rw [ht.handed_eq]
        rfl }
  | succ n =>
    have hshared : t.threads.shared = ⟨none⟩ := ht.shared_eq
    have hrelease : t.threads.shared.release = .error .sharedRingReleased := by
      rw [hshared]
      rfl
    simp only [move, hrelease]
    exact {
      ht with
      shared_eq := hshared
      handed_eq := by rw [ht.handed_eq, Ring.handedBack_again] }

/-- The kernel takes the oldest entries by itself, wherever the ring is. -/
theorem consume (hs : s.Sound) (ht : t.Follows s n ring b published kept waiting)
    (limit? : Option Nat) : (t.move (.consume limit?)).Balanced s n := by
  obtain ⟨taken, rest, hsplit, htaken, hcarries⟩ := ht.carries.consume hs limit?
  refine ⟨ring, b, rest, kept, waiting, ?_⟩
  exact {
    ht with
    carries := hcarries
    pushed_eq := by
      simp only [move, htaken]
      rw [List.append_assoc, ← hsplit]
      exact ht.pushed_eq }

/-- The kernel posts a completion by itself, wherever the ring is. -/
theorem post (hs : s.Sound) (ht : t.Follows s n ring b published kept waiting) (c : Completion) :
    (t.move (.post c)).Balanced s n := by
  obtain ⟨-, hcarries⟩ := ht.carries.post_eq hs c
  refine ⟨ring, b, published, kept,
    if (t.threads.host.kernel.post c).1 then waiting ++ [c] else waiting, ?_⟩
  exact {
    ht with
    carries := hcarries
    posted_eq := by
      change t.posted ++ (if (t.threads.host.kernel.post c).1 then [c] else []) =
        t.threads.popped ++ if (t.threads.host.kernel.post c).1 then waiting ++ [c] else waiting
      rw [ht.posted_eq, List.append_assoc]
      split
      · rfl
      · rw [List.append_nil] }

omit [DecidableEq Thread] in
/-- Other work of the kernel keeps the record if the ring carries the same after it. -/
theorem withKernel (ht : t.Follows s n ring b published kept waiting) {k : Kernel}
    (hcarries : s.Carries b k published [] kept waiting) : (t.withKernel k).Balanced s n :=
  ⟨ring, b, published, kept, waiting, { ht with carries := hcarries }⟩

/-- Every move of a thread keeps the record, also one out of turn. -/
theorem sharedMove (hs : s.Sound) (ht : t.Follows s n ring b published kept waiting)
    (m : SharedMove Thread) : (t.move (.thread m)).Balanced s n := by
  obtain ⟨thread, action⟩ := m
  cases action with
  | push e =>
    cases hphase : t.threads.phase thread with
    | idle => exact ht.push hs hphase e
    | _ => exact ht.unmoved_of_eq (by simp only [SharedTrace.move, hphase])
  | pop =>
    cases hphase : t.threads.phase thread with
    | idle => exact ht.pop hs hphase
    | _ => exact ht.unmoved_of_eq (by simp only [SharedTrace.move, hphase])
  | prepare want =>
    cases hphase : t.threads.phase thread with
    | idle => exact ht.prepare hs hphase want
    | _ => exact ht.unmoved_of_eq (by simp only [SharedTrace.move, hphase])
  | startEnter =>
    cases hphase : t.threads.phase thread with
    | prepared request before => exact ht.startEnter hphase
    | _ => exact ht.unmoved_of_eq (by simp only [SharedTrace.move, hphase])
  | finishEnter =>
    cases hphase : t.threads.phase thread with
    | entering running before => exact ht.finishEnter hs hphase
    | _ => exact ht.unmoved_of_eq (by simp only [SharedTrace.move, hphase])

end Follows

/-- A move keeps the record, and counts if it is an attempt to take the ring back. -/
theorem Balanced.move (hs : s.Sound) (ht : t.Balanced s n) (m : HandoverMove Thread) :
    (t.move m).Balanced s (if m.isRelease then n + 1 else n) := by
  obtain ⟨ring, b, published, kept, waiting, ht⟩ := ht
  cases m with
  | thread m => exact ht.sharedMove hs m
  | release => exact ht.release
  | consume limit? => exact ht.consume hs limit?
  | post c => exact ht.post hs c
  | setFlags value => exact ht.withKernel (ht.carries.setFlags hs value)
  | setAccept limit? =>
    exact ht.withKernel (ht.carries.congr_kernel rfl rfl fun area => by cases area <;> rfl)
  | scriptEnter result =>
    exact ht.withKernel (ht.carries.congr_kernel rfl rfl fun area => by cases area <;> rfl)

/-- After any moves, the record has counted the attempts among them. -/
theorem Balanced.run (hs : s.Sound) (ht : t.Balanced s n) (moves : List (HandoverMove Thread)) :
    (t.run moves).Balanced s (n + moves.countP HandoverMove.isRelease) := by
  induction moves generalizing t n with
  | nil => exact ht
  | cons m moves ih =>
    have hrest := ih (ht.move hs m)
    have hcount : n + (m :: moves).countP HandoverMove.isRelease =
        (if m.isRelease then n + 1 else n) + moves.countP HandoverMove.isRelease := by
      rw [List.countP_cons]
      split <;> omega
    rw [hcount]
    exact hrest

end HandoverTrace

namespace RingSite

variable {Thread : Type} [DecidableEq Thread] {s : RingSite} {ring : Ring} {shared : SharedRing}
  {h : Host}

end RingSite

end IoRing
