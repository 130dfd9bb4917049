import IoRing.Proofs.Ring.Lifecycle
import IoRing.Proofs.SharedRing.Popping

/-!
# A shared ring with one thread

A thread that has a shared ring to itself could as well use the ring.  Every
operation of a shared ring is made of operations on the ring inside
(`SharedOperation.plainly`): a push, a submit and a registration are the ring's
own, and a pop takes a completion and publishes if there was one.

Submitting looks different at first.  The shared ring prepares, looks for its
ring again and then enters, where a ring does all of it at once.  For one thread
the ring is still there, so this comes to the same (`SharedOperation.perform_eq`).

A `Play` is an object on its host after some operations and some work of the
kernel, with the outcome of each.  A play with a shared ring and the same play
with the ring agree in all of it, and the ring handed back at the end is the ring
of the other play (`SharedRing.play_eq`).
-/

namespace IoRing

/-! ## Queries -/

namespace SharedRing

variable {ring : Ring} {b : RingBody} (hbody : ring.body? = some b) (m : Memory)
include hbody

theorem available_eq : available ⟨some ring⟩ m = .ok (b.sq.available m) := by
  change (do return (← ring.submission).available m) = _
  rw [Ring.submission_eq hbody]
  rfl

theorem dropped_eq : dropped ⟨some ring⟩ m = .ok (b.sq.dropped m) := by
  change (do return (← ring.submission).dropped m) = _
  rw [Ring.submission_eq hbody]
  rfl

theorem completionLen_eq : completionLen ⟨some ring⟩ m = .ok (b.cq.len m) := by
  change (do return (← ring.completion).len m) = _
  rw [Ring.completion_eq hbody]
  rfl

theorem overflow_eq : overflow ⟨some ring⟩ m = .ok (b.cq.overflow m) := by
  change (do return (← ring.completion).overflow m) = _
  rw [Ring.completion_eq hbody]
  rfl

end SharedRing

/-! ## Operations -/

/-- What a thread may do with a shared ring but hand it back. -/
inductive SharedOperation where
  /-- Push an entry. -/
  | push (e : Entry)
  /-- Take a completion. -/
  | pop
  /-- Submit and wait. -/
  | submit (want : UInt32)
  /-- Register a target. -/
  | register (t : Target)
  /-- Unregister a kind of resource. -/
  | unregister (resource : Resource)
  /-- The number of free slots. -/
  | available
  /-- The number of completions that wait. -/
  | completionLen
  /-- The count of entries that the kernel found invalid. -/
  | dropped
  /-- The count of completions that found no room. -/
  | overflow
  /-- The descriptor. -/
  | fd

namespace SharedOperation

/-- Do an operation through a shared ring. -/
def perform (s : SharedRing) : SharedOperation → Sys (Reply × SharedRing)
  | .push e => return (.nothing, ← s.push e)
  | .pop => do
      let (c?, s) ← s.pop
      return (.completion c?, s)
  | .submit want => return (.count (← s.submit want), s)
  | .register t => do
      s.register t
      return (.nothing, s)
  | .unregister resource => do
      s.unregister resource
      return (.nothing, s)
  | .available => return (.word (← Sys.ofExcept (s.available (← Sys.memory))), s)
  | .completionLen => return (.word (← Sys.ofExcept (s.completionLen (← Sys.memory))), s)
  | .dropped => return (.word (← Sys.ofExcept (s.dropped (← Sys.memory))), s)
  | .overflow => return (.word (← Sys.ofExcept (s.overflow (← Sys.memory))), s)
  | .fd => return (.count (← Sys.ofExcept s.fd), s)

/-- Do the same with the ring itself. -/
def plainly (r : Ring) : SharedOperation → Sys (Reply × Ring)
  | .push e => RingOperation.perform r (.submission (.push e))
  | .pop => do
      let (reply, r) ← RingOperation.perform r (.completion .next)
      if let .completion (some _) := reply then
        let (_, r) ← RingOperation.perform r (.completion .sync)
        return (reply, r)
      return (reply, r)
  | .submit want => RingOperation.perform r (.submit want none)
  | .register t => RingOperation.perform r (.register t)
  | .unregister resource => RingOperation.perform r (.unregister resource)
  | .available => return (.word ((← Sys.ofExcept r.submission).available (← Sys.memory)), r)
  | .completionLen => return (.word ((← Sys.ofExcept r.completion).len (← Sys.memory)), r)
  | .dropped => return (.word ((← Sys.ofExcept r.submission).dropped (← Sys.memory)), r)
  | .overflow => return (.word ((← Sys.ofExcept r.completion).overflow (← Sys.memory)), r)
  | .fd => return (.count r.fd, r)

/-- The reply of an operation on a ring, with the ring shared. -/
def share (result : Reply × Ring) : Reply × SharedRing := (result.1, ⟨some result.2⟩)

variable {ring : Ring} {b : RingBody}

/-- An operation through a shared ring is the operation on the ring inside. -/
theorem perform_eq (hbody : ring.body? = some b) (op : SharedOperation) :
    op.perform ⟨some ring⟩ = share <$> op.plainly ring := by
  have hring : (⟨some ring⟩ : SharedRing).ring = .ok ring := rfl
  cases op with
  | push e =>
    simp only [perform, plainly, RingOperation.perform, SubmissionStep.perform, SharedRing.push,
      hring, Ring.submission_eq hbody, Sys.ofExcept, pure_bind, bind_assoc, map_bind, map_pure,
      share]
  | pop =>
    simp only [perform, plainly, RingOperation.perform, CompletionStep.perform, SharedRing.pop,
      hring, Ring.completion_eq hbody, Sys.ofExcept, pure_bind, bind_assoc, map_bind]
    refine bind_congr fun next => ?_
    obtain ⟨c?, q⟩ := next
    cases c? with
    | none => rfl
    | some c =>
      have hagain : (ring.withCompletion q).withCompletion q = ring.withCompletion q := by
        simp [Ring.withCompletion, hbody]
      simp only [Ring.completion_eq (Ring.body_withCompletion hbody q), pure_bind,
        bind_assoc, map_bind, map_pure, share, hagain, Option.isSome_some, if_true]
  | submit want =>
    simp only [perform, plainly, RingOperation.perform, SharedRing.submit_eq hbody, Ring.submit,
      Ring.submitter_eq hbody, Sys.ofExcept, pure_bind, map_bind, map_pure, share]
  | register t =>
    simp only [perform, plainly, RingOperation.perform, SharedRing.register, hring, Sys.ofExcept,
      pure_bind, map_bind, map_pure, share]
  | unregister resource =>
    simp only [perform, plainly, RingOperation.perform, SharedRing.unregister, hring,
      Sys.ofExcept, pure_bind, map_bind, map_pure, share]
  | available =>
    simp only [perform, plainly, SharedRing.available_eq hbody, Ring.submission_eq hbody,
      Sys.ofExcept, pure_bind, map_bind, map_pure, share]
  | completionLen =>
    simp only [perform, plainly, SharedRing.completionLen_eq hbody, Ring.completion_eq hbody,
      Sys.ofExcept, pure_bind, map_bind, map_pure, share]
  | dropped =>
    simp only [perform, plainly, SharedRing.dropped_eq hbody, Ring.submission_eq hbody,
      Sys.ofExcept, pure_bind, map_bind, map_pure, share]
  | overflow =>
    simp only [perform, plainly, SharedRing.overflow_eq hbody, Ring.completion_eq hbody,
      Sys.ofExcept, pure_bind, map_bind, map_pure, share]
  | fd =>
    simp only [perform, plainly, SharedRing.fd, hring, map_pure, share]
    rfl

/-- The operation is a registration call. -/
def registers : SharedOperation → Bool
  | .register _ | .unregister _ => true
  | _ => false

/-- Every operation keeps a frame that registration calls keep, and the ring keeps its
descriptor. -/
theorem plainly_keeps {F : Host.Frame} (hbody : ring.body? = some b) (op : SharedOperation)
    (hregister : op.registers = true → ∀ fd op argument count,
      Sys.Keeps F (fun _ => True) (Sys.register fd op argument count)) :
    Sys.Keeps F (fun result => ∃ b', result.2.body? = some b' ∧ b'.fd = b.fd)
      (op.plainly ring) := by
  have hkeeps {r : Ring} {b : RingBody} (hbody : r.body? = some b) (ringOp : RingOperation)
      (hop : ringOp ≠ .close) (hregisters : ringOp.registers = true → op.registers = true) :
      Sys.Keeps F (fun result => ∃ b', result.2.body? = some b' ∧ b'.fd = b.fd)
        (ringOp.perform r) :=
    (RingOperation.keeps hbody hop fun h => hregister (hregisters h)).imp
      fun _ ⟨b', hbody', hfd, _⟩ => ⟨b', hbody', hfd⟩
  cases op with
  | push e => exact hkeeps hbody (.submission (.push e)) nofun nofun
  | pop =>
    refine (hkeeps hbody (.completion .next) nofun nofun).bind ?_
    rintro ⟨reply, r⟩ ⟨b₁, hbody₁, hfd₁⟩
    dsimp only
    split
    · refine (hkeeps hbody₁ (.completion .sync) nofun nofun).bind ?_
      rintro _ ⟨b₂, hbody₂, hfd₂⟩
      exact .pure ⟨b₂, hbody₂, hfd₂.trans hfd₁⟩
    · exact .pure ⟨b₁, hbody₁, hfd₁⟩
  | submit want => exact hkeeps hbody (.submit want none) nofun nofun
  | register t => exact hkeeps hbody (.register t) nofun id
  | unregister resource => exact hkeeps hbody (.unregister resource) nofun id
  | available | completionLen | dropped | overflow =>
    exact (Sys.Keeps.found _).bind fun _ _ => Sys.Keeps.memory.bind fun _ _ =>
      .pure ⟨b, hbody, rfl⟩
  | fd => exact .pure ⟨b, hbody, rfl⟩

end SharedOperation

/-! ## Plays -/

/-- What happens next: the thread does something, or the kernel does. -/
inductive PlayMove where
  /-- The thread does something. -/
  | operation (op : SharedOperation)
  /-- The kernel does something by itself. -/
  | kernel (step : KernelStep)

/-- An object on its host, and what came of the moves so far. -/
structure Play (σ : Type) where
  object : σ
  host : Host
  outcomes : List (Except Fault Reply) := []

namespace Play

variable {σ : Type} (perform : σ → SharedOperation → Sys (Reply × σ))

/-- Make a move.  The object stays as it is if an operation ends in a fault. -/
def move (p : Play σ) : PlayMove → Play σ
  | .operation op =>
      match perform p.object op p.host with
      | .ok (reply, object) host => ⟨object, host, p.outcomes ++ [.ok reply]⟩
      | .error f host => { p with host, outcomes := p.outcomes ++ [.error f] }
  | .kernel step =>
      let (reply, kernel) := step.work p.host.kernel
      { p with host := { p.host with kernel }, outcomes := p.outcomes ++ [.ok reply] }

/-- Make moves one after the other. -/
def run (p : Play σ) (moves : List PlayMove) : Play σ := moves.foldl (move perform) p

variable {p : Play Ring} {b : RingBody}

/-- The play with its ring shared. -/
def share (p : Play Ring) : Play SharedRing := ⟨⟨some p.object⟩, p.host, p.outcomes⟩

/-- A step on the shared ring is the plain step, then shared. -/
theorem move_share (hbody : p.object.body? = some b) (m : PlayMove) :
    move SharedOperation.perform p.share m = (move SharedOperation.plainly p m).share ∧
      ∃ b', (move SharedOperation.plainly p m).object.body? = some b' := by
  cases m with
  | operation op =>
    have heq := congrFun (SharedOperation.perform_eq hbody op) p.host
    cases hrun : op.plainly p.object p.host with
    | ok result host =>
      have hshared : op.perform ⟨some p.object⟩ p.host =
          .ok (SharedOperation.share result) host := by
        rw [heq, map_eq_pure_bind, Sys.bind_ok hrun]
        rfl
      obtain ⟨-, b', hbody', -⟩ :=
        (SharedOperation.plainly_keeps hbody op fun _ => Host.Worked.register).ok hrun
      simp only [move, share, hshared, hrun]
      exact ⟨rfl, b', hbody'⟩
    | error f host =>
      have hshared : op.perform ⟨some p.object⟩ p.host = .error f host := by
        rw [heq, map_eq_pure_bind, Sys.bind_error hrun]
      simp only [move, share, hshared, hrun]
      exact ⟨trivial, b, hbody⟩
  | kernel step => exact ⟨rfl, b, hbody⟩

/-- Any steps on the shared ring are the plain steps, then shared. -/
theorem run_share (hbody : p.object.body? = some b) (moves : List PlayMove) :
    run SharedOperation.perform p.share moves =
      (run SharedOperation.plainly p moves).share := by
  -- Along both plays the ring inside stays open, so that every move is shared.
  refine (List.foldl_rel (r := fun t p => t = share p ∧ ∃ b, p.object.body? = some b)
    ⟨rfl, b, hbody⟩ ?_).1
  rintro m - _ p ⟨rfl, b, hbody⟩
  exact move_share hbody m

end Play

namespace SharedRing

/-- **For one thread a shared ring is the ring inside.**  Share an open ring and
do any operations through the shared ring, with the kernel at work between them.
Or do the same with the ring itself.  Each operation gives the same reply or the
same fault, and at the end the hosts are the same: the calls made, the text
reported, and the kernel with all its memory.  The shared ring hands back the
ring that the plain play ends with. -/
theorem play_eq {ring : Ring} (hopen : ring.isClosed = false) (h : Host)
    (moves : List PlayMove) :
    ∃ shared, ofRing? (some ring) = .ok shared ∧
      let p := Play.run SharedOperation.perform ⟨shared, h, []⟩ moves
      let q := Play.run SharedOperation.plainly ⟨ring, h, []⟩ moves
      p.outcomes = q.outcomes ∧ p.host = q.host ∧ p.object.release = .ok (q.object, ⟨none⟩) := by
  obtain ⟨b, hbody⟩ : ∃ b, ring.body? = some b := by
    rw [Ring.isClosed, Option.isNone_eq_false_iff] at hopen
    exact Option.isSome_iff_exists.mp hopen
  refine ⟨⟨some ring⟩, ofRing?_open hbody, ?_⟩
  intro p q
  have hshare : p = q.share := Play.run_share (p := ⟨ring, h, []⟩) hbody moves
  rw [hshare]
  exact ⟨rfl, rfl, rfl⟩

/-- On a ring with a poll thread, a submit that need not enter, one whose enter
call fails, and a pop. -/
theorem play_eq_small :
    ({ RingSite.smallRing with setupFlags := SetupFlag.sqPoll } : Ring).isClosed = false ∧
      ∃ shared, ofRing? (some { RingSite.smallRing with setupFlags := SetupFlag.sqPoll }) =
          .ok shared ∧
        let moves : List PlayMove := [.operation (.push (.make 0 0 7)), .operation (.submit 0),
          .kernel (.scriptEnter (-11)), .operation (.submit 1), .kernel (.post ⟨7, 0, 0⟩),
          .operation .pop]
        (Play.run SharedOperation.perform ⟨shared, RingSite.smallHost, []⟩ moves).host =
          (Play.run SharedOperation.plainly
            ⟨{ RingSite.smallRing with setupFlags := SetupFlag.sqPoll }, RingSite.smallHost, []⟩
            moves).host := by
  have hopen : ({ RingSite.smallRing with setupFlags := SetupFlag.sqPoll } : Ring).isClosed =
      false := rfl
  obtain ⟨shared, hshare, -, hhost, -⟩ := play_eq hopen RingSite.smallHost
    [.operation (.push (.make 0 0 7)), .operation (.submit 0), .kernel (.scriptEnter (-11)),
      .operation (.submit 1), .kernel (.post ⟨7, 0, 0⟩), .operation .pop]
  exact ⟨hopen, shared, hshare, hhost⟩

end SharedRing

end IoRing
