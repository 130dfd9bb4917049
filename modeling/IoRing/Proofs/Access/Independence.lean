import IoRing.Proofs.Access.Completion
import IoRing.Proofs.Access.Submission
import IoRing.Proofs.Ring.Opening

/-!
# The two sides of a ring do not interfere

A `QueuePair` is a submission queue and a completion queue on one host, most often
over one mapping.  Steps on the one and steps on the other may come in any order
(`Interleaves`).  If what belongs to the one shares no byte with what belongs to
the other, the order of two steps on different sides does not matter
(`QueuePair.move_comm`).  It follows that a completion step may be moved behind all
submission steps, or before them.  So either side goes as if it were alone, and all
orders end in the same memory.

Steps on one side commute because each of them is confined to its accesses, and
these are parts of what belongs to its queue.  No counter is assumed to make sense,
and a step may fail.
-/

namespace IoRing

/-! ## Confined computations with nothing in common -/

/-- No access of the one list shares a byte with an access of the other. -/
def AllApart (as bs : List Access) : Prop := ∀ a ∈ as, ∀ b ∈ bs, a.place.Apart b.place

instance (as bs : List Access) : Decidable (AllApart as bs) :=
  inferInstanceAs (Decidable (∀ a ∈ as, ∀ b ∈ bs, a.place.Apart b.place))

namespace AllApart

variable {as bs : List Access} {m m' : Memory}

theorem symm (h : AllApart as bs) : AllApart bs as := fun b hb a ha => (h a ha b hb).symm

/-- Parts of what is apart are apart. -/
theorem of_parts {as' bs' : List Access} (h : AllApart as bs)
    (has : ∀ a ∈ as', ∃ b ∈ as, a.PartOf b) (hbs : ∀ a ∈ bs', ∃ b ∈ bs, a.PartOf b) :
    AllApart as' bs' := by
  intro a' ha' b' hb'
  obtain ⟨a, ha, hpartA⟩ := has a' ha'
  obtain ⟨b, hb, hpartB⟩ := hbs b' hb'
  exact ((h a ha b hb).mono_left hpartA.within).mono_right hpartB.within

/-- What changes in the one list only is the same on the other. -/
theorem sameOn (h : AllApart as bs) (hsame : SameOutside (as.map Access.place) m m') :
    SameOn bs m m' := by
  intro b hb
  refine hsame.sameAt fun p hp => ?_
  obtain ⟨a, ha, rfl⟩ := List.mem_map.mp hp
  exact h a ha b hb

/-- Two changes with nothing in common lead to the same memory in either order, if
each stores the same after the other as before. -/
theorem memory_eq (h : AllApart as bs) {mA mB mAB mBA : Memory}
    (hA : SameOutside (as.map Access.place) m mA) (hB : SameOutside (bs.map Access.place) m mB)
    (hAB : SameOutside (bs.map Access.place) mA mAB) (hstoredB : SameOn bs mB mAB)
    (hBA : SameOutside (as.map Access.place) mB mBA) (hstoredA : SameOn as mA mBA) :
    mAB = mBA := by
  refine Memory.ext fun block i => ?_
  by_cases hinA : ∃ a ∈ as, a.place.Covers block i
  · obtain ⟨a, ha, hcovers⟩ := hinA
    calc mAB.byte block i = mA.byte block i := (h.symm.sameOn hAB).byte_eq ha hcovers
      _ = mBA.byte block i := (hstoredA.byte_eq ha hcovers).symm
  · by_cases hinB : ∃ b ∈ bs, b.place.Covers block i
    · obtain ⟨b, hb, hcovers⟩ := hinB
      calc mAB.byte block i = mB.byte block i := hstoredB.byte_eq hb hcovers
        _ = mBA.byte block i := ((h.sameOn hBA).byte_eq hb hcovers).symm
    · have houtA : ∀ p ∈ as.map Access.place, ¬ p.Covers block i :=
        List.forall_mem_map.mpr fun a ha hcovers => hinA ⟨a, ha, hcovers⟩
      have houtB : ∀ p ∈ bs.map Access.place, ¬ p.Covers block i :=
        List.forall_mem_map.mpr fun b hb hcovers => hinB ⟨b, hb, hcovers⟩
      rw [hAB block i houtB, hA block i houtA, hBA block i houtA, hB block i houtB]

end AllApart

namespace Sys

variable {α β : Type} {A : Sys α} {B : Sys β} {h : Host} {as bs : List Access}

/-- Two outcomes over a host are equal only if their results and memories are. -/
theorem ofExcept_withMemory_inj {r r' : Except Fault α} {m m' : Memory}
    (heq : ofExcept r (h.withMemory m) = ofExcept r' (h.withMemory m')) : r = r' ∧ m = m' := by
  cases r with
  | ok a =>
    cases r' with
    | ok a' =>
      injection heq with hvalue hhost
      exact ⟨congrArg _ hvalue, congrArg (·.kernel.memory) hhost⟩
    | error f' => cases heq
  | error f =>
    cases r' with
    | ok a' => cases heq
    | error f' =>
      injection heq with hfault hhost
      exact ⟨congrArg _ hfault, congrArg (·.kernel.memory) hhost⟩

/-- **Confined computations with nothing in common commute.**  Either ends as it
would end alone, and both orders leave the same memory. -/
theorem Confined.commute (hA : A.Confined h as) (hB : B.Confined h bs) (hapart : AllApart as bs) :
    ∃ a b m₁ m₂ m₃,
      A h = ofExcept a (h.withMemory m₁) ∧ A (h.withMemory m₂) = ofExcept a (h.withMemory m₃) ∧
      B h = ofExcept b (h.withMemory m₂) ∧ B (h.withMemory m₁) = ofExcept b (h.withMemory m₃) := by
  obtain ⟨b, m₂, -, hrunB, -, hB₀, -, -⟩ := hB h.kernel.memory fun _ _ => .refl _ _
  obtain ⟨a, m₁, mBA, hrunA, hrunBA, hA₁, hBA, hstoredA⟩ := hA m₂ (hapart.symm.sameOn hB₀)
  obtain ⟨b', m₂', mAB, hrunB', hrunAB, hB₂, hAB, hstoredB⟩ := hB m₁ (hapart.sameOn hA₁)
  obtain ⟨rfl, rfl⟩ := ofExcept_withMemory_inj (hrunB.symm.trans hrunB')
  rw [hapart.memory_eq hA₁ hB₂ hAB hstoredB hBA hstoredA] at hrunAB
  exact ⟨a, b, m₁, m₂, mBA, hrunA, hrunBA, hrunB, hrunAB⟩

end Sys

/-- Of the host only bytes of the accesses may have changed. -/
structure Host.ChangedIn (as : List Access) (h h' : Host) : Prop where
  eq_withMemory : h' = h.withMemory h'.kernel.memory
  sameOutside : SameOutside (as.map Access.place) h.kernel.memory h'.kernel.memory

namespace Host.ChangedIn

variable {as bs : List Access} {h h' h'' : Host}

theorem refl (as : List Access) (h : Host) : h.ChangedIn as h := ⟨rfl, .refl _ _⟩

theorem trans (hfirst : h.ChangedIn as h') (hsecond : h'.ChangedIn as h'') :
    h.ChangedIn as h'' where
  eq_withMemory := by
    rw [hsecond.eq_withMemory, hfirst.eq_withMemory]
    rfl
  sameOutside := hfirst.sameOutside.trans hsecond.sameOutside

theorem of_subset (hchanged : h.ChangedIn as h') (hsub : as ⊆ bs) : h.ChangedIn bs h' where
  eq_withMemory := hchanged.eq_withMemory
  sameOutside := hchanged.sameOutside.of_subset (List.map_subset _ hsub)

end Host.ChangedIn

/-- A computation that is confined to parts of an extent changes that extent only. -/
theorem Sys.Confined.changedIn {α : Type} {act : Sys α} {h : Host} {as extent : List Access}
    (hact : act.Confined h as) (hparts : ∀ a ∈ as, ∃ b ∈ extent, a.PartOf b) :
    ∃ result h', act h = ofExcept result h' ∧ h.ChangedIn extent h' := by
  obtain ⟨result, m, -, hrun, -, hout, -, -⟩ := hact h.kernel.memory fun _ _ => .refl _ _
  refine ⟨result, h.withMemory m, hrun, rfl, hout.mono fun p hp => ?_⟩
  obtain ⟨a, ha, rfl⟩ := List.mem_map.mp hp
  obtain ⟨b, hb, hpart⟩ := hparts a ha
  exact ⟨b.place, List.mem_map_of_mem hb, hpart.within⟩

/-! ## Steps on both sides -/

/-- A step on one of the two queues. -/
inductive QueueStep where
  /-- A step on the submission queue. -/
  | submission (step : SubmissionStep)
  /-- A step on the completion queue. -/
  | completion (step : CompletionStep)

/-- The third list is an interleaving of the other two. -/
inductive Interleaves : List SubmissionStep → List CompletionStep → List QueueStep → Prop where
  | nil : Interleaves [] [] []
  | submission (step : SubmissionStep) {as bs steps} (rest : Interleaves as bs steps) :
      Interleaves (step :: as) bs (.submission step :: steps)
  | completion (step : CompletionStep) {as bs steps} (rest : Interleaves as bs steps) :
      Interleaves as (step :: bs) (.completion step :: steps)

/-- Two queues on a host, and what came of the steps on them so far. -/
structure QueuePair where
  sq : SubmissionQueue
  cq : CompletionQueue
  host : Host
  /-- What the steps on the submission queue answered, in order. -/
  submitted : List (Except Fault Reply) := []
  /-- What the steps on the completion queue answered, in order. -/
  completed : List (Except Fault Reply) := []

namespace QueuePair

/-- Take over what came of a step on the submission queue. -/
def withSubmission (r : QueuePair) :
    EStateM.Result Fault Host (Reply × SubmissionQueue) → QueuePair
  | .ok (reply, sq) host => { r with sq, host, submitted := r.submitted ++ [.ok reply] }
  | .error f host => { r with host, submitted := r.submitted ++ [.error f] }

/-- Take over what came of a step on the completion queue. -/
def withCompletion (r : QueuePair) :
    EStateM.Result Fault Host (Reply × CompletionQueue) → QueuePair
  | .ok (reply, cq) host => { r with cq, host, completed := r.completed ++ [.ok reply] }
  | .error f host => { r with host, completed := r.completed ++ [.error f] }

/-- Take a step.  A step that fails leaves its queue as it is. -/
def move (r : QueuePair) : QueueStep → QueuePair
  | .submission step => r.withSubmission (step.perform r.sq r.host)
  | .completion step => r.withCompletion (step.perform r.cq r.host)

/-- Take steps one after the other. -/
def run (r : QueuePair) (steps : List QueueStep) : QueuePair := steps.foldl move r

/-- The two queues share no byte, and each mask is below its size. -/
structure Separate (r : QueuePair) : Prop where
  apart : AllApart r.sq.extent r.cq.extent
  sqMask : r.sq.mask < r.sq.entries
  cqMask : r.cq.mask < r.cq.entries

variable {r : QueuePair}

theorem run_cons (r : QueuePair) (step : QueueStep) (steps : List QueueStep) :
    r.run (step :: steps) = (r.move step).run steps := rfl

/-! ## What steps on one side leave alone -/

/-- The memory of the host. -/
abbrev memory (r : QueuePair) : Memory := r.host.kernel.memory

/-- Of the submission side the private tail and the answers may have changed, and
bytes that belong to its queue.  Nothing else has. -/
structure SubmissionOnly (r r' : QueuePair) : Prop where
  sq : ∃ t, r'.sq = { r.sq with localTail := t }
  cq : r'.cq = r.cq
  completed : r'.completed = r.completed
  host : r.host.ChangedIn r.sq.extent r'.host

/-- Of the completion side the private head and the answers may have changed, and
bytes that belong to its queue.  Nothing else has. -/
structure CompletionOnly (r r' : QueuePair) : Prop where
  cq : ∃ t, r'.cq = { r.cq with localHead := t }
  sq : r'.sq = r.sq
  submitted : r'.submitted = r.submitted
  host : r.host.ChangedIn r.cq.extent r'.host

variable {r' r'' : QueuePair}

theorem SubmissionOnly.trans (h : r.SubmissionOnly r') (h' : r'.SubmissionOnly r'') :
    r.SubmissionOnly r'' := by
  obtain ⟨⟨t, hsq⟩, hcq, hcompleted, hhost⟩ := h
  obtain ⟨⟨t', hsq'⟩, hcq', hcompleted', hhost'⟩ := h'
  rw [hsq] at hsq' hhost'
  exact ⟨⟨t', hsq'⟩, hcq'.trans hcq, hcompleted'.trans hcompleted, hhost.trans hhost'⟩

theorem CompletionOnly.trans (h : r.CompletionOnly r') (h' : r'.CompletionOnly r'') :
    r.CompletionOnly r'' := by
  obtain ⟨⟨t, hcq⟩, hsq, hsubmitted, hhost⟩ := h
  obtain ⟨⟨t', hcq'⟩, hsq', hsubmitted', hhost'⟩ := h'
  rw [hcq] at hcq' hhost'
  exact ⟨⟨t', hcq'⟩, hsq'.trans hsq, hsubmitted'.trans hsubmitted, hhost.trans hhost'⟩

/-- What belongs to a queue does not depend on its private counter. -/
theorem Separate.congr (hr : r.Separate) (hsq : ∃ t, r'.sq = { r.sq with localTail := t })
    (hcq : ∃ t, r'.cq = { r.cq with localHead := t }) : r'.Separate := by
  obtain ⟨t, hsq⟩ := hsq
  obtain ⟨t', hcq⟩ := hcq
  constructor
  · rw [hsq, hcq]
    exact hr.apart
  · rw [hsq]
    exact hr.sqMask
  · rw [hcq]
    exact hr.cqMask

/-- Steps on the submission queue keep the queues apart. -/
theorem Separate.submissionOnly (hr : r.Separate) (h : r.SubmissionOnly r') : r'.Separate :=
  hr.congr h.sq ⟨_, h.cq⟩

/-- Steps on the completion queue keep the queues apart. -/
theorem Separate.completionOnly (hr : r.Separate) (h : r.CompletionOnly r') : r'.Separate :=
  hr.congr ⟨_, h.sq⟩ h.cq

/-- A step on the submission queue leaves the other queue and its bytes alone. -/
theorem submissionOnly_move (hr : r.Separate) (step : SubmissionStep) :
    r.SubmissionOnly (r.move (.submission step)) := by
  obtain ⟨result, h, hrun, hchanged⟩ := (SubmissionStep.confined r.sq r.host step).changedIn
    fun _ ha => SubmissionQueue.partOf_of_mem_accesses hr.sqMask ha
  rw [move, hrun]
  cases result with
  | ok answer => exact ⟨SubmissionStep.queue_of_perform hrun, rfl, rfl, hchanged⟩
  | error f => exact ⟨⟨_, rfl⟩, rfl, rfl, hchanged⟩

/-- A step on the completion queue leaves the other queue and its bytes alone. -/
theorem completionOnly_move (hr : r.Separate) (step : CompletionStep) :
    r.CompletionOnly (r.move (.completion step)) := by
  obtain ⟨result, h, hrun, hchanged⟩ := (CompletionStep.confined r.cq r.host step).changedIn
    fun _ ha => CompletionQueue.partOf_of_mem_accesses hr.cqMask ha
  rw [move, hrun]
  cases result with
  | ok answer => exact ⟨CompletionStep.queue_of_perform hrun, rfl, rfl, hchanged⟩
  | error f => exact ⟨⟨_, rfl⟩, rfl, rfl, hchanged⟩

/-- So do any steps on the submission queue. -/
theorem submissionOnly_run (hr : r.Separate) (as : List SubmissionStep) :
    r.SubmissionOnly (r.run (as.map .submission)) := by
  refine List.foldlRecOn (motive := r.SubmissionOnly) _ _ ⟨⟨_, rfl⟩, rfl, rfl, .refl _ _⟩ ?_
  intro t ht step hstep
  obtain ⟨step, -, rfl⟩ := List.mem_map.mp hstep
  exact ht.trans (submissionOnly_move (hr.submissionOnly ht) step)

/-- So do any steps on the completion queue. -/
theorem completionOnly_run (hr : r.Separate) (bs : List CompletionStep) :
    r.CompletionOnly (r.run (bs.map .completion)) := by
  refine List.foldlRecOn (motive := r.CompletionOnly) _ _ ⟨⟨_, rfl⟩, rfl, rfl, .refl _ _⟩ ?_
  intro t ht step hstep
  obtain ⟨step, -, rfl⟩ := List.mem_map.mp hstep
  exact ht.trans (completionOnly_move (hr.completionOnly ht) step)

/-- Every step keeps the queues apart. -/
theorem Separate.move (hr : r.Separate) (step : QueueStep) : (r.move step).Separate := by
  cases step with
  | submission step => exact hr.submissionOnly (submissionOnly_move hr step)
  | completion step => exact hr.completionOnly (completionOnly_move hr step)

/-! ## The order of steps -/

/-- Two steps on different sides may be swapped. -/
theorem move_comm (hr : r.Separate) (a : SubmissionStep) (b : CompletionStep) :
    (r.move (.completion b)).move (.submission a) =
      (r.move (.submission a)).move (.completion b) := by
  have hapart : AllApart (a.accesses r.sq r.host.kernel.memory)
      (b.accesses r.cq r.host.kernel.memory) :=
    hr.apart.of_parts (fun _ ha => SubmissionQueue.partOf_of_mem_accesses hr.sqMask ha)
      fun _ hb => CompletionQueue.partOf_of_mem_accesses hr.cqMask hb
  obtain ⟨ra, rb, m₁, m₂, m₃, ha, haAfter, hb, hbAfter⟩ :=
    (SubmissionStep.confined r.sq r.host a).commute (CompletionStep.confined r.cq r.host b) hapart
  cases ra <;> cases rb <;>
    simp only [QueuePair.move, ha, hb, Sys.ofExcept_ok rfl, Sys.ofExcept_error rfl,
      withSubmission, withCompletion] at haAfter hbAfter ⊢ <;>
    simp only [haAfter, hbAfter]

/-- Submission steps may be moved before a completion step. -/
theorem run_submissions_move (hr : r.Separate) (as : List SubmissionStep) (b : CompletionStep) :
    (r.move (.completion b)).run (as.map .submission) =
      (r.run (as.map .submission)).move (.completion b) := by
  induction as generalizing r with
  | nil => rfl
  | cons a as ih =>
    calc (r.move (.completion b)).run ((a :: as).map .submission)
        = ((r.move (.completion b)).move (.submission a)).run (as.map .submission) := rfl
      _ = ((r.move (.submission a)).move (.completion b)).run (as.map .submission) := by
          rw [move_comm hr]
      _ = ((r.move (.submission a)).run (as.map .submission)).move (.completion b) :=
          ih (hr.move _)

/-- Steps on one queue and steps on the other can be taken in either order. -/
theorem run_comm (hr : r.Separate) (as : List SubmissionStep) (bs : List CompletionStep) :
    (r.run (as.map .submission)).run (bs.map .completion) =
      (r.run (bs.map .completion)).run (as.map .submission) := by
  induction bs generalizing r with
  | nil => rfl
  | cons b bs ih =>
    calc (r.run (as.map .submission)).run ((b :: bs).map .completion)
        = ((r.run (as.map .submission)).move (.completion b)).run (bs.map .completion) := rfl
      _ = ((r.move (.completion b)).run (as.map .submission)).run (bs.map .completion) := by
          rw [run_submissions_move hr]
      _ = ((r.move (.completion b)).run (bs.map .completion)).run (as.map .submission) :=
          ih (hr.move _)

/-- Every order of steps amounts to all submission steps first. -/
theorem run_interleaved {as : List SubmissionStep} {bs : List CompletionStep}
    {steps : List QueueStep} (hsteps : Interleaves as bs steps) (hr : r.Separate) :
    r.run steps = (r.run (as.map .submission)).run (bs.map .completion) := by
  induction hsteps generalizing r with
  | nil => rfl
  | submission a rest ih => exact ih (hr.move (.submission a))
  | completion b rest ih =>
    rw [run_cons, ih (hr.move (.completion b)), run_submissions_move hr]
    rfl

/-- **The two sides of a ring do not interfere.**  Let steps on the submission queue
and steps on the completion queue come in any order, whatever the counters are.
Then each side answers as it would alone, and ends with the same private counter
and the same bytes of what belongs to it.  No other byte changes, and nothing
depends on the order. -/
theorem interleaved_as_alone {as : List SubmissionStep} {bs : List CompletionStep}
    {steps : List QueueStep} (hsteps : Interleaves as bs steps) (hr : r.Separate) :
    let both := r.run steps
    let a := r.run (as.map .submission)
    let b := r.run (bs.map .completion)
    (both.submitted = a.submitted ∧ both.completed = b.completed) ∧
    (both.sq = a.sq ∧ both.cq = b.cq) ∧
    (SameOn r.sq.extent a.memory both.memory ∧ SameOn r.cq.extent b.memory both.memory ∧
      r.host.ChangedIn (r.sq.extent ++ r.cq.extent) both.host) ∧
    both = a.run (bs.map .completion) := by
  intro both a b
  have hboth : both = a.run (bs.map .completion) := run_interleaved hsteps hr
  have hboth' : both = b.run (as.map .submission) := hboth.trans (run_comm hr as bs)
  -- All submission steps first, and then all completion steps first.
  have ha : r.SubmissionOnly a := submissionOnly_run hr as
  have hafter : a.CompletionOnly both := hboth ▸ completionOnly_run (hr.submissionOnly ha) bs
  have hb : r.CompletionOnly b := completionOnly_run hr bs
  have hbefore : b.SubmissionOnly both := hboth' ▸ submissionOnly_run (hr.completionOnly hb) as
  have hchangedB := hafter.host
  rw [ha.cq] at hchangedB
  have hchangedA := hbefore.host
  rw [hb.sq] at hchangedA
  refine ⟨⟨hafter.submitted, hbefore.completed⟩, ⟨hafter.sq, hbefore.cq⟩,
    ⟨hr.apart.symm.sameOn hchangedB.sameOutside, hr.apart.sameOn hchangedA.sameOutside, ?_⟩, hboth⟩
  exact (ha.host.of_subset (List.subset_append_left ..)).trans
    (hchangedB.of_subset (List.subset_append_right ..))

/-- The queues of a small ring over one mapping, with two completions waiting and
counters that are about to wrap. -/
def small : QueuePair where
  sq := RingSite.small.submission.queue 0xFFFFFFFE
  cq := RingSite.small.completion.queue 0xFFFFFFFF
  host := RingSite.smallHost.withMemory (RingSite.smallHost.kernel.memory.setWord 2 28 1)

theorem separate_small : small.Separate where
  apart := by decide
  sqMask := by decide
  cqMask := by decide

/-- A push, and a batch for which there is no room, among a take and a sync. -/
theorem interleaved_as_alone_small :
    let e := Entry.make 0 0 7
    let both := small.run [.submission (.push e), .completion .next,
      .submission (.pushAll [e, e, e, e]), .completion .sync]
    let a := small.run [.submission (.push e), .submission (.pushAll [e, e, e, e])]
    let b := small.run [.completion .next, .completion .sync]
    small.Separate ∧ both.submitted = a.submitted ∧ both.completed = b.completed ∧
      both.sq.localTail = 0xFFFFFFFF ∧ both.cq.localHead = 0 := by
  intro e both a b
  have hsteps := Interleaves.submission (.push e) (.completion .next
    (.submission (.pushAll [e, e, e, e]) (.completion .sync .nil)))
  obtain ⟨⟨hsubmitted, hcompleted⟩, ⟨hsq, hcq⟩, -⟩ := interleaved_as_alone hsteps separate_small
  refine ⟨separate_small, hsubmitted, hcompleted, ?_, ?_⟩
  · rw [hsq]
    decide +kernel
  · rw [hcq]
    decide +kernel

end QueuePair

end IoRing
