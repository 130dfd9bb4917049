import IoRing.Proofs.Ring.Serving
import IoRing.Proofs.SharedRing.Popping

/-!
# The decision to enter the kernel

A submit publishes first.  Then it makes one enter call or none.  It makes none if
a poll thread is awake and there is nothing to wait for (`Submitter.NeedsNoCall`),
and else the arguments of the call are settled by what the process sees
(`Submitter.Asks`).

There are several ways to submit: by a submitter, by a ring and by a shared ring.
All follow the same rule (`SubmitPath.obeys`).  So with a poll thread no entry stays
unpublished and no sleeping thread stays unwoken.

A shared ring decides under a lock and enters the kernel after giving it up.  Other
threads may run in between, but the call is the one that was decided on
(`SharedRing.startEnter_asks`).
-/

namespace IoRing

/-! ## One enter call -/

/-- The answer to an enter call, and the kernel after it. -/
def Kernel.answer (k : Kernel) (call : EnterCall) : CallResult × Kernel :=
  if k.admits call.fd then k.serve call.toSubmit else (.error .badDescriptor, k)

/-- The host after an enter call was answered and noted. -/
def Host.afterCall (h : Host) (call : EnterCall) : Host :=
  { h with
    kernel := (h.kernel.answer call).2
    calls := h.calls ++ [.enter call (h.kernel.answer call).1.code] }

/-- A computation ended as a system call did: with the number that it returned, or
with a system error that has its error number. -/
def CallResult.ReturnedBy (result : CallResult) (h : Host) (outcome : EStateM.Result Fault Host Int32) :
    Prop :=
  match result with
  | .ok n => ∃ r, outcome = .ok r h ∧ (n < 2 ^ 31 → r.toInt = n)
  | .error e => ∃ f, outcome = .error f h ∧ f.kind = .system ∧ f.errno? = some e

theorem CallResult.ReturnedBy.after_eq {result : CallResult} {act : Sys Int32} {h h' : Host}
    (hreturned : result.ReturnedBy h' (act h)) : Sys.after act h = h' := by
  cases result with
  | ok n =>
    obtain ⟨r, hok, -⟩ := hreturned
    simp only [Sys.after, hok]
  | error e =>
    obtain ⟨f, herror, -⟩ := hreturned
    exact Sys.after_of_error herror

/-- An enter call is logged, then its answer is turned into a result. -/
theorem Sys.enter_eq (call : EnterCall) (h : Host) :
    enter call h = returned .enterFailed (h.kernel.answer call).1 (h.afterCall call) := by
  cases hadmits : h.kernel.admits call.fd with
  | true => simp only [enter_admitted hadmits, Host.afterCall, Kernel.answer, hadmits, if_true]
  | false =>
    simp only [Host.afterCall, Kernel.answer, hadmits, Bool.false_eq_true, if_false]
    rw [enter, bind_error (startEnter_refused hadmits)]
    rfl

theorem Sys.enter_returned (call : EnterCall) (h : Host) :
    (h.kernel.answer call).1.ReturnedBy (h.afterCall call) (enter call h) := by
  rw [enter_eq]
  cases (h.kernel.answer call).1 with
  | ok n => exact ⟨Int32.ofNat n, rfl, Int32.toInt_ofNat_of_lt⟩
  | error e => exact ⟨.enterFailed e, rfl, rfl, rfl⟩

/-! ## The rule -/

namespace Submitter

variable (s : Submitter) (want : UInt32) (mask? : Option UInt64)

/-- The memory once the private tail is published. -/
abbrev publishedMemory (h : Host) : Memory := s.queue.publish h.kernel.memory

/-- The poll thread is awake and nothing is waited for. -/
def NeedsNoCall (m : Memory) : Prop :=
  hasBits s.setupFlags SetupFlag.sqPoll = true ∧ s.queue.needWakeup m = false ∧ want = 0

instance (m : Memory) : Decidable (s.NeedsNoCall want m) :=
  inferInstanceAs (Decidable (_ ∧ _ ∧ _))

/-- The call asks for what is to be done, by what is seen in memory. -/
structure Asks (m : Memory) (call : EnterCall) : Prop where
  fd : call.fd = s.fd
  toSubmit : call.toSubmit = s.queue.len m
  minComplete : call.minComplete = want
  getEvents : hasBits call.flags EnterFlag.getEvents = true ↔ 0 < want
  sqWakeup : hasBits call.flags EnterFlag.sqWakeup = true ↔
    hasBits s.setupFlags SetupFlag.sqPoll = true ∧ s.queue.needWakeup m = true
  noOther : hasBits call.flags (~~~(EnterFlag.getEvents ||| EnterFlag.sqWakeup)) = false
  mask : call.mask? = mask?
  maskSize : call.maskSize = if mask?.isSome then 8 else 0

/-- Started on the host, the computation publishes, makes one call or none, and ends
as it should. -/
structure Obeys (act : Sys Int32) (h : Host) : Prop where
  published : s.queue.publishedTail (s.publishedMemory h) = s.queue.localTail
  quiet_iff : (Sys.after act h).calls = h.calls ↔ s.NeedsNoCall want (s.publishedMemory h)
  quiet : s.NeedsNoCall want (s.publishedMemory h) →
    act h = .ok (s.queue.len (s.publishedMemory h)).toInt32 (h.withMemory (s.publishedMemory h))
  calls : ¬ s.NeedsNoCall want (s.publishedMemory h) →
    ∃ call, s.Asks want mask? (s.publishedMemory h) call ∧
      ((h.kernel.withMemory (s.publishedMemory h)).answer call).1.ReturnedBy
        ((h.withMemory (s.publishedMemory h)).afterCall call) (act h)

/-! ### What is decided -/

/-- The flags that ask to wait, to wake the thread, or both. -/
def callFlags (wait wake : Prop) [Decidable wait] [Decidable wake] : UInt32 :=
  (if wait then EnterFlag.getEvents else 0) ||| (if wake then EnterFlag.sqWakeup else 0)

/-- The flags of a call say whether it waits and whether it wakes, and nothing
else. -/
theorem hasBits_callFlags (wait wake : Prop) [Decidable wait] [Decidable wake] :
    (hasBits (callFlags wait wake) EnterFlag.getEvents = true ↔ wait) ∧
    (hasBits (callFlags wait wake) EnterFlag.sqWakeup = true ↔ wake) ∧
    hasBits (callFlags wait wake) (~~~(EnterFlag.getEvents ||| EnterFlag.sqWakeup)) = false := by
  unfold callFlags
  by_cases hwait : wait <;> by_cases hwake : wake <;>
    simp only [hwait, hwake, if_true, if_false, iff_true, iff_false] <;> decide

/-- The request that is decided on. -/
def request (m : Memory) : EnterRequest :=
  .decide s.setupFlags (s.queue.len m) want (s.queue.needWakeup m)

/-- A request asks for all entries in the queue, with the flags that its wants
call for. -/
theorem request_eq (m : Memory) :
    s.request want m = ⟨s.queue.len m, want,
      callFlags (0 < want)
        (hasBits s.setupFlags SetupFlag.sqPoll = true ∧ s.queue.needWakeup m = true),
      !decide (s.NeedsNoCall want m)⟩ := by
  cases hpoll : hasBits s.setupFlags SetupFlag.sqPoll with
  | false => simp [request, EnterRequest.decide, NeedsNoCall, callFlags, hpoll]
  | true =>
    cases hasleep : s.queue.needWakeup m with
    | false =>
      have hwant : (want != 0) = !decide (want = 0) := rfl
      simp [request, EnterRequest.decide, NeedsNoCall, callFlags, hpoll, hasleep, hwant]
    | true => simp [request, EnterRequest.decide, NeedsNoCall, callFlags, hpoll, hasleep]

/-- The call that a request leads to. -/
def callOf (r : EnterRequest) : EnterCall := ⟨s.fd, r.toSubmit, r.minComplete, r.flags, mask?⟩

/-- A call made as decided asks for what is to be done. -/
theorem asks_callOf_request (m : Memory) :
    s.Asks want mask? m (s.callOf mask? (s.request want m)) := by
  obtain ⟨hwait, hwake, hother⟩ := hasBits_callFlags (0 < want)
    (hasBits s.setupFlags SetupFlag.sqPoll = true ∧ s.queue.needWakeup m = true)
  rw [request_eq]
  exact ⟨rfl, rfl, rfl, hwait, hwake, hother, rfl, by cases mask? <;> rfl⟩

/-! ### The submitter follows the rule -/

/-- Where no call is needed, submit publishes and answers with the length. -/
theorem submit_quiet {h : Host} (hquiet : s.NeedsNoCall want (s.publishedMemory h)) :
    s.submit want mask? h =
      .ok (s.queue.len (s.publishedMemory h)).toInt32 (h.withMemory (s.publishedMemory h)) := by
  have hprepare : s.prepare want h = .ok (s.request want (s.publishedMemory h))
      (h.withMemory (s.publishedMemory h)) := prepare_eq s want h
  rw [submit, Sys.bind_ok hprepare, request_eq, decide_eq_true hquiet]
  rfl

/-- Where a call is needed, submit publishes and makes that one call. -/
theorem submit_calls {h : Host} (hcall : ¬ s.NeedsNoCall want (s.publishedMemory h)) :
    s.submit want mask? h =
      Sys.enter (s.callOf mask? (s.request want (s.publishedMemory h)))
        (h.withMemory (s.publishedMemory h)) := by
  have hprepare : s.prepare want h = .ok (s.request want (s.publishedMemory h))
      (h.withMemory (s.publishedMemory h)) := prepare_eq s want h
  rw [submit, Sys.bind_ok hprepare, request_eq, decide_eq_false hcall]
  rfl

/-- Submit keeps the rule on any host. -/
theorem submit_obeys (h : Host) : s.Obeys want mask? (s.submit want mask?) h := by
  have hreturned := Sys.enter_returned (s.callOf mask? (s.request want (s.publishedMemory h)))
    (h.withMemory (s.publishedMemory h))
  constructor
  case published => exact s.queue.publishedTail_publish h.kernel.memory
  case quiet_iff =>
    by_cases hquiet : s.NeedsNoCall want (s.publishedMemory h)
    · simp only [Sys.after, s.submit_quiet want mask? hquiet, hquiet, iff_true]
      rfl
    · rw [← s.submit_calls want mask? hquiet] at hreturned
      rw [hreturned.after_eq]
      simp [Host.afterCall, Host.withMemory, hquiet]
  case quiet => exact s.submit_quiet want mask?
  case calls =>
    intro hcall
    rw [s.submit_calls want mask? hcall]
    exact ⟨_, s.asks_callOf_request want mask? (s.publishedMemory h), hreturned⟩

end Submitter

/-! ## All ways to submit -/

/-- A way to submit and wait, with the submitter that says what to do. -/
inductive SubmitPath (s : Submitter) (want : UInt32) : Option UInt64 → Sys Int32 → Prop where
  /-- By the submitter itself. -/
  | submitter (mask? : Option UInt64) : SubmitPath s want mask? (s.submit want mask?)
  /-- By an open ring. -/
  | ring {ring : Ring} (hring : ring.submitter = .ok s) (mask? : Option UInt64) :
      SubmitPath s want mask? (ring.submit want mask?)
  /-- By a shared ring, which takes no mask. -/
  | shared {ring : Ring} (hring : ring.submitter = .ok s) :
      SubmitPath s want none (SharedRing.submit ⟨some ring⟩ want)

/-- What is shared is an open ring. -/
theorem Ring.submitter_eq_ok {r : Ring} {s : Submitter} (h : r.submitter = .ok s) :
    ∃ b, r.body? = some b ∧ s = ⟨b.fd, r.setupFlags, b.sq⟩ := by
  cases hbody : r.body? with
  | none =>
    rw [submitter, opened, hbody] at h
    cases h
  | some b =>
    rw [submitter_eq hbody] at h
    cases h
    exact ⟨b, rfl, rfl⟩

/-- A shared ring decides under its lock and enters the kernel later.  The call that
it makes then is still the one that was decided on, whatever the other threads did
to the queue and to memory in between. -/
theorem SharedRing.startEnter_asks {ring : Ring} {s : Submitter} (hring : ring.submitter = .ok s)
    (want : UInt32) (h : Host) :
    ∃ request, prepare ⟨some ring⟩ want h = .ok request (h.withMemory (s.publishedMemory h)) ∧
      (request.needed = false ↔ s.NeedsNoCall want (s.publishedMemory h)) ∧
      ∃ call, s.Asks want none (s.publishedMemory h) call ∧
        ∀ later s' h', later.submitter = .ok s' → s'.fd = s.fd →
          startEnter ⟨some later⟩ request h' = Sys.startEnter call h' := by
  refine ⟨s.request want (s.publishedMemory h), ?_, ?_,
    s.callOf none (s.request want (s.publishedMemory h)), s.asks_callOf_request want none _, ?_⟩
  · have hopen : (⟨some ring⟩ : SharedRing).ring = .ok ring := rfl
    simp only [prepare, hopen, hring, Sys.ofExcept, pure_bind]
    exact s.prepare_eq want h
  · rw [Submitter.request_eq]
    simp
  · intro later s' h' hlater hfd
    have hopen : (⟨some later⟩ : SharedRing).ring = .ok later := rfl
    simp only [startEnter, hopen, hlater, Sys.ofExcept, pure_bind, hfd]
    rfl

/-! ## Nothing is left behind -/

/-- The queue lies on a sound site that the kernel serves.  The counters and the
flags may be anything. -/
structure Submitter.OnSite (s : Submitter) (h : Host) (site : RingSite) : Prop where
  sound : site.Sound
  queue : ∃ t, s.queue = site.submission.queue t
  serves : h.kernel.Serves site
  formatted : site.completion.Formatted h.kernel.memory

namespace Submitter

variable {s : Submitter} {want : UInt32} {mask? : Option UInt64} {act : Sys Int32} {h : Host}
  {site : RingSite}

/-- Publishing and answering a call spare the tail and the flag of the thread. -/
theorem OnSite.spares (hsite : s.OnSite h site) (call : EnterCall) :
    site.Spares (h.kernel.withMemory (s.publishedMemory h))
      ((h.kernel.withMemory (s.publishedMemory h)).answer call).2 := by
  obtain ⟨hsound, ⟨t, hqueue⟩, hserves, hformatted⟩ := hsite
  have hsame := SubmissionSite.Carries.sameOutside_publish site.submission h.kernel.memory t
  have hpublished : site.completion.Formatted (s.publishedMemory h) := by
    rw [publishedMemory, hqueue]
    exact hformatted.congr (hsound.completion_sameAt hsame (by decide) _)
      (hsound.completion_sameAt hsame (by decide) _)
  rw [Kernel.answer]
  split
  · exact RingSite.spares_serve hsound (hserves.withMemory _) hpublished _
  · exact .refl (hserves.withMemory _) hpublished

/-- When a submit returns, nothing is left to publish, and a thread that sleeps was
woken by the call. -/
theorem Obeys.leaves_nothing (hobeys : s.Obeys want mask? act h) (hsite : s.OnSite h site)
    {n : Int32} {h' : Host} (hact : act h = .ok n h') :
    s.queue.unpublished h'.kernel.memory = 0 ∧
    (hasBits s.setupFlags SetupFlag.sqPoll = true → s.queue.needWakeup h'.kernel.memory = true →
      ∃ call result, h'.calls = h.calls ++ [.enter call result] ∧
        hasBits call.flags EnterFlag.sqWakeup = true) := by
  by_cases hquiet : s.NeedsNoCall want (s.publishedMemory h)
  · cases (hobeys.quiet hquiet).symm.trans hact
    refine ⟨s.queue.unpublished_publish h.kernel.memory, fun _ hasleep => ?_⟩
    have hawake : s.queue.needWakeup (s.publishedMemory h) = false := hquiet.2.1
    cases hawake.symm.trans hasleep
  · obtain ⟨call, hasks, hreturned⟩ := hobeys.calls hquiet
    have hafter : Sys.after act h = h' := by simp only [Sys.after, hact]
    have hh' := hafter.symm.trans hreturned.after_eq
    obtain ⟨-, -, htail, hasleepEq⟩ := hsite.spares call
    obtain ⟨t, hqueue⟩ := hsite.queue
    subst hh'
    constructor
    · have htailEq : s.queue.publishedTail ((h.withMemory (s.publishedMemory h)).afterCall
          call).kernel.memory = s.queue.localTail := by
        rw [← hobeys.published, hqueue]
        exact Fields.word_congr (l := site.submission.fields) (f := .tail) rfl htail
      rw [SubmissionQueue.unpublished, htailEq, UInt32.sub_self]
    · intro hpoll hasleep
      refine ⟨call, _, rfl, hasks.sqWakeup.mpr ⟨hpoll, ?_⟩⟩
      rw [hqueue] at hasleep ⊢
      exact hasleepEq.symm.trans hasleep

end Submitter

/-- What a computation gives, if it succeeds. -/
def Sys.value? {α : Type} (act : Sys α) (h : Host) : Option α :=
  match act h with
  | .ok a _ => some a
  | .error _ _ => none

theorem Sys.eq_ok_of_value? {α : Type} {act : Sys α} {h : Host} {a : α}
    (hvalue : value? act h = some a) : act h = .ok a (after act h) := by
  simp only [value?, after] at hvalue ⊢
  split at hvalue
  · next hact =>
    cases hvalue
    rw [hact]
  · cases hvalue

namespace SubmitPath

variable {s : Submitter} {want : UInt32} {mask? : Option UInt64} {act : Sys Int32}

/-- Every way comes down to the submitter. -/
theorem eq_submit (hpath : SubmitPath s want mask? act) : act = s.submit want mask? := by
  cases hpath with
  | submitter => rfl
  | ring hring =>
    rw [Ring.submit, hring]
    rfl
  | shared hring =>
    obtain ⟨b, hbody, rfl⟩ := Ring.submitter_eq_ok hring
    exact SharedRing.submit_eq hbody want

/-- **All ways to submit follow one rule.**  They publish first.  They make no call
exactly if the poll thread is awake and nothing is waited for, and then give the
number of pending entries.  Else they make one call that asks for what is to be
done, and end as it did.  So on a sound ring whose submit returned nothing is left
to publish, and a poll thread that sleeps was woken.  A shared ring makes the call
that it decided on even if other threads ran before it. -/
theorem obeys (hpath : SubmitPath s want mask? act) (h : Host) :
    s.Obeys want mask? act h ∧
    (∀ site n h', s.OnSite h site → act h = .ok n h' →
      s.queue.unpublished h'.kernel.memory = 0 ∧
      (hasBits s.setupFlags SetupFlag.sqPoll = true →
        s.queue.needWakeup h'.kernel.memory = true →
        ∃ call result, h'.calls = h.calls ++ [.enter call result] ∧
          hasBits call.flags EnterFlag.sqWakeup = true)) ∧
    ∀ ring, ring.submitter = .ok s → ∃ request,
      SharedRing.prepare ⟨some ring⟩ want h =
          .ok request (h.withMemory (s.publishedMemory h)) ∧
        (request.needed = false ↔ s.NeedsNoCall want (s.publishedMemory h)) ∧
        ∃ call, s.Asks want none (s.publishedMemory h) call ∧
          ∀ later s' h', later.submitter = .ok s' → s'.fd = s.fd →
            SharedRing.startEnter ⟨some later⟩ request h' = Sys.startEnter call h' := by
  have hobeys : s.Obeys want mask? act h := by
    rw [hpath.eq_submit]
    exact s.submit_obeys want mask? h
  exact ⟨hobeys, fun site n h' hsite hact => hobeys.leaves_nothing hsite hact,
    fun ring hring => SharedRing.startEnter_asks hring want h⟩

/-- A small ring with a poll thread and two entries that are not published. -/
def pollingRing : Ring :=
  { RingSite.smallRing with setupFlags := SetupFlag.sqPoll }.withSubmission
    (RingSite.small.submission.queue 0)

/-- Its submitter. -/
def pollingSubmitter : Submitter := ⟨3, SetupFlag.sqPoll, RingSite.small.submission.queue 0⟩

/-- The host of the ring, on which the poll thread sleeps. -/
def sleepingHost : Host :=
  RingSite.smallHost.withMemory
    (RingSite.smallHost.kernel.memory.setWord 2 16 RingFlag.needWakeup)

theorem onSite_polling : pollingSubmitter.OnSite sleepingHost RingSite.small where
  sound := RingSite.sound_small
  queue := ⟨0, rfl⟩
  serves := by
    obtain ⟨b, -, hcarries, -⟩ := RingSite.Carries.ofOpened RingSite.opened_small
    exact hcarries.serves.withMemory _
  formatted := ⟨by decide +kernel, by decide +kernel⟩

/-- The shared ring asks for both entries and wakes the thread, also if another
thread pushes before the call is made. -/
theorem obeys_polling :
    (∃ call, pollingSubmitter.Asks 0 none (pollingSubmitter.publishedMemory sleepingHost) call ∧
      call.toSubmit = 2) ∧
    (∃ h', SharedRing.submit ⟨some pollingRing⟩ 0 sleepingHost = .ok 2 h' ∧
      pollingSubmitter.queue.unpublished h'.kernel.memory = 0 ∧
      ∃ call result, h'.calls = sleepingHost.calls ++ [.enter call result] ∧
        hasBits call.flags EnterFlag.sqWakeup = true) ∧
    ∃ request call, request.needed = true ∧ call.toSubmit = 2 ∧
      SharedRing.startEnter
          ⟨some (pollingRing.withSubmission (RingSite.small.submission.queue 1))⟩ request
          sleepingHost =
        Sys.startEnter call sleepingHost := by
  have hpath : SubmitPath pollingSubmitter 0 none (SharedRing.submit ⟨some pollingRing⟩ 0) :=
    .shared rfl
  obtain ⟨hobeys, hleaves, hdecides⟩ := obeys hpath sleepingHost
  have hvalue : Sys.value? (SharedRing.submit ⟨some pollingRing⟩ 0) sleepingHost = some 2 := by
    decide +kernel
  have hrun := Sys.eq_ok_of_value? hvalue
  have hcall : ¬ pollingSubmitter.NeedsNoCall 0 (pollingSubmitter.publishedMemory sleepingHost) := by
    decide +kernel
  obtain ⟨hunpublished, hwakes⟩ := hleaves _ _ _ onSite_polling hrun
  obtain ⟨call, hasks, -⟩ := hobeys.calls hcall
  have htwo : call.toSubmit = 2 := hasks.toSubmit.trans (by decide +kernel)
  refine ⟨⟨call, hasks, htwo⟩,
    ⟨_, hrun, hunpublished, hwakes rfl (by decide +kernel)⟩, ?_⟩
  obtain ⟨request, -, hneeded, decided, hdecided, hstart⟩ := hdecides pollingRing rfl
  refine ⟨request, decided, ?_, hdecided.toSubmit.trans (by decide +kernel), hstart _ _ _ rfl rfl⟩
  rw [← Bool.not_eq_false, hneeded]
  exact hcall

end SubmitPath

end IoRing
