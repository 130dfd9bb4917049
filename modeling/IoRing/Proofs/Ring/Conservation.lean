import IoRing.Proofs.Ring.Frames
import IoRing.Proofs.Ring.Taking

/-!
# A ring loses and invents nothing

A run over an open ring is a list of moves: steps on its queues, submitting,
entering the kernel with any arguments, and changes to how later enter calls
fare.  `RingTrace` records beside the ring and the host what was pushed, what
each call took and gave, and what the process was given.

`run_conserves` says that at the end of every run the entries taken, then those
published, then those not published are the entries pushed in order.  The
completions given out and then those to be read are those that found room, in
the order of their entries.  All entries pushed are accounted for: they wait,
their completion was given out or waits, or it was refused and is counted in the
overflow word.  A call that took entries gave their number, and unless the
results of calls are scripted a call takes all that it can.
-/

namespace IoRing

/-- A move on an open ring. -/
inductive RingMove where
  /-- A step on the submission queue. -/
  | submission (step : SubmissionStep)
  /-- A step on the completion queue. -/
  | completion (step : CompletionStep)
  /-- Submit and wait. -/
  | submit (want : UInt32) (mask? : Option UInt64)
  /-- Enter the kernel. -/
  | enter (toSubmit minComplete flags : UInt32) (mask? : Option UInt64)
  /-- Limit the entries that one enter call takes. -/
  | setAccept (limit? : Option Nat)
  /-- Add the result of a later enter call. -/
  | scriptEnter (result : Int)

/-- A call to submit or to enter that has returned. -/
structure RingAnswer where
  /-- What the kernel took during the call. -/
  taken : Served
  result : Except Fault Int32
deriving DecidableEq

/-- A ring on a host, and what happened to it so far. -/
structure RingTrace where
  ring : Ring
  host : Host
  /-- The entries of the steps that succeeded, in order. -/
  pushed : List Entry := []
  /-- The calls that have returned, in order. -/
  answers : List RingAnswer := []
  /-- The completions that the process was given. -/
  returned : List Completion := []

namespace RingTrace

/-- The entries that the kernel took, in order, and what came of each. -/
def served (r : RingTrace) : Served := (r.answers.map (·.taken)).flatten

/-- Make a call, and record what the kernel took during it and what it gave. -/
def call (r : RingTrace) (act : Sys Int32) : RingTrace :=
  let host := Sys.after act r.host
  let taken := r.host.kernel.postings (r.host.kernel.passed host.kernel)
  { r with host, answers := r.answers ++ [⟨taken, Sys.result act r.host⟩] }

/-- Let the kernel do a step. -/
def work (r : RingTrace) (step : KernelStep) : RingTrace :=
  { r with host := { r.host with kernel := (step.work r.host.kernel).2 } }

/-- Make a move and record what came of it. -/
def move (r : RingTrace) : RingMove → RingTrace
  | .submission step =>
      match (do step.perform (← Sys.ofExcept r.ring.submission)) r.host with
      | .ok (_, q) host =>
          { r with ring := r.ring.withSubmission q, host, pushed := r.pushed ++ step.entries }
      | .error _ host => { r with host }
  | .completion step =>
      match (do step.perform (← Sys.ofExcept r.ring.completion)) r.host with
      | .ok (reply, q) host =>
          { r with ring := r.ring.withCompletion q, host, returned := r.returned ++ reply.taken }
      | .error _ host => { r with host }
  | .submit want mask? => r.call (r.ring.submit want mask?)
  | .enter toSubmit minComplete flags mask? =>
      r.call (r.ring.enter toSubmit minComplete flags mask?)
  | .setAccept limit? => r.work (.setAccept limit?)
  | .scriptEnter result => r.work (.scriptEnter result)

/-- Make moves one after the other. -/
def run (r : RingTrace) (moves : List RingMove) : RingTrace := moves.foldl move r

/-- The move is a call that takes these entries and gives their number. -/
def Takes (r : RingTrace) (move : RingMove) (es : List Entry) : Prop :=
  (r.move move).answers =
    r.answers ++ [⟨r.host.kernel.postings es, .ok (Int32.ofNat es.length)⟩]

/-- Nothing was lost or invented on the open ring, whose overflow word stood at
`lost` when the record began. -/
structure Conserves (r : RingTrace) (b : RingBody) (lost : UInt32) : Prop where
  /-- The entries taken, those published and those not published are the entries
  pushed, in order. -/
  pushed_eq :
    r.served.entries ++ (b.sq.waiting r.host.kernel ++ b.sq.hidden r.host.kernel) = r.pushed
  /-- The completions given out and those to be read are those of the entries that
  found room, in order. -/
  posted_eq : r.returned ++ b.cq.readable r.host.kernel.memory = r.served.posted
  /-- Each entry pushed waits, or its completion was given out, or waits, or was
  refused. -/
  length_eq : r.pushed.length = (b.sq.len r.host.kernel.memory).toNat + r.returned.length +
    (b.cq.len r.host.kernel.memory).toNat + r.served.refused
  /-- The overflow word went up by the number refused. -/
  overflow_eq : b.cq.overflow r.host.kernel.memory = lost + UInt32.ofNat r.served.refused
  /-- Each call took nothing, or it gave the number of entries that it took. -/
  answers_ok : ∀ a ∈ r.answers, a.taken = [] ∨ a.result = .ok (Int32.ofNat a.taken.length)
  /-- If no result is scripted, entering takes the oldest published entries, as many
  as it asks for, as the limit allows and as there are. -/
  enter_takes (hscript : r.host.kernel.enterScript = []) (toSubmit minComplete flags : UInt32)
    (mask? : Option UInt64) : r.Takes (.enter toSubmit minComplete flags mask?)
      ((b.sq.waiting r.host.kernel).take
        (min (r.host.kernel.accept?.getD toSubmit.toNat) toSubmit.toNat))
  /-- Submitting takes the oldest entries, as many as the limit allows and as there
  are, unless there is a poll thread and nothing to wait for. -/
  submit_takes (hscript : r.host.kernel.enterScript = []) (want : UInt32)
    (mask? : Option UInt64)
    (hcall : hasBits r.ring.setupFlags SetupFlag.sqPoll = false ∨ want ≠ 0) :
    r.Takes (.submit want mask?) ((b.sq.waiting r.host.kernel ++ b.sq.hidden r.host.kernel).take
      (r.host.kernel.accept?.getD (b.sq.len r.host.kernel.memory).toNat))

/-- The record agrees with what the ring carries. -/
structure Follows (r : RingTrace) (s : RingSite) (lost : UInt32) (b : RingBody)
    (published deferred : List Entry) (kept waiting : List Completion) : Prop where
  body_eq : r.ring.body? = some b
  admits : r.host.kernel.admits b.fd = true
  carries : s.Carries b r.host.kernel published deferred kept waiting
  pushed_eq : r.pushed = r.served.entries ++ (published ++ deferred)
  posted_eq : r.served.posted = r.returned ++ waiting
  overflow_eq : s.completion.word r.host.kernel.memory .overflow =
    lost + UInt32.ofNat r.served.refused
  answers_ok : ∀ a ∈ r.answers, a.taken = [] ∨ a.result = .ok (Int32.ofNat a.taken.length)

/-- Some contents agree with the record. -/
def Balanced (r : RingTrace) (s : RingSite) (lost : UInt32) : Prop :=
  ∃ b published deferred kept waiting, r.Follows s lost b published deferred kept waiting

variable {r : RingTrace} {s : RingSite} {lost : UInt32} {b : RingBody}
  {published deferred : List Entry} {kept waiting : List Completion}

/-- A step adds its entries behind those pushed, or fails and changes nothing. -/
theorem Follows.submission (hs : s.Sound)
    (hr : r.Follows s lost b published deferred kept waiting) (step : SubmissionStep) :
    (r.move (.submission step)).Balanced s lost := by
  have hfind := Sys.ofExcept_ok (Ring.submission_eq hr.body_eq) r.host
  by_cases hroom : published.length + deferred.length + step.entries.length ≤
      s.submission.entries.toNat
  · obtain ⟨reply, q, m, hperform, hcarries, hoverflow⟩ := hr.carries.submission_ok hs step hroom
    simp only [move, Sys.bind_ok hfind, hperform]
    refine ⟨{ b with sq := q },
      if step.publishes then published ++ deferred ++ step.entries else published,
      if step.publishes then [] else deferred ++ step.entries, kept, waiting, ?_⟩
    exact {
      hr with
      body_eq := Ring.body_withSubmission hr.body_eq q
      carries := hcarries
      pushed_eq := by
        simp only
        split
        · simp [hr.pushed_eq, served]
        · simp [hr.pushed_eq, served]
      overflow_eq := hoverflow.trans hr.overflow_eq }
  · have hperform := hr.carries.submission_full step (Nat.lt_of_not_le hroom)
    simp only [move, Sys.bind_ok hfind, hperform]
    exact ⟨b, published, deferred, kept, waiting, hr⟩

/-- A step hands over the oldest completions that wait. -/
theorem Follows.completion (hs : s.Sound)
    (hr : r.Follows s lost b published deferred kept waiting) (step : CompletionStep) :
    (r.move (.completion step)).Balanced s lost := by
  have hfind := Sys.ofExcept_ok (Ring.completion_eq hr.body_eq) r.host
  obtain ⟨reply, q, m, hperform, htaken, hcarries, hoverflow⟩ := hr.carries.completion_ok hs step
  simp only [move, Sys.bind_ok hfind, hperform]
  refine ⟨{ b with cq := q }, published, deferred,
    if step.publishes then [] else kept ++ waiting.take step.demand, waiting.drop step.demand, ?_⟩
  exact {
    hr with
    body_eq := Ring.body_withCompletion hr.body_eq q
    carries := hcarries
    posted_eq := by
      change r.served.posted = r.returned ++ reply.taken ++ waiting.drop step.demand
      rw [hr.posted_eq, htaken, List.append_assoc, List.take_append_drop]
    overflow_eq := hoverflow.trans hr.overflow_eq }

/-- What a call took off the queue comes behind what was served before. -/
theorem served_call (r : RingTrace) (act : Sys Int32) :
    (r.call act).served = r.served ++
      r.host.kernel.postings (r.host.kernel.passed (Sys.after act r.host).kernel) := by
  simp [served, call]

/-- A call adds what it took to what was taken before, and it gave the number. -/
theorem Follows.call {act : Sys Int32} {taken published' deferred' : List Entry} (hs : s.Sound)
    (hr : r.Follows s lost b published deferred kept waiting)
    (hanswer : taken = [] ∨ Sys.result act r.host = .ok (Int32.ofNat taken.length))
    (htook : s.Took b r.host.kernel (Sys.after act r.host).kernel published deferred kept waiting
      taken published' deferred')
    (hwork : Sys.Keeps Host.queueWork (fun _ => True) act) : (r.call act).Balanced s lost := by
  have hserved := r.served_call act
  rw [htook.passed_eq hs hr.carries] at hserved
  refine ⟨b, published', deferred', kept,
    waiting ++ Served.posted (r.host.kernel.postings taken), ?_⟩
  constructor
  case body_eq => exact hr.body_eq
  case admits => exact ((hwork r.host).1.admits_eq b.fd).trans hr.admits
  case carries => exact htook.carries
  case pushed_eq =>
    rw [hserved, Served.entries_append, Kernel.entries_postings, List.append_assoc, ← htook.split]
    exact hr.pushed_eq
  case posted_eq =>
    rw [hserved, Served.posted_append, hr.posted_eq, List.append_assoc]
    rfl
  case overflow_eq =>
    rw [hserved, Served.refused_append, add_ofNat_add, ← hr.overflow_eq]
    exact htook.overflow_eq
  case answers_ok =>
    intro a ha
    rcases List.mem_append.mp ha with ha | ha
    · exact hr.answers_ok a ha
    · rw [List.mem_singleton.mp ha, htook.passed_eq hs hr.carries]
      refine hanswer.imp (fun hnone => ?_) fun hcount => ?_
      · rw [hnone]
        rfl
      · rw [Kernel.length_postings]
        exact hcount

/-- Submitting publishes, and the kernel may take entries. -/
theorem Follows.submit (hs : s.Sound)
    (hr : r.Follows s lost b published deferred kept waiting) (want : UInt32)
    (mask? : Option UInt64) : (r.move (.submit want mask?)).Balanced s lost := by
  have hact := Ring.submit_eq hr.body_eq want mask? r.host
  obtain ⟨taken, published', deferred', hanswer, htook⟩ :=
    hr.carries.took_submit hs b.fd r.ring.setupFlags want mask?
  rw [← Sys.result_congr hact] at hanswer
  rw [← Sys.after_congr hact] at htook
  exact hr.call hs hanswer htook
    ((Sys.Keeps.found r.ring.submitter).bind fun s _ => s.keeps_submit want mask?)

/-- Entering the kernel with any arguments may take entries. -/
theorem Follows.enter (hs : s.Sound)
    (hr : r.Follows s lost b published deferred kept waiting)
    (toSubmit minComplete flags : UInt32) (mask? : Option UInt64) :
    (r.move (.enter toSubmit minComplete flags mask?)).Balanced s lost := by
  have hact := Ring.enter_eq hr.body_eq toSubmit minComplete flags mask? r.host
  obtain ⟨taken, published', hanswer, htook⟩ :=
    hr.carries.took_enter hs ⟨b.fd, toSubmit, minComplete, flags, mask?⟩
  rw [← Sys.result_congr hact] at hanswer
  rw [← Sys.after_congr hact] at htook
  exact hr.call hs hanswer htook
    ((Sys.Keeps.found r.ring.submitter).bind fun _ _ => .enter _)

/-- How later calls fare does not matter. -/
theorem Follows.work {step : KernelStep}
    (hr : r.Follows s lost b published deferred kept waiting)
    (hmemory : (step.work r.host.kernel).2.memory = r.host.kernel.memory)
    (hgranted : (step.work r.host.kernel).2.granted = r.host.kernel.granted)
    (hmapping : ∀ area, (step.work r.host.kernel).2.mapping? area = r.host.kernel.mapping? area)
    (hadmits : (step.work r.host.kernel).2.admits b.fd = r.host.kernel.admits b.fd) :
    (r.work step).Balanced s lost := by
  refine ⟨b, published, deferred, kept, waiting, ?_⟩
  exact {
    hr with
    admits := hadmits.trans hr.admits
    carries := hr.carries.congr_kernel hmemory hgranted hmapping
    overflow_eq := by
      simp only [RingTrace.work, hmemory]
      exact hr.overflow_eq }

/-- Every move keeps the balance. -/
theorem Balanced.move (hs : s.Sound) (hr : r.Balanced s lost) (move : RingMove) :
    (r.move move).Balanced s lost := by
  obtain ⟨b, published, deferred, kept, waiting, hr⟩ := hr
  cases move with
  | submission step => exact hr.submission hs step
  | completion step => exact hr.completion hs step
  | submit want mask? => exact hr.submit hs want mask?
  | enter toSubmit minComplete flags mask? => exact hr.enter hs toSubmit minComplete flags mask?
  | setAccept limit? => exact hr.work rfl rfl (fun area => by cases area <;> rfl) rfl
  | scriptEnter result => exact hr.work rfl rfl (fun area => by cases area <;> rfl) rfl

/-- The balance holds after any moves. -/
theorem Balanced.run (hs : s.Sound) (hr : r.Balanced s lost) (moves : List RingMove) :
    (r.run moves).Balanced s lost :=
  List.foldlRecOn (motive := (Balanced · s lost)) moves _ hr fun _ hr move _ => hr.move hs move

/-! ### One more call -/

/-- The record tells what a call took and gave. -/
theorem Follows.takes {move : RingMove} {act : Sys Int32} {taken published' deferred' : List Entry}
    (hs : s.Sound) (hr : r.Follows s lost b published deferred kept waiting)
    (hmove : r.move move = r.call act)
    (hanswer : Sys.result act r.host = .ok (Int32.ofNat taken.length))
    (htook : s.Took b r.host.kernel (Sys.after act r.host).kernel published deferred kept waiting
      taken published' deferred') : r.Takes move taken := by
  rw [Takes, hmove, RingTrace.call, hanswer, htook.passed_eq hs hr.carries]

/-- What is seen of an open ring agrees with the record. -/
theorem Follows.conserves (hs : s.Sound)
    (hr : r.Follows s lost b published deferred kept waiting) : r.Conserves b lost := by
  obtain ⟨hwaiting, hhidden, hreadable, hsqLen, hcqLen, hoverflow⟩ := hr.carries.seen hs
  constructor
  case pushed_eq => rw [hwaiting, hhidden, hr.pushed_eq]
  case posted_eq => rw [hreadable, hr.posted_eq]
  case length_eq =>
    have hcount := congrArg List.length hr.pushed_eq
    have hfound := congrArg List.length hr.posted_eq
    have htotal := Served.length_eq r.served
    rw [hsqLen, hcqLen]
    simp only [List.length_append, Served.length_entries] at hcount hfound
    omega
  case overflow_eq => exact hoverflow.trans hr.overflow_eq
  case answers_ok => exact hr.answers_ok
  case enter_takes =>
    intro hscript toSubmit minComplete flags mask?
    rw [hwaiting]
    have hact := Ring.enter_eq hr.body_eq toSubmit minComplete flags mask? r.host
    obtain ⟨hresult, htook⟩ := hr.carries.enter_takes hs
      ⟨b.fd, toSubmit, minComplete, flags, mask?⟩ hr.admits hscript
    rw [← Sys.result_congr hact] at hresult
    rw [← Sys.after_congr hact] at htook
    exact hr.takes hs rfl hresult htook
  case submit_takes =>
    intro hscript want mask? hcall
    rw [hwaiting, hhidden]
    have hact := Ring.submit_eq hr.body_eq want mask? r.host
    obtain ⟨hresult, rest, htook⟩ := hr.carries.submit_takes hs mask? hcall hr.admits hscript
    rw [← Sys.result_congr hact] at hresult
    rw [← Sys.after_congr hact] at htook
    exact hr.takes hs rfl hresult htook

end RingTrace

namespace RingSite

variable {s : RingSite} {ring : Ring} {h : Host}

/-- **A ring loses and invents nothing.**  Open a ring and make any moves.  The
ring is still open.  The entries taken, those published and those not published
are the entries pushed in order, so those taken are the oldest ones.  The
completions given out and those to be read are those of the entries that found
room, in order.  Each entry pushed waits, or its completion was given out, or
waits, or was refused.  The overflow word went up by the number refused.  Each
call to submit or to enter that took entries gave their number, and if no result
is scripted the next call takes all that it can. -/
theorem run_conserves (hopen : s.Opened ring h) (moves : List RingMove) :
    let r := RingTrace.run { ring, host := h } moves
    ∃ b, r.ring.body? = some b ∧
      r.Conserves b (s.completion.word h.kernel.memory .overflow) := by
  intro r
  obtain ⟨b₀, hbody₀, hc₀, hadmits⟩ := Carries.ofOpened hopen
  have hstart : RingTrace.Follows { ring, host := h } s
      (s.completion.word h.kernel.memory .overflow) b₀ [] [] [] [] := {
    body_eq := hbody₀
    admits := hadmits
    carries := hc₀
    pushed_eq := rfl
    posted_eq := rfl
    overflow_eq := by simp [RingTrace.served, Served.refused]
    answers_ok := fun a ha => by cases ha }
  have hr : r.Balanced s (s.completion.word h.kernel.memory .overflow) :=
    RingTrace.Balanced.run hopen.sound ⟨_, _, _, _, _, hstart⟩ moves
  obtain ⟨b, published, deferred, kept, waiting, hr⟩ := hr
  exact ⟨b, hr.body_eq, hr.conserves hopen.sound⟩

/-- One call takes two of three entries, one fails, and one takes the third entry.  Its
completion finds no room, since no slot was given back. -/
def smallTrace : RingTrace :=
  RingTrace.run { ring := smallRing, host := smallHost }
    [.submission (.pushAll [.make 0 0 7, .make 9 0 8]), .submission (.pushDeferred (.make 0 0 9)),
      .setAccept (some 2), .submit 0 none, .completion .next, .scriptEnter (-11), .submit 1 none,
      .enter 5 0 0 none, .submission (.pushDeferred (.make 0 0 10))]

/-- Three entries are taken and a fourth one waits.  Of their completions one was given
out, one waits and one was refused. -/
theorem run_conserves_small :
    small.Opened smallRing smallHost ∧
      (∃ b, smallTrace.ring.body? = some b ∧
        smallTrace.Conserves b (small.completion.word smallHost.kernel.memory .overflow) ∧
        b.sq.waiting smallTrace.host.kernel ++ b.sq.hidden smallTrace.host.kernel =
          [.make 0 0 10] ∧
        b.cq.readable smallTrace.host.kernel.memory = [⟨8, -22, 0⟩]) ∧
      smallTrace.returned = [⟨7, 0, 0⟩] ∧
      smallTrace.answers = [⟨[(.make 0 0 7, true), (.make 9 0 8, true)], .ok 2⟩,
        ⟨[], .error (.enterFailed ⟨11⟩)⟩, ⟨[(.make 0 0 9, false)], .ok 1⟩] := by
  have hpushed : smallTrace.pushed = smallTrace.served.entries ++ [.make 0 0 10] := by
    decide +kernel
  have hposted : smallTrace.served.posted = smallTrace.returned ++ [⟨8, -22, 0⟩] := by
    decide +kernel
  have hrun : ∃ b, smallTrace.ring.body? = some b ∧
      smallTrace.Conserves b (small.completion.word smallHost.kernel.memory .overflow) := by
    rw [smallTrace]
    exact run_conserves opened_small _
  obtain ⟨b, hbody, hconserves⟩ := hrun
  refine ⟨opened_small, ⟨b, hbody, hconserves, ?_, ?_⟩, by decide +kernel, by decide +kernel⟩
  · exact List.append_cancel_left (hconserves.pushed_eq.trans hpushed)
  · exact List.append_cancel_left (hconserves.posted_eq.trans hposted)

end RingSite

end IoRing
