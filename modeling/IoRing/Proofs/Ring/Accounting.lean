import IoRing.Proofs.Ring.Taking
import IoRing.Session.KernelStep
import Mathlib.Algebra.Ring.Int.Defs

/-!
# Submitting accounts for every entry

Without a poll thread a submit publishes the tail and enters the kernel for all
that is pending.  The kernel takes some of the oldest entries and answers how
many, or it refuses the call and takes none.  Nothing is ever taken back: the
head and the private tail alone say what is pending, whatever calls failed.

`run_accounts` says so after every run of pushes and submits, with any limits
and failures between.  The entries taken and those pending are the entries
pushed, in order, and the sum of the answers is the number taken.  A submit that
fails only publishes.  So after failures the next submit asks for all that was
pending before and all that was pushed since.
-/

namespace IoRing

/-! ## One enter call -/

namespace Kernel

/-- The error of the next enter call, if it fails. -/
def enterFailure? (k : Kernel) (fd : Int32) : Option Errno :=
  if k.admits fd then
    match k.enterScript with
    | n :: _ => if n < 0 then some ⟨n.natAbs⟩ else none
    | [] => none
  else some .badDescriptor

/-- The kernel after an enter call failed. -/
def enterFailed (k : Kernel) (fd : Int32) : Kernel :=
  if k.admits fd then { k with enterScript := k.enterScript.tail } else k

@[simp] theorem memory_enterFailed (k : Kernel) (fd : Int32) :
    (k.enterFailed fd).memory = k.memory := by
  unfold enterFailed
  split <;> rfl

@[simp] theorem granted_enterFailed (k : Kernel) (fd : Int32) :
    (k.enterFailed fd).granted = k.granted := by
  unfold enterFailed
  split <;> rfl

@[simp] theorem mapping?_enterFailed (k : Kernel) (fd : Int32) (area : Area) :
    (k.enterFailed fd).mapping? area = k.mapping? area := by
  unfold enterFailed
  split <;> cases area <;> rfl

/-- A failed call adds nothing to the script. -/
theorem enterScript_enterFailed (k : Kernel) (fd : Int32) :
    (k.enterFailed fd).enterScript ⊆ k.enterScript := by
  unfold enterFailed
  split
  · exact (List.tail_sublist _).subset
  · exact List.Subset.refl _

/-- A call that does not fail is on a descriptor that the kernel admits. -/
theorem admits_of_enterFailure?_eq_none {k : Kernel} {fd : Int32}
    (hnone : k.enterFailure? fd = none) : k.admits fd = true := by
  unfold enterFailure? at hnone
  split at hnone
  · assumption
  · cases hnone

end Kernel

namespace Sys

variable {call : EnterCall} {h : Host}

/-- A failed call is noted and changes nothing but the results to come. -/
theorem enter_failed {e : Errno} (hfails : h.kernel.enterFailure? call.fd = some e) :
    enter call h = .error (.enterFailed e)
      { h with kernel := h.kernel.enterFailed call.fd
               calls := h.calls ++ [.enter call (-e.code)] } := by
  unfold Kernel.enterFailure? at hfails
  cases hadmits : h.kernel.admits call.fd with
  | false =>
    simp only [hadmits, Bool.false_eq_true, if_false] at hfails
    cases hfails
    rw [enter, bind_error (startEnter_refused hadmits), Kernel.enterFailed, hadmits]
    rfl
  | true =>
    simp only [hadmits, if_true] at hfails
    split at hfails
    · next n script hscript =>
      by_cases hn : n < 0
      · rw [if_pos hn] at hfails
        cases hfails
        have hserve : h.kernel.serve call.toSubmit =
            (.error ⟨n.natAbs⟩, { h.kernel with enterScript := script }) := by
          unfold Kernel.serve
          rw [hscript]
          exact Prod.ext (if_pos hn) rfl
        rw [enter_admitted hadmits, hserve, Kernel.enterFailed, if_pos hadmits, hscript]
        rfl
      · rw [if_neg hn] at hfails
        cases hfails
    · cases hfails

end Sys

/-- Without a poll thread the kernel is always entered, for all that is pending. -/
theorem Submitter.submit_eq (s : Submitter) (want : UInt32) (mask? : Option UInt64) (h : Host)
    (hpoll : hasBits s.setupFlags SetupFlag.sqPoll = false) :
    s.submit want mask? h =
      Sys.enter ⟨s.fd, s.queue.len (s.queue.publish h.kernel.memory), want,
          if 0 < want then EnterFlag.getEvents else 0, mask?⟩
        (h.withMemory (s.queue.publish h.kernel.memory)) := by
  rw [submit, Sys.bind_ok (prepare_eq s want h), EnterRequest.decide, hpoll]
  rfl

/-- The entries pushed and not taken, oldest first. -/
def SubmissionQueue.pending (q : SubmissionQueue) (k : Kernel) : List Entry :=
  q.waiting k ++ q.hidden k

namespace RingSite.Carries

variable {s : RingSite} {b : RingBody} {k : Kernel} {published deferred : List Entry}
  {kept waiting : List Completion}

/-- Serving an enter call that does not fail takes as many of the oldest
published entries as it answers. -/
theorem serve_counts (hs : s.Sound) (hc : s.Carries b k published deferred kept waiting)
    (fd : Int32) (hnone : k.enterFailure? fd = none) (hscript : ∀ n ∈ k.enterScript, n ≤ 0)
    (toSubmit : UInt32) :
    ∃ taken rest, (k.serve toSubmit).1 = .ok taken.length ∧
      (k.serve toSubmit).2.enterScript ⊆ k.enterScript ∧
      s.Took b k (k.serve toSubmit).2 published deferred kept waiting taken rest deferred := by
  cases hcase : k.enterScript with
  | nil =>
    obtain ⟨m, hserve, htook⟩ := hc.took_unscripted hs hcase toSubmit rfl
    rw [hserve]
    exact ⟨_, _, rfl, hcase ▸ List.Subset.refl _, htook⟩
  | cons n script =>
    -- A scripted result that is no error says that nothing was taken.
    have hzero : n = 0 := by
      have hadmits := Kernel.admits_of_enterFailure?_eq_none hnone
      simp only [Kernel.enterFailure?, hadmits, if_true, hcase] at hnone
      have hle := hscript n (hcase ▸ List.mem_cons_self)
      split at hnone
      · cases hnone
      · omega
    have hserve : k.serve toSubmit = (.ok 0, { k with enterScript := script }) := by
      unfold Kernel.serve
      rw [hcase, hzero]
      rfl
    rw [hserve]
    exact ⟨[], published, rfl, List.subset_cons_self n script,
      hc.took_congr rfl rfl fun area => by cases area <;> rfl⟩

/-- What is pending is what was published and what was not. -/
theorem pending_eq (hs : s.Sound) (hc : s.Carries b k published deferred kept waiting) :
    b.sq.pending k = published ++ deferred := by
  obtain ⟨hwaiting, hhidden, -⟩ := hc.seen hs
  exact congrArg₂ _ hwaiting hhidden

/-- A ring is small enough for its counts to be signed numbers. -/
theorem toInt_ofNat (hsize : s.submission.entries.toNat ≤ 2 ^ 24)
    (hc : s.Carries b k published deferred kept waiting) {taken rest : List Entry}
    (hsplit : published ++ deferred = taken ++ rest) :
    (Int32.ofNat taken.length).toInt = taken.length := by
  have hle := hc.submission.length_le
  have hlength := congrArg List.length hsplit
  simp only [List.length_append] at hlength
  exact Int32.toInt_ofNat_of_lt (by omega)

variable {h : Host} {fd : Int32} {setupFlags : UInt32}

/-- A submit whose call fails has published the tail and done nothing else. -/
theorem submit_failed (hs : s.Sound) (hc : s.Carries b h.kernel published deferred kept waiting)
    (hpoll : hasBits setupFlags SetupFlag.sqPoll = false) {e : Errno}
    (hfails : h.kernel.enterFailure? fd = some e) (want : UInt32) (mask? : Option UInt64) :
    (⟨fd, setupFlags, b.sq⟩ : Submitter).submit want mask? h =
        .error (.enterFailed e)
          { h with
            kernel := (h.kernel.withMemory (b.sq.publish h.kernel.memory)).enterFailed fd
            calls := h.calls ++ [.enter ⟨fd, b.sq.len h.kernel.memory, want,
              if 0 < want then EnterFlag.getEvents else 0, mask?⟩ (-e.code)] } ∧
      s.Took b h.kernel ((h.kernel.withMemory (b.sq.publish h.kernel.memory)).enterFailed fd)
        published deferred kept waiting [] (published ++ deferred) [] := by
  obtain ⟨hcarries, -, -⟩ := hc.publish hs
  refine ⟨?_, hc.took_publish hs (hcarries.took_congr (by simp) (by simp) (by simp))⟩
  rw [Submitter.submit_eq _ _ _ _ hpoll, hc.len_publish hs]
  exact Sys.enter_failed (h := h.withMemory (b.sq.publish h.kernel.memory)) hfails

/-- Any other submit takes as many of the oldest entries as it answers. -/
theorem submit_ok (hs : s.Sound) (hc : s.Carries b h.kernel published deferred kept waiting)
    (hpoll : hasBits setupFlags SetupFlag.sqPoll = false)
    (hnone : h.kernel.enterFailure? fd = none) (hscript : ∀ n ∈ h.kernel.enterScript, n ≤ 0)
    (want : UInt32) (mask? : Option UInt64) :
    ∃ taken rest h', (⟨fd, setupFlags, b.sq⟩ : Submitter).submit want mask? h =
        .ok (Int32.ofNat taken.length) h' ∧
      h'.calls = h.calls ++ [.enter ⟨fd, b.sq.len h.kernel.memory, want,
        if 0 < want then EnterFlag.getEvents else 0, mask?⟩ taken.length] ∧
      h'.kernel.enterScript ⊆ h.kernel.enterScript ∧
      s.Took b h.kernel h'.kernel published deferred kept waiting taken rest [] := by
  obtain ⟨hcarries, -, -⟩ := hc.publish hs
  have hadmits := Kernel.admits_of_enterFailure?_eq_none hnone
  obtain ⟨taken, rest, hresult, hsubset, htook⟩ :=
    hcarries.serve_counts hs fd hnone hscript (b.sq.len h.kernel.memory)
  refine ⟨taken, rest,
    { h with
      kernel := ((h.kernel.withMemory (b.sq.publish h.kernel.memory)).serve
        (b.sq.len h.kernel.memory)).2
      calls := h.calls ++ [.enter ⟨fd, b.sq.len h.kernel.memory, want,
        if 0 < want then EnterFlag.getEvents else 0, mask?⟩ taken.length] },
    ?_, rfl, hsubset, hc.took_publish hs htook⟩
  rw [Submitter.submit_eq _ _ _ _ hpoll, hc.len_publish hs, Sys.enter_admitted hadmits]
  change Sys.returned _ (Kernel.serve (h.kernel.withMemory _) _).1
    { h with kernel := _, calls := h.calls ++ [.enter _ (CallResult.code
      (Kernel.serve (h.kernel.withMemory _) _).1)] } = _
  rw [hresult]
  rfl

end RingSite.Carries

/-! ## Runs -/

/-- A move of a process that pushes and submits, or a change to how later enter
calls fare. -/
inductive SubmitMove where
  /-- A step on the submission queue. -/
  | push (step : SubmissionStep)
  /-- Submit and wait, with any descriptor. -/
  | submit (fd : Int32) (want : UInt32) (mask? : Option UInt64)
  /-- Limit the entries that one enter call takes. -/
  | setAccept (limit? : Option Nat)
  /-- Let a later enter call fail. -/
  | failNext (error : Errno)

/-- A submission queue on a host, and what happened to it so far. -/
structure SubmitTrace where
  setupFlags : UInt32
  queue : SubmissionQueue
  host : Host
  /-- The entries of the steps that succeeded, in order. -/
  pushed : List Entry := []
  /-- The entries in the slots that the head passed, in order. -/
  taken : List Entry := []
  /-- What the submits that succeeded gave. -/
  returned : List Int32 := []

namespace SubmitTrace

def submit (r : SubmitTrace) (fd : Int32) (want : UInt32) (mask? : Option UInt64) : Sys Int32 :=
  (⟨fd, r.setupFlags, r.queue⟩ : Submitter).submit want mask?

/-- The entries pushed and not taken. -/
abbrev pending (r : SubmitTrace) : List Entry := r.queue.pending r.host.kernel

def work (r : SubmitTrace) (step : KernelStep) : SubmitTrace :=
  { r with host := { r.host with kernel := (step.work r.host.kernel).2 } }

/-- Make a move and record what came of it. -/
def move (r : SubmitTrace) : SubmitMove → SubmitTrace
  | .push step =>
      match step.perform r.queue r.host with
      | .ok (_, queue) host => { r with queue, host, pushed := r.pushed ++ step.entries }
      | .error _ host => { r with host }
  | .submit fd want mask? =>
      match r.submit fd want mask? r.host with
      | .ok n host =>
          { r with host
                   taken := r.taken ++ r.host.kernel.passed host.kernel
                   returned := r.returned ++ [n] }
      | .error _ host => { r with host, taken := r.taken ++ r.host.kernel.passed host.kernel }
  | .setAccept limit? => r.work (.setAccept limit?)
  | .failNext error => r.work (.scriptEnter (-error.code))

/-- Make moves one after the other. -/
def run (r : SubmitTrace) (moves : List SubmitMove) : SubmitTrace := moves.foldl move r

/-- The enter call of a submit. -/
def request (r : SubmitTrace) (fd : Int32) (want : UInt32) (mask? : Option UInt64) : EnterCall :=
  ⟨fd, r.queue.len r.host.kernel.memory, want, if 0 < want then EnterFlag.getEvents else 0, mask?⟩

/-- What one more submit does.  It asks for all that is pending.  If it fails it
publishes the tail and changes nothing else.  Otherwise it takes as many of the
oldest entries as it gives. -/
def Accounts (r : SubmitTrace) (s : RingSite) (fd : Int32) (want : UInt32)
    (mask? : Option UInt64) : Prop :=
  let k := r.host.kernel
  let call := r.request fd want mask?
  call.toSubmit.toNat = r.pending.length ∧
  match k.enterFailure? fd with
  | some e =>
      let k' := (k.withMemory (r.queue.publish k.memory)).enterFailed fd
      r.submit fd want mask? r.host =
          .error (.enterFailed e)
            { r.host with kernel := k', calls := r.host.calls ++ [.enter call (-e.code)] } ∧
        SameOutside [s.submission.place .tail] k.memory k'.memory ∧
        r.queue.publishedTail k'.memory = r.queue.localTail ∧
        r.queue.head k'.memory = r.queue.head k.memory ∧ r.queue.pending k' = r.pending
  | none =>
      ∃ n h', r.submit fd want mask? r.host = .ok n h' ∧
        h'.calls = r.host.calls ++ [.enter call n.toInt] ∧
        0 ≤ n.toInt ∧ n.toInt.toNat ≤ r.pending.length ∧
        k.passed h'.kernel = r.pending.take n.toInt.toNat ∧
        r.queue.pending h'.kernel = r.pending.drop n.toInt.toNat ∧
        (r.queue.len h'.kernel.memory).toNat + n.toInt.toNat = (r.queue.len k.memory).toNat

/-- The record agrees with what the ring carries. -/
structure Follows (r : SubmitTrace) (s : RingSite) (b : RingBody)
    (published deferred : List Entry) (kept waiting : List Completion) : Prop where
  carries : s.Carries { b with sq := r.queue } r.host.kernel published deferred kept waiting
  pushed : r.pushed = r.taken ++ (published ++ deferred)
  counted : (r.returned.map Int32.toInt).sum = r.taken.length
  polled : hasBits r.setupFlags SetupFlag.sqPoll = false
  script : ∀ n ∈ r.host.kernel.enterScript, n ≤ 0

variable {r : SubmitTrace} {s : RingSite} {b : RingBody} {published deferred : List Entry}
  {kept waiting : List Completion}

namespace Follows

/-- Pending are the entries published, then those deferred. -/
theorem pending_eq (hs : s.Sound) (hr : r.Follows s b published deferred kept waiting) :
    r.pending = published ++ deferred := by
  have hpending := hr.carries.pending_eq hs
  exact hpending

/-- The entries taken and those pending are the entries pushed. -/
theorem split (hs : s.Sound) (hr : r.Follows s b published deferred kept waiting) :
    r.taken ++ r.pending = r.pushed := by
  rw [hr.pending_eq hs, hr.pushed]

/-- Where the invariant holds, the next submit answers for what it takes, or fails
and takes nothing. -/
theorem accounts (hs : s.Sound) (hsize : s.submission.entries.toNat ≤ 2 ^ 24)
    (hr : r.Follows s b published deferred kept waiting) (fd : Int32) (want : UInt32)
    (mask? : Option UInt64) : r.Accounts s fd want mask? := by
  have hc := hr.carries
  have hpending := hr.pending_eq hs
  obtain ⟨-, -, -, hlen, -⟩ := hc.seen hs
  refine ⟨?_, ?_⟩
  · rw [hpending, List.length_append]
    exact hlen
  simp only
  split
  · next e hfails =>
    obtain ⟨hsubmit, htook⟩ := hc.submit_failed hs hr.polled hfails want mask?
    obtain ⟨-, hhead, -⟩ := hc.publish hs
    refine ⟨hsubmit, ?_, ?_, ?_, ?_⟩
    · rw [Kernel.memory_enterFailed]
      have hsame := SubmissionSite.Carries.sameOutside_publish s.submission
        r.host.kernel.memory r.queue.localTail
      rw [← hc.sq_eq] at hsame
      exact hsame
    · rw [Kernel.memory_enterFailed]
      exact r.queue.publishedTail_publish r.host.kernel.memory
    · rw [Kernel.memory_enterFailed]
      have hq : r.queue = s.submission.queue r.queue.localTail := hc.sq_eq
      rw [hq]
      rw [hq] at hhead
      exact hhead
    · have hkept := htook.carries.pending_eq hs
      rw [List.append_nil] at hkept
      rw [hpending]
      exact hkept
  · next hnone =>
    obtain ⟨taken, rest, h', hsubmit, hcalls, -, htook⟩ :=
      hc.submit_ok hs hr.polled hnone hr.script want mask?
    have hcount := hc.toInt_ofNat hsize htook.split
    obtain ⟨-, -, -, hlen', -⟩ := htook.carries.seen hs
    have hsplit : published ++ deferred = taken ++ rest := by simpa using htook.split
    have hlength := congrArg List.length hsplit
    simp only [List.length_append] at hlength
    refine ⟨_, h', hsubmit, ?_, ?_, ?_, ?_, ?_, ?_⟩
    · rw [hcount]
      exact hcalls
    · rw [hcount]
      exact Int.natCast_nonneg _
    all_goals rw [hcount, Int.toNat_natCast]
    · rw [hpending, List.length_append]
      omega
    · rw [htook.passed_eq hs hc, hpending, hsplit, List.take_left]
    · have hkept := htook.carries.pending_eq hs
      rw [List.append_nil] at hkept
      rw [hpending, hsplit, List.drop_left]
      exact hkept
    · simp only [List.length_nil] at hlen'
      simp only at hlen
      rw [hlen', hlen]
      omega

/-- A step on the submission queue puts its entries behind those pending, or
changes nothing. -/
theorem push (hs : s.Sound) (hr : r.Follows s b published deferred kept waiting)
    (step : SubmissionStep) :
    ∃ published' deferred',
      (r.move (.push step)).Follows s b published' deferred' kept waiting := by
  by_cases hroom : published.length + deferred.length + step.entries.length ≤
      s.submission.entries.toNat
  · obtain ⟨reply, q, m, hperform, hc', -⟩ := hr.carries.submission_ok hs step hroom
    simp only [move, hperform]
    refine ⟨_, _, hc', ?_, hr.counted, hr.polled, hr.script⟩
    simp only
    split
    · simp [hr.pushed]
    · simp [hr.pushed]
  · have hperform := hr.carries.submission_full step (Nat.lt_of_not_le hroom)
    simp only [move, hperform]
    exact ⟨published, deferred, hr⟩

/-- A call keeps the record if the kernel took what was answered. -/
theorem took (hs : s.Sound) (hr : r.Follows s b published deferred kept waiting) (h' : Host)
    (answer : List Int32) {taken rest : List Entry}
    (htook : s.Took { b with sq := r.queue } r.host.kernel h'.kernel published deferred kept waiting
      taken rest [])
    (hanswer : (answer.map Int32.toInt).sum = taken.length)
    (hscript : h'.kernel.enterScript ⊆ r.host.kernel.enterScript) :
    Follows { r with host := h'
                     taken := r.taken ++ r.host.kernel.passed h'.kernel
                     returned := r.returned ++ answer }
      s b rest [] kept (waiting ++ Served.posted (r.host.kernel.postings taken)) where
  carries := htook.carries
  pushed := by simp [htook.passed_eq hs hr.carries, hr.pushed, htook.split]
  counted := by simp [htook.passed_eq hs hr.carries, hr.counted, hanswer]
  polled := hr.polled
  script n hn := hr.script n (hscript hn)

/-- A submit takes entries from the front of those pending and leaves the rest.
-/
theorem submit (hs : s.Sound) (hsize : s.submission.entries.toNat ≤ 2 ^ 24)
    (hr : r.Follows s b published deferred kept waiting) (fd : Int32) (want : UInt32)
    (mask? : Option UInt64) :
    ∃ published' deferred' waiting',
      (r.move (.submit fd want mask?)).Follows s b published' deferred' kept waiting' := by
  have hc := hr.carries
  cases hfailure : r.host.kernel.enterFailure? fd with
  | some e =>
    obtain ⟨hsubmit, htook⟩ := hc.submit_failed hs hr.polled hfailure want mask?
    have hfollows := hr.took hs { r.host with
        kernel := (r.host.kernel.withMemory (r.queue.publish r.host.kernel.memory)).enterFailed fd
        calls := r.host.calls ++ [.enter (r.request fd want mask?) (-e.code)] }
      [] htook rfl (Kernel.enterScript_enterFailed _ fd)
    rw [List.append_nil] at hfollows
    simp only [move, SubmitTrace.submit, hsubmit]
    exact ⟨_, _, _, hfollows⟩
  | none =>
    obtain ⟨taken, rest, h', hsubmit, -, hsubset, htook⟩ :=
      hc.submit_ok hs hr.polled hfailure hr.script want mask?
    have hcount := hc.toInt_ofNat hsize htook.split
    simp only [move, SubmitTrace.submit, hsubmit]
    have hanswer : ([Int32.ofNat taken.length].map Int32.toInt).sum = taken.length := by
      rw [List.map_singleton, List.sum_singleton, hcount]
    exact ⟨_, _, _, hr.took hs h' _ htook hanswer hsubset⟩

/-- Work of the kernel that leaves memory, parameters and mappings alone keeps the
invariant. -/
theorem work (hr : r.Follows s b published deferred kept waiting) {step : KernelStep}
    (hmemory : (step.work r.host.kernel).2.memory = r.host.kernel.memory)
    (hgranted : (step.work r.host.kernel).2.granted = r.host.kernel.granted)
    (hmapping : ∀ area, (step.work r.host.kernel).2.mapping? area = r.host.kernel.mapping? area)
    (hscript : ∀ n ∈ (step.work r.host.kernel).2.enterScript, n ≤ 0) :
    (r.work step).Follows s b published deferred kept waiting where
  carries := hr.carries.congr_kernel hmemory hgranted hmapping
  pushed := hr.pushed
  counted := hr.counted
  polled := hr.polled
  script := hscript

/-- Every move keeps the invariant. -/
theorem move (hs : s.Sound) (hsize : s.submission.entries.toNat ≤ 2 ^ 24)
    (hr : r.Follows s b published deferred kept waiting) (move : SubmitMove) :
    ∃ published' deferred' waiting',
      (r.move move).Follows s b published' deferred' kept waiting' := by
  cases move with
  | push step =>
    obtain ⟨published', deferred', hpush⟩ := hr.push hs step
    exact ⟨published', deferred', waiting, hpush⟩
  | submit fd want mask? => exact hr.submit hs hsize fd want mask?
  | setAccept limit? =>
    exact ⟨_, _, _, hr.work rfl rfl (fun area => by cases area <;> rfl) hr.script⟩
  | failNext error =>
    refine ⟨_, _, _, hr.work rfl rfl (fun area => by cases area <;> rfl) fun n hn => ?_⟩
    rcases List.mem_append.mp hn with hn | hn
    · exact hr.script n hn
    · rw [List.mem_singleton.mp hn]
      omega

/-- The invariant holds after any moves. -/
theorem run (hs : s.Sound) (hsize : s.submission.entries.toNat ≤ 2 ^ 24)
    (hr : r.Follows s b published deferred kept waiting) (moves : List SubmitMove) :
    ∃ published' deferred' waiting',
      (r.run moves).Follows s b published' deferred' kept waiting' := by
  refine List.foldlRecOn (motive := fun r : SubmitTrace => ∃ published deferred waiting,
    r.Follows s b published deferred kept waiting) moves _ ⟨_, _, _, hr⟩ ?_
  rintro _ ⟨_, _, _, hr⟩ move -
  exact hr.move hs hsize move

end Follows

/-! ### Later moves -/

/-- A move only adds to the record. -/
theorem move_extends (r : SubmitTrace) (move : SubmitMove) :
    r.pushed <+: (r.move move).pushed ∧ r.taken <+: (r.move move).taken := by
  have hkeep : ∀ es : List Entry, es <+: es := fun es => es.prefix_refl
  cases move with
  | push step =>
    simp only [SubmitTrace.move]
    split
    · exact ⟨List.prefix_append _ _, hkeep _⟩
    · exact ⟨hkeep _, hkeep _⟩
  | submit fd want mask? =>
    simp only [SubmitTrace.move]
    split
    · exact ⟨hkeep _, List.prefix_append _ _⟩
    · exact ⟨hkeep _, List.prefix_append _ _⟩
  | setAccept limit? => exact ⟨hkeep _, hkeep _⟩
  | failNext error => exact ⟨hkeep _, hkeep _⟩

/-- What was pushed and taken is never forgotten. -/
theorem run_extends (r : SubmitTrace) (moves : List SubmitMove) :
    r.pushed <+: (r.run moves).pushed ∧ r.taken <+: (r.run moves).taken := by
  refine List.foldlRecOn (motive := fun t : SubmitTrace => r.pushed <+: t.pushed ∧
    r.taken <+: t.taken) moves _ ⟨r.pushed.prefix_refl, r.taken.prefix_refl⟩ ?_
  rintro t ⟨hpushed, htaken⟩ move -
  obtain ⟨hpushed', htaken'⟩ := t.move_extends move
  exact ⟨hpushed.trans hpushed', htaken.trans htaken'⟩

/-- If no later submit succeeded, all that was pending still is, and what was
pushed since comes after it. -/
theorem Follows.pending_run (hs : s.Sound) (hsize : s.submission.entries.toNat ≤ 2 ^ 24)
    (hr : r.Follows s b published deferred kept waiting) (later : List SubmitMove)
    (hreturned : (r.run later).returned = r.returned) :
    (r.run later).pending = r.pending ++ (r.run later).pushed.drop r.pushed.length := by
  obtain ⟨published', deferred', waiting', hr'⟩ := hr.run hs hsize later
  obtain ⟨⟨added, hpushed⟩, htaken⟩ := r.run_extends later
  have hlength : r.taken.length = (r.run later).taken.length := by
    have hcounted := hr'.counted
    rw [hreturned, hr.counted] at hcounted
    exact Int.ofNat_inj.mp hcounted
  have hsame : r.taken = (r.run later).taken := htaken.eq_of_length hlength
  have hsplit := hr'.split hs
  rw [← hsame, ← hpushed, ← hr.split hs, List.append_assoc] at hsplit
  rw [← hpushed, List.drop_left]
  exact List.append_cancel_left hsplit

end SubmitTrace

/-! ## Accounting -/

namespace RingSite

variable {s : RingSite} {ring : Ring} {h : Host}

/-- **Submitting accounts for every entry.**  Open a ring without a poll thread
and make any moves.  The entries taken and those pending are the entries pushed,
in order, and the answers add up to the number taken.  One more submit, with any
descriptor, does what `SubmitTrace.Accounts` says.  After any moves of which no
submit succeeded, the next submit asks for all that was pending before and all
that was pushed since. -/
theorem run_accounts (hopen : s.Opened ring h)
    (hpoll : hasBits ring.setupFlags SetupFlag.sqPoll = false)
    (hscript : ∀ n ∈ h.kernel.enterScript, n ≤ 0) (moves : List SubmitMove) :
    ∃ b, ring.body? = some b ∧
      let r := SubmitTrace.run ⟨ring.setupFlags, b.sq, h, [], [], []⟩ moves
      r.taken ++ r.pending = r.pushed ∧
      (r.returned.map Int32.toInt).sum = r.taken.length ∧
      (∀ fd want mask?, r.Accounts s fd want mask?) ∧
      ∀ later, (r.run later).returned = r.returned →
        (r.run later).pending = r.pending ++ (r.run later).pushed.drop r.pushed.length ∧
        ∀ fd want mask?, (r.run later).Accounts s fd want mask? := by
  obtain ⟨b, hbody, hc, -⟩ := Carries.ofOpened hopen
  have hstart : SubmitTrace.Follows ⟨ring.setupFlags, b.sq, h, [], [], []⟩ s b [] [] [] [] :=
    ⟨hc, rfl, rfl, hpoll, hscript⟩
  obtain ⟨published, deferred, waiting, hr⟩ := hstart.run hopen.sound hopen.entries_le moves
  refine ⟨b, hbody, hr.split hopen.sound, hr.counted,
    hr.accounts hopen.sound hopen.entries_le, fun later hreturned => ⟨?_, ?_⟩⟩
  · exact hr.pending_run hopen.sound hopen.entries_le later hreturned
  · obtain ⟨_, _, _, hr'⟩ := hr.run hopen.sound hopen.entries_le later
    exact hr'.accounts hopen.sound hopen.entries_le

/-- Two entries are pushed, one submit fails and one has the wrong descriptor.
After one more push, all three entries are asked for. -/
theorem run_accounts_small :
    small.Opened smallRing smallHost ∧
      ∃ b, smallRing.body? = some b ∧
        let r := SubmitTrace.run ⟨smallRing.setupFlags, b.sq, smallHost, [], [], []⟩
          [.push (.pushAll [.make 0 0 7, .make 0 0 8]), .failNext .busy, .submit 3 0 none,
            .submit 9 0 none, .push (.pushDeferred (.make 0 0 9))]
        r.taken ++ r.pending = r.pushed ∧ r.Accounts small 3 0 none := by
  have hscript : smallHost.kernel.enterScript = [] := rfl
  refine ⟨opened_small, ?_⟩
  obtain ⟨b, hbody, hsplit, -, haccounts, -⟩ :=
    run_accounts opened_small (by decide) (by simp [hscript])
      [.push (.pushAll [.make 0 0 7, .make 0 0 8]), .failNext .busy, .submit 3 0 none,
        .submit 9 0 none, .push (.pushDeferred (.make 0 0 9))]
  exact ⟨b, hbody, hsplit, haccounts 3 0 none⟩

end RingSite

end IoRing
