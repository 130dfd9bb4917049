import IoRing.Proofs.Ring.Accounting
import IoRing.Proofs.Twins.Kernels

/-!
# Steps on twin rings

Two computations *run alike* if from related states they end with related results
or with the same error, and again in related states (`RunAlike`).  That is kept by
sequencing (`RunAlike.bind`), so every computation that is built from such parts
runs alike.

On twin hosts this holds of each step on the submission queue, on the completion
queue and towards the kernel.  Their replies are even equal.
-/

namespace IoRing

/-! ## Running alike -/

section

variable {ε σ α β : Type}

/-- Two runs end with related results or with the same error. -/
inductive EndAlike (R : σ → σ → Prop) (P : α → α → Prop) :
    EStateM.Result ε σ α → EStateM.Result ε σ α → Prop where
  | ok {a a' : α} {t t' : σ} (ha : P a a') (ht : R t t') : EndAlike R P (.ok a t) (.ok a' t')
  | error {e : ε} {t t' : σ} (ht : R t t') : EndAlike R P (.error e t) (.error e t')

/-- From related states two computations end alike. -/
def RunAlike (R : σ → σ → Prop) (P : α → α → Prop) (act act' : EStateM ε σ α) : Prop :=
  ∀ t t', R t t' → EndAlike R P (act t) (act' t')

namespace RunAlike

variable {R : σ → σ → Prop} {P : α → α → Prop} {Q : β → β → Prop} {act act' : EStateM ε σ α}

theorem of_pure {a a' : α} (ha : P a a') : RunAlike R P (pure a : EStateM ε σ α) (pure a') :=
  fun _ _ ht => .ok ha ht

theorem of_throw (e : ε) : RunAlike R P (throw e : EStateM ε σ α) (throw e) :=
  fun _ _ ht => .error ht

theorem of_modify {f f' : σ → σ} (hf : ∀ t t', R t t' → R (f t) (f' t')) :
    RunAlike R Eq (modify f : EStateM ε σ PUnit) (modify f') :=
  fun t t' ht => .ok rfl (hf t t' ht)

theorem bind {next next' : α → EStateM ε σ β} (hact : RunAlike R P act act')
    (hnext : ∀ a a', P a a' → RunAlike R Q (next a) (next' a')) :
    RunAlike R Q (act >>= next) (act' >>= next') := by
  intro t t' ht
  have hend := hact t t' ht
  simp only [Bind.bind, EStateM.bind]
  generalize act t = r at hend ⊢
  generalize act' t' = r' at hend ⊢
  cases hend with
  | ok ha hu => exact hnext _ _ ha _ _ hu
  | error hu => exact .error hu

theorem bind_eq {next next' : α → EStateM ε σ β} (hact : RunAlike R Eq act act')
    (hnext : ∀ a, RunAlike R Q (next a) (next' a)) :
    RunAlike R Q (act >>= next) (act' >>= next') :=
  hact.bind fun a _ ha => ha ▸ hnext a

end RunAlike

end

/-! ## Hosts -/

/-- Twin kernels, with the same seen so far. -/
structure Host.Twins (s s' : RingSite) (h h' : Host) : Prop where
  kernel : Kernel.Twins s s' h.kernel h'.kernel
  calls_eq : h'.calls = h.calls
  diagnostics_eq : h'.diagnostics = h.diagnostics

namespace Sys

variable {s s' : RingSite} {α : Type}

theorem ofExcept_twins (r : Except Fault α) :
    RunAlike (Host.Twins s s') Eq (ofExcept r) (ofExcept r) := by
  cases r with
  | ok a => exact .of_pure rfl
  | error f => exact .of_throw f

theorem memory_twins : RunAlike (Host.Twins s s') (s.Alike s') memory memory :=
  fun _ _ hh => .ok hh.kernel.alike hh

theorem setMemory_twins {m m' : Memory} (hm : s.Alike s' m m') :
    RunAlike (Host.Twins s s') Eq (setMemory m) (setMemory m') :=
  .of_modify fun _ _ hh => ⟨hh.kernel.withMemory hm, hh.calls_eq, hh.diagnostics_eq⟩

theorem onKernel_twins {f : Kernel → α × Kernel}
    (hf : ∀ k k', Kernel.Twins s s' k k' →
      (f k').1 = (f k).1 ∧ Kernel.Twins s s' (f k).2 (f k').2) :
    RunAlike (Host.Twins s s') Eq (onKernel f) (onKernel f) := by
  intro h h' hh
  obtain ⟨heq, hkernel⟩ := hf h.kernel h'.kernel hh.kernel
  rw [onKernel_eq, onKernel_eq]
  exact .ok heq.symm ⟨hkernel, hh.calls_eq, hh.diagnostics_eq⟩

theorem note_twins (c : Call) : RunAlike (Host.Twins s s') Eq (note c) (note c) :=
  .of_modify fun _ _ hh => ⟨hh.kernel, congrArg (· ++ [c]) hh.calls_eq, hh.diagnostics_eq⟩

theorem returned_twins (fault : Errno → Fault) (result : CallResult) :
    RunAlike (Host.Twins s s') Eq (returned fault result) (returned fault result) := by
  cases result with
  | ok n => exact .of_pure rfl
  | error e => exact .of_throw (fault e)

theorem enter_twins (call : EnterCall) :
    RunAlike (Host.Twins s s') Eq (enter call) (enter call) := by
  intro h h' hh
  have hadmits' := hh.kernel.admits_eq call.fd
  cases hadmits : h.kernel.admits call.fd with
  | true =>
    obtain ⟨hresult, hkernel⟩ := hh.kernel.serve call.toSubmit
    rw [enter_admitted hadmits, enter_admitted (hadmits'.trans hadmits), hresult, hh.calls_eq]
    exact returned_twins _ _ _ _ ⟨hkernel, rfl, hh.diagnostics_eq⟩
  | false =>
    unfold enter
    rw [bind_error (startEnter_refused hadmits),
      bind_error (startEnter_refused (hadmits'.trans hadmits)), hh.calls_eq]
    exact .error ⟨hh.kernel, rfl, hh.diagnostics_eq⟩

theorem register_twins (fd : Int32) (op : UInt32) (argument : RegisterArgument) (count : UInt32) :
    RunAlike (Host.Twins s s') Eq (register fd op argument count)
      (register fd op argument count) :=
  (onKernel_twins fun _ _ hk => hk.register fd op).bind_eq fun result =>
    (note_twins _).bind_eq fun _ => returned_twins _ result

end Sys

/-! ## The submission queue -/

/-- The queues of twin rings, with the same private tail. -/
def SubmissionQueue.Twins (s s' : RingSite) (q q' : SubmissionQueue) : Prop :=
  ∃ t, q = s.submission.queue t ∧ q' = s'.submission.queue t

namespace RingSite.Alike

variable {s s' : RingSite} {m m' : Memory}

theorem submissionSummary_eq (h : s.Alike s' m m') (ht : s.Twins s') (t : UInt32) :
    (s'.submission.queue t).summary m' = (s.submission.queue t).summary m := by
  have hentries : (s'.submission.queue t).entries = (s.submission.queue t).entries := ht.entries_eq
  have hhead : (s'.submission.queue t).head m' = (s.submission.queue t).head m :=
    h.submission.fieldWord_eq .head rfl
  have htail : (s'.submission.queue t).publishedTail m' = (s.submission.queue t).publishedTail m :=
    h.submission.fieldWord_eq .tail rfl
  have hflags : (s'.submission.queue t).flags m' = (s.submission.queue t).flags m :=
    h.submission.fieldWord_eq .flags rfl
  have hdropped : (s'.submission.queue t).dropped m' = (s.submission.queue t).dropped m :=
    h.submission.fieldWord_eq .dropped rfl
  simp only [SubmissionQueue.summary, SubmissionQueue.len, SubmissionQueue.available,
    SubmissionQueue.isEmpty, SubmissionQueue.isFull, SubmissionQueue.unpublished,
    SubmissionQueue.needWakeup, SubmissionQueue.cqOverflow, hentries, hhead, htail, hflags,
    hdropped]
  rfl

theorem stored (h : s.Alike s' m m') (ht : s.Twins s') (t : UInt32) (e : Entry) :
    s.Alike s' (s.submission.stored m t e) (s'.submission.stored m' t e) := by
  have hslot : slotOf s'.submission.entries t = slotOf s.submission.entries t := by
    rw [ht.entries_eq]
  have hlt := slotOf_lt ht.sound.submission.isRingSize t
  have hsqe : 64 * (slotOf s.submission.entries t).toNat + e.bytes.length ≤
      s.submission.fields.count .sqes := by
    rw [e.length_eq]
    change _ ≤ 64 * s.submission.entries.toNat
    omega
  have hindex : 4 * (slotOf s.submission.entries t).toNat +
      (LittleEndian.encode 4 (slotOf s.submission.entries t).toNat).length ≤
        s.submission.fields.count .array := by
    rw [LittleEndian.length_encode]
    change _ ≤ 4 * s.submission.entries.toNat
    omega
  have hfilled : s.Alike s' (s.submission.filled m t e) (s'.submission.filled m' t e) := by
    have hwrite := h.writeSubmission ht (by decide) hsqe
    simp only [Fields.write, SubmissionSite.fields, Nat.zero_add] at hwrite
    rw [SubmissionSite.filled, SubmissionSite.filled, hslot]
    exact hwrite
  have hstored := hfilled.writeSubmission ht (by decide) hindex
  have hstored' : s'.submission.stored m' t e =
      s'.submission.fields.write (s'.submission.filled m' t e) .array
        (4 * (slotOf s'.submission.entries t).toNat)
        (LittleEndian.encode 4 (slotOf s'.submission.entries t).toNat) := rfl
  rw [hstored', hslot]
  exact hstored

theorem publish (h : s.Alike s' m m') (ht : s.Twins s') (t : UInt32) :
    s.Alike s' ((s.submission.queue t).publish m) ((s'.submission.queue t).publish m') :=
  h.writeSubmission ht (f := .tail) (i := 0) (by decide) (Nat.le_refl 4)

theorem writeSlots (h : s.Alike s' m m') (ht : s.Twins s') (t : UInt32) (es : List Entry) :
    SubmissionQueue.Twins s s' ((s.submission.queue t).writeSlots m es).1
        ((s'.submission.queue t).writeSlots m' es).1 ∧
      s.Alike s' ((s.submission.queue t).writeSlots m es).2
        ((s'.submission.queue t).writeSlots m' es).2 := by
  induction es generalizing m m' t with
  | nil => exact ⟨⟨t, rfl, rfl⟩, h⟩
  | cons e es ih =>
    simp only [SubmissionQueue.writeSlots, SubmissionSite.writeSlot_eq]
    exact ih (h.stored ht t e) (t + 1)

/-- The queue has room on both sides or on none. -/
theorem pushDeferred? (h : s.Alike s' m m') (ht : s.Twins s') (t : UInt32) (e : Entry) :
    Option.Rel (fun p p' => SubmissionQueue.Twins s s' p.1 p'.1 ∧ s.Alike s' p.2 p'.2)
      ((s.submission.queue t).pushDeferred? m e) ((s'.submission.queue t).pushDeferred? m' e) := by
  have hfull := congrArg SubmissionSummary.full (h.submissionSummary_eq ht t)
  change (s'.submission.queue t).isFull m' = (s.submission.queue t).isFull m at hfull
  rw [SubmissionQueue.pushDeferred?, SubmissionQueue.pushDeferred?, hfull]
  split
  · exact .none
  · exact .some ⟨⟨t + 1, rfl, rfl⟩, h.stored ht t e⟩

theorem push? (h : s.Alike s' m m') (ht : s.Twins s') (t : UInt32) (e : Entry) :
    Option.Rel (fun p p' => SubmissionQueue.Twins s s' p.1 p'.1 ∧ s.Alike s' p.2 p'.2)
      ((s.submission.queue t).push? m e) ((s'.submission.queue t).push? m' e) := by
  have hpush := h.pushDeferred? ht t e
  rw [SubmissionQueue.push?, SubmissionQueue.push?]
  generalize (s.submission.queue t).pushDeferred? m e = r at hpush ⊢
  generalize (s'.submission.queue t).pushDeferred? m' e = r' at hpush ⊢
  cases hpush with
  | none => exact .none
  | @some p p' hp =>
    obtain ⟨q, m⟩ := p
    obtain ⟨q', m'⟩ := p'
    obtain ⟨⟨u, rfl, rfl⟩, hm⟩ := hp
    exact .some ⟨⟨u, rfl, rfl⟩, hm.publish ht u⟩

theorem pushAll? (h : s.Alike s' m m') (ht : s.Twins s') (t : UInt32) (es : List Entry) :
    Option.Rel (fun p p' => SubmissionQueue.Twins s s' p.1 p'.1 ∧ s.Alike s' p.2 p'.2)
      ((s.submission.queue t).pushAll? m es) ((s'.submission.queue t).pushAll? m' es) := by
  have havailable := congrArg SubmissionSummary.available (h.submissionSummary_eq ht t)
  change (s'.submission.queue t).available m' = (s.submission.queue t).available m at havailable
  obtain ⟨⟨u, hq, hq'⟩, hm⟩ := h.writeSlots ht t es
  simp only [SubmissionQueue.pushAll?, havailable, hq, hq']
  split
  · exact .none
  · exact .some ⟨⟨u, rfl, rfl⟩, hm.publish ht u⟩

end RingSite.Alike

section

variable {s s' : RingSite}

theorem Sys.ofPush_twins {outcome outcome' : Memory → Option (SubmissionQueue × Memory)}
    (h : ∀ m m', s.Alike s' m m' →
      Option.Rel (fun p p' => SubmissionQueue.Twins s s' p.1 p'.1 ∧ s.Alike s' p.2 p'.2)
        (outcome m) (outcome' m')) :
    RunAlike (Host.Twins s s') (SubmissionQueue.Twins s s') (ofPush outcome) (ofPush outcome') := by
  refine memory_twins.bind fun m m' hm => ?_
  have hpush := h m m' hm
  generalize outcome m = r at hpush ⊢
  generalize outcome' m' = r' at hpush ⊢
  cases hpush with
  | none => exact .of_throw _
  | some hp => exact (setMemory_twins hp.2).bind_eq fun _ => .of_pure hp.1

theorem SubmissionQueue.sync_twins (ht : s.Twins s') (t : UInt32) :
    RunAlike (Host.Twins s s') Eq (s.submission.queue t).sync (s'.submission.queue t).sync :=
  Sys.memory_twins.bind fun _ _ hm => Sys.setMemory_twins (hm.publish ht t)

/-- Every step on the submission queues of twins has the same reply. -/
theorem SubmissionStep.perform_twins (ht : s.Twins s') (step : SubmissionStep)
    {q q' : SubmissionQueue} (hq : SubmissionQueue.Twins s s' q q') :
    RunAlike (Host.Twins s s') (fun r r' => r.1 = r'.1 ∧ SubmissionQueue.Twins s s' r.2 r'.2)
      (step.perform q) (step.perform q') := by
  obtain ⟨t, rfl, rfl⟩ := hq
  cases step with
  | push e =>
    exact (Sys.ofPush_twins fun _ _ hm => hm.push? ht t e).bind fun _ _ hq => .of_pure ⟨rfl, hq⟩
  | pushDeferred e =>
    exact (Sys.ofPush_twins fun _ _ hm => hm.pushDeferred? ht t e).bind fun _ _ hq =>
      .of_pure ⟨rfl, hq⟩
  | pushAll es =>
    exact (Sys.ofPush_twins fun _ _ hm => hm.pushAll? ht t es).bind fun _ _ hq =>
      .of_pure ⟨rfl, hq⟩
  | sync => exact (SubmissionQueue.sync_twins ht t).bind_eq fun _ => .of_pure ⟨rfl, t, rfl, rfl⟩
  | inspect =>
    refine Sys.memory_twins.bind fun m m' hm => .of_pure ⟨?_, t, rfl, rfl⟩
    rw [hm.submissionSummary_eq ht]

end

/-! ## The completion queue -/

/-- The queues of twin rings, with the same private head. -/
def CompletionQueue.Twins (s s' : RingSite) (q q' : CompletionQueue) : Prop :=
  ∃ t, q = s.completion.queue t ∧ q' = s'.completion.queue t

namespace RingSite.Alike

variable {s s' : RingSite} {m m' : Memory}

theorem tail_eq (h : s.Alike s' m m') (t : UInt32) :
    (s'.completion.queue t).tail m' = (s.completion.queue t).tail m :=
  h.completion.fieldWord_eq .tail rfl

theorem completionSummary_eq (h : s.Alike s' m m') (ht : s.Twins s') (t : UInt32) :
    (s'.completion.queue t).summary m' = (s.completion.queue t).summary m := by
  have hentries : (s'.completion.queue t).entries = (s.completion.queue t).entries :=
    ht.cqEntries_eq
  have hhead : (s'.completion.queue t).publishedHead m' = (s.completion.queue t).publishedHead m :=
    h.completion.fieldWord_eq .head rfl
  have hoverflow : (s'.completion.queue t).overflow m' = (s.completion.queue t).overflow m :=
    h.completion.fieldWord_eq .overflow rfl
  simp only [CompletionQueue.summary, CompletionQueue.len, CompletionQueue.isEmpty, hentries, hhead,
    h.tail_eq, hoverflow]
  rfl

theorem completionAt_eq (h : s.Alike s' m m') (ht : s.Twins s') (c : UInt32) :
    s'.completion.completionAt m' c = s.completion.completionAt m c := by
  have hslot : slotOf s'.completion.entries c = slotOf s.completion.entries c :=
    congrArg (slotOf · c) ht.cqEntries_eq
  have hlt := slotOf_lt ht.sound.completion.isRingSize c
  rw [CompletionSite.completionAt, hslot, CompletionSite.completionAt]
  have hword (i : Nat) (hi : i + 4 ≤ 16) :
      m'.word s'.completion.ring.block
          (s'.completion.offsets.cqes.toNat + 16 * (slotOf s.completion.entries c).toNat + i) =
        m.word s.completion.ring.block
          (s.completion.offsets.cqes.toNat + 16 * (slotOf s.completion.entries c).toNat + i) := by
    rw [Nat.add_assoc, Nat.add_assoc]
    refine h.completion.word_eq (f := .cqes) ?_
    change _ ≤ 16 * s.completion.entries.toNat
    omega
  have hfirst := hword 0 (by decide)
  rw [Nat.add_zero, Nat.add_zero] at hfirst
  rw [Completion.load, hfirst, hword 4 (by decide), hword 8 (by decide), hword 12 (by decide)]
  rfl

theorem publishHead (h : s.Alike s' m m') (ht : s.Twins s') (t : UInt32) :
    s.Alike s' ((s.completion.queue t).publish m) ((s'.completion.queue t).publish m') :=
  h.writeCompletion ht (g := .head) (i := 0) (by decide) (Nat.le_refl 4)

theorem next? (h : s.Alike s' m m') (ht : s.Twins s') (t : UInt32) :
    Option.Rel (fun p p' => p.1 = p'.1 ∧ CompletionQueue.Twins s s' p.2 p'.2)
      ((s.completion.queue t).next? m) ((s'.completion.queue t).next? m') := by
  have heq (s : RingSite) (m : Memory) : (s.completion.queue t).next? m =
      if t = (s.completion.queue t).tail m then none
      else some (s.completion.completionAt m t, s.completion.queue (t + 1)) := rfl
  rw [heq, heq, h.tail_eq, h.completionAt_eq ht]
  split
  · exact .none
  · exact .some ⟨rfl, t + 1, rfl, rfl⟩

theorem drain (h : s.Alike s' m m') (ht : s.Twins s') (limit : Nat) {q q' : CompletionQueue}
    (hq : CompletionQueue.Twins s s' q q') :
    (q.drain m limit).1 = (q'.drain m' limit).1 ∧
      CompletionQueue.Twins s s' (q.drain m limit).2 (q'.drain m' limit).2 := by
  induction limit generalizing q q' with
  | zero => exact ⟨rfl, hq⟩
  | succ limit ih =>
    obtain ⟨t, rfl, rfl⟩ := hq
    have hnext := h.next? ht t
    simp only [CompletionQueue.drain]
    generalize (s.completion.queue t).next? m = r at hnext ⊢
    generalize (s'.completion.queue t).next? m' = r' at hnext ⊢
    cases hnext with
    | none => exact ⟨rfl, t, rfl, rfl⟩
    | @some p p' hp =>
      obtain ⟨c, q⟩ := p
      obtain ⟨c', q'⟩ := p'
      obtain ⟨rfl, hq⟩ := hp
      obtain ⟨hitems, hq⟩ := ih hq
      exact ⟨congrArg (c :: ·) hitems, hq⟩

end RingSite.Alike

/-- Every step on the completion queues of twins has the same reply. -/
theorem CompletionStep.perform_twins {s s' : RingSite} (ht : s.Twins s') (step : CompletionStep)
    {q q' : CompletionQueue} (hq : CompletionQueue.Twins s s' q q') :
    RunAlike (Host.Twins s s') (fun r r' => r.1 = r'.1 ∧ CompletionQueue.Twins s s' r.2 r'.2)
      (step.perform q) (step.perform q') := by
  obtain ⟨t, rfl, rfl⟩ := hq
  cases step with
  | next =>
    have hnext : RunAlike (Host.Twins s s')
        (fun r r' => r.1 = r'.1 ∧ CompletionQueue.Twins s s' r.2 r'.2)
        (s.completion.queue t).next (s'.completion.queue t).next := by
      refine Sys.memory_twins.bind fun m m' hm => ?_
      have hnext := hm.next? ht t
      generalize (s.completion.queue t).next? m = r at hnext ⊢
      generalize (s'.completion.queue t).next? m' = r' at hnext ⊢
      cases hnext with
      | none => exact .of_pure ⟨rfl, t, rfl, rfl⟩
      | some hp => exact .of_pure ⟨congrArg some hp.1, hp.2⟩
    exact hnext.bind fun _ _ hp => .of_pure ⟨congrArg Reply.completion hp.1, hp.2⟩
  | drain limit =>
    refine Sys.memory_twins.bind fun m m' hm => ?_
    obtain ⟨hitems, hq⟩ := hm.drain ht limit ⟨t, rfl, rfl⟩
    exact .of_pure ⟨congrArg Reply.completions hitems, hq⟩
  | sync =>
    have hsync : RunAlike (Host.Twins s s') Eq (s.completion.queue t).sync
        (s'.completion.queue t).sync :=
      Sys.memory_twins.bind fun _ _ hm => Sys.setMemory_twins (hm.publishHead ht t)
    exact hsync.bind_eq fun _ => .of_pure ⟨rfl, t, rfl, rfl⟩
  | inspect =>
    refine Sys.memory_twins.bind fun m m' hm => .of_pure ⟨?_, t, rfl, rfl⟩
    rw [hm.completionSummary_eq ht]

/-! ## Towards the kernel -/

/-- What it takes to reach twin kernels. -/
structure Submitter.Twins (s s' : RingSite) (b b' : Submitter) : Prop where
  fd_eq : b'.fd = b.fd
  setupFlags_eq : b'.setupFlags = b.setupFlags
  queue : SubmissionQueue.Twins s s' b.queue b'.queue

/-- Every step towards twin kernels has the same reply. -/
theorem SubmitStep.perform_twins {s s' : RingSite} (ht : s.Twins s') (step : SubmitStep)
    {b b' : Submitter} (hb : Submitter.Twins s s' b b') :
    RunAlike (Host.Twins s s') Eq (step.perform b) (step.perform b') := by
  obtain ⟨fd, setupFlags, q⟩ := b
  obtain ⟨fd', setupFlags', q'⟩ := b'
  obtain ⟨rfl, rfl, t, rfl, rfl⟩ := hb
  have hprepare (want : UInt32) :
      RunAlike (Host.Twins s s') Eq
        (Submitter.prepare ⟨fd', setupFlags', s.submission.queue t⟩ want)
        (Submitter.prepare ⟨fd', setupFlags', s'.submission.queue t⟩ want) := by
    refine (SubmissionQueue.sync_twins ht t).bind_eq fun _ => ?_
    refine Sys.memory_twins.bind fun m m' hm => ?_
    have hlen := congrArg SubmissionSummary.len (hm.submissionSummary_eq ht t)
    have hwakeup := congrArg SubmissionSummary.needWakeup (hm.submissionSummary_eq ht t)
    simp only [SubmissionQueue.summary] at hlen hwakeup
    rw [hlen, hwakeup]
    exact .of_pure rfl
  cases step with
  | prepare want => exact (hprepare want).bind_eq fun r => .of_pure rfl
  | submit want mask? =>
    refine RunAlike.bind_eq ((hprepare want).bind_eq fun r => ?_) fun n => .of_pure rfl
    split
    · exact Sys.enter_twins _
    · exact .of_pure rfl
  | enter toSubmit minComplete flags mask? =>
    exact (Sys.enter_twins _).bind_eq fun n => .of_pure rfl
  | register request =>
    exact (Sys.ofExcept_twins _).bind_eq fun target =>
      RunAlike.bind_eq ((Sys.register_twins _ _ _ _).bind_eq fun n => .of_pure rfl)
        fun _ => .of_pure rfl
  | unregister resource =>
    exact RunAlike.bind_eq ((Sys.register_twins _ _ _ _).bind_eq fun n => .of_pure rfl)
      fun _ => .of_pure rfl

end IoRing
