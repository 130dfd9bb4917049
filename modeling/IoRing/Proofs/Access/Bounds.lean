import IoRing.Proofs.Access.Completion
import IoRing.Proofs.Access.Submission

/-!
# Attached queues stay in their mappings

Attaching a queue succeeds if all that belongs to it lies inside its mappings, as
many cells as the ring itself says it has, and else it is out of range
(`SubmissionQueue.attach_inside`, `CompletionQueue.attach_inside`).

A queue keeps the places, the mask and the size that it read when it was
attached.  So `attached_queues_bounded` needs no invariant of the counters.  The
other side may store anything anywhere between any two steps, also over the mask
and the size in memory, and still no step leaves the mappings.
-/

namespace IoRing

/-! ## Attaching -/

/-- A result is given if all windows lie inside, and else something is out of
range. -/
theorem unlessFault_windows {α : Type} (ws : List Window) (a : α) :
    if ∀ b ∈ ws.map Window.access, b.Inside then
      unlessFault (ws.findSome? Window.fault?) (.ok a) = .ok a
    else ∃ f, unlessFault (ws.findSome? Window.fault?) (.ok a) = .error f ∧
      f.kind = .outOfRange := by
  induction ws with
  | nil => simp [unlessFault]
  | cons w ws ih =>
    have hiff : w.access.Inside ↔ w.Inside := Iff.rfl
    simp only [List.map_cons, List.forall_mem_cons, hiff, unlessFault_cons]
    by_cases hin : w.Inside
    · simpa only [hin, true_and, Window.fault?_eq_none_iff.mpr hin, unlessFault] using ih
    · have hfault : w.fault? = some (.outsideMapping w.offset w.bytes w.mapping.length) := if_neg hin
      simp only [hin, false_and, if_false, hfault, unlessFault]
      exact ⟨_, rfl, rfl⟩

/-- The windows that the view asks for are its extent. -/
theorem SubmissionQueue.access_windows (q : SubmissionQueue) :
    q.windows.map Window.access = q.extent := by
  simp only [windows, SubmissionOffsets.windows, extent, List.map_cons, List.map_nil, Window.access,
    Mapping.wordAccess, UInt32.toNat_toUInt64, toNat_cells 4 (by decide), toNat_cells 64 (by decide)]
  rfl

/-- The windows that the view asks for are its extent. -/
theorem CompletionQueue.access_windows (q : CompletionQueue) :
    q.windows.map Window.access = q.extent := by
  simp only [windows, CompletionOffsets.windows, extent, List.map_cons, List.map_nil,
    Window.access, Mapping.wordAccess, UInt32.toNat_toUInt64, toNat_cells 16 (by decide)]
  rfl

/-- Attaching takes over what the words of the ring say, if that lies inside. -/
theorem SubmissionQueue.attach_inside (ring sqes : Mapping) (off : SubmissionOffsets) (m : Memory) :
    if ∀ a ∈ (ofWords ring sqes off m).extent, a.Inside then
      attach ⟨some ring⟩ ⟨some sqes⟩ off m = .ok (ofWords ring sqes off m)
    else ∃ f, attach ⟨some ring⟩ ⟨some sqes⟩ off m = .error f ∧ f.kind = .outOfRange := by
  rw [attach_eq, ← access_windows]
  exact unlessFault_windows _ _

/-- A view is attached exactly if its extent lies inside the mapping. -/
theorem CompletionQueue.attach_inside (ring : Mapping) (off : CompletionOffsets) (m : Memory) :
    if ∀ a ∈ (ofWords ring off m).extent, a.Inside then
      attach ⟨some ring⟩ off m = .ok (ofWords ring off m)
    else ∃ f, attach ⟨some ring⟩ off m = .error f ∧ f.kind = .outOfRange := by
  rw [attach_eq, ← access_windows]
  exact unlessFault_windows _ _

/-! ## Running -/

/-- Whatever step comes next, it reads and writes only what its accesses say, and
these are parts of the extent and lie inside. -/
def Exposed.Bounded {Q S : Type} (perform : Q → S → Sys (Reply × Q))
    (accesses : Q → Memory → S → List Access) (extent : List Access) (r : Exposed Q) : Prop :=
  ∀ step, (perform r.queue step).Confined r.host (accesses r.queue r.host.kernel.memory step) ∧
    ∀ a ∈ accesses r.queue r.host.kernel.memory step, a.Inside ∧ ∃ b ∈ extent, a.PartOf b

/-- A submission queue is bounded as long as its places, its mask and its size are
what they were. -/
theorem Exposed.bounded_submission {q : SubmissionQueue} {r : Exposed SubmissionQueue}
    (hfits : ∀ a ∈ q.extent, a.Inside) (hmask : q.mask < q.entries)
    (hqueue : ∃ t, r.queue = { q with localTail := t }) :
    r.Bounded SubmissionStep.perform (fun q m step => step.accesses q m) q.extent := by
  obtain ⟨t, hqueue⟩ := hqueue
  intro step
  refine ⟨SubmissionStep.confined r.queue r.host step, fun a ha => ?_⟩
  rw [hqueue] at ha
  obtain ⟨b, hb, hpart⟩ := SubmissionQueue.partOf_of_mem_accesses
    (q := { q with localTail := t }) hmask ha
  exact ⟨hpart.inside (hfits b hb), b, hb, hpart⟩

/-- A completion queue likewise. -/
theorem Exposed.bounded_completion {q : CompletionQueue} {r : Exposed CompletionQueue}
    (hfits : ∀ a ∈ q.extent, a.Inside) (hmask : q.mask < q.entries)
    (hqueue : ∃ t, r.queue = { q with localHead := t }) :
    r.Bounded CompletionStep.perform (fun q m step => step.accesses q m) q.extent := by
  obtain ⟨t, hqueue⟩ := hqueue
  intro step
  refine ⟨CompletionStep.confined r.queue r.host step, fun a ha => ?_⟩
  rw [hqueue] at ha
  obtain ⟨b, hb, hpart⟩ := CompletionQueue.partOf_of_mem_accesses
    (q := { q with localHead := t }) hmask ha
  exact ⟨hpart.inside (hfits b hb), b, hb, hpart⟩

/-- At the end of every run only the private tail is another. -/
theorem Exposed.queue_run_submission (q : SubmissionQueue) (h : Host)
    (moves : List (ExposedMove SubmissionStep)) :
    ∃ t, (Exposed.run SubmissionStep.perform ⟨q, h⟩ moves).queue = { q with localTail := t } := by
  refine Exposed.run_keeps (r := ⟨q, h⟩) (P := fun q' => ∃ t, q' = { q with localTail := t })
    ?_ ⟨q.localTail, rfl⟩ moves
  rintro _ step h reply q' h' ⟨t, rfl⟩ hstep
  obtain ⟨t', hq'⟩ := SubmissionStep.queue_of_perform hstep
  exact ⟨t', hq'⟩

/-- Steps change a completion queue in its private head only. -/
theorem Exposed.queue_run_completion (q : CompletionQueue) (h : Host)
    (moves : List (ExposedMove CompletionStep)) :
    ∃ t, (Exposed.run CompletionStep.perform ⟨q, h⟩ moves).queue = { q with localHead := t } := by
  refine Exposed.run_keeps (r := ⟨q, h⟩) (P := fun q' => ∃ t, q' = { q with localHead := t })
    ?_ ⟨q.localHead, rfl⟩ moves
  rintro _ step h reply q' h' ⟨t, rfl⟩ hstep
  obtain ⟨t', hq'⟩ := CompletionStep.queue_of_perform hstep
  exact ⟨t', hq'⟩

/-- **Attached queues stay in their mappings.**  Attaching either queue, to any
mappings at any offsets with any contents, succeeds exactly if the words of its
header and as many cells as the ring says it has lie inside, and else it is out of
range.  If the mask it read is below the size it read, then in every run, in
which the other side may store anything anywhere between two steps, each step
reads and writes parts of what was checked and nothing else. -/
theorem attached_queues_bounded (ring sqes cqRing : Mapping) (sqOffsets : SubmissionOffsets)
    (cqOffsets : CompletionOffsets) (h : Host) :
    let m := h.kernel.memory
    let sq := SubmissionQueue.ofWords ring sqes sqOffsets m
    let cq := CompletionQueue.ofWords cqRing cqOffsets m
    (if ∀ a ∈ sq.extent, a.Inside then
        SubmissionQueue.attach ⟨some ring⟩ ⟨some sqes⟩ sqOffsets m = .ok sq
      else ∃ f, SubmissionQueue.attach ⟨some ring⟩ ⟨some sqes⟩ sqOffsets m = .error f ∧
        f.kind = .outOfRange) ∧
    (if ∀ a ∈ cq.extent, a.Inside then
        CompletionQueue.attach ⟨some cqRing⟩ cqOffsets m = .ok cq
      else ∃ f, CompletionQueue.attach ⟨some cqRing⟩ cqOffsets m = .error f ∧
        f.kind = .outOfRange) ∧
    (∀ q, SubmissionQueue.attach ⟨some ring⟩ ⟨some sqes⟩ sqOffsets m = .ok q →
      q.mask < q.entries → ∀ moves, (Exposed.run SubmissionStep.perform ⟨q, h⟩ moves).Bounded
        SubmissionStep.perform (fun q m step => step.accesses q m) sq.extent) ∧
    (∀ q, CompletionQueue.attach ⟨some cqRing⟩ cqOffsets m = .ok q →
      q.mask < q.entries → ∀ moves, (Exposed.run CompletionStep.perform ⟨q, h⟩ moves).Bounded
        CompletionStep.perform (fun q m step => step.accesses q m) cq.extent) := by
  intro m sq cq
  have hsq := SubmissionQueue.attach_inside ring sqes sqOffsets m
  have hcq := CompletionQueue.attach_inside cqRing cqOffsets m
  refine ⟨hsq, hcq, fun q hq hmask moves => ?_, fun q hq hmask moves => ?_⟩
  · split at hsq
    · next hfits =>
      cases hq.symm.trans hsq
      exact Exposed.bounded_submission hfits hmask (Exposed.queue_run_submission _ h moves)
    · obtain ⟨f, herror, -⟩ := hsq
      cases hq.symm.trans herror
  · split at hcq
    · next hfits =>
      cases hq.symm.trans hcq
      exact Exposed.bounded_completion hfits hmask (Exposed.queue_run_completion _ h moves)
    · obtain ⟨f, herror, -⟩ := hcq
      cases hq.symm.trans herror

/-- Where the small submission ring has its fields. -/
def smallSubmissionOffsets : SubmissionOffsets := ⟨0, 4, 8, 12, 16, 20, 24⟩

/-- Where the small completion ring has its fields. -/
def smallCompletionOffsets : CompletionOffsets := ⟨0, 4, 8, 12, 16, 24⟩

/-- A host with a submission ring of four slots and a completion ring of two, both
with the head ahead of the tail. -/
def corruptHost : Host := .ofKernel
  { config := {}
    memory := (Memory.zero.setWords 1 0 [5, 0, 3, 4]).setWords 3 0 [7, 0, 1, 2] }

/-- On rings whose counters make no sense, no step leaves the mappings. -/
theorem attached_queues_bounded_corrupt :
    ∃ sq cq, SubmissionQueue.attach ⟨some ⟨1, 40⟩⟩ ⟨some ⟨2, 256⟩⟩ smallSubmissionOffsets
        corruptHost.kernel.memory = .ok sq ∧ sq.mask < sq.entries ∧
      CompletionQueue.attach ⟨some ⟨3, 56⟩⟩ smallCompletionOffsets
        corruptHost.kernel.memory = .ok cq ∧ cq.mask < cq.entries ∧
      (∀ moves, (Exposed.run SubmissionStep.perform ⟨sq, corruptHost⟩ moves).Bounded
        SubmissionStep.perform (fun q m step => step.accesses q m) sq.extent) ∧
      ∀ moves, (Exposed.run CompletionStep.perform ⟨cq, corruptHost⟩ moves).Bounded
        CompletionStep.perform (fun q m step => step.accesses q m) cq.extent := by
  obtain ⟨hsq, hcq, hsqRun, hcqRun⟩ := attached_queues_bounded ⟨1, 40⟩ ⟨2, 256⟩ ⟨3, 56⟩
    smallSubmissionOffsets smallCompletionOffsets corruptHost
  rw [if_pos (by decide +kernel)] at hsq hcq
  exact ⟨_, _, hsq, by decide +kernel, hcq, by decide +kernel,
    hsqRun _ hsq (by decide +kernel), hcqRun _ hcq (by decide +kernel)⟩

end IoRing
