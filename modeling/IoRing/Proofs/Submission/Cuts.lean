import IoRing.Proofs.Submission.Batches

/-!
# How entries are cut into calls

A list of entries may be pushed in one call, or in several, some of them deferring
and some publishing, with a `sync` anywhere between.  All ways write the same entries
into the same slots.  On the way they differ in the published tail alone, and
publishing at the end makes that the same too.

`Written` says what the steps so far have done, up to the published tail.  Every
step whose entries fit keeps it (`Written.perform`), so a whole cut ends in the
state of one push of all (`cuts_agree`).
-/

namespace IoRing

/-! ## Sequences of steps -/

/-- Take steps one after the other. -/
def SubmissionStep.performAll : List SubmissionStep → SubmissionQueue → Sys SubmissionQueue
  | [], q => return q
  | step :: steps, q => do
      let (_, q) ← step.perform q
      performAll steps q

theorem SubmissionStep.performAll_append {steps : List SubmissionStep} {q q' : SubmissionQueue}
    {h h' : Host} (hsteps : performAll steps q h = .ok q' h') (more : List SubmissionStep) :
    performAll (steps ++ more) q h = performAll more q' h' := by
  induction steps generalizing q h with
  | nil =>
    cases hsteps
    rfl
  | cons step steps ih =>
    obtain ⟨⟨reply, q₁⟩, h₁, hstep, hrest⟩ := Sys.bind_eq_ok_iff.mp hsteps
    have happend : performAll (step :: steps ++ more) q h = performAll (steps ++ more) q₁ h₁ :=
      Sys.bind_ok hstep
    rw [happend, ih hrest]

/-! ## Writing on memories that differ elsewhere -/

/-- Storing the same entries in two memories keeps what they agree on. -/
theorem SameOutside.writeSlots {ps : List Place} {m m' : Memory} (hsame : SameOutside ps m m')
    (q : SubmissionQueue) (es : List Entry) :
    SameOutside ps (q.writeSlots m es).2 (q.writeSlots m' es).2 := by
  induction es generalizing q m m' with
  | nil => exact hsame
  | cons e es ih => exact ih ((hsame.write _ _ _).setWord _ _ _) _

namespace SubmissionSite

open SubmissionQueue

variable {s : SubmissionSite} {h : Host} {m m' : Memory} {t : UInt32} {es : List Entry}
  {q : SubmissionQueue}

/-- To store entries changes the two arrays only. -/
theorem Sound.sameOutside_writeSlots (hs : s.Sound) (m : Memory) (t : UInt32) (es : List Entry) :
    SameOutside ([.array, .sqes].map s.place) m ((s.queue t).writeSlots m es).2 := by
  induction es generalizing m t with
  | nil => exact .refl _ _
  | cons e es ih => exact (hs.sameOutside_stored m t e).trans (ih (s.stored m t e) (t + 1))

/-! ## What was written -/

/-- The queue and the memory after entries were pushed.  The published tail may be
anything. -/
structure Written (s : SubmissionSite) (t : UInt32) (m : Memory) (es : List Entry)
    (q : SubmissionQueue) (m' : Memory) : Prop where
  queue_eq : q = s.queue (t + UInt32.ofNat es.length)
  sameOutside : SameOutside ([.tail].map s.place) ((s.queue t).writeSlots m es).2 m'

namespace Written

theorem nil (s : SubmissionSite) (t : UInt32) (m : Memory) :
    s.Written t m [] (s.queue t) m where
  queue_eq := by simp
  sameOutside := .refl _ _

/-- Entries are added by writing their slots. -/
theorem writeSlots (hw : s.Written t m es q m') (es' : List Entry) :
    s.Written t m (es ++ es') { q with localTail := q.localTail + UInt32.ofNat es'.length }
      (q.writeSlots m' es').2 := by
  obtain ⟨rfl, hsame⟩ := hw
  constructor
  case queue_eq =>
    rw [List.length_append, add_ofNat_add]
    rfl
  case sameOutside =>
    rw [writeSlots_append, fst_writeSlots]
    exact hsame.writeSlots _ es'

/-- Publishing changes nothing that is looked at. -/
theorem publish (hw : s.Written t m es q m') : s.Written t m es q (q.publish m') := by
  obtain ⟨rfl, hsame⟩ := hw
  exact ⟨rfl, hsame.trans (Fields.sameOutside_setWord rfl m' _)⟩

theorem head_eq (hs : s.Sound) (hw : s.Written t m es q m') :
    s.word m' .head = s.word m .head :=
  (hs.word_eq hw.sameOutside (by decide) rfl).trans
    (hs.word_eq (hs.sameOutside_writeSlots m t es) (by decide) rfl)

/-- The length grows by the number of entries. -/
theorem toNat_len (hs : s.Sound) (hw : s.Written t m es q m')
    (hfits : ((s.queue t).len m).toNat + es.length ≤ s.entries.toNat) :
    (q.len m').toNat = ((s.queue t).len m).toNat + es.length := by
  have hsize := s.entries.toNat_lt
  have hlen : q.len m' = (s.queue t).len m + UInt32.ofNat es.length := by
    rw [hw.queue_eq, len_queue, hw.head_eq hs, len_queue, add_sub_eq_sub_add]
  rw [hlen, UInt32.toNat_add, toNat_ofNat (by omega)]
  omega

/-- Both measures find free what the entries have left. -/
theorem room_eq (hs : s.Sound) (hw : s.Written t m es q m')
    (hfits : ((s.queue t).len m).toNat + es.length ≤ s.entries.toNat) :
    q.room m' = s.entries.toNat - (((s.queue t).len m).toNat + es.length) ∧
      (q.available m').toNat = q.room m' := by
  have hlen := hw.toNat_len hs hfits
  have hentries : q.entries = s.entries := by
    rw [hw.queue_eq]
    rfl
  have hle : q.len m' ≤ q.entries := by
    rw [UInt32.le_iff_toNat_le, hlen, hentries]
    exact hfits
  exact ⟨by rw [room, hlen, hentries], toNat_available_of_le hle⟩

/-- **A step whose entries fit writes them.** -/
theorem perform (hs : s.Sound) (hw : s.Written t m es q h.kernel.memory) (step : SubmissionStep)
    (hfits : ((s.queue t).len m).toNat + (es ++ step.entries).length ≤ s.entries.toNat) :
    ∃ reply q' m', step.perform q h = .ok (reply, q') (h.withMemory m') ∧
      s.Written t m (es ++ step.entries) q' m' := by
  rw [List.length_append, ← Nat.add_assoc] at hfits
  obtain ⟨hroom, havailable⟩ := hw.room_eq hs (Nat.le_trans (Nat.le_add_right _ _) hfits)
  have hfree (hone : step.entries.length = 1) : ¬ q.isFull h.kernel.memory = true := by
    rw [isFull_iff, hroom]
    omega
  cases step with
  | push e =>
    exact ⟨_, _, _, Sys.bind_ok (Sys.ofPush_some (push?_room (hfree rfl) e)),
      (hw.writeSlots [e]).publish⟩
  | pushDeferred e =>
    exact ⟨_, _, _, Sys.bind_ok (Sys.ofPush_some (pushDeferred?_room (hfree rfl) e)),
      hw.writeSlots [e]⟩
  | pushAll es' =>
    have hlength : es'.length = (SubmissionStep.pushAll es').entries.length := rfl
    have hall : ¬ (q.available h.kernel.memory).toNat < es'.length := by omega
    exact ⟨_, _, _, Sys.bind_ok (Sys.ofPush_some (pushAll?_room hall)),
      (hw.writeSlots es').publish⟩
  | sync => exact ⟨_, _, _, rfl, by simpa [SubmissionStep.entries] using hw.publish⟩
  | inspect => exact ⟨_, _, h.kernel.memory, rfl, by simpa [SubmissionStep.entries] using hw⟩

/-- Steps whose entries fit write them all. -/
theorem performAll (hs : s.Sound) (hw : s.Written t m es q h.kernel.memory)
    (steps : List SubmissionStep)
    (hfits : ((s.queue t).len m).toNat + (es ++ steps.flatMap SubmissionStep.entries).length ≤
      s.entries.toNat) :
    ∃ q' m', SubmissionStep.performAll steps q h = .ok q' (h.withMemory m') ∧
      s.Written t m (es ++ steps.flatMap SubmissionStep.entries) q' m' := by
  induction steps generalizing es q h with
  | nil => exact ⟨q, h.kernel.memory, rfl, by simpa using hw⟩
  | cons step steps ih =>
    rw [List.flatMap_cons, ← List.append_assoc] at hfits ⊢
    have hstep : ((s.queue t).len m).toNat + (es ++ step.entries).length ≤ s.entries.toNat := by
      rw [List.length_append] at hfits
      omega
    obtain ⟨reply, q₁, m₁, hperform, hw₁⟩ := hw.perform hs step hstep
    obtain ⟨q', m', hrest, hw'⟩ := ih (h := h.withMemory m₁) hw₁ hfits
    exact ⟨q', m', (Sys.bind_ok hperform).trans hrest, hw'⟩

/-- Once published, nothing is left open. -/
theorem publish_eq (hw : s.Written t m es q m') :
    q.publish m' =
      (s.queue (t + UInt32.ofNat es.length)).publish ((s.queue t).writeSlots m es).2 := by
  obtain ⟨rfl, hsame⟩ := hw
  exact SameOutside.setWord_eq hsame _

end Written

/-! ## All cuts agree -/

/-- **How entries are cut into calls does not matter.**  Start from any queue that is
not longer than the ring, at any counters and with any entries deferred, and let
entries fit.  Any steps that push them in order, followed by a `sync`, succeed and
end in the same queue and the same memory as one push of all. -/
theorem cuts_agree (hs : s.Sound) (h : Host) (t : UInt32)
    (hle : (s.queue t).len h.kernel.memory ≤ s.entries)
    (hfits : es.length ≤ ((s.queue t).available h.kernel.memory).toNat)
    {steps : List SubmissionStep} (hcut : steps.flatMap SubmissionStep.entries = es) :
    ∃ q' h', (s.queue t).pushAll es h = .ok q' h' ∧
      SubmissionStep.performAll (steps ++ [.sync]) (s.queue t) h = .ok q' h' := by
  subst hcut
  have hroom : ((s.queue t).len h.kernel.memory).toNat +
      ([] ++ steps.flatMap SubmissionStep.entries).length ≤ s.entries.toNat := by
    have hlen := UInt32.le_iff_toNat_le.mp hle
    have hentries : (s.queue t).entries = s.entries := rfl
    rw [toNat_available_of_le hle, room, hentries] at hfits
    rw [List.nil_append]
    omega
  obtain ⟨q', m', hsteps, hw⟩ := (Written.nil s t h.kernel.memory).performAll hs steps hroom
  have hsync : SubmissionStep.performAll [.sync] q' (h.withMemory m') =
      .ok q' (h.withMemory (q'.publish m')) := rfl
  refine ⟨_, _, Sys.ofPush_some (pushAll?_room (Nat.not_lt.mpr hfits)), ?_⟩
  rw [SubmissionStep.performAll_append hsteps, hsync, hw.publish_eq, hw.queue_eq]
  rfl

/-- On the small ring, with one entry deferred, three entries past the wrap in five
calls. -/
theorem cuts_agree_small :
    let steps : List SubmissionStep :=
      [.pushDeferred (Entry.make 0 0 0), .sync, .pushAll [], .pushAll [Entry.make 0 0 1],
        .push (Entry.make 0 0 2)]
    ∃ q' h', (small.queue 0xFFFFFFFF).pushAll (numbered 3) smallHost = .ok q' h' ∧
      SubmissionStep.performAll (steps ++ [.sync]) (small.queue 0xFFFFFFFF) smallHost =
        .ok q' h' :=
  cuts_agree sound_small smallHost 0xFFFFFFFF (by decide +kernel) (by decide +kernel) rfl

end SubmissionSite

end IoRing
