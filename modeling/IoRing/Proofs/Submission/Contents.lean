import IoRing.Proofs.Running
import IoRing.Proofs.Submission.Pushing
import IoRing.Proofs.Submission.Site
import IoRing.Session.QueueStep

/-!
# What a submission ring carries

`Carries` is the invariant of a submission ring.  Between the head and the
published tail lie the published entries, and between the published and the
private tail the deferred ones.  Each lies in the slot that its counter names,
and together they are no more than there are slots.

Writing a slot adds a deferred entry, and publishing moves all deferred entries
to the published ones.  A step of the process is made of these two.  It succeeds
exactly if its entries fit (`Carries.perform_ok`, `Carries.perform_full`), and
one that fails changes nothing.

What the ring holds can be read back through the kernel's own look-up of slots
(`Carries.waiting_eq`, `Carries.hidden_eq`).
-/

namespace IoRing

namespace SubmissionSite

/-- The ring holds the published entries and after them the deferred ones. -/
structure Carries (s : SubmissionSite) (m : Memory) (localTail : UInt32)
    (published deferred : List Entry) : Prop
    extends Row (s.entryAt? m) s.entries (s.word m .head) (s.word m .tail) localTail
      published deferred where
  formatted : s.Formatted m

/-- The memory after an entry was stored in the slot of a counter. -/
def filled (s : SubmissionSite) (m : Memory) (c : UInt32) (e : Entry) : Memory :=
  e.store m s.sqes.block (64 * (slotOf s.entries c).toNat)

/-- The memory after the slot was also named in the index array. -/
def stored (s : SubmissionSite) (m : Memory) (c : UInt32) (e : Entry) : Memory :=
  ((s.queue c).writeSlot m e).2

variable {s : SubmissionSite} {m m' : Memory} {t c : UInt32} {published deferred : List Entry}

/-! ## Writing one slot -/

theorem writeSlot_eq (s : SubmissionSite) (m : Memory) (c : UInt32) (e : Entry) :
    (s.queue c).writeSlot m e = (s.queue (c + 1), s.stored m c e) := rfl

theorem sameOutside_filled (s : SubmissionSite) (m : Memory) (c : UInt32) (e : Entry) :
    SameOutside [s.sqePlace c] m (s.filled m c e) := by
  have hstore := m.sameOutside_write s.sqes.block (64 * (slotOf s.entries c).toNat) e.bytes
  rwa [e.length_eq] at hstore

theorem sameOutside_index_stored (s : SubmissionSite) (m : Memory) (c : UInt32) (e : Entry) :
    SameOutside [s.indexPlace c] (s.filled m c e) (s.stored m c e) :=
  (s.filled m c e).sameOutside_setWord _ _ _

/-- To store an entry changes the two arrays only. -/
theorem Sound.sameOutside_stored (hs : s.Sound) (m : Memory) (c : UInt32) (e : Entry) :
    SameOutside ([.array, .sqes].map s.place) m (s.stored m c e) :=
  (((s.sameOutside_filled m c e).widen (hs.sqe_within c)).of_subset (by simp)).trans
    (((s.sameOutside_index_stored m c e).widen (hs.index_within c)).of_subset (by simp))

/-- A slot holds the entry stored in it. -/
theorem Sound.entryAt?_stored (hs : s.Sound) (m : Memory) (c : UInt32) (e : Entry) :
    s.entryAt? (s.stored m c e) c = some e := by
  -- The index word is stored after the entry.
  have hsqe : SameAt (s.sqePlace c) (s.filled m c e) (s.stored m c e) := by
    refine (s.sameOutside_index_stored m c e).sameAt fun p hp => ?_
    rw [List.mem_singleton.mp hp]
    exact hs.index_apart_sqe c c
  have hword : (s.stored m c e).word s.ring.block
      (s.offsets.array.toNat + 4 * (slotOf s.entries c).toNat) = slotOf s.entries c :=
    Memory.word_setWord ..
  have hload : Entry.load (s.stored m c e) s.sqes.block (64 * (slotOf s.entries c).toNat) = e := by
    have hstored := e.load_store m s.sqes.block (64 * (slotOf s.entries c).toNat)
    simp only [Entry.load, hsqe.read_eq] at hstored ⊢
    exact hstored
  simp only [entryAt?, hword, hload, if_true]

/-- To store an entry leaves the other slots as they are. -/
theorem Sound.entryAt?_stored_of_ne (hs : s.Sound) (m : Memory) {c d : UInt32} (e : Entry)
    (hne : slotOf s.entries d ≠ slotOf s.entries c) :
    s.entryAt? (s.stored m c e) d = s.entryAt? m d := by
  have hsame : SameOutside [s.sqePlace c, s.indexPlace c] m (s.stored m c e) :=
    ((s.sameOutside_filled m c e).of_subset (by simp)).trans
      ((s.sameOutside_index_stored m c e).of_subset (by simp))
  have hindex : SameAt (s.indexPlace d) m (s.stored m c e) := by
    refine hsame.sameAt ?_
    simp only [List.mem_cons, List.not_mem_nil, or_false, forall_eq_or_imp, forall_eq]
    exact ⟨(hs.index_apart_sqe d c).symm, index_apart_index hne.symm⟩
  have hsqe : SameAt (s.sqePlace d) m (s.stored m c e) := by
    refine hsame.sameAt ?_
    simp only [List.mem_cons, List.not_mem_nil, or_false, forall_eq_or_imp, forall_eq]
    exact ⟨sqe_apart_sqe hne.symm, hs.index_apart_sqe c d⟩
  simp only [entryAt?, Entry.load, hindex.word_eq, hsqe.read_eq]

namespace Carries

theorem nil (hm : s.Formatted m) (hempty : s.word m .tail = s.word m .head) :
    s.Carries m (s.word m .tail) [] [] where
  toRow := hempty ▸ .nil
  formatted := hm

/-- A writer that starts over at the published tail forgets the deferred entries. -/
theorem restart (h : s.Carries m t published deferred) :
    s.Carries m (s.word m .tail) published [] := ⟨h.withoutBack, h.formatted⟩

/-! ## Counting -/

/-- The length counts the entries published and those deferred. -/
theorem toNat_len (h : s.Carries m t published deferred) :
    ((s.queue t).len m).toNat = published.length + deferred.length := h.toNat_all

/-- The slots available are those that neither kind of entry takes. -/
theorem toNat_available (h : s.Carries m t published deferred) :
    ((s.queue t).available m).toNat =
      s.entries.toNat - (published.length + deferred.length) := by
  have hle := h.length_le
  have hlen := h.toNat_len
  have havailable : (s.queue t).available m = s.entries - (s.queue t).len m := rfl
  rw [havailable, UInt32.toNat_sub_of_le _ _ (UInt32.le_iff_toNat_le.mpr (by omega)), hlen]

/-- The queue is full once the two kinds of entry take all slots. -/
theorem isFull_eq (h : s.Carries m t published deferred) :
    (s.queue t).isFull m = decide (s.entries.toNat ≤ published.length + deferred.length) := by
  have hfull : (s.queue t).isFull m = decide (s.entries ≤ (s.queue t).len m) := rfl
  rw [hfull, ← h.toNat_len]
  rfl

/-! ## Changing memory -/

/-- The flags and the count of dropped entries do not matter. -/
theorem congr (hs : s.Sound) (h : s.Carries m t published deferred)
    (hsame : ∀ f, f ≠ .flags → f ≠ .dropped → SameAt (s.place f) m m') :
    s.Carries m' t published deferred := by
  have hhead : s.word m' .head = s.word m .head :=
    Fields.word_congr rfl (hsame .head (by decide) (by decide))
  have htail : s.word m' .tail = s.word m .tail :=
    Fields.word_congr rfl (hsame .tail (by decide) (by decide))
  constructor
  case formatted =>
    exact h.formatted.congr (hsame .ringEntries (by decide) (by decide))
      (hsame .ringMask (by decide) (by decide))
  case toRow =>
    rw [hhead, htail]
    exact h.toRow.congr fun i _ => hs.entryAt?_congr (hsame .array (by decide) (by decide))
      (hsame .sqes (by decide) (by decide)) _

/-- Writing the slot of the private tail adds a deferred entry. -/
theorem write (hs : s.Sound) (h : s.Carries m t published deferred)
    (hroom : published.length + deferred.length < s.entries.toNat) (e : Entry) :
    s.Carries (s.stored m t e) (t + 1) published (deferred ++ [e]) := by
  have hsame := hs.sameOutside_stored m t e
  have hhead : s.word (s.stored m t e) .head = s.word m .head :=
    hs.word_eq hsame (by decide) rfl
  have htail : s.word (s.stored m t e) .tail = s.word m .tail :=
    hs.word_eq hsame (by decide) rfl
  constructor
  case formatted =>
    exact h.formatted.congr (hs.sameAt hsame (by decide)) (hs.sameAt hsame (by decide))
  case toRow =>
    rw [hhead, htail]
    exact h.push hs.isRingSize hroom (hs.entryAt?_stored m t e) fun c hc =>
      hs.entryAt?_stored_of_ne m e hc

/-- Writing the slots from the private tail on adds deferred entries. -/
theorem writeAll (hs : s.Sound) (h : s.Carries m t published deferred) (es : List Entry)
    (hroom : published.length + deferred.length + es.length ≤ s.entries.toNat) :
    ∃ t' m', (s.queue t).writeSlots m es = (s.queue t', m') ∧
      s.Carries m' t' published (deferred ++ es) ∧
      SameOutside ([.array, .sqes].map s.place) m m' := by
  induction es generalizing m t deferred with
  | nil => exact ⟨t, m, rfl, by simpa using h, .refl _ _⟩
  | cons e es ih =>
    rw [List.length_cons] at hroom
    have hwrite := h.write hs (by omega) e
    obtain ⟨t', m', heq, hcarries, hsame⟩ := ih hwrite
      (by rw [List.length_append, List.length_singleton]; omega)
    refine ⟨t', m', ?_, ?_, (hs.sameOutside_stored m t e).trans hsame⟩
    · rw [SubmissionQueue.writeSlots, writeSlot_eq]
      exact heq
    · rwa [List.append_assoc, List.singleton_append] at hcarries

/-- To publish changes the mapped tail only. -/
theorem sameOutside_publish (s : SubmissionSite) (m : Memory) (t : UInt32) :
    SameOutside ([.tail].map s.place) m ((s.queue t).publish m) :=
  Fields.sameOutside_setWord rfl m t

/-- Publishing makes all deferred entries published. -/
theorem publish (hs : s.Sound) (h : s.Carries m t published deferred) :
    s.Carries ((s.queue t).publish m) t (published ++ deferred) [] := by
  have hsame := sameOutside_publish s m t
  have hhead : s.word ((s.queue t).publish m) .head = s.word m .head :=
    hs.word_eq hsame (by decide) rfl
  have htail : s.word ((s.queue t).publish m) .tail = t := Memory.word_setWord ..
  constructor
  case formatted =>
    exact h.formatted.congr (hs.sameAt hsame (by decide)) (hs.sameAt hsame (by decide))
  case toRow =>
    rw [hhead, htail]
    exact h.advanceAll.congr fun i _ => hs.entryAt?_congr (hs.sameAt hsame (by decide))
      (hs.sameAt hsame (by decide)) _

end Carries

end SubmissionSite

/-! ## Steps of the process -/

theorem Sys.ofPush_some {outcome : Memory → Option (SubmissionQueue × Memory)} {h : Host}
    {q : SubmissionQueue} {m : Memory} (hsome : outcome h.kernel.memory = some (q, m)) :
    Sys.ofPush outcome h = .ok q (h.withMemory m) := by
  rw [Sys.ofPush, Sys.bind_ok (Sys.memory_eq h), hsome]
  rfl

theorem Sys.ofPush_none {outcome : Memory → Option (SubmissionQueue × Memory)} {h : Host}
    (hnone : outcome h.kernel.memory = none) :
    Sys.ofPush outcome h = .error .submissionQueueFull h := by
  rw [Sys.ofPush, Sys.bind_ok (Sys.memory_eq h), hnone]
  rfl

/-- A push comes out as the step that makes it. -/
theorem SubmissionQueue.push_of_perform_ok {q q' : SubmissionQueue} {e : Entry} {reply : Reply}
    {h h' : Host} (hstep : (SubmissionStep.push e).perform q h = .ok (reply, q') h') :
    q.push e h = .ok q' h' := by
  obtain ⟨q₁, h₁, hpush, hpure⟩ := Sys.bind_eq_ok_iff.mp hstep
  cases hpure
  exact hpush

theorem SubmissionQueue.push_of_perform_error {q : SubmissionQueue} {e : Entry} {f : Fault}
    {h h' : Host} (hstep : (SubmissionStep.push e).perform q h = .error f h') :
    q.push e h = .error f h' := by
  cases hpush : q.push e h with
  | ok q₁ h₁ =>
    have hok : (SubmissionStep.push e).perform q h = .ok (.nothing, q₁) h₁ := Sys.bind_ok hpush
    rw [hok] at hstep
    cases hstep
  | error f₁ h₁ =>
    have herror : (SubmissionStep.push e).perform q h = .error f₁ h₁ := Sys.bind_error hpush
    rw [herror] at hstep
    cases hstep
    rfl

namespace SubmissionStep

/-- The entries that a step pushes. -/
def entries : SubmissionStep → List Entry
  | .push e | .pushDeferred e => [e]
  | .pushAll es => es
  | .sync | .inspect => []

/-- The step makes all entries pushed so far visible to the kernel. -/
def publishes : SubmissionStep → Bool
  | .push _ | .pushAll _ | .sync => true
  | .pushDeferred _ | .inspect => false

end SubmissionStep

namespace SubmissionSite.Carries

variable {s : SubmissionSite} {h : Host} {t : UInt32} {published deferred : List Entry}

/-- The fields that the process writes. -/
def written : List SubmissionField := [.tail, .array, .sqes]

/-- A step whose entries fit succeeds.  It adds its entries, and it publishes all
or leaves what is published as it is. -/
theorem perform_ok (hs : s.Sound) (hc : s.Carries h.kernel.memory t published deferred)
    (step : SubmissionStep)
    (hroom : published.length + deferred.length + step.entries.length ≤ s.entries.toNat) :
    ∃ reply t' m', step.perform (s.queue t) h = .ok (reply, s.queue t') (h.withMemory m') ∧
      SameOutside (written.map s.place) h.kernel.memory m' ∧
      s.Carries m' t'
        (if step.publishes then published ++ deferred ++ step.entries else published)
        (if step.publishes then [] else deferred ++ step.entries) := by
  have hfree : published.length + deferred.length < s.entries.toNat →
      ¬ (s.queue t).isFull h.kernel.memory = true := by
    intro hlt
    rw [hc.isFull_eq]
    simpa using hlt
  have hstored (e : Entry) :
      SameOutside (written.map s.place) h.kernel.memory (s.stored h.kernel.memory t e) :=
    (hs.sameOutside_stored _ t e).of_subset (by simp [written])
  have hpublish (m : Memory) (t : UInt32) :
      SameOutside (written.map s.place) m ((s.queue t).publish m) :=
    (sameOutside_publish s m t).of_subset (by simp [written])
  cases step with
  | push e =>
    have hlt : published.length + deferred.length < s.entries.toNat := hroom
    have hpush : (s.queue t).push e h = .ok (s.queue (t + 1))
        (h.withMemory ((s.queue (t + 1)).publish (s.stored h.kernel.memory t e))) :=
      Sys.ofPush_some (SubmissionQueue.push?_room (hfree hlt) e)
    refine ⟨.nothing, t + 1, _, Sys.bind_ok hpush, (hstored e).trans (hpublish _ _), ?_⟩
    simpa [SubmissionStep.publishes, SubmissionStep.entries] using
      (hc.write hs hlt e).publish hs
  | pushDeferred e =>
    have hlt : published.length + deferred.length < s.entries.toNat := hroom
    have hpush : (s.queue t).pushDeferred e h = .ok (s.queue (t + 1))
        (h.withMemory (s.stored h.kernel.memory t e)) :=
      Sys.ofPush_some (SubmissionQueue.pushDeferred?_room (hfree hlt) e)
    exact ⟨.nothing, t + 1, _, Sys.bind_ok hpush, hstored e, hc.write hs hlt e⟩
  | pushAll es =>
    obtain ⟨t', m', hwrite, hcarries, hsame⟩ := hc.writeAll hs es hroom
    have hpush : (s.queue t).pushAll es h = .ok (s.queue t')
        (h.withMemory ((s.queue t').publish m')) := by
      have havailable := hc.toNat_available
      have hentries : es.length = (SubmissionStep.pushAll es).entries.length := rfl
      refine Sys.ofPush_some ?_
      rw [SubmissionQueue.pushAll?, if_neg (by omega), hwrite]
    refine ⟨.nothing, t', _, Sys.bind_ok hpush,
      (hsame.of_subset (by simp [written])).trans (hpublish _ _), ?_⟩
    simpa [SubmissionStep.publishes, SubmissionStep.entries] using hcarries.publish hs
  | sync =>
    refine ⟨.nothing, t, _, rfl, hpublish _ t, ?_⟩
    simpa [SubmissionStep.publishes, SubmissionStep.entries] using hc.publish hs
  | inspect =>
    refine ⟨_, t, h.kernel.memory, rfl, .refl _ _, ?_⟩
    simpa [SubmissionStep.publishes, SubmissionStep.entries] using hc

/-- A step with more entries than free slots is refused and changes nothing. -/
theorem perform_full (hc : s.Carries h.kernel.memory t published deferred)
    (step : SubmissionStep)
    (hfull : s.entries.toNat < published.length + deferred.length + step.entries.length) :
    step.perform (s.queue t) h = .error .submissionQueueFull h := by
  have hle := hc.length_le
  have hisFull (h1 : step.entries.length = 1) :
      (s.queue t).isFull h.kernel.memory = true := by
    rw [hc.isFull_eq]
    simp only [decide_eq_true_eq]
    omega
  cases step with
  | push e =>
    exact Sys.bind_error (Sys.ofPush_none (SubmissionQueue.push?_full (hisFull rfl) e))
  | pushDeferred e =>
    exact Sys.bind_error (Sys.ofPush_none (SubmissionQueue.pushDeferred?_full (hisFull rfl) e))
  | pushAll es =>
    have havailable := hc.toNat_available
    have hentries : es.length = (SubmissionStep.pushAll es).entries.length := rfl
    exact Sys.bind_error (Sys.ofPush_none (SubmissionQueue.pushAll?_full (by omega)))
  | sync => simp [SubmissionStep.entries] at hfull; omega
  | inspect => simp [SubmissionStep.entries] at hfull; omega

end SubmissionSite.Carries

/-! ## Reading the ring back -/

/-- The entries that the next slots from a counter on name for the kernel. -/
def Kernel.entriesFrom (k : Kernel) (c count : UInt32) : List Entry :=
  itemsFrom (fun c => k.slotEntry? (c &&& k.word .sqRing k.granted.sqOffsets.ringMask.toNat)) c
    count.toNat

namespace SubmissionQueue

/-- The entries published and not consumed. -/
def waiting (q : SubmissionQueue) (k : Kernel) : List Entry :=
  k.entriesFrom (q.head k.memory) (q.publishedTail k.memory - q.head k.memory)

/-- The entries pushed and not published. -/
def hidden (q : SubmissionQueue) (k : Kernel) : List Entry :=
  k.entriesFrom (q.publishedTail k.memory) (q.unpublished k.memory)

end SubmissionQueue

namespace SubmissionSite

variable {s : SubmissionSite} {k : Kernel} {t : UInt32} {published deferred : List Entry}

/-- The kernel reads the entries that the slots hold. -/
theorem Sound.entriesFrom_eq (hs : s.Sound) (hk : k.ServesSubmission s)
    (hm : s.Formatted k.memory) {c : UInt32} {es : List Entry} (hlt : es.length < 2 ^ 32)
    (hheld : CellsHold (s.entryAt? k.memory) c es) :
    k.entriesFrom c (UInt32.ofNat es.length) = es := by
  rw [Kernel.entriesFrom, hk.mask_eq hs hm, toNat_ofNat hlt]
  exact CellsHold.itemsFrom_eq fun i e he => hk.slotEntry?_eq hs (hheld i e he)

namespace Carries

/-- The kernel sees the entries published. -/
theorem waiting_eq (hs : s.Sound) (hk : k.ServesSubmission s)
    (hc : s.Carries k.memory t published deferred) : (s.queue t).waiting k = published := by
  have hlt := hc.length_lt
  have hcount : (s.queue t).publishedTail k.memory - (s.queue t).head k.memory =
      UInt32.ofNat published.length := by
    rw [← hc.toNat_front, UInt32.ofNat_toNat]
    rfl
  rw [SubmissionQueue.waiting, hcount]
  exact hs.entriesFrom_eq hk hc.formatted (by omega) hc.held_front

/-- The entries deferred are those the kernel does not see yet. -/
theorem hidden_eq (hs : s.Sound) (hk : k.ServesSubmission s)
    (hc : s.Carries k.memory t published deferred) : (s.queue t).hidden k = deferred := by
  have hlt := hc.length_lt
  have hcount : (s.queue t).unpublished k.memory = UInt32.ofNat deferred.length := by
    rw [← hc.toNat_back, UInt32.ofNat_toNat]
    rfl
  rw [SubmissionQueue.hidden, hcount]
  exact hs.entriesFrom_eq hk hc.formatted (by omega) hc.held_back

end Carries

end SubmissionSite

end IoRing
