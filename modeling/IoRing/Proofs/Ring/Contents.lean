import IoRing.Proofs.Completion.Contents
import IoRing.Proofs.Ring.Opening
import IoRing.Proofs.Submission.Consumption

/-!
# What a ring carries

`RingSite.Carries` joins the invariants of both queues of an open ring.  Each
side keeps it, since what one side writes the other does not see.

The kernel completes an entry as soon as it takes it.  `Kernel.postings` lists
what came of each completion, by the kernel's own answer, and what is posted or
refused on the completion ring agrees with it (`Carries.complete_eq`).  So
serving an enter call takes the oldest published entries, posts a completion for
those that find room, and counts the others (`Carries.serve`).
-/

namespace IoRing

/-! ## Completing entries -/

/-- Entries that the kernel took, each with the answer whether its completion
was posted. -/
abbrev Served := List (Entry × Bool)

namespace Served

/-- The entries. -/
def entries (served : Served) : List Entry := served.map (·.1)

/-- The completions that found room. -/
def posted (served : Served) : List Completion :=
  (served.filter (·.2)).map (Kernel.completionOf ·.1)

/-- The number of completions that were refused. -/
def refused (served : Served) : Nat := served.countP (!·.2)

variable (served served' : Served)

@[simp] theorem entries_append : entries (served ++ served') = entries served ++ entries served' :=
  List.map_append

@[simp] theorem posted_append : posted (served ++ served') = posted served ++ posted served' := by
  simp [posted]

@[simp] theorem refused_append : refused (served ++ served') = refused served + refused served' :=
  List.countP_append

@[simp] theorem length_entries : (entries served).length = served.length := List.length_map _

/-- Each entry taken has its completion posted or refused. -/
theorem length_eq : served.length = (posted served).length + refused served := by
  rw [posted, refused, List.length_map, ← List.countP_eq_length_filter]
  simpa using List.length_eq_countP_add_countP (l := served) (·.2)

end Served

/-- What comes of completing entries one after the other. -/
def Kernel.postings (k : Kernel) : List Entry → Served
  | [] => []
  | e :: es => (e, (k.post (completionOf e)).1) :: (complete e k).postings es

@[simp] theorem Kernel.entries_postings (k : Kernel) (es : List Entry) :
    (k.postings es).entries = es := by
  induction es generalizing k with
  | nil => rfl
  | cons e es ih => exact congrArg (e :: ·) (ih (complete e k))

@[simp] theorem Kernel.length_postings (k : Kernel) (es : List Entry) :
    (k.postings es).length = es.length := by
  rw [← Served.length_entries, entries_postings]

namespace CompletionSite

/-- The fields that completing changes. -/
def completed : List CompletionField := [.cqes, .tail, .overflow, .flags]

variable {s : CompletionSite} {k : Kernel} {t : UInt32} {kept waiting : List Completion}

namespace Carries

/-- Completing an entry posts its completion or counts it as refused. -/
theorem complete_eq (hs : s.Sound) (hk : k.ServesCompletion s)
    (hc : s.Carries k.memory t kept waiting) (e : Entry) :
    ∃ m, Kernel.complete e k = k.withMemory m ∧
      SameOutside (completed.map s.place) k.memory m ∧
      s.Carries m t kept (waiting ++ Served.posted (k.postings [e])) ∧
      s.word m .overflow =
        s.word k.memory .overflow + UInt32.ofNat (Served.refused (k.postings [e])) := by
  by_cases hroom : kept.length + waiting.length < s.entries.toNat
  · have hpost := hc.post_room hs hk hroom (Kernel.completionOf e)
    have hsame := hs.sameOutside_posted k.memory (Kernel.completionOf e)
    refine ⟨_, congrArg Prod.snd hpost, hsame.of_subset (by simp [postedFields, completed]), ?_, ?_⟩
    · simpa [Kernel.postings, hpost, Served.posted] using hc.posted hs hroom _
    · simpa [Kernel.postings, hpost, Served.refused] using hs.word_eq hsame (by decide) rfl
  · have hpost := hc.post_full hs hk (Nat.le_of_not_lt hroom) (Kernel.completionOf e)
    have hsame := s.sameOutside_overflowed k.memory
    refine ⟨_, congrArg Prod.snd hpost, hsame.of_subset (by simp [overflowedFields, completed]),
      ?_, ?_⟩
    · simpa [Kernel.postings, hpost, Served.posted] using hc.overflowed hs
    · simpa [Kernel.postings, hpost, Served.refused] using hs.overflow_overflowed k.memory

/-- Each entry handled gives a completion, in order, or is counted as lost. -/
theorem handleAll_complete (hs : s.Sound) (hk : k.ServesCompletion s)
    (hc : s.Carries k.memory t kept waiting) (es : List Entry) :
    ∃ m, k.handleAll Kernel.complete es = k.withMemory m ∧
      s.Carries m t kept (waiting ++ Served.posted (k.postings es)) ∧
      s.word m .overflow =
        s.word k.memory .overflow + UInt32.ofNat (Served.refused (k.postings es)) := by
  induction es generalizing k waiting with
  | nil => exact ⟨k.memory, rfl, by simpa [Kernel.postings, Served.posted] using hc,
      by simp [Kernel.postings, Served.refused]⟩
  | cons e es ih =>
    obtain ⟨m, hcomplete, -, hc', hoverflow⟩ := hc.complete_eq hs hk e
    obtain ⟨m', hrest, hc'', hoverflow'⟩ := ih (hk.withMemory m) hc'
    have hsplit : k.postings (e :: es) = k.postings [e] ++ (k.withMemory m).postings es := by
      rw [← hcomplete]
      rfl
    refine ⟨m', ?_, ?_, ?_⟩
    · rw [Kernel.handleAll, List.foldl_cons, hcomplete]
      exact hrest
    · rwa [hsplit, Served.posted_append, ← List.append_assoc]
    · rw [hoverflow', hsplit, Served.refused_append, add_ofNat_add, ← hoverflow]
      rfl

/-- Which completions find room depends only on how many slots are in use. -/
theorem postings_eq (hs : s.Sound) (hk : k.ServesCompletion s)
    (hc : s.Carries k.memory t kept waiting) (es : List Entry) :
    k.postings es = es.mapIdx fun i e =>
      (e, decide (kept.length + waiting.length + i < s.entries.toNat)) := by
  induction es generalizing k waiting with
  | nil => rfl
  | cons e es ih =>
    obtain ⟨m, hcomplete, -, hc', -⟩ := hc.complete_eq hs hk e
    have hrest := ih (hk.withMemory m) hc'
    rw [Kernel.postings, hcomplete, hrest, List.mapIdx_cons]
    by_cases hroom : kept.length + waiting.length < s.entries.toNat
    · have hpost := hc.post_room hs hk hroom (Kernel.completionOf e)
      simp [Kernel.postings, hpost, Served.posted, hroom, Nat.add_assoc, Nat.add_comm 1]
    · have hpost := hc.post_full hs hk (Nat.le_of_not_lt hroom) (Kernel.completionOf e)
      have hlater (i : Nat) : ¬ kept.length + waiting.length + i < s.entries.toNat := by omega
      simp [Kernel.postings, hpost, Served.posted, hlater, Nat.le_of_not_lt hroom]

end Carries

end CompletionSite

/-! ## Open rings -/

namespace Ring

variable {r : Ring} {b : RingBody}

theorem submission_eq (hbody : r.body? = some b) : r.submission = .ok b.sq := by
  rw [submission, opened, hbody]
  rfl

theorem completion_eq (hbody : r.body? = some b) : r.completion = .ok b.cq := by
  rw [completion, opened, hbody]
  rfl

theorem submitter_eq (hbody : r.body? = some b) :
    r.submitter = .ok ⟨b.fd, r.setupFlags, b.sq⟩ := by
  rw [submitter, opened, hbody]
  rfl

theorem submit_eq (hbody : r.body? = some b) (want : UInt32) (mask? : Option UInt64) (h : Host) :
    r.submit want mask? h = (⟨b.fd, r.setupFlags, b.sq⟩ : Submitter).submit want mask? h :=
  Sys.bind_ok (Sys.ofExcept_ok (submitter_eq hbody) h)

theorem enter_eq (hbody : r.body? = some b) (toSubmit minComplete flags : UInt32)
    (mask? : Option UInt64) (h : Host) :
    r.enter toSubmit minComplete flags mask? h =
      Sys.enter ⟨b.fd, toSubmit, minComplete, flags, mask?⟩ h :=
  Sys.bind_ok (Sys.ofExcept_ok (submitter_eq hbody) h)

theorem body_withSubmission (hbody : r.body? = some b) (q : SubmissionQueue) :
    (r.withSubmission q).body? = some { b with sq := q } := by
  rw [withSubmission, hbody]
  rfl

theorem body_withCompletion (hbody : r.body? = some b) (q : CompletionQueue) :
    (r.withCompletion q).body? = some { b with cq := q } := by
  rw [withCompletion, hbody]
  rfl

end Ring

/-- An open ring can be shared. -/
theorem SharedRing.ofRing?_open {ring : Ring} {b : RingBody} (hbody : ring.body? = some b) :
    ofRing? (some ring) = .ok ⟨some ring⟩ := by
  rw [ofRing?, Ring.isClosed, hbody]
  rfl

/-! ## Both sides -/

/-- An open ring and its kernel, and what both queues hold. -/
structure RingSite.Carries (s : RingSite) (b : RingBody) (k : Kernel)
    (published deferred : List Entry) (kept waiting : List Completion) : Prop where
  sq_eq : b.sq = s.submission.queue b.sq.localTail
  cq_eq : b.cq = s.completion.queue b.cq.localHead
  serves : k.Serves s
  submission : s.submission.Carries k.memory b.sq.localTail published deferred
  completion : s.completion.Carries k.memory b.cq.localHead kept waiting

namespace RingSite

/-- The kernels in which a completion of the ring can be posted or refused. -/
def Completes (s : RingSite) (k : Kernel) : Prop :=
  k.Serves s ∧ ∃ t kept waiting, s.completion.Carries k.memory t kept waiting

variable {s : RingSite} {b : RingBody} {k : Kernel} {published deferred : List Entry}
  {kept waiting : List Completion}

/-- Completing entries leaves the submission side alone, but for the flags. -/
theorem Sound.handlesAt_complete (hs : s.Sound) :
    Kernel.HandlesAt s.submission s.Completes Kernel.complete where
  serves _ hk := hk.1.toServesSubmission
  stays e k hk := by
    obtain ⟨hserves, t, kept, waiting, hc⟩ := hk
    obtain ⟨m, hcomplete, -, hc', -⟩ := hc.complete_eq hs.completion hserves.completion e
    rw [hcomplete]
    exact ⟨hserves.withMemory m, t, kept, _, hc'⟩
  same e k f hk hf := by
    obtain ⟨hserves, t, kept, waiting, hc⟩ := hk
    obtain ⟨m, hcomplete, hsame, -, -⟩ := hc.complete_eq hs.completion hserves.completion e
    rw [hcomplete]
    exact hs.submission_sameAt hsame hf

namespace Carries

/-- A ring that was just opened carries nothing. -/
theorem ofOpened {ring : Ring} {h : Host} (hopen : s.Opened ring h) :
    ∃ b, ring.body? = some b ∧ s.Carries b h.kernel [] [] [] [] ∧ h.kernel.admits b.fd = true := by
  obtain ⟨entries, params, granted, h₀, b, hfresh, hsetUp, hbody, hsite⟩ := hopen.setUp
  obtain ⟨b', s', hbody', -, hsite', hserves, hadmits, hsq, hcq⟩ := Ring.setUp_ok hfresh hsetUp
  cases hbody.symm.trans hbody'
  cases hsite.symm.trans hsite'
  obtain ⟨hring, hsqes, hcqRing, hoffsets, -, hcqOffsets, -⟩ :=
    RingRegions.site?_eq_some_iff.mp hsite
  rw [hring, hsqes, ← hoffsets, hopen.sound.submission.attach_eq hopen.formatted.submission] at hsq
  have hattach := hopen.sound.completion.attach_eq hopen.formatted.completion
  rw [hcqRing, ← hcqOffsets] at hcq
  have hsq' := Except.ok.inj hsq
  have hcq' := Except.ok.inj (hattach.symm.trans hcq)
  refine ⟨b, hbody, ⟨?_, ?_, hserves, ?_, ?_⟩, hadmits⟩
  · rw [← hsq']
    rfl
  · rw [← hcq']
    rfl
  · rw [← hsq']
    exact .nil hopen.formatted.submission hopen.sqEmpty
  · rw [← hcq']
    exact .nil hopen.formatted.completion hopen.cqEmpty

/-- How the kernel treats later calls does not matter. -/
theorem congr_kernel {k' : Kernel} (hc : s.Carries b k published deferred kept waiting)
    (hmemory : k'.memory = k.memory) (hgranted : k'.granted = k.granted)
    (hmapping : ∀ area, k'.mapping? area = k.mapping? area) :
    s.Carries b k' published deferred kept waiting where
  sq_eq := hc.sq_eq
  cq_eq := hc.cq_eq
  serves := by
    have hserves := hc.serves
    refine ⟨⟨?_, ?_, ?_, ?_⟩, ?_, ?_, ?_⟩
    · rw [hmapping, hserves.ring]
    · rw [hmapping, hserves.sqes]
    · rw [hgranted, hserves.offsets]
    · rw [hgranted, hserves.entries]
    · rw [hmapping, hserves.cqRing]
    · rw [hgranted, hserves.cqOffsets]
    · rw [hgranted, hserves.cqEntries]
  submission := hmemory ▸ hc.submission
  completion := hmemory ▸ hc.completion

/-- Without a scripted result, serving an enter call takes the oldest published
entries, up to its limits, and completes them. -/
theorem serve_eq (hs : s.Sound) (hc : s.Carries b k published deferred kept waiting)
    (hscript : k.enterScript = []) (toSubmit : UInt32) {limit : Nat}
    (hlimit : limit = min (k.accept?.getD toSubmit.toNat) toSubmit.toNat) :
    ∃ m, k.serve toSubmit = (.ok (published.take limit).length, k.withMemory m) ∧
      s.Carries b (k.withMemory m) (published.drop limit) deferred kept
        (waiting ++ Served.posted (k.postings (published.take limit))) ∧
      s.submission.word m .head =
        s.submission.word k.memory .head + UInt32.ofNat (published.take limit).length ∧
      s.completion.word m .overflow = s.completion.word k.memory .overflow +
        UInt32.ofNat (Served.refused (k.postings (published.take limit))) := by
  have hclass : s.Completes k := ⟨hc.serves, _, kept, waiting, hc.completion⟩
  obtain ⟨m, hall, hc', hoverflow⟩ := hc.completion.handleAll_complete hs.completion
    hc.serves.completion (published.take limit)
  have hconsume := hc.submission.consumeEach_eq hs.submission hs.handlesAt_complete hclass
    (some limit) rfl
  -- The head moves last, so the handlers still see the slots of all entries taken.
  have hsub := (hc.submission.handleAll hs.submission hs.handlesAt_complete hclass
    (published.take limit)).retire hs.submission limit
  have hheadAll := hs.handlesAt_complete.sameAt_handleAll hclass (published.take limit)
    (f := .head) (by decide)
  simp only [Option.getD_some] at hconsume
  rw [hall] at hconsume hsub hheadAll
  have hsame := s.submission.sameOutside_retired m (published.take limit).length
  have hserve : k.serve toSubmit =
      (.ok (Kernel.consumeEach Kernel.complete k (some limit)).count,
        (Kernel.consumeEach Kernel.complete k (some limit)).kernel) := by
    unfold Kernel.serve
    rw [hscript, hlimit]
  refine ⟨s.submission.retired m (published.take limit).length, ?_, ?_, ?_, ?_⟩
  · rw [hserve, hconsume]
    rfl
  · refine ⟨hc.sq_eq, hc.cq_eq, hc.serves.withMemory _, hsub, ?_⟩
    exact hc'.congr hs.completion fun f _ _ => hs.completion_sameAt hsame (by decide) f
  · have hhead : s.submission.word m .head = s.submission.word k.memory .head :=
      Fields.word_congr rfl hheadAll
    rw [← hhead]
    exact Memory.word_setWord ..
  · rw [← hoverflow]
    exact Fields.word_congr rfl (hs.completion_sameAt hsame (by decide) .overflow)

/-- Serving an enter call takes a part of the published entries and completes
them, and it answers how many.  A scripted result means that it takes none. -/
theorem serve (hs : s.Sound) (hc : s.Carries b k published deferred kept waiting)
    (toSubmit : UInt32) :
    ∃ taken rest, published = taken ++ rest ∧
      (taken = [] ∨ (k.serve toSubmit).1 = .ok taken.length) ∧
      s.Carries b (k.serve toSubmit).2 rest deferred kept
        (waiting ++ Served.posted (k.postings taken)) ∧
      s.submission.word (k.serve toSubmit).2.memory .head =
        s.submission.word k.memory .head + UInt32.ofNat taken.length ∧
      s.completion.word (k.serve toSubmit).2.memory .overflow =
        s.completion.word k.memory .overflow +
          UInt32.ofNat (Served.refused (k.postings taken)) := by
  cases hscript : k.enterScript with
  | nil =>
    obtain ⟨m, hserve, hcarries, hhead, hoverflow⟩ := hc.serve_eq hs hscript toSubmit rfl
    rw [hserve]
    exact ⟨_, _, (List.take_append_drop _ published).symm, .inr rfl, hcarries, hhead, hoverflow⟩
  | cons n script =>
    have hserve : (k.serve toSubmit).2 = { k with enterScript := script } := by
      unfold Kernel.serve
      rw [hscript]
    rw [hserve]
    refine ⟨[], published, rfl, .inl rfl, ?_, by simp, by simp [Kernel.postings, Served.refused]⟩
    have hcarries : s.Carries b { k with enterScript := script } published deferred kept waiting :=
      hc.congr_kernel rfl rfl fun area => by cases area <;> rfl
    simpa [Kernel.postings, Served.posted] using hcarries

/-- The kernel takes the oldest published entries, without completing them. -/
theorem consume (hs : s.Sound) (hc : s.Carries b k published deferred kept waiting)
    (limit? : Option Nat) :
    ∃ taken rest, published = taken ++ rest ∧ (k.consume limit?).entries = taken ∧
      s.Carries b (k.consume limit?).kernel rest deferred kept waiting := by
  have hconsume := hc.submission.consumeEach_eq hs.submission
    (Kernel.handlesAt_keep s.submission) hc.serves.toServesSubmission limit? rfl
  rw [Kernel.handleAll_keep] at hconsume
  have hsame := s.submission.sameOutside_retired k.memory
    (published.take (limit?.getD published.length)).length
  rw [Kernel.consume, hconsume]
  refine ⟨_, _, (List.take_append_drop _ published).symm, rfl, hc.sq_eq, hc.cq_eq,
    hc.serves.withMemory _, hc.submission.retire hs.submission _, ?_⟩
  exact hc.completion.congr hs.completion fun f _ _ => hs.completion_sameAt hsame (by decide) f

/-- The kernel posts a completion if a slot is free, and else it counts it. -/
theorem post_eq (hs : s.Sound) (hc : s.Carries b k published deferred kept waiting)
    (c : Completion) :
    (k.post c).1 = decide (kept.length + waiting.length < s.cqEntries.toNat) ∧
      s.Carries b (k.post c).2 published deferred kept
        (if (k.post c).1 then waiting ++ [c] else waiting) := by
  by_cases hroom : kept.length + waiting.length < s.cqEntries.toNat
  · have hsame := hs.completion.sameOutside_posted k.memory c
    rw [hc.completion.post_room hs.completion hc.serves.completion hroom c]
    exact ⟨(decide_eq_true hroom).symm, hc.sq_eq, hc.cq_eq, hc.serves.withMemory _,
      hc.submission.congr hs.submission fun f hf _ => hs.submission_sameAt hsame hf,
      hc.completion.posted hs.completion hroom c⟩
  · have hsame := s.completion.sameOutside_overflowed k.memory
    have hfull := Nat.le_of_not_lt hroom
    rw [hc.completion.post_full hs.completion hc.serves.completion hfull c]
    exact ⟨(decide_eq_false hroom).symm, hc.sq_eq, hc.cq_eq, hc.serves.withMemory _,
      hc.submission.congr hs.submission fun f hf _ => hs.submission_sameAt hsame hf,
      hc.completion.overflowed hs.completion⟩

variable {h : Host}

/-! ### What is seen of it -/

/-- What the queues and the kernel tell about the contents. -/
theorem seen (hs : s.Sound) (hc : s.Carries b k published deferred kept waiting) :
    b.sq.waiting k = published ∧ b.sq.hidden k = deferred ∧ b.cq.readable k.memory = waiting ∧
      (b.sq.len k.memory).toNat = published.length + deferred.length ∧
      (b.cq.len k.memory).toNat = waiting.length ∧
      b.cq.overflow k.memory = s.completion.word k.memory .overflow := by
  rw [hc.sq_eq, hc.cq_eq]
  exact ⟨hc.submission.waiting_eq hs.submission hc.serves.toServesSubmission,
    hc.submission.hidden_eq hs.submission hc.serves.toServesSubmission,
    hc.completion.readable_eq, hc.submission.toNat_len, hc.completion.toNat_len, rfl⟩

/-! ### Steps of the process -/

/-- With room, a step puts its entries behind those carried. -/
theorem submission_ok (hs : s.Sound) (hc : s.Carries b h.kernel published deferred kept waiting)
    (step : SubmissionStep)
    (hroom : published.length + deferred.length + step.entries.length ≤
      s.submission.entries.toNat) :
    ∃ reply q m, step.perform b.sq h = .ok (reply, q) (h.withMemory m) ∧
      s.Carries { b with sq := q } (h.kernel.withMemory m)
        (if step.publishes then published ++ deferred ++ step.entries else published)
        (if step.publishes then [] else deferred ++ step.entries) kept waiting ∧
      s.completion.word m .overflow = s.completion.word h.kernel.memory .overflow := by
  obtain ⟨reply, t, m, hperform, hsame, hsub⟩ :=
    hc.submission.perform_ok hs.submission step hroom
  rw [← hc.sq_eq] at hperform
  have hframe := hs.completion_sameAt hsame (by decide)
  exact ⟨reply, s.submission.queue t, m, hperform,
    ⟨rfl, hc.cq_eq, hc.serves.withMemory m, hsub,
      hc.completion.congr hs.completion fun f _ _ => hframe f⟩,
    Fields.word_congr rfl (hframe .overflow)⟩

/-- Without room, a step is refused and changes nothing. -/
theorem submission_full (hc : s.Carries b h.kernel published deferred kept waiting)
    (step : SubmissionStep)
    (hfull : s.submission.entries.toNat <
      published.length + deferred.length + step.entries.length) :
    step.perform b.sq h = .error .submissionQueueFull h := by
  rw [hc.sq_eq]
  exact hc.submission.perform_full step hfull

/-- A step takes from the front of the completions that wait. -/
theorem completion_ok (hs : s.Sound) (hc : s.Carries b h.kernel published deferred kept waiting)
    (step : CompletionStep) :
    ∃ reply q m, step.perform b.cq h = .ok (reply, q) (h.withMemory m) ∧
      reply.taken = waiting.take step.demand ∧
      s.Carries { b with cq := q } (h.kernel.withMemory m) published deferred
        (if step.publishes then [] else kept ++ waiting.take step.demand)
        (waiting.drop step.demand) ∧
      s.completion.word m .overflow = s.completion.word h.kernel.memory .overflow := by
  obtain ⟨reply, t, m, hperform, htaken, hsame, hcom⟩ :=
    hc.completion.perform_ok hs.completion step
  rw [← hc.cq_eq] at hperform
  exact ⟨reply, s.completion.queue t, m, hperform, htaken,
    ⟨hc.sq_eq, rfl, hc.serves.withMemory m,
      hc.submission.congr hs.submission fun f hf _ => hs.submission_sameAt hsame hf, hcom⟩,
    hs.completion.word_eq hsame (by decide) rfl⟩

/-- To publish shows the kernel all entries and leaves the other counters alone.
-/
theorem publish (hs : s.Sound) (hc : s.Carries b k published deferred kept waiting) :
    s.Carries b (k.withMemory (b.sq.publish k.memory)) (published ++ deferred) [] kept waiting ∧
      s.submission.word (b.sq.publish k.memory) .head = s.submission.word k.memory .head ∧
      s.completion.word (b.sq.publish k.memory) .overflow =
        s.completion.word k.memory .overflow := by
  have hsame := SubmissionSite.Carries.sameOutside_publish s.submission k.memory b.sq.localTail
  have hsub := hc.submission.publish hs.submission
  rw [← hc.sq_eq] at hsame hsub
  have hframe := hs.completion_sameAt hsame (by decide)
  exact ⟨⟨hc.sq_eq, hc.cq_eq, hc.serves.withMemory _, hsub,
      hc.completion.congr hs.completion fun f _ _ => hframe f⟩,
    hs.submission.word_eq hsame (by decide) rfl, Fields.word_congr rfl (hframe .overflow)⟩

end Carries

end RingSite

end IoRing
