import IoRing.Proofs.Ring.Contents

/-!
# What the kernel takes

What the kernel took between two of its states is seen from outside.  Its head
passed the slots of some entries (`Kernel.passed`).  `RingSite.Took` says what
that means for the contents of both queues, and it holds of everything that may
happen during a call: nothing, publishing, serving, or serving after publishing.

Where no result is scripted, a call gives the number of the entries it took
(`RingSite.Carries.enter_takes`, `RingSite.Carries.submit_takes`).
-/

namespace IoRing

/-! ## Submitting -/

namespace Submitter

/-- To prepare publishes the tail, then decides by the published memory. -/
theorem prepare_eq (s : Submitter) (want : UInt32) (h : Host) :
    s.prepare want h =
      .ok (.decide s.setupFlags (s.queue.len (s.queue.publish h.kernel.memory)) want
          (s.queue.needWakeup (s.queue.publish h.kernel.memory)))
        (h.withMemory (s.queue.publish h.kernel.memory)) := rfl

/-- Without a poll thread, or to wait, the kernel is entered for all that is
pending. -/
theorem submit_eq_enter (s : Submitter) {want : UInt32} (mask? : Option UInt64) (h : Host)
    (hcall : hasBits s.setupFlags SetupFlag.sqPoll = false ∨ want ≠ 0) :
    ∃ flags, s.submit want mask? h =
      Sys.enter ⟨s.fd, s.queue.len (s.queue.publish h.kernel.memory), want, flags, mask?⟩
        (h.withMemory (s.queue.publish h.kernel.memory)) := by
  rw [submit, Sys.bind_ok (prepare_eq s want h), EnterRequest.decide]
  cases hpoll : hasBits s.setupFlags SetupFlag.sqPoll with
  | false => exact ⟨_, rfl⟩
  | true =>
    have hwant : (want != 0) = true := by
      rcases hcall with hnone | hwant
      · rw [hpoll] at hnone
        cases hnone
      · exact bne_iff_ne.mpr hwant
    cases s.queue.needWakeup (s.queue.publish h.kernel.memory) with
    | true => exact ⟨_, rfl⟩
    | false =>
      simp only [Bool.not_true, Bool.false_eq_true, if_false, hwant, if_true]
      exact ⟨_, rfl⟩

end Submitter

/-! ## What a call takes -/

/-- The entries in the slots that the head passed from one state to another. -/
def Kernel.passed (k k' : Kernel) : List Entry :=
  let head := k.word .sqRing k.granted.sqOffsets.head.toNat
  k.entriesFrom head (k'.word .sqRing k'.granted.sqOffsets.head.toNat - head)

namespace RingSite

/-- From one state of the kernel to another, the process may have published, and
the kernel took some entries and completed them. -/
structure Took (s : RingSite) (b : RingBody) (k k' : Kernel) (published deferred : List Entry)
    (kept waiting : List Completion) (taken published' deferred' : List Entry) : Prop where
  split : published ++ deferred = taken ++ (published' ++ deferred')
  carries : s.Carries b k' published' deferred' kept
    (waiting ++ Served.posted (k.postings taken))
  head_eq : s.submission.word k'.memory .head =
    s.submission.word k.memory .head + UInt32.ofNat taken.length
  overflow_eq : s.completion.word k'.memory .overflow =
    s.completion.word k.memory .overflow + UInt32.ofNat (Served.refused (k.postings taken))

variable {s : RingSite} {b : RingBody} {k k' : Kernel}
  {published deferred taken published' deferred' : List Entry} {kept waiting : List Completion}

namespace Carries

/-- Nothing is taken if only the treatment of later calls changes. -/
theorem took_congr (hc : s.Carries b k published deferred kept waiting)
    (hmemory : k'.memory = k.memory) (hgranted : k'.granted = k.granted)
    (hmapping : ∀ area, k'.mapping? area = k.mapping? area) :
    s.Took b k k' published deferred kept waiting [] published deferred where
  split := rfl
  carries := by
    simpa [Kernel.postings, Served.posted] using hc.congr_kernel hmemory hgranted hmapping
  head_eq := by simp [hmemory]
  overflow_eq := by simp [hmemory, Kernel.postings, Served.refused]

/-- A kernel that does nothing takes nothing. -/
theorem took_nothing (hc : s.Carries b k published deferred kept waiting) :
    s.Took b k k published deferred kept waiting [] published deferred :=
  hc.took_congr rfl rfl fun _ => rfl

/-- A call takes entries from the front of those published and answers with their
number, or fails and takes none. -/
theorem took_serve (hs : s.Sound) (hc : s.Carries b k published deferred kept waiting)
    (toSubmit : UInt32) :
    ∃ taken published', (taken = [] ∨ (k.serve toSubmit).1 = .ok taken.length) ∧
      s.Took b k (k.serve toSubmit).2 published deferred kept waiting taken published'
        deferred := by
  obtain ⟨taken, rest, hsplit, hanswer, hcarries, hhead, hoverflow⟩ := hc.serve hs toSubmit
  refine ⟨taken, rest, hanswer, ?_, hcarries, hhead, hoverflow⟩
  rw [hsplit, List.append_assoc]

/-- Without a scripted result, the kernel takes as many entries as the call asks
for, as its limit allows and as there are. -/
theorem took_unscripted (hs : s.Sound) (hc : s.Carries b k published deferred kept waiting)
    (hscript : k.enterScript = []) (toSubmit : UInt32) {limit : Nat}
    (hlimit : limit = min (k.accept?.getD toSubmit.toNat) toSubmit.toNat) :
    ∃ m, k.serve toSubmit = (.ok (published.take limit).length, k.withMemory m) ∧
      s.Took b k (k.withMemory m) published deferred kept waiting (published.take limit)
        (published.drop limit) deferred := by
  obtain ⟨m, hserve, hcarries, hhead, hoverflow⟩ := hc.serve_eq hs hscript toSubmit hlimit
  refine ⟨m, hserve, ?_, hcarries, hhead, hoverflow⟩
  rw [← List.append_assoc, List.take_append_drop]

/-- Publishing before does not change what is taken. -/
theorem took_publish (hs : s.Sound) (hc : s.Carries b k published deferred kept waiting)
    (htook : s.Took b (k.withMemory (b.sq.publish k.memory)) k' (published ++ deferred) [] kept
      waiting taken published' deferred') :
    s.Took b k k' published deferred kept waiting taken published' deferred' := by
  obtain ⟨hcarries, hhead, hoverflow⟩ := hc.publish hs
  have hpostings : (k.withMemory (b.sq.publish k.memory)).postings taken = k.postings taken := by
    rw [hcarries.completion.postings_eq hs.completion hcarries.serves.completion,
      hc.completion.postings_eq hs.completion hc.serves.completion]
  obtain ⟨hsplit, hcarries', hhead', hoverflow'⟩ := htook
  rw [hpostings] at hcarries' hoverflow'
  refine ⟨by simpa using hsplit, hcarries', ?_, ?_⟩
  · rw [hhead', ← hhead]
    rfl
  · rw [hoverflow', ← hoverflow]
    rfl

variable {h : Host}

/-- A call to enter takes nothing, or it gives the number of entries that it took. -/
theorem took_enter (hs : s.Sound) (hc : s.Carries b h.kernel published deferred kept waiting)
    (call : EnterCall) :
    ∃ taken published',
      (taken = [] ∨ Sys.result (Sys.enter call) h = .ok (Int32.ofNat taken.length)) ∧
      s.Took b h.kernel (Sys.after (Sys.enter call) h).kernel published deferred kept waiting
        taken published' deferred := by
  cases hadmits : h.kernel.admits call.fd with
  | true =>
    obtain ⟨taken, published', hanswer, htook⟩ := hc.took_serve hs call.toSubmit
    rw [Sys.after_enter_admitted hadmits]
    refine ⟨taken, published', hanswer.imp_right fun hcount => ?_, htook⟩
    rw [Sys.result, Sys.enter_admitted hadmits, hcount]
    rfl
  | false =>
    rw [Sys.enter, Sys.after_bind_error (Sys.startEnter_refused hadmits)]
    exact ⟨[], published, .inl rfl, hc.took_nothing⟩

/-- Publishing does not change how many entries are pending. -/
theorem len_publish (hs : s.Sound) (hc : s.Carries b k published deferred kept waiting) :
    b.sq.len (b.sq.publish k.memory) = b.sq.len k.memory := by
  obtain ⟨hcarries, -, -⟩ := hc.publish hs
  obtain ⟨-, -, -, hafter, -⟩ := hcarries.seen hs
  obtain ⟨-, -, -, hbefore, -⟩ := hc.seen hs
  refine UInt32.toNat_inj.mp ((hafter.trans ?_).trans hbefore.symm)
  simp

/-- If no result is scripted, a call to enter takes what it can and gives the number. -/
theorem enter_takes (hs : s.Sound) (hc : s.Carries b h.kernel published deferred kept waiting)
    (call : EnterCall) (hadmits : h.kernel.admits call.fd = true)
    (hscript : h.kernel.enterScript = []) :
    let limit := min (h.kernel.accept?.getD call.toSubmit.toNat) call.toSubmit.toNat
    Sys.result (Sys.enter call) h = .ok (Int32.ofNat (published.take limit).length) ∧
      s.Took b h.kernel (Sys.after (Sys.enter call) h).kernel published deferred kept waiting
        (published.take limit) (published.drop limit) deferred := by
  intro limit
  obtain ⟨m, hserve, htook⟩ := hc.took_unscripted hs hscript call.toSubmit rfl
  rw [Sys.result, Sys.enter_admitted hadmits, Sys.after_enter_admitted hadmits, hserve]
  exact ⟨rfl, htook⟩

/-- So does a submit that enters the kernel.  It has published before. -/
theorem submit_takes (hs : s.Sound) (hc : s.Carries b h.kernel published deferred kept waiting)
    {fd : Int32} {setupFlags want : UInt32} (mask? : Option UInt64)
    (hcall : hasBits setupFlags SetupFlag.sqPoll = false ∨ want ≠ 0)
    (hadmits : h.kernel.admits fd = true) (hscript : h.kernel.enterScript = []) :
    let act := (⟨fd, setupFlags, b.sq⟩ : Submitter).submit want mask?
    let limit := h.kernel.accept?.getD (b.sq.len h.kernel.memory).toNat
    Sys.result act h = .ok (Int32.ofNat ((published ++ deferred).take limit).length) ∧
      ∃ rest, s.Took b h.kernel (Sys.after act h).kernel published deferred kept waiting
        ((published ++ deferred).take limit) rest [] := by
  intro act limit
  obtain ⟨flags, hact⟩ := Submitter.submit_eq_enter ⟨fd, setupFlags, b.sq⟩ mask? h hcall
  obtain ⟨hcarries, -, -⟩ := hc.publish hs
  obtain ⟨-, -, -, hlen, -⟩ := hc.seen hs
  rw [hc.len_publish hs] at hact
  obtain ⟨hresult, htook⟩ := RingSite.Carries.enter_takes
    (h := h.withMemory (b.sq.publish h.kernel.memory)) hs hcarries
    ⟨fd, b.sq.len h.kernel.memory, want, flags, mask?⟩ hadmits hscript
  -- The call asks for all that is pending, so only the limit counts.
  have hall : (published ++ deferred).length = (b.sq.len h.kernel.memory).toNat := by
    rw [hlen, List.length_append]
  have hlimit (n : Nat) : (published ++ deferred).take n =
      (published ++ deferred).take (min n (b.sq.len h.kernel.memory).toNat) := by
    rw [← hall]
    exact List.take_eq_take_min
  rw [Sys.result_congr hact, Sys.after_congr hact, hlimit]
  exact ⟨hresult, _, hc.took_publish hs htook⟩

/-- Submitting publishes, and then it takes nothing or gives the number of entries
that it took. -/
theorem took_submit (hs : s.Sound)
    (hc : s.Carries b h.kernel published deferred kept waiting) (fd : Int32)
    (setupFlags want : UInt32) (mask? : Option UInt64) :
    let act := (⟨fd, setupFlags, b.sq⟩ : Submitter).submit want mask?
    ∃ taken published' deferred',
      (taken = [] ∨ Sys.result act h = .ok (Int32.ofNat taken.length)) ∧
      s.Took b h.kernel (Sys.after act h).kernel published deferred kept waiting taken published'
        deferred' := by
  intro act
  obtain ⟨hc', -, -⟩ := hc.publish hs
  have hprepare := Submitter.prepare_eq ⟨fd, setupFlags, b.sq⟩ want h
  simp only [act, Submitter.submit]
  rw [Sys.after_bind_ok hprepare, Sys.result_bind_ok hprepare]
  generalize EnterRequest.decide _ _ _ _ = request
  cases hneeded : request.needed with
  | true =>
    obtain ⟨taken, published', hanswer, htook⟩ :=
      RingSite.Carries.took_enter (h := h.withMemory (b.sq.publish h.kernel.memory)) hs hc'
        ⟨fd, request.toSubmit, request.minComplete, request.flags, mask?⟩
    exact ⟨taken, published', [], hanswer, hc.took_publish hs htook⟩
  | false => exact ⟨[], _, _, .inl rfl, hc.took_publish hs hc'.took_nothing⟩

end Carries

/-- The slots that the head passed hold the entries that were taken. -/
theorem Took.passed_eq (hs : s.Sound) (hc : s.Carries b k published deferred kept waiting)
    (htook : s.Took b k k' published deferred kept waiting taken published' deferred') :
    k.passed k' = taken := by
  have hheld := hc.submission.held
  rw [htook.split, CellsHold.append_iff] at hheld
  have hlt := hc.submission.length_lt
  have hlength := congrArg List.length htook.split
  simp only [List.length_append] at hlength
  rw [Kernel.passed, hc.serves.head_eq hs.submission, htook.carries.serves.head_eq hs.submission,
    htook.head_eq, add_ofNat_sub]
  exact hs.submission.entriesFrom_eq hc.serves.toServesSubmission hc.submission.formatted
    (by omega) hheld.1

end RingSite

end IoRing
