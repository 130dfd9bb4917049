import IoRing.Proofs.Ring.Construction
import IoRing.Proofs.Twins.Steps
import IoRing.Session.Rings

/-!
# Sessions on twin rings

A session on a ring takes steps that name neither a mapping nor the ring's layout
(`DeskStep.OnRing`).  Two such sessions on twin rings record the same, step by
step: the same outcomes, the same system calls, the same diagnostics and the same
views (`Session.record_twins`).

They part only when they end.  A ring with three mappings unmaps one more than a
ring with two.  Apart from that the endings are the same
(`Session.ending_twins`).
-/

namespace IoRing

/-! ## What is held -/

/-- The same descriptor, and queues with the same private counters. -/
structure RingBody.Twins (s s' : RingSite) (b b' : RingBody) : Prop where
  fd_eq : b'.fd = b.fd
  sq : SubmissionQueue.Twins s s' b.sq b'.sq
  cq : CompletionQueue.Twins s s' b.cq b'.cq

/-- Open rings whose layouts may differ. -/
structure Ring.Twins (s s' : RingSite) (r r' : Ring) : Prop where
  setupFlags_eq : r'.setupFlags = r.setupFlags
  body : ∃ b b', r.body? = some b ∧ r'.body? = some b' ∧ RingBody.Twins s s' b b'

/-- Both users hold an open ring of their own. -/
structure Desk.Twins (s s' : RingSite) (d d' : Desk) : Prop where
  ring : ∃ r r', d.ring? = some r ∧ d'.ring? = some r' ∧ Ring.Twins s s' r r'
  unshared : d.shared? = none
  unshared' : d'.shared? = none

/-- Users of twin rings on twin hosts. -/
structure Session.Twins (s s' : RingSite) (S S' : Session Desk) : Prop where
  host : Host.Twins s s' S.host S'.host
  held : Desk.Twins s s' S.held S'.held

namespace Ring.Twins

variable {s s' : RingSite} {r r' : Ring}

theorem withSubmission (hr : Twins s s' r r') {q q' : SubmissionQueue}
    (hq : SubmissionQueue.Twins s s' q q') :
    Twins s s' (r.withSubmission q) (r'.withSubmission q') := by
  obtain ⟨b, b', hbody, hbody', hb⟩ := hr.body
  exact ⟨hr.setupFlags_eq, _, _, body_withSubmission hbody q, body_withSubmission hbody' q',
    hb.fd_eq, hq, hb.cq⟩

theorem withCompletion (hr : Twins s s' r r') {q q' : CompletionQueue}
    (hq : CompletionQueue.Twins s s' q q') :
    Twins s s' (r.withCompletion q) (r'.withCompletion q') := by
  obtain ⟨b, b', hbody, hbody', hb⟩ := hr.body
  exact ⟨hr.setupFlags_eq, _, _, body_withCompletion hbody q, body_withCompletion hbody' q',
    hb.fd_eq, hb.sq, hq⟩

end Ring.Twins

/-! ## Actions -/

namespace Action

variable {s s' : RingSite} {α : Type} {P : α → α → Prop}

theorem onHost_twins {act act' : Sys α} (hact : RunAlike (Host.Twins s s') P act act') :
    RunAlike (Session.Twins s s') P (onHost act) (onHost act') := by
  intro S S' hS
  have hend := hact S.host S'.host hS.host
  simp only [onHost]
  generalize act S.host = r at hend ⊢
  generalize act' S'.host = r' at hend ⊢
  cases hend with
  | ok ha hh => exact .ok ha ⟨hh, hS.held⟩
  | error hh => exact .error ⟨hh, hS.held⟩

theorem ofExcept_twins {a a' : α} {r r' : Except Fault α} (hr : r = .ok a) (hr' : r' = .ok a')
    (ha : P a a') : RunAlike (Session.Twins s s') P (ofExcept r) (ofExcept r') := by
  rw [hr, hr']
  exact .of_pure ha

theorem hold_twins {f f' : Desk → Desk}
    (hf : ∀ d d', Desk.Twins s s' d d' → Desk.Twins s s' (f d) (f' d')) :
    RunAlike (Session.Twins s s') Eq (hold f) (hold f') :=
  .of_modify fun _ _ hS => ⟨hS.host, hf _ _ hS.held⟩

theorem needRing_twins :
    RunAlike (Session.Twins s s') (Ring.Twins s s') Desk.needRing Desk.needRing := by
  intro S S' hS
  obtain ⟨r, r', hring, hring', hr⟩ := hS.held.ring
  have hneed (S : Session Desk) {r : Ring} (hring : S.held.ring? = some r) :
      Desk.needRing S = .ok r S := by
    change Action.need .ring S.held.ring? S = _
    rw [hring]
    rfl
  rw [hneed S hring, hneed S' hring']
  exact .ok hr hS

end Action

/-! ## Steps -/

/-- A step on the open ring or of the kernel, without a word about mappings. -/
def DeskStep.OnRing : DeskStep → Prop
  | .kernel step => step.Placeless
  | .submission _ | .completion _ | .submit _ => True
  | _ => False

namespace Desk

variable {s s' : RingSite}

/-- Every step on twin rings has the same reply or the same refusal. -/
theorem perform_twins (ht : s.Twins s') {step : DeskStep} (hstep : step.OnRing) :
    RunAlike (Session.Twins s s') Eq (perform step) (perform step) := by
  cases step with
  | kernel step =>
    rw [perform]
    exact Action.onHost_twins (Sys.onKernel_twins fun _ _ hk => KernelStep.work_twins hk step hstep)
  | submission step =>
    rw [perform]
    refine Action.needRing_twins.bind fun r r' hr => ?_
    obtain ⟨b, b', hbody, hbody', hb⟩ := hr.body
    have hfind : RunAlike (Session.Twins s s') (SubmissionQueue.Twins s s')
        (Action.ofExcept r.submission) (Action.ofExcept r'.submission) :=
      Action.ofExcept_twins (Ring.submission_eq hbody) (Ring.submission_eq hbody') hb.sq
    refine hfind.bind fun q q' hq => (Action.onHost_twins (step.perform_twins ht hq)).bind ?_
    rintro ⟨reply, q⟩ ⟨reply', q'⟩ ⟨rfl, hq⟩
    refine (Action.hold_twins fun d d' hd => ?_).bind_eq fun _ => .of_pure rfl
    exact ⟨⟨_, _, rfl, rfl, hr.withSubmission hq⟩, hd.unshared, hd.unshared'⟩
  | completion step =>
    rw [perform]
    have hfind : RunAlike (Session.Twins s s') (CompletionQueue.Twins s s')
        (do Action.ofExcept (← needRing).completion)
        (do Action.ofExcept (← needRing).completion) := by
      refine Action.needRing_twins.bind fun r r' hr => ?_
      obtain ⟨b, b', hbody, hbody', hb⟩ := hr.body
      exact Action.ofExcept_twins (Ring.completion_eq hbody) (Ring.completion_eq hbody') hb.cq
    unfold CompletionStep.performOn
    split
    · exact .of_pure rfl
    · refine hfind.bind fun q q' hq => (Action.onHost_twins (step.perform_twins ht hq)).bind ?_
      rintro ⟨reply, q⟩ ⟨reply', q'⟩ ⟨rfl, hq⟩
      refine (Action.hold_twins fun d d' hd => ?_).bind_eq fun _ => .of_pure rfl
      -- The queue is put back into the ring that is held by then.
      obtain ⟨r, r', hring, hring', hr⟩ := hd.ring
      simp only [hring, hring']
      exact ⟨⟨_, _, rfl, rfl, hr.withCompletion hq⟩, hd.unshared, hd.unshared'⟩
  | submit step =>
    rw [perform]
    refine (Action.onHost_twins (Sys.ofExcept_twins step.check)).bind_eq fun _ => ?_
    refine Action.needRing_twins.bind fun r r' hr => ?_
    obtain ⟨b, b', hbody, hbody', hb⟩ := hr.body
    have hfind : RunAlike (Session.Twins s s') (Submitter.Twins s s')
        (Action.ofExcept r.submitter) (Action.ofExcept r'.submitter) :=
      Action.ofExcept_twins (Ring.submitter_eq hbody) (Ring.submitter_eq hbody')
        ⟨hb.fd_eq, hr.setupFlags_eq, hb.sq⟩
    exact hfind.bind fun c c' hc => Action.onHost_twins (step.perform_twins ht hc)
  | setParams step => exact hstep.elim
  | params => exact hstep.elim
  | raw step => exact hstep.elim
  | life step => exact hstep.elim
  | shared step => exact hstep.elim
  | sharedSubmitDuring want steps => exact hstep.elim

theorem view_twins {S S' : Session Desk} (hS : Session.Twins s s' S S') : view S' = view S := by
  obtain ⟨r, r', hring, hring', hr⟩ := hS.held.ring
  obtain ⟨b, b', hbody, hbody', hb⟩ := hr.body
  obtain ⟨t, hsq, hsq'⟩ := hb.sq
  obtain ⟨c, hcq, hcq'⟩ := hb.cq
  have ht := hS.host.kernel.sites
  have halike := hS.host.kernel.alike
  simp only [view, hring, hring', hbody, hbody', queues, hsq, hsq', hcq, hcq',
    halike.submissionSummary_eq ht, halike.completionSummary_eq ht]

end Desk

namespace Session

variable {s s' : RingSite} {S S' : Session Desk}

theorem observe_twins (hS : Twins s s' S S') :
    S'.observe.1 = S.observe.1 ∧ Twins s s' S.observe.2 S'.observe.2 := by
  refine ⟨?_, ⟨hS.host.kernel, rfl, rfl⟩, hS.held⟩
  simp only [observe, hS.host.calls_eq, hS.host.diagnostics_eq]

theorem outcome_twins {α : Type} {act act' : Action Desk α}
    (hact : RunAlike (Twins s s') Eq act act') (hS : Twins s s' S S') :
    (act'.outcome S').1 = (act.outcome S).1 ∧
      Twins s s' (act.outcome S).2 (act'.outcome S').2 := by
  have hend := hact S S' hS
  simp only [Action.outcome]
  generalize act S = r at hend ⊢
  generalize act' S' = r' at hend ⊢
  cases hend with
  | ok ha hS => exact ⟨congrArg Except.ok ha.symm, hS⟩
  | error hS => exact ⟨rfl, hS⟩

/-- Sessions on twin rings record the same. -/
theorem record_twins (hS : Twins s s' S S') {steps : List DeskStep}
    (hsteps : ∀ step ∈ steps, step.OnRing) :
    (record Desk.perform Desk.view steps S').1 = (record Desk.perform Desk.view steps S).1 ∧
      Twins s s' (record Desk.perform Desk.view steps S).2
        (record Desk.perform Desk.view steps S').2 := by
  induction steps generalizing S S' with
  | nil => exact ⟨rfl, hS⟩
  | cons step steps ih =>
    have hstep := Desk.perform_twins hS.host.kernel.sites (hsteps step List.mem_cons_self)
    obtain ⟨houtcome, hS⟩ := outcome_twins hstep hS
    obtain ⟨hobserved, hS⟩ := observe_twins hS
    have hview := Desk.view_twins hS
    obtain ⟨hrest, hlast⟩ := ih hS fun step hmem => hsteps step (List.mem_cons_of_mem _ hmem)
    simp only [record]
    exact ⟨by rw [houtcome, hobserved, hview, hrest], hlast⟩

end Session

/-! ## Closing -/

def Call.isMapping : Call → Bool
  | .map .. | .unmap .. => true
  | _ => false

/-- What was seen but for mapping and unmapping. -/
def Observed.withoutMappings (o : Observed) : Observed :=
  { o with calls := o.calls.filter (!·.isMapping) }

theorem Host.Unmapped.withoutMappings_eq {ms : List Mapping} {h h' : Host}
    (hu : Host.Unmapped ms h h') :
    h'.calls.filter (!·.isMapping) = h.calls.filter (!·.isMapping) := by
  have hnone : (ms.map (·.unmapCall h.kernel.config)).filter (!·.isMapping) = [] := by
    simp [Mapping.unmapCall, Call.isMapping]
  rw [hu.calls_eq, List.filter_append, hnone, List.append_nil]

/-- Closing twin rings looks the same but for the mappings. -/
theorem Ring.close_twins {s s' : RingSite} {r r' : Ring} {h h' : Host}
    (hr : Ring.Twins s s' r r') (hh : Host.Twins s s' h h') :
    ∃ r₁ h₁ r₁' h₁', r.close h = .ok r₁ h₁ ∧ r'.close h' = .ok r₁' h₁' ∧
      h₁'.calls.filter (!·.isMapping) = h₁.calls.filter (!·.isMapping) ∧
      h₁'.diagnostics = h₁.diagnostics := by
  obtain ⟨b, b', hbody, hbody', hb⟩ := hr.body
  obtain ⟨h₁, hrelease, hunmapped⟩ := b.regions.release_ok h
  obtain ⟨h₁', hrelease', hunmapped'⟩ := b'.regions.release_ok h'
  have hsilent := hh.kernel.unmapErrors_eq
  have hsilent' : h'.kernel.config.unmapErrors = [] :=
    (congrArg (·.config.unmapErrors) hh.kernel.unmapped_eq :).trans hsilent
  have hcloseError : h'.kernel.config.closeError? = h.kernel.config.closeError? :=
    (congrArg (·.config.closeError?) hh.kernel.unmapped_eq :)
  have hclosed : (h₁'.kernel.close b.fd).1 = (h₁.kernel.close b.fd).1 := by
    simp only [Kernel.close, hunmapped.config_eq, hunmapped'.config_eq, hunmapped.admits_eq,
      hunmapped'.admits_eq, hcloseError, hh.kernel.admits_eq]
  refine ⟨_, _, _, _, Ring.close_eq hbody hrelease, Ring.close_eq hbody' hrelease', ?_, ?_⟩
  · simp only [Sys.after, Sys.close_eq, List.filter_append, hunmapped.withoutMappings_eq,
      hunmapped'.withoutMappings_eq, hh.calls_eq, hb.fd_eq, hclosed]
  · simp only [Sys.after, Sys.close_eq, hunmapped.diagnostics_eq hsilent,
      hunmapped'.diagnostics_eq hsilent', hh.diagnostics_eq, hb.fd_eq, hclosed]

theorem Desk.host_finish {S : Session Desk} {r r₁ : Ring} {h₁ : Host}
    (hring : S.held.ring? = some r) (hshared : S.held.shared? = none)
    (hclose : r.close S.host = .ok r₁ h₁) : (finish.outcome S).2.host = h₁ := by
  obtain ⟨h, params, ring?, shared?⟩ := S
  cases hring
  cases hshared
  have hdestroy : closeRing (some r) h = .ok () h₁ := Sys.bind_ok hclose
  have hact : Action.onHost (closeRing (some r)) (⟨h, { params }⟩ : Session Desk) =
      .ok () ⟨h₁, { params }⟩ := by
    rw [Action.onHost, hdestroy]
  have hfinish : finish ⟨h, { params, ring? := some r }⟩ =
      Action.onHost (closeRing (some r)) ⟨h, { params }⟩ := rfl
  rw [Action.outcome, hfinish, hact]

/-- Sessions on twin rings end the same but for the mappings. -/
theorem Session.ending_twins {s s' : RingSite} {S S' : Session Desk} (hS : Twins s s' S S') :
    (Desk.finish.outcome S').2.observe.1.withoutMappings =
      (Desk.finish.outcome S).2.observe.1.withoutMappings := by
  obtain ⟨r, r', hring, hring', hr⟩ := hS.held.ring
  obtain ⟨r₁, h₁, r₁', h₁', hclose, hclose', hcalls, hdiagnostics⟩ := Ring.close_twins hr hS.host
  simp only [observe, Observed.withoutMappings, Desk.host_finish hring hS.held.unshared hclose,
    Desk.host_finish hring' hS.held.unshared' hclose', hcalls, hdiagnostics]

end IoRing
