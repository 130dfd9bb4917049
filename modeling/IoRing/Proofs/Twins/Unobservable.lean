import IoRing.Proofs.Twins.Layouts

/-!
# The mapping of a ring cannot be observed

A kernel may grant one mapping for both rings or one for each.  Two kernels that
differ only in this set up twin rings.  So a session that opens a ring and works
with it looks the same on both, but for the calls that map and unmap
(`Desk.mapping_unobservable`).
-/

namespace IoRing

/-- Setting up is the only call besides mapping. -/
theorem KernelConfig.withoutMappings_opened (c : KernelConfig) (single : Bool)
    (entries : UInt32) (asked : Params) :
    (c.opened single entries asked).calls.filter (!·.isMapping) =
      [.setup entries asked c.fd.toInt] := by
  cases single <;> rfl

/-! ## Sessions -/

/-- The record without the calls that map and unmap. -/
def StepRecord.withoutMappings {ρ υ : Type} (r : StepRecord ρ υ) : StepRecord ρ υ :=
  { r with observed := r.observed.withoutMappings }

/-- The report without the calls that map and unmap. -/
def Session.Report.withoutMappings {ρ υ : Type} (r : Session.Report ρ υ) : Session.Report ρ υ :=
  ⟨r.steps.map (·.withoutMappings), r.ending.withoutMappings⟩

namespace Desk

/-- Open a ring on a kernel before any call, take steps on it and destroy it. -/
def runOnRing (c : KernelConfig) (entries : UInt32) (asked : Params) (steps : List DeskStep) :
    Session.Report Reply View :=
  Session.run perform view finish (.life (.setUpWithParams entries) :: steps)
    ⟨.ofKernel (.ofConfig c), { params := asked }⟩

theorem setUp_ok {entries : UInt32} {asked granted : Params} {ring : Ring} {h h' : Host}
    (hopen : Ring.setUp entries asked h = .ok ⟨.ok ring, granted⟩ h') :
    perform (.life (.setUpWithParams entries)) ⟨h, { params := asked }⟩ =
      .ok .nothing ⟨h', { params := granted, ring? := some ring }⟩ := by
  have hact : (Action.onHost (Ring.setUp entries asked) : Action Desk Opening)
      ⟨h, { params := asked }⟩ = .ok ⟨.ok ring, granted⟩ ⟨h', { params := asked }⟩ := by
    rw [Action.onHost, hopen]
  have hperform : perform (.life (.setUpWithParams entries)) ⟨h, { params := asked }⟩ =
      (Action.onHost (Ring.setUp entries asked) >>= fun opening => do
        Action.hold fun d => { d with params := opening.params }
        replaceRing (some (← Action.ofExcept opening.result))
        return Reply.nothing : Action Desk Reply) ⟨h, { params := asked }⟩ := rfl
  rw [hperform]
  simp only [bind, EStateM.bind, hact]
  rfl

/-- The session once the ring is open. -/
def started (c : KernelConfig) (single : Bool) (entries : UInt32) (asked : Params) :
    Session Desk where
  host := c.opened single entries asked
  held := { params := (c.withSingleMap single).grant asked, ring? := some (c.ring single asked) }

theorem started_twins {c : KernelConfig} (hc : c.MapsEitherWay) (entries : UInt32)
    (asked : Params) :
    Session.Twins (c.site false) (c.site true) (started c false entries asked).observe.2
      (started c true entries asked).observe.2 where
  host := ⟨hc.twins_mapped asked, rfl, rfl⟩
  held := ⟨⟨_, _, rfl, rfl, hc.twins_ring asked⟩, rfl, rfl⟩

/-- **The mapping of a ring cannot be observed.**  Take a kernel whose
configuration can be mapped either way, once with both rings in one mapping and
once with one for each.  Both rings are built, and whatever is done with them and
whatever the kernel does meanwhile, both sessions report the same outcomes, views
and diagnostics, and the same system calls but for those that map and unmap. -/
theorem mapping_unobservable {c : KernelConfig} (hc : c.MapsEitherWay) {entries : UInt32}
    {asked : Params} (hvalid : asked.validate entries = .ok ()) {steps : List DeskStep}
    (hsteps : ∀ step ∈ steps, step.OnRing) :
    (runOnRing (c.withSingleMap true) entries asked steps).withoutMappings =
        (runOnRing (c.withSingleMap false) entries asked steps).withoutMappings ∧
      ∀ single, ∃ first rest,
        (runOnRing (c.withSingleMap single) entries asked steps).steps = first :: rest ∧
          first.outcome = .ok .nothing := by
  have hrun (single : Bool) : runOnRing (c.withSingleMap single) entries asked steps =
      let start := (started c single entries asked).observe
      let taken := Session.record perform view steps start.2
      ⟨⟨.ok .nothing, start.1, view start.2⟩ :: taken.1, (finish.outcome taken.2).2.observe.1⟩ := by
    rw [runOnRing, Session.run, Session.record, Action.outcome,
      setUp_ok (hc.setUp_ok asked hvalid single)]
    rfl
  refine ⟨?_, fun single => ⟨_, _, congrArg Session.Report.steps (hrun single), rfl⟩⟩
  have hstart := started_twins hc entries asked
  have hopening : (started c true entries asked).observe.1.withoutMappings =
      (started c false entries asked).observe.1.withoutMappings := by
    simp only [Session.observe, Observed.withoutMappings, started, c.withoutMappings_opened]
    rfl
  obtain ⟨hrecords, hlast⟩ := Session.record_twins hstart hsteps
  rw [hrun true, hrun false]
  simp only [Session.Report.withoutMappings, List.map_cons, StepRecord.withoutMappings, hopening,
    view_twins hstart, hrecords, Session.ending_twins hlast]

/-- An entry is pushed and submitted, and its completion is taken. -/
def smallSteps : List DeskStep :=
  [.submission (.push (.make 0 0 7)), .submit (.submit 1 none), .kernel .overflow,
    .completion .next]

/-- Both sessions see the same, though one mapping more is made in the second. -/
theorem mapping_unobservable_small :
    RingSite.smallConfig.MapsEitherWay ∧ ({} : Params).validate 4 = .ok () ∧
      (∀ step ∈ smallSteps, step.OnRing) ∧
      (runOnRing (RingSite.smallConfig.withSingleMap true) 4 {} smallSteps).withoutMappings =
        (runOnRing (RingSite.smallConfig.withSingleMap false) 4 {} smallSteps).withoutMappings ∧
      (runOnRing (RingSite.smallConfig.withSingleMap true) 4 {} smallSteps).steps.map
        (·.observed.calls.length) = [3, 0, 1, 0, 0] ∧
      (runOnRing (RingSite.smallConfig.withSingleMap false) 4 {} smallSteps).steps.map
        (·.observed.calls.length) = [4, 0, 1, 0, 0] := by
  have hvalid : ({} : Params).validate 4 = .ok () := rfl
  have hsteps : ∀ step ∈ smallSteps, step.OnRing := by
    simp [smallSteps, DeskStep.OnRing, KernelStep.Placeless]
  exact ⟨RingSite.mapsEitherWay_small, hvalid, hsteps,
    (mapping_unobservable RingSite.mapsEitherWay_small hvalid hsteps).1, by decide +kernel,
    by decide +kernel⟩

end Desk

end IoRing
