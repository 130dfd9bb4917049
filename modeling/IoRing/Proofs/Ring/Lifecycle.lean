import IoRing.Proofs.Ring.Construction
import IoRing.Proofs.Ring.Contents
import IoRing.Proofs.Ring.Frames
import IoRing.Session.Rings

/-!
# The life of a ring

A ring is set up, used, closed and destroyed.  `RingOperation` is what a user may
do with it, and a `LifeTrace` is a ring with its host after some of these
operations and some work of the kernel.

While a ring is open, its operations only enter the kernel or register with it
(`RingOperation.works`).  So the ring keeps the mappings and the descriptor that
it was built with.  The first close gives all of them back (`LifeTrace.Alive.move_close`).
After that nothing reaches the kernel (`LifeTrace.Ended.move`).

`LifeTrace.run_releasesOnce` puts this together for a whole life.  Destroying a
ring is closing it, so each mapping is unmapped once and then the descriptor is
closed once, no matter when and how often the ring was closed before.
-/

namespace IoRing

/-! ## What the kernel keeps -/

namespace Kernel

/-- Neither the configuration nor whether a ring is active differs. -/
structure SameRing (k k' : Kernel) : Prop where
  config_eq : k'.config = k.config
  active_eq : k'.active = k.active

variable {k k' k'' : Kernel}

theorem SameRing.refl (k : Kernel) : k.SameRing k := ⟨rfl, rfl⟩

theorem SameRing.trans (h : k.SameRing k') (h' : k'.SameRing k'') : k.SameRing k'' :=
  ⟨h'.config_eq.trans h.config_eq, h'.active_eq.trans h.active_eq⟩

theorem SameRing.admits_eq (h : k.SameRing k') (fd : Int32) : k'.admits fd = k.admits fd := by
  rw [admits, admits, h.config_eq, h.active_eq]

/-- Work on the queues opens and closes nothing. -/
theorem QueueWork.sameRing (h : k.QueueWork k') : k.SameRing k' := by
  obtain ⟨_, _, _, rfl⟩ := h
  exact ⟨rfl, rfl⟩

variable (k)

/-- A registration call opens and closes nothing. -/
theorem sameRing_register (fd : Int32) (op : UInt32) : k.SameRing (k.register fd op).2 := by
  obtain ⟨_, _, hkernel⟩ := k.register_eq fd op
  rw [hkernel]
  exact ⟨rfl, rfl⟩

/-- The kernel opens and closes nothing by itself. -/
theorem sameRing_work (step : KernelStep) : k.SameRing (step.work k).2 := by
  by_cases hscript : ∃ n, step = .scriptRegister n
  · obtain ⟨n, rfl⟩ := hscript
    exact ⟨rfl, rfl⟩
  · exact (k.queueWork_work (not_exists.mp hscript)).sameRing

end Kernel

/-! ## Work on an open ring -/

/-- The call enters the kernel or registers with it. -/
def Call.isWork : Call → Bool
  | .enter .. | .register .. => true
  | _ => false

/-- Between two hosts the kernel was only entered or registered with. -/
structure Host.Worked (h h' : Host) : Prop where
  kernel : h.kernel.SameRing h'.kernel
  calls : ∃ work : List Call, (∀ c ∈ work, c.isWork = true) ∧ h'.calls = h.calls ++ work

namespace Host.Worked

variable {h h' h'' : Host}

/-- A step without a call is work if it opens and closes nothing. -/
theorem of_calls_eq (hkernel : h.kernel.SameRing h'.kernel) (hcalls : h'.calls = h.calls) :
    Worked h h' :=
  ⟨hkernel, [], by simp, by rw [hcalls, List.append_nil]⟩

theorem refl (h : Host) : Worked h h := .of_calls_eq (.refl _) rfl

theorem trans (hw : Worked h h') (hw' : Worked h' h'') : Worked h h'' := by
  obtain ⟨work, hwork, hcalls⟩ := hw.calls
  obtain ⟨work', hwork', hcalls'⟩ := hw'.calls
  refine ⟨hw.kernel.trans hw'.kernel, work ++ work', ?_, ?_⟩
  · intro c hc
    exact (List.mem_append.mp hc).elim (hwork c) (hwork' c)
  · rw [hcalls', hcalls, List.append_assoc]

/-- An enter call is logged and releases nothing. -/
theorem enter (call : EnterCall) (h : Host) : Worked h (Sys.after (Sys.enter call) h) := by
  cases hadmits : h.kernel.admits call.fd with
  | true =>
    rw [Sys.after_enter_admitted hadmits]
    exact ⟨(h.kernel.queueWork_serve _).sameRing, [_], by simp [Call.isWork], rfl⟩
  | false =>
    rw [Sys.enter, Sys.after_bind_error (Sys.startEnter_refused hadmits)]
    exact ⟨.refl _, [_], by simp [Call.isWork], rfl⟩

/-- Work as a frame. -/
def frame : Host.Frame where
  Rel := Worked
  refl := refl
  trans := trans
  memory _ _ := .of_calls_eq ⟨rfl, rfl⟩ rfl
  report _ _ := .of_calls_eq ⟨rfl, rfl⟩ rfl
  enter := enter

/-- A registration call is logged and releases nothing. -/
theorem register (fd : Int32) (op : UInt32) (argument : RegisterArgument) (count : UInt32) :
    Sys.Keeps frame (fun _ => True) (Sys.register fd op argument count) := by
  refine fun h => ⟨?_, fun _ _ _ => trivial⟩
  rw [Sys.after_register]
  exact ⟨h.kernel.sameRing_register fd op, [_], by simp [Call.isWork], rfl⟩

end Host.Worked

/-! ## Operations -/

/-- What a user may do with a ring. -/
inductive RingOperation where
  /-- A step on the submission queue. -/
  | submission (step : SubmissionStep)
  /-- A step on the completion queue. -/
  | completion (step : CompletionStep)
  /-- Publish and decide how to enter the kernel. -/
  | prepare (want : UInt32)
  /-- Submit and wait. -/
  | submit (want : UInt32) (mask? : Option UInt64)
  /-- Enter the kernel. -/
  | enter (toSubmit minComplete flags : UInt32) (mask? : Option UInt64)
  /-- Register a target. -/
  | register (t : Target)
  /-- Unregister a kind of resource. -/
  | unregister (resource : Resource)
  /-- Look at both queues, then publish and decide how to enter the kernel. -/
  | split (want : UInt32)
  /-- Look at the regions. -/
  | regions
  /-- Look at the ring. -/
  | info
  /-- Describe the ring. -/
  | describe
  /-- Describe the ring on the diagnostic stream. -/
  | report
  /-- Close the ring. -/
  | close

namespace RingOperation

/-- The operation is refused on a closed ring. -/
def needsOpen : RingOperation → Bool
  | .info | .describe | .report | .close => false
  | _ => true

/-- Do an operation.  Gives what it answers and the ring after it. -/
def perform (r : Ring) : RingOperation → Sys (Reply × Ring)
  | .submission step => do
      let (reply, q) ← step.perform (← Sys.ofExcept r.submission)
      return (reply, r.withSubmission q)
  | .completion step => do
      let (reply, q) ← step.perform (← Sys.ofExcept r.completion)
      return (reply, r.withCompletion q)
  | .prepare want => do
      let s ← Sys.ofExcept r.submitter
      return (.request (← s.prepare want), r)
  | .submit want mask? => return (.count (← r.submit want mask?), r)
  | .enter toSubmit minComplete flags mask? =>
      return (.count (← r.enter toSubmit minComplete flags mask?), r)
  | .register t => do
      r.register t
      return (.nothing, r)
  | .unregister resource => do
      r.unregister resource
      return (.nothing, r)
  | .split want => do
      let b ← Sys.ofExcept r.opened
      let before := Desk.queues b (← Sys.memory)
      let s ← Sys.ofExcept r.submitter
      return (.parts before (← s.prepare want), r)
  | .regions => return (.regions (← Sys.ofExcept r.regions), r)
  | .info => return (.ring ⟨r.isClosed, r.fd, r.setupFlags, r.features, r.layout⟩, r)
  | .describe => return (.text (r.describe (← Sys.memory)), r)
  | .report => do
      Sys.report (r.describe (← Sys.memory))
      return (.nothing, r)
  | .close => return (.nothing, ← r.close)

/-- An operation that needs an open ring does nothing with a closed one. -/
theorem perform_closed {r : Ring} (hclosed : r.body? = none) {op : RingOperation}
    (hneeds : op.needsOpen = true) (h : Host) : op.perform r h = .error .ringClosed h := by
  have hopened : r.opened = .error .ringClosed := by rw [Ring.opened, hclosed]
  have hsubmission : r.submission = .error .ringClosed := by rw [Ring.submission, hopened]; rfl
  have hcompletion : r.completion = .error .ringClosed := by rw [Ring.completion, hopened]; rfl
  have hsubmitter : r.submitter = .error .ringClosed := by rw [Ring.submitter, hopened]; rfl
  have hregions : r.regions = .error .ringClosed := by rw [Ring.regions, hopened]; rfl
  cases op with
  | submission step => simp only [perform, hsubmission]; rfl
  | completion step => simp only [perform, hcompletion]; rfl
  | prepare want => simp only [perform, hsubmitter]; rfl
  | submit want mask? => simp only [perform, Ring.submit, hsubmitter]; rfl
  | enter toSubmit minComplete flags mask? => simp only [perform, Ring.enter, hsubmitter]; rfl
  | register t => simp only [perform, Ring.register, hsubmitter]; rfl
  | unregister resource => simp only [perform, Ring.unregister, hsubmitter]; rfl
  | split want => simp only [perform, hopened]; rfl
  | regions => simp only [perform, hregions]; rfl
  | info | describe | report | close => cases hneeds

/-- The operation is a registration call. -/
def registers : RingOperation → Bool
  | .register _ | .unregister _ => true
  | _ => false

/-- Every operation but closing keeps a frame that registration calls keep, and the ring
owns what it owned. -/
theorem keeps {F : Host.Frame} {r : Ring} {b : RingBody} (hbody : r.body? = some b)
    {op : RingOperation} (hop : op ≠ .close)
    (hregister : op.registers = true → ∀ fd op argument count,
      Sys.Keeps F (fun _ => True) (Sys.register fd op argument count)) :
    Sys.Keeps F (fun result => ∃ b', result.2.body? = some b' ∧ b'.fd = b.fd ∧
      b'.regions = b.regions) (op.perform r) := by
  have hsame : ∃ b', r.body? = some b' ∧ b'.fd = b.fd ∧ b'.regions = b.regions :=
    ⟨b, hbody, rfl, rfl⟩
  cases op with
  | submission step =>
    exact (Sys.Keeps.found _).bind fun q _ => (step.keeps q).bind fun result _ =>
      .pure ⟨_, Ring.body_withSubmission hbody result.2, rfl, rfl⟩
  | completion step =>
    exact (Sys.Keeps.found _).bind fun q _ => (step.keeps q).bind fun result _ =>
      .pure ⟨_, Ring.body_withCompletion hbody result.2, rfl, rfl⟩
  | prepare want =>
    exact (Sys.Keeps.found _).bind fun s _ => (s.keeps_prepare want).bind fun _ _ => .pure hsame
  | submit want mask? =>
    exact ((Sys.Keeps.found _).bind fun s _ => s.keeps_submit want mask?).bind fun _ _ =>
      .pure hsame
  | enter toSubmit minComplete flags mask? =>
    exact ((Sys.Keeps.found _).bind fun s _ => .enter _).bind fun _ _ => .pure hsame
  | register t | unregister resource =>
    have hcall (fd : Int32) (op : UInt32) (argument : RegisterArgument) (count : UInt32) :
        Sys.Keeps F (fun _ => True)
          (do let _ ← Sys.register fd op argument count; pure () : Sys Unit) :=
      (hregister rfl fd op argument count).bind fun _ _ => .pure trivial
    exact ((Sys.Keeps.found _).bind fun s _ => hcall _ _ _ _).bind fun _ _ => .pure hsame
  | split want =>
    exact (Sys.Keeps.found _).bind fun _ _ => Sys.Keeps.memory.bind fun _ _ =>
      (Sys.Keeps.found _).bind fun s _ => (s.keeps_prepare want).bind fun _ _ => .pure hsame
  | regions => exact (Sys.Keeps.found _).bind fun _ _ => .pure hsame
  | info => exact .pure hsame
  | describe => exact Sys.Keeps.memory.bind fun _ _ => .pure hsame
  | report =>
    exact Sys.Keeps.memory.bind fun _ _ => (Sys.Keeps.report _).bind fun _ _ => .pure hsame
  | close => exact absurd rfl hop

/-- Every operation but closing only works. -/
theorem works {r : Ring} {b : RingBody} (hbody : r.body? = some b) {op : RingOperation}
    (hop : op ≠ .close) :
    Sys.Keeps Host.Worked.frame (fun result => ∃ b', result.2.body? = some b' ∧ b'.fd = b.fd ∧
      b'.regions = b.regions) (op.perform r) :=
  keeps hbody hop fun _ => Host.Worked.register

end RingOperation

/-! ## Closing -/

/-- The calls that give back all that a ring owns, and what they return. -/
def RingBody.endingCalls (b : RingBody) (c : KernelConfig) : List Call :=
  b.regions.owned.map (·.unmapCall c) ++ [.close b.fd (CallResult.ofError? c.closeError?).code]

/-- To close a ring that is open gives the result that the kernel was told to
give. -/
theorem Kernel.close_admitted {k : Kernel} {fd : Int32} (hadmits : k.admits fd = true) :
    (k.close fd).1 = CallResult.ofError? k.config.closeError? := by
  rw [close]
  cases k.config.closeError? with
  | some e => rfl
  | none => exact if_pos hadmits

/-- Closing an open ring always succeeds and gives everything back. -/
theorem Ring.close_open {r : Ring} {b : RingBody} {h : Host} (hbody : r.body? = some b)
    (hadmits : h.kernel.admits b.fd = true) :
    ∃ h', r.close h = .ok { r with body? := none } h' ∧
      h'.calls = h.calls ++ b.endingCalls h.kernel.config := by
  obtain ⟨h₁, hrelease, hunmapped⟩ := b.regions.release_ok h
  have hresult := Kernel.close_admitted ((hunmapped.admits_eq b.fd).trans hadmits)
  rw [hunmapped.config_eq] at hresult
  refine ⟨_, Ring.close_eq hbody hrelease, ?_⟩
  rw [Sys.after, Sys.close_eq]
  simp only
  rw [hunmapped.calls_eq, hresult, List.append_assoc]
  rfl

/-- To close a closed ring does nothing. -/
theorem Ring.close_closed {r : Ring} (hclosed : r.body? = none) (h : Host) :
    r.close h = .ok r h := by
  rw [Ring.close, hclosed]
  rfl

/-! ## Lives -/

/-- An operation on a ring, or a step of the kernel. -/
inductive LifeMove where
  /-- The user does something with the ring. -/
  | operation (op : RingOperation)
  /-- The kernel does something by itself. -/
  | kernel (step : KernelStep)

def LifeMove.closes : LifeMove → Bool
  | .operation .close => true
  | _ => false

/-- A ring on its host. -/
structure LifeTrace where
  ring : Ring
  host : Host

namespace LifeTrace

/-- Take a move.  The ring stays as it is if an operation ends in a fault. -/
def move (t : LifeTrace) : LifeMove → LifeTrace
  | .operation op =>
      match op.perform t.ring t.host with
      | .ok (_, ring) host => ⟨ring, host⟩
      | .error _ host => { t with host }
  | .kernel step => { t with host := { t.host with kernel := (step.work t.host.kernel).2 } }

/-- Take moves one after the other. -/
def run (t : LifeTrace) (moves : List LifeMove) : LifeTrace := moves.foldl move t

/-- The ring is open and owns what it owned at first, and since then the kernel
was only worked with. -/
structure Alive (b : RingBody) (h : Host) (t : LifeTrace) : Prop where
  body : ∃ b', t.ring.body? = some b' ∧ b'.fd = b.fd ∧ b'.regions = b.regions
  worked : h.Worked t.host

/-- The ring is closed, and the last calls gave everything back. -/
structure Ended (b : RingBody) (h : Host) (t : LifeTrace) : Prop where
  closed : t.ring.body? = none
  calls : ∃ work : List Call, (∀ c ∈ work, c.isWork = true) ∧
    t.host.calls = h.calls ++ (work ++ b.endingCalls h.kernel.config)

variable {b : RingBody} {h : Host} {t : LifeTrace}

/-- A close leaves the ring that it gave back. -/
theorem move_close {ring : Ring} {host : Host} (hclose : t.ring.close t.host = .ok ring host) :
    t.move (.operation .close) = ⟨ring, host⟩ := by
  simp only [move, RingOperation.perform, Sys.bind_ok hclose]
  rfl

/-- Any move but a close leaves the ring open and releases nothing. -/
theorem Alive.move (ht : Alive b h t) {m : LifeMove} (hm : m.closes = false) :
    Alive b h (t.move m) := by
  obtain ⟨b₁, hbody, hfd, hregions⟩ := ht.body
  cases m with
  | operation op =>
    have hop : op ≠ .close := by
      rintro rfl
      cases hm
    have hworks := RingOperation.works hbody hop
    cases hperform : op.perform t.ring t.host with
    | ok result host =>
      obtain ⟨hworked, b', hbody', hfd', hregions'⟩ := hworks.ok hperform
      simp only [LifeTrace.move, hperform]
      exact ⟨⟨b', hbody', hfd'.trans hfd, hregions'.trans hregions⟩, ht.worked.trans hworked⟩
    | error f host =>
      simp only [LifeTrace.move, hperform]
      exact ⟨ht.body, ht.worked.trans (hworks.error hperform)⟩
  | kernel step =>
    exact ⟨ht.body, ht.worked.trans (.of_calls_eq (t.host.kernel.sameRing_work step) rfl)⟩

/-- To close a ring gives back what it owned at first. -/
theorem Alive.close (hadmits : h.kernel.admits b.fd = true) (ht : Alive b h t) :
    ∃ host, t.ring.close t.host = .ok { t.ring with body? := none } host ∧
      host.calls = t.host.calls ++ b.endingCalls h.kernel.config := by
  obtain ⟨b', hbody, hfd, hregions⟩ := ht.body
  have hadmits' : t.host.kernel.admits b'.fd = true := by
    rw [hfd, ht.worked.kernel.admits_eq, hadmits]
  obtain ⟨host, hclose, hcalls⟩ := Ring.close_open hbody hadmits'
  refine ⟨host, hclose, ?_⟩
  rw [hcalls, ht.worked.kernel.config_eq, RingBody.endingCalls, RingBody.endingCalls, hfd,
    hregions]

/-- The first close releases everything. -/
theorem Alive.move_close (hadmits : h.kernel.admits b.fd = true) (ht : Alive b h t) :
    Ended b h (t.move (.operation .close)) := by
  obtain ⟨host, hclose, hend⟩ := ht.close hadmits
  obtain ⟨work, hwork, hcalls⟩ := ht.worked.calls
  rw [LifeTrace.move_close hclose]
  refine ⟨rfl, work, hwork, ?_⟩
  rw [hend, hcalls, List.append_assoc]

/-- A ring that is alive is open, with its own descriptor. -/
theorem Alive.isOpen (ht : Alive b h t) : t.ring.isClosed = false ∧ t.ring.fd = b.fd := by
  obtain ⟨b', hbody, hfd, -⟩ := ht.body
  constructor
  · rw [Ring.isClosed, hbody]
    rfl
  · rw [Ring.fd, hbody]
    exact hfd

/-- A ring that has ended is of no use. -/
theorem Ended.refuses (ht : Ended b h t) :
    t.ring.isClosed = true ∧ t.ring.fd = -1 ∧
      (∀ op : RingOperation, op.needsOpen = true →
        op.perform t.ring t.host = .error .ringClosed t.host) ∧
      t.ring.close t.host = .ok t.ring t.host := by
  refine ⟨?_, ?_, ?_, Ring.close_closed ht.closed t.host⟩
  · rw [Ring.isClosed, ht.closed]
    rfl
  · rw [Ring.fd, ht.closed]
  · intro op hneeds
    exact op.perform_closed ht.closed hneeds t.host

/-- Nothing that happens to a closed ring makes a call. -/
theorem Ended.move (ht : Ended b h t) (m : LifeMove) : Ended b h (t.move m) := by
  have hsame {host : Host} (hcalls : host.calls = t.host.calls) : Ended b h ⟨t.ring, host⟩ :=
    ⟨ht.closed, by simp only [hcalls]; exact ht.calls⟩
  cases m with
  | operation op =>
    cases hneeds : op.needsOpen with
    | true =>
      simp only [LifeTrace.move, RingOperation.perform_closed ht.closed hneeds]
      exact ht
    | false =>
      cases op with
      | info => exact ht
      | describe => exact ht
      | report => exact hsame rfl
      | close =>
        rw [move_close (Ring.close_closed ht.closed t.host)]
        exact ht
      | _ => cases hneeds
  | kernel step => exact hsame rfl

/-- A ring that was closed stays closed, and nothing is released again. -/
theorem Ended.run (ht : Ended b h t) (moves : List LifeMove) : Ended b h (t.run moves) :=
  List.foldlRecOn (motive := Ended b h) moves _ ht fun _ ht m _ => ht.move m

/-- A ring is alive until a move closes it. -/
theorem Alive.run (hadmits : h.kernel.admits b.fd = true) (ht : Alive b h t)
    (moves : List LifeMove) :
    if moves.any LifeMove.closes then Ended b h (t.run moves) else Alive b h (t.run moves) := by
  induction moves generalizing t with
  | nil => exact ht
  | cons m moves ih =>
    rw [List.any_cons]
    cases hm : m.closes with
    | false => exact ih (ht.move hm)
    | true =>
      obtain rfl : m = .operation .close := by
        unfold LifeMove.closes at hm
        split at hm
        · rfl
        · cases hm
      rw [Bool.true_or, if_pos rfl]
      exact (ht.move_close hadmits).run moves

end LifeTrace

/-! ## Whole lives -/

/-- A ring that was set up is the one built on the descriptor that the kernel
hands out. -/
theorem Ring.eq_built_of_setUp {entries : UInt32} {params granted : Params} {ring : Ring}
    {h₀ h : Host} (hopen : Ring.setUp entries params h₀ = .ok ⟨.ok ring, granted⟩ h) :
    ring = built h₀.kernel.config.fd granted (h₀.withRing entries params).kernel ∧
      h = (h₀.withRing entries params).withParts h₀.kernel.config.fd
        (Layout.ofParams granted).parts := by
  cases hvalid : params.validate entries with
  | error f =>
    simp only [setUp, hvalid] at hopen
    cases hopen
  | ok _ =>
    have hsteps := hopen
    simp only [setUp, hvalid] at hsteps
    obtain ⟨⟨fd?, left⟩, h₁, hsetup, hsteps⟩ := Sys.bind_eq_ok_iff.mp hsteps
    obtain ⟨result, h₂, hobserve, hpure⟩ := Sys.bind_eq_ok_iff.mp hsteps
    cases hpure
    obtain ⟨fd, h₃, hfd, hassemble⟩ := Sys.bind_eq_ok_iff.mp (Sys.observing_eq_ok_iff.mp hobserve)
    obtain ⟨rfl, rfl⟩ := Sys.ofExcept_eq_ok_iff.mp hfd
    obtain ⟨n, hkernel⟩ := Sys.setup_ok hsetup
    rw [Kernel.setup_eq] at hkernel
    cases hfailure : h₀.kernel.setupFailure? with
    | some e =>
      rw [hfailure] at hkernel
      cases hkernel
    | none =>
      rw [hfailure] at hkernel
      obtain ⟨hcode, -⟩ := Prod.mk.inj hkernel
      have hnonneg : 0 ≤ h₀.kernel.config.fd := by
        refine Int32.le_iff_toInt_le.mpr (Int.not_lt.mp fun hneg => ?_)
        have herror : CallResult.ofCode h₀.kernel.config.fd.toInt =
            .error ⟨h₀.kernel.config.fd.toInt.natAbs⟩ := if_pos hneg
        cases herror.symm.trans hcode
      have hgranted := Sys.setup_granted entries params hfailure hnonneg
      rw [hgranted] at hsetup
      cases hsetup
      have hadmits : (h₀.withRing entries params).kernel.admits h₀.kernel.config.fd = true :=
        h₀.kernel.admits_withRing params
      cases hbuild : (h₀.withRing entries params).kernel.buildFault?
          (h₀.kernel.config.grant params) with
      | some f =>
        obtain ⟨h', herror, -⟩ := assemble_error hadmits hbuild
        rw [herror] at hassemble
        cases hassemble
      | none =>
        rw [assemble_ok hadmits hbuild] at hassemble
        cases hassemble
        exact ⟨rfl, rfl⟩

/-- A ring that was set up is alive and owns what was mapped for it. -/
theorem LifeTrace.alive_of_setUp {entries : UInt32} {params granted : Params} {ring : Ring}
    {h₀ h : Host} (hopen : Ring.setUp entries params h₀ = .ok ⟨.ok ring, granted⟩ h) :
    ∃ (b : RingBody) (maps : List Call),
      Alive b h ⟨ring, h⟩ ∧ ring.fd = b.fd ∧ h.kernel.admits b.fd = true ∧
      h.calls = h₀.calls ++ .setup entries params h₀.kernel.config.fd.toInt :: maps ∧
      (∀ c ∈ maps, ∃ p ∈ (Layout.ofParams granted).parts, ∃ n, c = p.call ring.fd n) ∧
      b.regions.owned.Perm (maps.filterMap Call.mapped?) ∧ b.regions.owned.Nodup := by
  obtain ⟨hring, hhost⟩ := Ring.eq_built_of_setUp hopen
  let b := RingBody.built h₀.kernel.config.fd granted (h₀.withRing entries params).kernel
  have hbody : ring.body? = some b := by rw [hring]; rfl
  have hfd : ring.fd = b.fd := by rw [Ring.fd, hbody]
  have howned : b.regions.owned.Perm
      (Part.mappings h₀.kernel.mapped (Layout.ofParams granted).parts) :=
    RingRegions.owned_of_withParts _ (Layout.ofParams granted).nodup_areas
  refine ⟨b, Part.calls h₀.kernel.config.fd h₀.kernel.mapped (Layout.ofParams granted).parts,
    ⟨⟨b, hbody, rfl, rfl⟩, .refl h⟩, hfd, ?_, ?_, ?_, ?_, ?_⟩
  · rw [hhost]
    exact (Kernel.admits_withParts _ _ _).trans (h₀.kernel.admits_withRing params)
  · rw [hhost, Host.withParts, Host.withRing]
    simp only [List.append_assoc, List.singleton_append]
    rfl
  · rw [hfd]
    exact fun c => Part.of_mem_calls
  · rwa [Part.mapped?_calls]
  · exact howned.nodup_iff.mpr (Part.nodup_mappings _ _)

/-- **A ring gives everything back once.**  Setting it up made some mappings, and
they stay mapped for as long as the ring is open.  Whatever happens then, to
destroy the ring leaves a log in which each of these mappings was unmapped once,
with its length, and after that the descriptor was closed once.  No failure to
unmap or to close changes that, and no call follows the close.

If some move closed the ring, its log has come to that end already.  The ring has
no descriptor, all operations that need an open ring are refused and change
nothing, and closing it again does nothing. -/
theorem LifeTrace.run_releasesOnce {entries : UInt32} {params granted : Params} {ring : Ring}
    {h₀ h : Host} (hopen : Ring.setUp entries params h₀ = .ok ⟨.ok ring, granted⟩ h) :
    ∃ (maps : List Call) (made : List Mapping),
      h.calls = h₀.calls ++ .setup entries params h₀.kernel.config.fd.toInt :: maps ∧
      (∀ c ∈ maps, ∃ p ∈ (Layout.ofParams granted).parts, ∃ n, c = p.call ring.fd n) ∧
      made.Perm (maps.filterMap Call.mapped?) ∧ made.Nodup ∧
      ∀ moves : List LifeMove,
        let t := LifeTrace.run ⟨ring, h⟩ moves
        let ending := made.map (·.unmapCall h.kernel.config) ++
          [.close ring.fd (CallResult.ofError? h.kernel.config.closeError?).code]
        ∃ work : List Call, (∀ c ∈ work, c.isWork = true) ∧
          (∃ h', Desk.closeRing (some t.ring) t.host = .ok () h' ∧
            h'.calls = h.calls ++ (work ++ ending)) ∧
          ((∀ m ∈ moves, m.closes = false) →
            t.host.calls = h.calls ++ work ∧ t.ring.isClosed = false ∧ t.ring.fd = ring.fd) ∧
          ((∃ m ∈ moves, m.closes = true) →
            t.host.calls = h.calls ++ (work ++ ending) ∧ t.ring.isClosed = true ∧
            t.ring.fd = -1 ∧
            (∀ op : RingOperation, op.needsOpen = true →
              op.perform t.ring t.host = .error .ringClosed t.host) ∧
            t.ring.close t.host = .ok t.ring t.host) := by
  obtain ⟨b, maps, halive, hfd, hadmits, hsetup, hmaps, howned, hnodup⟩ := alive_of_setUp hopen
  refine ⟨maps, b.regions.owned, hsetup, hmaps, howned, hnodup, ?_⟩
  intro moves t ending
  have hrun := halive.run hadmits moves
  have hending : ending = b.endingCalls h.kernel.config := by
    rw [RingBody.endingCalls, ← hfd]
  rw [hending]
  cases hany : moves.any LifeMove.closes with
  | true =>
    rw [hany, if_pos rfl] at hrun
    have ht : LifeTrace.Ended b h t := hrun
    obtain ⟨work, hwork, hcalls⟩ := ht.calls
    have hdestroy : Desk.closeRing (some t.ring) t.host = .ok () t.host :=
      Sys.bind_ok (Ring.close_closed ht.closed t.host)
    refine ⟨work, hwork, ⟨t.host, hdestroy, hcalls⟩, ?_, fun _ => ⟨hcalls, ht.refuses⟩⟩
    intro hnever
    obtain ⟨m, hm, hcloses⟩ := List.any_eq_true.mp hany
    rw [hnever m hm] at hcloses
    cases hcloses
  | false =>
    rw [hany, if_neg Bool.false_ne_true] at hrun
    have ht : LifeTrace.Alive b h t := hrun
    obtain ⟨host, hclose, hend⟩ := ht.close hadmits
    obtain ⟨work, hwork, hcalls⟩ := ht.worked.calls
    refine ⟨work, hwork, ⟨host, Sys.bind_ok hclose, ?_⟩, fun _ => ⟨hcalls, ?_⟩, ?_⟩
    · rw [hend, hcalls, List.append_assoc]
    · rw [hfd]
      exact ht.isOpen
    · rintro ⟨m, hm, hcloses⟩
      exact absurd hcloses (List.any_eq_false.mp hany m hm)

/-- A kernel that fails to unmap the rings and to close the descriptor. -/
def reluctantConfig : KernelConfig :=
  { RingSite.smallConfig with
    unmapErrors := [(2, .invalidArgument)]
    closeError? := some .badDescriptor }

def reluctantHost : Host := Sys.after (Ring.setUp 4 {}) (.ofKernel (.ofConfig reluctantConfig))

/-- The ring is closed twice, and the failures are met once. -/
theorem LifeTrace.run_releasesOnce_reluctant :
    Ring.setUp 4 {} (.ofKernel (.ofConfig reluctantConfig)) =
        .ok ⟨.ok RingSite.smallRing, reluctantConfig.grant {}⟩ reluctantHost ∧
      ∃ (work : List Call) (made : List Mapping), (∀ c ∈ work, c.isWork = true) ∧ made.Nodup ∧
        (LifeTrace.run ⟨RingSite.smallRing, reluctantHost⟩
          [.operation (.submit 0 none), .operation .close, .operation (.submit 1 none),
            .operation .close]).host.calls =
          reluctantHost.calls ++
            (work ++ (made.map (·.unmapCall reluctantConfig) ++ [.close 3 (-9)])) := by
  have hopen : Ring.setUp 4 {} (.ofKernel (.ofConfig reluctantConfig)) =
      .ok ⟨.ok RingSite.smallRing, reluctantConfig.grant {}⟩ reluctantHost := rfl
  obtain ⟨maps, made, -, -, -, hmade, hlife⟩ := LifeTrace.run_releasesOnce hopen
  obtain ⟨work, hwork, -, -, hclosed⟩ := hlife [.operation (.submit 0 none), .operation .close,
    .operation (.submit 1 none), .operation .close]
  obtain ⟨hcalls, -⟩ := hclosed ⟨.operation .close, by simp, rfl⟩
  exact ⟨hopen, work, made, hwork, hmade, hcalls⟩

end IoRing
