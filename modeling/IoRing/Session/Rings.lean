import IoRing.Session.KernelStep
import IoRing.Session.Parameters
import IoRing.Session.QueueStep

/-!
# Sessions on rings

A user holds ring parameters, at most one ring and at most one shared ring.  A
new object is made before the one it replaces is destroyed, and if it cannot be
made the old one stays.  Wrapping gives the ring away in any case.

To destroy a ring there must be one, open or closed.  To destroy a shared ring
that is not there does nothing.

A request to register is checked before the ring is looked for, so its fault
comes before any fault of the ring.

A submission through the shared ring may carry steps that run while the kernel
is being entered, before it takes any entry.  When the session ends, the shared
ring is destroyed and then the ring.
-/

namespace IoRing

/-- What a user of rings holds. -/
structure Desk where
  /-- The parameters for the next ring. -/
  params : Params := {}
  /-- The ring. -/
  ring? : Option Ring := none
  /-- The shared ring. -/
  shared? : Option SharedRing := none

/-! ## Steps -/

/-- A system call made without a ring. -/
inductive RawStep where
  /-- Set up a ring without parameters. -/
  | setupWithoutParams (entries : UInt32)
  /-- Enter. -/
  | enter (call : EnterCall)
  /-- Register nothing. -/
  | register (fd : Int32) (op : UInt32)

/-- A step in the life of a ring. -/
inductive LifeStep where
  /-- Set up a ring with parameters of its own. -/
  | setUp (entries : UInt32)
  /-- Set up a ring with the user's parameters. -/
  | setUpWithParams (entries : UInt32)
  /-- Close the ring. -/
  | close
  /-- Destroy the ring. -/
  | destroy
  /-- Look at the ring. -/
  | info
  /-- Look at the regions of the ring. -/
  | regions
  /-- Describe the ring. -/
  | describe
  /-- Describe the ring on the diagnostic stream. -/
  | report
  /-- Look at both queues, then publish and decide how to enter the kernel. -/
  | split (want : UInt32)

/-- A step on the shared ring. -/
inductive SharedStep where
  /-- Share the ring. -/
  | wrap
  /-- Take the ring back. -/
  | unwrap
  /-- Destroy the shared ring, if there is one. -/
  | destroy
  /-- Push an entry. -/
  | push (e : Entry)
  /-- Take a completion. -/
  | pop
  /-- Submit and wait. -/
  | submit (want : UInt32)
  /-- Register resources. -/
  | register (request : RegisterRequest)
  /-- Unregister resources. -/
  | unregister (resource : Resource)
  /-- Look at the shared ring. -/
  | info

/-- A step of a ring session. -/
inductive DeskStep where
  /-- The kernel works. -/
  | kernel (step : KernelStep)
  /-- Set up the parameters. -/
  | setParams (step : ParamsStep)
  /-- Look at the parameters. -/
  | params
  /-- Make a system call. -/
  | raw (step : RawStep)
  /-- Set up, close or look at a ring. -/
  | life (step : LifeStep)
  /-- A step on the ring's submission queue. -/
  | submission (step : SubmissionStep)
  /-- A step on the ring's completion queue. -/
  | completion (step : CompletionStep)
  /-- A step of the ring towards the kernel. -/
  | submit (step : SubmitStep)
  /-- A step on the shared ring. -/
  | shared (step : SharedStep)
  /-- Submit through the shared ring, with steps that run during the enter call. -/
  | sharedSubmitDuring (want : UInt32) (steps : List DeskStep)

namespace Desk

/-! ## The objects -/

/-- The ring, which must be there. -/
def needRing : Action Desk Ring := do
  Action.need .ring (← Action.held).ring?

/-- The shared ring, which must be there. -/
def needShared : Action Desk SharedRing := do
  Action.need .sharedRing (← Action.held).shared?

/-- Close the ring that is held, if any. -/
def closeRing (ring? : Option Ring) : Sys Unit :=
  match ring? with
  | some r => do
      let _ ← r.close
  | none => pure ()

/-- Put a ring in place and destroy the one it replaces. -/
def replaceRing (ring? : Option Ring) : Action Desk Unit := do
  let old := (← Action.held).ring?
  Action.hold fun d => { d with ring? }
  Action.onHost (closeRing old)

/-- Put a shared ring in place and destroy the one it replaces. -/
def replaceShared (shared? : Option SharedRing) : Action Desk Unit := do
  let old := (← Action.held).shared?
  Action.hold fun d => { d with shared? }
  Action.onHost (closeRing (old.bind (·.ring?)))

/-! ## Views -/

/-- Both queues of an open ring. -/
def queues (b : RingBody) (m : Memory) : QueueView :=
  ⟨some (b.sq.summary m), some (b.cq.summary m)⟩

/-- What is to be seen of a session. -/
inductive View where
  /-- The queues of the open ring. -/
  | queues (view : QueueView)
  /-- The ring is closed. -/
  | closed
  /-- There is only a shared ring. -/
  | shared (info : SharedInfo)
  /-- There is only a shared ring, and it was handed back. -/
  | released
  /-- There is neither. -/
  | nothing

/-- The view of a session. -/
def view (s : Session Desk) : View :=
  let m := s.host.kernel.memory
  match s.held.ring?, s.held.shared? with
  | some r, _ =>
      match r.body? with
      | some b => .queues (queues b m)
      | none => .closed
  | none, some shared =>
      match shared.info m with
      | .ok info => .shared info
      | .error _ => .released
  | none, none => .nothing

/-! ## Taking steps -/

/-- Make a system call. -/
def performRaw : RawStep → Action Desk Reply
  | .setupWithoutParams entries => do
      let (fd, _) ← Action.onHost (Sys.setup entries none)
      return .count (← Action.ofExcept fd)
  | .enter call => return .count (← Action.onHost (Sys.enter call))
  | .register fd op => return .count (← Action.onHost (Sys.register fd op .none 0))

/-- Take a step in the life of a ring. -/
def performLife : LifeStep → Action Desk Reply
  | .setUp entries => do
      let opening ← Action.onHost (Ring.setUp entries {})
      replaceRing (some (← Action.ofExcept opening.result))
      return .nothing
  | .setUpWithParams entries => do
      let opening ← Action.onHost (Ring.setUp entries (← Action.held).params)
      Action.hold fun d => { d with params := opening.params }
      replaceRing (some (← Action.ofExcept opening.result))
      return .nothing
  | .close => do
      let r ← needRing
      let r ← Action.onHost r.close
      Action.hold fun d => { d with ring? := some r }
      return .nothing
  | .destroy => do
      let _ ← needRing
      replaceRing none
      return .nothing
  | .info => do
      let r ← needRing
      return .ring ⟨r.isClosed, r.fd, r.setupFlags, r.features, r.layout⟩
  | .regions => do
      let r ← needRing
      return .regions (← Action.ofExcept r.regions)
  | .describe => do
      let r ← needRing
      return .text (r.describe (← Action.memory))
  | .report => do
      let r ← needRing
      Action.onHost (Sys.report (r.describe (← Action.memory)))
      return .nothing
  | .split want => do
      let r ← needRing
      let b ← Action.ofExcept r.opened
      let before := queues b (← Action.memory)
      let submitter ← Action.ofExcept r.submitter
      return .parts before (← Action.onHost (submitter.prepare want))

/-- Take a step on the shared ring. -/
def performShared : SharedStep → Action Desk Reply
  | .wrap => do
      let ring? := (← Action.held).ring?
      Action.hold fun d => { d with ring? := none }
      replaceShared (some (← Action.ofExcept (SharedRing.ofRing? ring?)))
      return .nothing
  | .unwrap => do
      let (ring, shared) ← Action.ofExcept (← needShared).release
      Action.hold fun d => { d with shared? := some shared }
      replaceRing (some ring)
      return .nothing
  | .destroy => do
      replaceShared none
      return .nothing
  | .push e => do
      let shared ← Action.onHost ((← needShared).push e)
      Action.hold fun d => { d with shared? := some shared }
      return .nothing
  | .pop => do
      let (c?, shared) ← Action.onHost (← needShared).pop
      Action.hold fun d => { d with shared? := some shared }
      return .completion c?
  | .submit want => return .count (← Action.onHost ((← needShared).submit want))
  | .register request => do
      let target ← Action.ofExcept (Target.ofRequest request)
      Action.onHost ((← needShared).register target)
      return .nothing
  | .unregister resource => do
      Action.onHost ((← needShared).unregister resource)
      return .nothing
  | .info => return .shared (← Action.ofExcept ((← needShared).info (← Action.memory)))

mutual

/-- Take a step. -/
def perform : DeskStep → Action Desk Reply
  | .kernel step => step.perform
  | .setParams step => do
      let params ← Action.ofExcept (step.apply (← Action.held).params)
      Action.hold fun d => { d with params }
      return .params params
  | .params => return .params (← Action.held).params
  | .raw step => performRaw step
  | .life step => performLife step
  | .submission step => do
      let r ← needRing
      let (reply, q) ← Action.onHost (step.perform (← Action.ofExcept r.submission))
      Action.hold fun d => { d with ring? := some (r.withSubmission q) }
      return reply
  | .completion step =>
      step.performOn (do Action.ofExcept (← needRing).completion) fun q =>
        Action.hold fun d => { d with ring? := d.ring?.map (·.withCompletion q) }
  | .submit step => do
      Action.ofExcept step.check
      let s ← Action.ofExcept (← needRing).submitter
      Action.onHost (step.perform s)
  | .shared step => performShared step
  | .sharedSubmitDuring want steps => do
      let shared ← needShared
      let request ← Action.onHost (shared.prepare want)
      if request.needed then
        let running ← Action.onHost (shared.startEnter request)
        let outcomes ← performAll steps
        return .during (← Action.onHost (Sys.finishEnter running)) outcomes
      else return .during request.toSubmit.toInt32 []

/-- Take steps one after the other and keep the outcome of each. -/
def performAll : List DeskStep → Action Desk (List (Except Refusal Reply))
  | [] => pure []
  | step :: rest => do
      let outcome ← observing (perform step)
      return outcome :: (← performAll rest)

end

/-- Destroy what is left. -/
def finish : Action Desk Unit := do
  replaceShared none
  replaceRing none

/-- Run steps on an empty desk. -/
def run (k : Kernel) (steps : List DeskStep) : Session.Report Reply View :=
  Session.run perform view finish steps ⟨.ofKernel k, {}⟩

end Desk

end IoRing
