import IoRing.Session.KernelStep
import IoRing.Session.QueueStep

/-!
# Sessions on queues alone

A user holds the two queues without a ring around them.  The rings lie in one
private mapping and the entries in another, and the kernel works on both.  Each
queue can be attached anew at any time.  An attempt that fails leaves the user
without that queue.
-/

namespace IoRing

/-- What a user of the queues holds. -/
structure Bench where
  /-- The region of both rings. -/
  ring : Region
  /-- The region of the entries. -/
  sqes : Region
  /-- The descriptor used for the kernel. -/
  fd : Int32
  /-- The setup flags. -/
  setupFlags : UInt32
  /-- The submission queue. -/
  sq? : Option SubmissionQueue := none
  /-- The completion queue. -/
  cq? : Option CompletionQueue := none

/-- A step on the bench. -/
inductive BenchStep where
  /-- The kernel works. -/
  | kernel (step : KernelStep)
  /-- Attach the submission queue. -/
  | attachSubmission
  /-- Attach the completion queue. -/
  | attachCompletion
  /-- A step on the submission queue. -/
  | submission (step : SubmissionStep)
  /-- A step on the completion queue. -/
  | completion (step : CompletionStep)
  /-- A step towards the kernel. -/
  | submit (step : SubmitStep)
  /-- Change the descriptor or the setup flags. -/
  | configure (fd? : Option Int32) (setupFlags? : Option UInt32)

namespace Bench

/-- The submission queue, which must be there. -/
def needSubmission : Action Bench SubmissionQueue := do
  Action.need .submissionQueue (← Action.held).sq?

/-- The completion queue, which must be there. -/
def needCompletion : Action Bench CompletionQueue := do
  Action.need .completionQueue (← Action.held).cq?

/-- What it takes to reach the kernel. -/
def submitter : Action Bench Submitter := do
  let q ← needSubmission
  let b ← Action.held
  return ⟨b.fd, b.setupFlags, q⟩

/-- Take a step. -/
def perform : BenchStep → Action Bench Reply
  | .kernel step => step.perform
  | .attachSubmission => do
      Action.hold fun b => { b with sq? := none }
      let b ← Action.held
      let offsets := (← get).host.kernel.granted.sqOffsets
      let q ← Action.ofExcept (SubmissionQueue.attach b.ring b.sqes offsets (← Action.memory))
      Action.hold fun b => { b with sq? := some q }
      return .nothing
  | .attachCompletion => do
      Action.hold fun b => { b with cq? := none }
      let b ← Action.held
      let offsets := (← get).host.kernel.granted.cqOffsets
      let q ← Action.ofExcept (CompletionQueue.attach b.ring offsets (← Action.memory))
      Action.hold fun b => { b with cq? := some q }
      return .nothing
  | .submission step => do
      let (reply, q) ← Action.onHost (step.perform (← needSubmission))
      Action.hold fun b => { b with sq? := some q }
      return reply
  | .completion step =>
      step.performOn needCompletion fun q => Action.hold fun b => { b with cq? := some q }
  | .submit step => do
      let s ← submitter
      Action.onHost (step.perform s)
  | .configure fd? setupFlags? => do
      Action.hold fun b =>
        { b with fd := fd?.getD b.fd, setupFlags := setupFlags?.getD b.setupFlags }
      return .nothing

/-- The queues that are there. -/
def view (s : Session Bench) : QueueView :=
  let m := s.host.kernel.memory
  ⟨s.held.sq?.map (·.summary m), s.held.cq?.map (·.summary m)⟩

/-- Store the presets of an area. -/
def storePresets (area : Area) (words : List (Nat × UInt32)) (k : Kernel) : Kernel :=
  words.foldl (fun k w => k.setWord area w.1 w.2) k

/-- The kernel at work on the two private regions, with its parameters granted
and its presets stored. -/
def attachKernel (k : Kernel) (ring sqes : Region) : Kernel :=
  let presets := k.config.presets
  let k := { k with
    active := true
    granted := k.config.grant {}
    sharedRings := true
    sqRing? := ring.mapping?
    sqes? := sqes.mapping? }
  storePresets .sqes presets.sqes
    (storePresets .cqRing presets.cqRing (storePresets .sqRing presets.sqRing k))

/-- Map the two regions. -/
def mapRegions (ringLength sqesLength : UInt64) : Sys (Region × Region) := do
  let ring ← Region.anonymous ringLength
  let sqes ← Region.anonymous sqesLength
  return (ring, sqes)

/-- Set up the regions and the kernel.  A failure leaves nothing to work on. -/
def start (k : Kernel) (ringLength sqesLength : UInt64) (fd : Int32) (setupFlags : UInt32) :
    Except Fault (Session Bench) :=
  match mapRegions ringLength sqesLength (.ofKernel k) with
  | .error f _ => .error f
  | .ok (ring, sqes) h =>
      .ok ⟨.ofKernel (attachKernel h.kernel ring sqes), { ring, sqes, fd, setupFlags }⟩

/-- Run steps on a fresh bench. -/
def run (k : Kernel) (ringLength sqesLength : UInt64) (fd : Int32) (setupFlags : UInt32)
    (steps : List BenchStep) : Except Fault (Session.Report Reply QueueView) := do
  let s ← start k ringLength sqesLength fd setupFlags
  return s.run perform view (pure ()) steps

end Bench

end IoRing
