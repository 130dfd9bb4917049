import IoRing.Session.Reply

/-!
# Sessions on ring parameters

The steps that set up ring parameters.  A refused step leaves the parameters as
they were.
-/

namespace IoRing

/-- A field of the parameters that can be assigned. -/
inductive ParamsField where
  /-- The setup flags. -/
  | flags
  /-- The features. -/
  | features
  /-- Size of the submission queue. -/
  | sqEntries
  /-- Size of the completion queue. -/
  | cqEntries
  /-- Idle time of the poll thread. -/
  | threadIdle
  /-- Processor of the poll thread. -/
  | threadCpu

/-- The parameters with a field assigned. -/
def Params.assign (p : Params) (value : UInt32) : ParamsField → Params
  | .flags => { p with flags := value }
  | .features => { p with features := value }
  | .sqEntries => { p with sqEntries := value }
  | .cqEntries => { p with cqEntries := value }
  | .threadIdle => { p with threadIdle := value }
  | .threadCpu => { p with threadCpu := value }

/-- A step on ring parameters. -/
inductive ParamsStep where
  /-- Poll for completions. -/
  | ioPoll
  /-- Have a kernel thread poll the submission queue. -/
  | sqPoll (idle? : Option Int)
  /-- Bind the poll thread to a processor. -/
  | sqPollCpu (cpu : UInt32)
  /-- Give the completion queue a size of its own. -/
  | cqSize (entries : UInt32)
  /-- Clamp sizes that are too large. -/
  | clamp
  /-- Ask for a feature. -/
  | request (feature : UInt32)
  /-- Assign a field. -/
  | assign (field : ParamsField) (value : UInt32)
  /-- Check the parameters for a size. -/
  | validate (entries : UInt32)

/-- The parameters after a step. -/
def ParamsStep.apply (p : Params) : ParamsStep → Except Fault Params
  | .ioPoll => .ok p.setIoPoll
  | .sqPoll idle? => p.setSqPoll idle?
  | .sqPollCpu cpu => .ok (p.setSqPollCpu cpu)
  | .cqSize entries => .ok (p.setCqSize entries)
  | .clamp => .ok p.setClamp
  | .request feature => .ok (p.requestFeature feature)
  | .assign field value => .ok (p.assign value field)
  | .validate entries => (p.validate entries).map fun _ => p

/-- Run steps one after the other.  Each gives its fault, if any, and the
parameters after it. -/
def Params.record (p : Params) : List ParamsStep → List (Option Fault × Params)
  | [] => []
  | step :: rest =>
      match step.apply p with
      | .ok p => (none, p) :: p.record rest
      | .error f => (some f, p) :: p.record rest

end IoRing
