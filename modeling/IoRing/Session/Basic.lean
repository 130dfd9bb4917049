import IoRing.SharedRing

/-!
# Sessions

A *session* is a host together with the objects a user holds on it.  A user
gives it a list of steps.  A step may be refused, because an object is missing or
because of a fault, and the steps after it still run.

`record` runs the steps and keeps for each one what came of it, the system calls
it made, the text it left on the diagnostic stream, and a view of the session
after it.
-/

namespace IoRing

/-! ## Refusals -/

/-- An object that a step needs. -/
inductive Needed where
  /-- A submission queue. -/
  | submissionQueue
  /-- A completion queue. -/
  | completionQueue
  /-- A ring. -/
  | ring
  /-- A shared ring. -/
  | sharedRing
deriving DecidableEq, Repr

/-- The complaint that an object is not there. -/
def Needed.message : Needed → String
  | .submissionQueue => "no submission queue"
  | .completionQueue => "no completion queue"
  | .ring => "no ring"
  | .sharedRing => "no concurrent ring"

/-- Why a step was refused. -/
inductive Refusal where
  /-- An operation failed. -/
  | fault (f : Fault)
  /-- An object is not there. -/
  | missing (object : Needed)
deriving DecidableEq

/-! ## Sessions -/

/-- A host and what the user holds on it. -/
structure Session (σ : Type) where
  /-- The host. -/
  host : Host
  /-- What the user holds. -/
  held : σ

/-- A computation over a session that may be refused. -/
abbrev Action (σ : Type) := EStateM Refusal (Session σ)

namespace Action

variable {σ : Type}

/-- Run a computation over the host. -/
def onHost {α : Type} (act : Sys α) : Action σ α := fun s =>
  match act s.host with
  | .ok a h => .ok a { s with host := h }
  | .error f h => .error (.fault f) { s with host := h }

/-- A checked value, or its fault. -/
def ofExcept {α : Type} (r : Except Fault α) : Action σ α := onHost (Sys.ofExcept r)

/-- An object that must be there. -/
def need {α : Type} (object : Needed) : Option α → Action σ α
  | some a => pure a
  | none => throw (.missing object)

/-- What the user holds. -/
def held : Action σ σ := return (← get).held

/-- Change what the user holds. -/
def hold (f : σ → σ) : Action σ Unit := modify fun s => { s with held := f s.held }

/-- The shared memory. -/
def memory : Action σ Memory := onHost Sys.memory

/-- Run an action to its end and give its outcome. -/
def outcome {α : Type} (act : Action σ α) (s : Session σ) : Except Refusal α × Session σ :=
  match act s with
  | .ok a s => (.ok a, s)
  | .error e s => (.error e, s)

end Action

/-! ## Recording -/

/-- What an observer sees of a stretch of a session. -/
structure Observed where
  /-- The system calls, oldest first. -/
  calls : List Call
  /-- The text on the diagnostic stream. -/
  diagnostics : String

/-- What came of one step. -/
structure StepRecord (ρ υ : Type) where
  /-- The reply, or why the step was refused. -/
  outcome : Except Refusal ρ
  /-- What was seen during the step. -/
  observed : Observed
  /-- The view of the session after the step. -/
  view : υ

namespace Session

variable {σ : Type}

/-- Take what was observed since the last time. -/
def observe (s : Session σ) : Observed × Session σ :=
  (⟨s.host.calls, s.host.diagnostics⟩,
    { s with host := { s.host with calls := [], diagnostics := "" } })

/-- Run steps one after the other and keep a record of each. -/
def record {τ ρ υ : Type} (perform : τ → Action σ ρ) (view : Session σ → υ) :
    List τ → Session σ → List (StepRecord ρ υ) × Session σ
  | [], s => ([], s)
  | step :: rest, s =>
      let (outcome, s) := (perform step).outcome s
      let (observed, s) := s.observe
      let (records, last) := record perform view rest s
      (⟨outcome, observed, view s⟩ :: records, last)

/-- The record of all steps, and what is observed when the session ends. -/
structure Report (ρ υ : Type) where
  /-- The records, in order. -/
  steps : List (StepRecord ρ υ)
  /-- What was seen while the session ended. -/
  ending : Observed

/-- Run steps and then end the session. -/
def run {τ ρ υ : Type} (perform : τ → Action σ ρ) (view : Session σ → υ) (finish : Action σ Unit)
    (steps : List τ) (s : Session σ) : Report ρ υ :=
  let (records, s) := s.record perform view steps
  let (_, s) := finish.outcome s
  ⟨records, s.observe.1⟩

end Session

end IoRing
