import IoRing.Session.Reply

/-!
# Steps on queues

The steps that a user of the queues takes, in three groups: on the submission
queue, on the completion queue, and towards the kernel.  They are the same
whether the queues belong to a ring or stand alone.
-/

namespace IoRing

/-! ## On the submission queue -/

/-- A step on a submission queue. -/
inductive SubmissionStep where
  /-- Push an entry and publish it. -/
  | push (e : Entry)
  /-- Push an entry. -/
  | pushDeferred (e : Entry)
  /-- Push all entries or none. -/
  | pushAll (es : List Entry)
  /-- Publish. -/
  | sync
  /-- Look at the queue. -/
  | inspect

/-- Take a step on a submission queue. -/
def SubmissionStep.perform (q : SubmissionQueue) : SubmissionStep → Sys (Reply × SubmissionQueue)
  | .push e => return (.nothing, ← q.push e)
  | .pushDeferred e => return (.nothing, ← q.pushDeferred e)
  | .pushAll es => return (.nothing, ← q.pushAll es)
  | .sync => do
      q.sync
      return (.nothing, q)
  | .inspect => return (.submission (q.summary (← Sys.memory)), q)

/-! ## On the completion queue -/

/-- A step on a completion queue. -/
inductive CompletionStep where
  /-- Take the oldest completion. -/
  | next
  /-- Take completions up to a number. -/
  | drain (limit : Nat)
  /-- Publish. -/
  | sync
  /-- Look at the queue. -/
  | inspect

/-- Take a step on a completion queue. -/
def CompletionStep.perform (q : CompletionQueue) : CompletionStep → Sys (Reply × CompletionQueue)
  | .next => do
      let (c?, q) ← q.next
      return (.completion c?, q)
  | .drain limit => do
      let (cs, q) := q.drain (← Sys.memory) limit
      return (.completions cs, q)
  | .sync => do
      q.sync
      return (.nothing, q)
  | .inspect => return (.completionQueue (q.summary (← Sys.memory)), q)

/-- Take a step on the completion queue that `find` gives and that `put` takes
back.  To take no completions at all needs no queue. -/
def CompletionStep.performOn {σ : Type} (find : Action σ CompletionQueue)
    (put : CompletionQueue → Action σ Unit) : CompletionStep → Action σ Reply
  | .drain 0 => return .completions []
  | step => do
      let (reply, q) ← Action.onHost (step.perform (← find))
      put q
      return reply

/-! ## Towards the kernel -/

/-- A step that reaches the kernel or decides how to. -/
inductive SubmitStep where
  /-- Publish and decide. -/
  | prepare (want : UInt32)
  /-- Submit and wait. -/
  | submit (want : UInt32) (mask? : Option UInt64)
  /-- Enter the kernel. -/
  | enter (toSubmit minComplete flags : UInt32) (mask? : Option UInt64)
  /-- Register resources. -/
  | register (request : RegisterRequest)
  /-- Unregister resources. -/
  | unregister (resource : Resource)

/-- Check a step by itself.  Only a request to register can be at fault. -/
def SubmitStep.check : SubmitStep → Except Fault Unit
  | .register request => do
      let _ ← Target.ofRequest request
  | _ => return ()

/-- Take a step towards the kernel. -/
def SubmitStep.perform (s : Submitter) : SubmitStep → Sys Reply
  | .prepare want => return .request (← s.prepare want)
  | .submit want mask? => return .count (← s.submit want mask?)
  | .enter toSubmit minComplete flags mask? =>
      return .count (← s.enter toSubmit minComplete flags mask?)
  | .register request => do
      s.register (← Sys.ofExcept (Target.ofRequest request))
      return .nothing
  | .unregister resource => do
      s.unregister resource
      return .nothing

end IoRing
