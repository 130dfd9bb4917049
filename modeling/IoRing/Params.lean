import IoRing.Fault

/-!
# Ring parameters

`Params` is the record handed to the kernel when a ring is set up.  The caller
fills in what it asks for, and the kernel overwrites it with what it grants: the
entry counts, the features and the places of the header fields.

The setters only record requests.  `validate` refuses the combinations that the
kernel would refuse, before any system call.  The kernel rounds both sizes up to
a power of two before it compares them, and clamps in place of failing if asked
to, so `validate` compares the rounded sizes and not at all when clamping.
-/

namespace IoRing

/-! ## The record -/

/-- Places of the submission ring's fields in its mapping. -/
structure SubmissionOffsets where
  /-- The head counter, written by the kernel. -/
  head : UInt32 := 0
  /-- The tail counter, written by the process. -/
  tail : UInt32 := 0
  /-- The mask that turns a counter into a slot. -/
  ringMask : UInt32 := 0
  /-- The number of slots. -/
  ringEntries : UInt32 := 0
  /-- Flags set by the kernel. -/
  flags : UInt32 := 0
  /-- The count of entries the kernel found invalid. -/
  dropped : UInt32 := 0
  /-- The index array. -/
  array : UInt32 := 0
deriving DecidableEq, Inhabited

/-- Places of the completion ring's fields in its mapping. -/
structure CompletionOffsets where
  /-- The head counter, written by the process. -/
  head : UInt32 := 0
  /-- The tail counter, written by the kernel. -/
  tail : UInt32 := 0
  /-- The mask that turns a counter into a slot. -/
  ringMask : UInt32 := 0
  /-- The number of slots. -/
  ringEntries : UInt32 := 0
  /-- The count of completions that found no room. -/
  overflow : UInt32 := 0
  /-- The completions. -/
  cqes : UInt32 := 0
deriving DecidableEq, Inhabited

/-- The parameters of a ring, asked for or granted. -/
structure Params where
  /-- The setup flags. -/
  flags : UInt32 := 0
  /-- The features. -/
  features : UInt32 := 0
  /-- Size of the submission queue. -/
  sqEntries : UInt32 := 0
  /-- Size of the completion queue. -/
  cqEntries : UInt32 := 0
  /-- Milliseconds that an idle poll thread spins. -/
  threadIdle : UInt32 := 0
  /-- The processor of the poll thread. -/
  threadCpu : UInt32 := 0
  /-- Where the submission ring has its fields. -/
  sqOffsets : SubmissionOffsets := {}
  /-- Where the completion ring has its fields. -/
  cqOffsets : CompletionOffsets := {}
deriving DecidableEq, Inhabited

/-! ## Flags and features -/

/-- Setup flag: poll for completions. -/
def SetupFlag.ioPoll : UInt32 := 1
/-- Setup flag: a kernel thread polls the submission queue. -/
def SetupFlag.sqPoll : UInt32 := 2
/-- Setup flag: the poll thread is bound to a processor. -/
def SetupFlag.sqAffinity : UInt32 := 4
/-- Setup flag: the completion queue has a size of its own. -/
def SetupFlag.cqSize : UInt32 := 8
/-- Setup flag: sizes that are too large are clamped. -/
def SetupFlag.clamp : UInt32 := 16

/-- Feature: both rings lie in one mapping. -/
def Feature.singleMap : UInt32 := 1
/-- Feature: no completion is dropped. -/
def Feature.noDrop : UInt32 := 2
/-- Feature: an entry may be reused as soon as it was submitted. -/
def Feature.submitStable : UInt32 := 4

/-- Any of the bits of `mask` is set in `word`. -/
def hasBits (word mask : UInt32) : Bool := word &&& mask != 0

namespace Params

/-- The setup flags contain the given one. -/
def hasFlag (p : Params) (flag : UInt32) : Bool := hasBits p.flags flag

/-- The features contain the given one. -/
def hasFeature (p : Params) (feature : UInt32) : Bool := hasBits p.features feature

/-! ## Requests -/

/-- The parameters with a setup flag added. -/
def addFlag (p : Params) (flag : UInt32) : Params := { p with flags := p.flags ||| flag }

/-- Ask for a feature. -/
def requestFeature (p : Params) (feature : UInt32) : Params :=
  { p with features := p.features ||| feature }

/-- Poll for completions in place of waiting for interrupts. -/
def setIoPoll (p : Params) : Params := p.addFlag SetupFlag.ioPoll

/-- Have a kernel thread poll the submission queue.  The idle time is in
milliseconds and is left alone if absent.  One that does not fit is refused
and leaves the parameters as they were. -/
def setSqPoll (p : Params) (idle? : Option Int) : Except Fault Params :=
  match idle? with
  | none => .ok (p.addFlag SetupFlag.sqPoll)
  | some idle =>
      if idle < 0 ∨ (UInt32.size : Int) ≤ idle then .error .idleOutOfRange
      else .ok { p.addFlag SetupFlag.sqPoll with threadIdle := UInt32.ofNat idle.toNat }

/-- Bind the poll thread to a processor. -/
def setSqPollCpu (p : Params) (cpu : UInt32) : Params :=
  { p.addFlag SetupFlag.sqAffinity with threadCpu := cpu }

/-- Give the completion queue a size of its own. -/
def setCqSize (p : Params) (entries : UInt32) : Params :=
  { p.addFlag SetupFlag.cqSize with cqEntries := entries }

/-- Clamp sizes that are too large. -/
def setClamp (p : Params) : Params := p.addFlag SetupFlag.clamp

/-! ## Validation -/

/-- The least power of two that is not below a size.  It is 1 for the size 0, and
else has one bit more than what comes before the size. -/
def roundedSize (n : UInt32) : Nat :=
  if n.toNat ≤ 1 then 1 else 1 <<< ((n.toNat - 1).log2 + 1)

/-- Refuse what the kernel would refuse for a ring of the given size. -/
def validate (p : Params) (entries : UInt32) : Except Fault Unit :=
  if entries = 0 then .error .noEntries
  else if p.hasFlag SetupFlag.sqAffinity && !p.hasFlag SetupFlag.sqPoll then
    .error .affinityWithoutPolling
  else if p.hasFlag SetupFlag.cqSize && !p.hasFlag SetupFlag.clamp &&
      (p.cqEntries == 0 || decide (roundedSize p.cqEntries < roundedSize entries)) then
    .error (.completionSizeTooSmall p.cqEntries entries)
  else .ok ()

end Params

end IoRing
