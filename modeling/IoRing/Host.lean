import IoRing.Call
import IoRing.Kernel.Calls

/-!
# Running against a kernel

A `Host` is a kernel together with everything the process does that can be seen
from outside: the system calls made so far, oldest first, and the text written to
the diagnostic stream.

`Sys` is a computation over a host that may end in a fault.  What it did to the
host before a fault stays done.

Each system call has one function here.  It makes the call, notes it and turns an
error into a fault.  Unmapping and closing cannot be undone, so their errors are
only reported on the diagnostic stream.

An enter call is noted at the place where it starts, before any calls made while
it runs.  So it is split into `startEnter` and `finishEnter`.
-/

namespace IoRing

/-- A kernel and what an observer saw so far. -/
structure Host where
  /-- The kernel. -/
  kernel : Kernel
  /-- The system calls made, oldest first. -/
  calls : List Call := []
  /-- The text on the diagnostic stream. -/
  diagnostics : String := ""

/-- A host before any call. -/
def Host.ofKernel (k : Kernel) : Host := { kernel := k }

/-- A computation over a host that may end in a fault. -/
abbrev Sys := EStateM Fault Host

namespace Sys

/-! ## Access to the host -/

/-- The shared memory. -/
def memory : Sys Memory := return (← get).kernel.memory

/-- Replace the shared memory. -/
def setMemory (m : Memory) : Sys Unit :=
  modify fun h => { h with kernel := { h.kernel with memory := m } }

/-- Run the kernel. -/
def onKernel {α : Type} (f : Kernel → α × Kernel) : Sys α :=
  modifyGet fun h => let (a, k) := f h.kernel; (a, { h with kernel := k })

/-- Note a system call. -/
def note (c : Call) : Sys Unit := modify fun h => { h with calls := h.calls ++ [c] }

/-- Write to the diagnostic stream. -/
def report (text : String) : Sys Unit :=
  modify fun h => { h with diagnostics := h.diagnostics ++ text }

/-- A checked value, or its fault. -/
def ofExcept {α : Type} : Except Fault α → Sys α
  | .ok a => pure a
  | .error f => throw f

/-- A result as a signed number, or a fault made from the error. -/
def returned (fault : Errno → Fault) : CallResult → Sys Int32
  | .ok n => return Int32.ofNat n
  | .error e => throw (fault e)

/-! ## Setting up and closing -/

/-- Set up a ring.  Gives its descriptor, or why there is none, and the
parameters as the kernel left them. -/
def setup (entries : UInt32) (params? : Option Params) : Sys (Except Fault Int32 × Params) := do
  let some params := params? | throw .setupWithoutParams
  let (result, left) ← onKernel fun k =>
    let (result, left, k) := k.setup params
    ((result, left), k)
  note (.setup entries params result.code)
  return (← observing (returned .setupFailed result), left)

/-- Close a descriptor. -/
def close (fd : Int32) : Sys Unit := do
  let result ← onKernel (·.close fd)
  note (.close fd result.code)
  if let .error e := result then
    report ("[Ring] close(" ++ toString fd ++ ") failed: " ++ e.message ++ "\n")

/-! ## Mapping -/

/-- The number that is returned for a mapping or an error. -/
def mapCode : Except Errno Mapping → Int
  | .ok m => m.block
  | .error e => -e.code

/-- Map an area of a ring. -/
def mapRing (fd : Int32) (offset : Int) (length : UInt64) (what : String) : Sys Mapping := do
  if length = 0 then throw (.emptyMapping what)
  let result ← onKernel (·.mapRing fd offset length)
  note (.map fd offset length MapFlag.readWrite MapFlag.sharedPopulated (mapCode result))
  match result with
  | .ok m => return m
  | .error e => throw (.mapFailed what e)

/-- Map private memory. -/
def mapAnonymous (length : UInt64) : Sys Mapping := do
  if length = 0 then throw .emptyAnonymousMapping
  let result ← onKernel (·.mapAnonymous length)
  note (.map (-1) 0 length MapFlag.readWrite MapFlag.privateAnonymous (mapCode result))
  match result with
  | .ok m => return m
  | .error e => throw (.anonymousMapFailed e)

/-- Unmap a mapping. -/
def unmap (m : Mapping) : Sys Unit := do
  let result ← onKernel (·.unmap m)
  note (.unmap m.block m.length result.code)
  if let .error e := result then
    report ("[MappedRegion] munmap failed: " ++ e.message ++ "\n")

/-! ## Entering -/

/-- An enter call that the kernel is running. -/
structure RunningEnter where
  /-- Its arguments. -/
  call : EnterCall
  /-- The number of calls noted before it. -/
  before : Nat

/-- Start an enter call.  A descriptor that reaches no ring fails at once. -/
def startEnter (call : EnterCall) : Sys RunningEnter := do
  let h ← get
  if h.kernel.admits call.fd then return ⟨call, h.calls.length⟩
  note (.enter call (CallResult.code (.error .badDescriptor)))
  throw (.enterFailed .badDescriptor)

/-- Let the kernel serve a running enter call, and note it where it started. -/
def finishEnter (running : RunningEnter) : Sys Int32 := do
  let result ← onKernel (·.serve running.call.toSubmit)
  modify fun h => { h with
    calls := h.calls.take running.before ++
      Call.enter running.call result.code :: h.calls.drop running.before }
  returned .enterFailed result

/-- Make an enter call. -/
def enter (call : EnterCall) : Sys Int32 := do
  finishEnter (← startEnter call)

/-! ## Registering -/

/-- Register or unregister resources. -/
def register (fd : Int32) (op : UInt32) (argument : RegisterArgument) (count : UInt32) :
    Sys Int32 := do
  let result ← onKernel (·.register fd op)
  note (.register fd op argument count result.code)
  returned (.registerFailed op) result

end Sys

end IoRing
