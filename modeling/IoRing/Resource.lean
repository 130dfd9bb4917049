/-!
# Registered resources

Three kinds of resource can be registered with a ring: a set of buffers, a set
of files, and one event descriptor.  Each kind has an operation code to register
and one to unregister.
-/

namespace IoRing

/-- What can be registered with a ring. -/
inductive Resource where
  /-- A fixed set of buffers. -/
  | buffers
  /-- A fixed table of files. -/
  | files
  /-- A descriptor signalled on every completion. -/
  | eventDescriptor
deriving DecidableEq, Repr

namespace Resource

/-- One item of the kind, as messages call it. -/
def item : Resource → String
  | .buffers => "buffer"
  | .files => "file"
  | .eventDescriptor => "event descriptor"

/-- The operation code that registers the kind. -/
def registerOp : Resource → UInt32
  | .buffers => 0
  | .files => 2
  | .eventDescriptor => 4

/-- The operation code that unregisters the kind. -/
def unregisterOp : Resource → UInt32
  | .buffers => 1
  | .files => 3
  | .eventDescriptor => 5

/-- The kind that a selector number stands for.  Every number but 0 and 1 stands
for the event descriptor. -/
def ofSelector (n : Int) : Resource :=
  if n = 0 then .buffers else if n = 1 then .files else .eventDescriptor

/-- What an operation code asks for: a kind, and whether to register it. -/
def ofOp? (op : UInt32) : Option (Resource × Bool) :=
  if op = 0 then some (.buffers, true)
  else if op = 1 then some (.buffers, false)
  else if op = 2 then some (.files, true)
  else if op = 3 then some (.files, false)
  else if op = 4 then some (.eventDescriptor, true)
  else if op = 5 then some (.eventDescriptor, false)
  else none

theorem ofOp?_registerOp (r : Resource) : ofOp? r.registerOp = some (r, true) := by
  cases r <;> decide

theorem ofOp?_unregisterOp (r : Resource) : ofOp? r.unregisterOp = some (r, false) := by
  cases r <;> decide

end Resource

end IoRing
