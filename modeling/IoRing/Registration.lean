import IoRing.Fault

/-!
# Registration requests

A `Span` is a run of items the caller holds.  It is either listed or only known
by its size.  A `Target` is a checked request: the kind of resource, what the
caller lends for it and the count of items.  Buffers and files are lent by the
caller.  For an event descriptor nothing is lent, and the argument for the kernel
is the descriptor that the target carries itself.
-/

namespace IoRing

/-- One buffer to register. -/
structure Buffer where
  /-- Its address. -/
  base : UInt64
  /-- Its length in bytes. -/
  length : UInt64
deriving DecidableEq

/-- A run of items held by the caller. -/
inductive Span (α : Type) where
  /-- The items are known. -/
  | listed (items : List α)
  /-- Only the number of items is known. -/
  | sized (count : Nat)
deriving DecidableEq

namespace Span

/-- The number of items. -/
def size {α : Type} : Span α → Nat
  | .listed items => items.length
  | .sized count => count

/-- The items, if they are known. -/
def items? {α : Type} : Span α → Option (List α)
  | .listed items => some items
  | .sized _ => none

end Span

/-- The argument that comes with a registration call. -/
inductive RegisterArgument where
  /-- Nothing. -/
  | none
  /-- A run of buffers. -/
  | buffers (items : Span Buffer)
  /-- A run of file descriptors. -/
  | descriptors (items : Span Int32)
deriving DecidableEq

/-- A request to register, as the caller states it. -/
inductive RegisterRequest where
  /-- A set of buffers. -/
  | buffers (items : Span Buffer)
  /-- A table of files. -/
  | files (items : Span Int32)
  /-- An event descriptor. -/
  | eventDescriptor (fd : Int32)
deriving DecidableEq

/-- A checked request, ready for the kernel.  It may be copied, and a copy carries a
descriptor of its own. -/
structure Target where
  /-- The kind of resource. -/
  resource : Resource
  /-- The argument that the caller lends, if there is one. -/
  lent? : Option RegisterArgument
  /-- The count of items. -/
  count : UInt32
  /-- The descriptor carried in the target. -/
  descriptor : Int32 := -1
deriving DecidableEq

namespace Target

/-- The size of a set as the kernel counts it.  Neither an empty set nor one
beyond 32 bits can be registered. -/
def checkedCount (resource : Resource) (size : Nat) : Except Fault UInt32 :=
  if size = 0 then .error (.emptySet resource)
  else if UInt32.size ≤ size then .error (.tooManyItems resource)
  else .ok (UInt32.ofNat size)

/-- Check a request. -/
def ofRequest : RegisterRequest → Except Fault Target
  | .buffers items => do
      let count ← checkedCount .buffers items.size
      return { resource := .buffers, lent? := some (.buffers items), count }
  | .files items => do
      let count ← checkedCount .files items.size
      return { resource := .files, lent? := some (.descriptors items), count }
  | .eventDescriptor fd =>
      .ok { resource := .eventDescriptor, lent? := none, count := 1, descriptor := fd }

/-- The operation code of the registration call. -/
def op (t : Target) : UInt32 := t.resource.registerOp

/-- The argument for the kernel.  If the caller lends none, it is the descriptor that
the target carries. -/
def argument (t : Target) : RegisterArgument :=
  t.lent?.getD (.descriptors (.listed [t.descriptor]))

/-- The argument lies in the target itself and is not borrowed. -/
def ownsArgument (t : Target) : Bool := t.lent?.isNone

end Target

end IoRing
