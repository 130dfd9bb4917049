import IoRing.Kernel.Queues

/-!
# The kernel's side: system calls

Six calls reach the kernel: setup, map, unmap, close, enter and register.  Each
is a function of the kernel's state that gives the result and the state after.
A result is a number or the error of the call.

The enter call has two halves.  The kernel first checks the descriptor
(`Kernel.admits`).  It then serves the call (`serve`), and other work may happen
in between.
-/

namespace IoRing

/-- The outcome of a system call. -/
abbrev CallResult := Except Errno Nat

namespace CallResult

/-- The outcome that a returned number stands for.  Negative numbers are errors. -/
def ofCode (n : Int) : CallResult :=
  if n < 0 then .error ⟨n.natAbs⟩ else .ok n.toNat

/-- The number that is returned for an outcome. -/
def code : CallResult → Int
  | .ok n => n
  | .error e => -e.code

/-- The outcome of a call that only succeeds or fails. -/
def ofError? : Option Errno → CallResult
  | some e => .error e
  | none => .ok 0

theorem code_ofCode (n : Int) : code (ofCode n) = n := by
  unfold ofCode
  split
  · simp only [code]
    omega
  · simp only [code]
    omega

end CallResult

namespace Kernel

/-! ## Setting up and closing -/

/-- Set up a ring.  On success the parameters are overwritten with the granted
ones and earlier registrations are forgotten. -/
def setup (k : Kernel) (asked : Params) : CallResult × Params × Kernel :=
  match k.config.setupError? with
  | some e => (.error e, asked, k)
  | none =>
      if k.active then (.error .tooManyDescriptors, asked, k)
      else
        let granted := k.config.grant asked
        (.ofCode k.config.fd.toInt, granted,
          { k with active := true, granted, registered := fun _ => false })

/-- Close a descriptor.  No ring is active afterwards, even if the call fails. -/
def close (k : Kernel) (fd : Int32) : CallResult × Kernel :=
  let result : CallResult :=
    match k.config.closeError? with
    | some e => .error e
    | none => if k.admits fd then .ok 0 else .error .badDescriptor
  (result, { k with active := false })

/-! ## Mapping -/

/-- The most bytes one mapping may have. -/
def mapLimit : UInt64 := 0x40000000

/-- A fresh mapping with all bytes zero. -/
def freshMapping (k : Kernel) (length : UInt64) : Mapping × Kernel :=
  let m : Mapping := ⟨k.mapped + 1, length⟩
  (m, { k with mapped := k.mapped + 1, memory := k.memory.clear m.block })

/-- The words preset in a fresh mapping of an area. -/
def presetsOf (k : Kernel) : Area → List (Nat × UInt32)
  | .sqRing =>
      if k.sharedRings then k.config.presets.sqRing ++ k.config.presets.cqRing
      else k.config.presets.sqRing
  | .cqRing => k.config.presets.cqRing
  | .sqes => k.config.presets.sqes

/-- Map private memory. -/
def mapAnonymous (k : Kernel) (length : UInt64) : Except Errno Mapping × Kernel :=
  match k.config.mapFailures.anonymous with
  | some e => (.error e, k)
  | none =>
      if mapLimit < length then (.error .outOfMemory, k)
      else
        let (m, k) := k.freshMapping length
        (.ok m, k)

/-- Map an area of the ring, named by an offset.  The mapping becomes the one
through which the kernel sees that area. -/
def mapRing (k : Kernel) (fd : Int32) (offset : Int) (length : UInt64) :
    Except Errno Mapping × Kernel :=
  if !k.admits fd then (.error .badDescriptor, k)
  else
    match Area.ofOffset? offset with
    | none => (.error .invalidArgument, k)
    | some area =>
        match k.config.mapFailures.ofArea area with
        | some e => (.error e, k)
        | none =>
            if mapLimit < length then (.error .outOfMemory, k)
            else
              let (m, k) := k.freshMapping length
              let memory := m.preset k.memory (k.presetsOf area)
              (.ok m, { k with memory }.setMapping (some m) area)

/-- Forget a mapping wherever the kernel still uses it. -/
def forget (k : Kernel) (m : Mapping) : Kernel :=
  { k with
    sqRing? := k.sqRing?.filter (· != m)
    cqRing? := k.cqRing?.filter (· != m)
    sqes? := k.sqes?.filter (· != m) }

/-- Unmap a mapping.  Its memory is gone even if the call fails. -/
def unmap (k : Kernel) (m : Mapping) : CallResult × Kernel :=
  (.ofError? (k.config.unmapErrors.lookup m.block), k.forget m)

/-! ## Entering -/

/-- Serve an enter call.  A scripted result is given without any work.  Else
entries are consumed up to the limits, and each one is completed as it is
taken. -/
def serve (k : Kernel) (toSubmit : UInt32) : CallResult × Kernel :=
  match k.enterScript with
  | n :: rest => (.ofCode n, { k with enterScript := rest })
  | [] =>
      let limit := (k.accept?.getD toSubmit.toNat).min toSubmit.toNat
      let taken := consumeEach complete k (some limit)
      (.ok taken.count, taken.kernel)

/-! ## Registering -/

/-- The kernel with a kind of resource registered or not. -/
def setRegistered (k : Kernel) (resource : Resource) (value : Bool) : Kernel :=
  { k with registered := fun r => if r = resource then value else k.registered r }

/-- Register or unregister.  A kind can be registered only if it is not, and
unregistered only if it is. -/
def register (k : Kernel) (fd : Int32) (op : UInt32) : CallResult × Kernel :=
  if !k.admits fd then (.error .badDescriptor, k)
  else
    match k.registerScript with
    | n :: rest => (.ofCode n, { k with registerScript := rest })
    | [] =>
        match Resource.ofOp? op with
        | none => (.error .invalidArgument, k)
        | some (resource, true) =>
            if k.registered resource then (.error .busy, k)
            else (.ok 0, k.setRegistered resource true)
        | some (resource, false) =>
            if k.registered resource then (.ok 0, k.setRegistered resource false)
            else (.error .notRegistered, k)

end Kernel

end IoRing
