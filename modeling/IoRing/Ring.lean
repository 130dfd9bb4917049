import IoRing.CompletionQueue
import IoRing.Layout
import IoRing.Submitter

/-!
# Rings

A `Ring` is set up, used and closed.  While open it owns a descriptor, the
mappings of its areas and the two queues over them.  Once closed it only
remembers what it was set up with.

Opening validates the parameters, asks the kernel for a ring, maps its areas and
attaches the queues.  If a step fails, the steps before it are undone in order:
mappings first, the descriptor last.  The fault is that of the step that failed.
The parameters are overwritten as soon as the kernel granted them, whatever
happens after.

Closing releases in the same order.  Closing twice does nothing more.
-/

namespace IoRing

/-! ## The mapped areas -/

/-- The regions that back a ring.  Under a single mapping the completion ring
has no region of its own. -/
structure RingRegions where
  /-- The submission ring, or both rings. -/
  sqRing : Region := .empty
  /-- The array of entries. -/
  sqes : Region := .empty
  /-- The completion ring. -/
  cqRing : Region := .empty
deriving DecidableEq

namespace RingRegions

/-- The region that holds the completion ring. -/
def completionRegion (r : RingRegions) : Region :=
  if r.cqRing.isMapped then r.cqRing else r.sqRing

/-- Release all regions. -/
def release (r : RingRegions) : Sys Unit := do
  r.cqRing.release
  r.sqes.release
  r.sqRing.release

/-- Run a step, and release the regions if it fails. -/
def orRelease {α : Type} (r : RingRegions) (step : Sys α) : Sys α :=
  tryCatch step fun f => do
    r.release
    throw f

/-- Map the areas of a ring.  A failure releases what was mapped. -/
def map (fd : Int32) (layout : Layout) : Sys RingRegions := do
  let r : RingRegions := { sqes := ← Region.map fd Area.sqes.offset layout.sqesLength "sqes" }
  if layout.singleMap then
    let ring ← r.orRelease
      (Region.map fd Area.sqRing.offset layout.combinedLength "sq/cq ring")
    return { r with sqRing := ring }
  else
    let sqRing ← r.orRelease (Region.map fd Area.sqRing.offset layout.sqRingLength "sq ring")
    let r := { r with sqRing }
    let cqRing ← r.orRelease (Region.map fd Area.cqRing.offset layout.cqRingLength "cq ring")
    return { r with cqRing }

end RingRegions

/-! ## The ring -/

/-- What an open ring owns. -/
structure RingBody where
  /-- The descriptor. -/
  fd : Int32
  /-- The mapped areas. -/
  regions : RingRegions
  /-- The submission queue. -/
  sq : SubmissionQueue
  /-- The completion queue. -/
  cq : CompletionQueue
deriving DecidableEq

/-- A ring, open or closed. -/
structure Ring where
  /-- The setup flags granted. -/
  setupFlags : UInt32
  /-- The features granted. -/
  features : UInt32
  /-- The layout of the mappings. -/
  layout : Layout
  /-- What the ring owns while it is open. -/
  body? : Option RingBody
deriving DecidableEq

/-- What came of opening a ring. -/
structure Opening where
  /-- The ring, or why there is none. -/
  result : Except Fault Ring
  /-- The parameters as the attempt left them. -/
  params : Params

namespace Ring

/-! ### Opening and closing -/

/-- Attach both queues to the mapped areas. -/
def attachQueues (regions : RingRegions) (granted : Params) :
    Sys (SubmissionQueue × CompletionQueue) := do
  let m ← Sys.memory
  let sq ← Sys.ofExcept (SubmissionQueue.attach regions.sqRing regions.sqes granted.sqOffsets m)
  let cq ← Sys.ofExcept (CompletionQueue.attach regions.completionRegion granted.cqOffsets m)
  return (sq, cq)

/-- Build a ring on a descriptor.  A failure undoes everything and closes the
descriptor. -/
def assemble (fd : Int32) (granted : Params) : Sys Ring :=
  tryCatch
    (do
      let layout := Layout.ofParams granted
      let regions ← RingRegions.map fd layout
      let (sq, cq) ← regions.orRelease (attachQueues regions granted)
      return ⟨granted.flags, granted.features, layout, some ⟨fd, regions, sq, cq⟩⟩)
    fun f => do
      Sys.close fd
      throw f

/-- Open a ring of the given size. -/
def setUp (entries : UInt32) (params : Params) : Sys Opening := do
  match params.validate entries with
  | .error f => return ⟨.error f, params⟩
  | .ok () =>
      let (fd, granted) ← Sys.setup entries (some params)
      return ⟨← observing (do assemble (← Sys.ofExcept fd) granted), granted⟩

/-- Close a ring. -/
def close (r : Ring) : Sys Ring :=
  match r.body? with
  | none => pure r
  | some b => do
      b.regions.release
      Sys.close b.fd
      return { r with body? := none }

/-! ### Access -/

variable (r : Ring)

/-- The ring is closed. -/
def isClosed : Bool := r.body?.isNone

/-- The descriptor, or -1 once the ring is closed. -/
def fd : Int32 :=
  match r.body? with
  | some b => b.fd
  | none => -1

/-- What the ring owns, if it is open. -/
def opened : Except Fault RingBody :=
  match r.body? with
  | some b => .ok b
  | none => .error .ringClosed

/-- The submission queue. -/
def submission : Except Fault SubmissionQueue := return (← r.opened).sq

/-- The completion queue. -/
def completion : Except Fault CompletionQueue := return (← r.opened).cq

/-- The mapped areas. -/
def regions : Except Fault RingRegions := return (← r.opened).regions

/-- What it takes to reach the kernel. -/
def submitter : Except Fault Submitter := do
  let b ← r.opened
  return ⟨b.fd, r.setupFlags, b.sq⟩

/-- The ring with its submission queue replaced. -/
def withSubmission (q : SubmissionQueue) : Ring :=
  { r with body? := r.body?.map fun b => { b with sq := q } }

/-- The ring with its completion queue replaced. -/
def withCompletion (q : CompletionQueue) : Ring :=
  { r with body? := r.body?.map fun b => { b with cq := q } }

/-! ### Submitting and registering -/

/-- Submit and wait, see `Submitter.submit`. -/
def submit (want : UInt32) (mask? : Option UInt64) : Sys Int32 := do
  (← Sys.ofExcept r.submitter).submit want mask?

/-- Enter the kernel with arguments of the caller's choice. -/
def enter (toSubmit minComplete flags : UInt32) (mask? : Option UInt64) : Sys Int32 := do
  (← Sys.ofExcept r.submitter).enter toSubmit minComplete flags mask?

/-- Register a target. -/
def register (t : Target) : Sys Unit := do
  (← Sys.ofExcept r.submitter).register t

/-- Unregister a kind of resource. -/
def unregister (resource : Resource) : Sys Unit := do
  (← Sys.ofExcept r.submitter).unregister resource

/-! ### Description -/

/-- A number in lowercase hexadecimal digits. -/
def hex (n : UInt32) : String := String.ofList (Nat.toDigits 16 n.toNat)

/-- The descriptor, the layout and the queue positions in words. -/
def describe (m : Memory) : String :=
  match r.body? with
  | none => "[Ring] closed\n"
  | some b =>
      "[Ring] fd=" ++ toString b.fd ++
        " flags=0x" ++ hex r.setupFlags ++ " features=0x" ++ hex r.features ++
        (if r.layout.singleMap then " single_mmap" else " split_mmap") ++
        " sq_ring=" ++ toString r.layout.sqRingLength ++
        "B cq_ring=" ++ toString r.layout.cqRingLength ++
        "B sqes=" ++ toString r.layout.sqesLength ++ "B\n" ++
      "  sq: len=" ++ toString (b.sq.len m) ++ "/" ++ toString b.sq.entries ++
        " unpublished=" ++ toString (b.sq.unpublished m) ++
        " dropped=" ++ toString (b.sq.dropped m) ++
        " need_wakeup=" ++ (if b.sq.needWakeup m then "1" else "0") ++ "\n" ++
      "  cq: len=" ++ toString (b.cq.len m) ++ "/" ++ toString b.cq.entries ++
        " overflow=" ++ toString (b.cq.overflow m) ++ "\n"

end Ring

end IoRing
