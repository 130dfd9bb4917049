import IoRing.Session.Reply

/-!
# Sessions on regions

A user holds four slots of regions.  The steps make regions, move them about and
access them.  When the session ends, the slots are released in order.
-/

namespace IoRing

/-- The number of slots a user holds. -/
abbrev RegionStep.slots : Nat := 4

/-- A slot of the user. -/
abbrev Slot := Fin RegionStep.slots

/-- A step on regions. -/
inductive RegionStep where
  /-- Map private memory into a slot. -/
  | anonymous (slot : Slot) (length : UInt64)
  /-- Map an area of a ring into a slot. -/
  | map (slot : Slot) (fd : Int32) (offset : Int) (length : UInt64) (what : String)
  /-- Move a region. -/
  | move (source target : Slot)
  /-- Exchange two regions. -/
  | swap (i j : Slot)
  /-- Take a region out of its slot, look at its size and release it. -/
  | take (slot : Slot)
  /-- Release a region. -/
  | reset (slot : Slot)
  /-- Read a word. -/
  | read (slot : Slot) (offset : UInt64)
  /-- Write a word. -/
  | write (slot : Slot) (offset : UInt64) (value : UInt32)
  /-- Locate elements of a size. -/
  | locate (slot : Slot) (size offset count : UInt64)

/-- The user's slots. -/
abbrev Slots := Bank RegionStep.slots

namespace RegionStep

/-- The name that a text gives.  It ends before the first null character. -/
def nameOf (text : String) : String :=
  String.ofList (text.toList.takeWhile (· ≠ Char.ofNat 0))

/-- Change the slots by a computation over the host. -/
def change (f : Slots → Sys Slots) : Action Slots Reply := do
  let bank ← Action.onHost (f (← Action.held))
  Action.hold fun _ => bank
  return .nothing

/-- Take a step. -/
def perform : RegionStep → Action Slots Reply
  | .anonymous slot length => change (·.create slot (Region.anonymous length))
  | .map slot fd offset length what =>
      change (·.create slot (Region.map fd offset length (nameOf what)))
  | .move source target => change (·.move source target)
  | .swap i j => change fun bank => pure (bank.swap i j)
  | .take slot => do
      let length := ((← Action.held)[slot]).length
      let _ ← change (·.reset slot)
      return .size length
  | .reset slot => change (·.reset slot)
  | .read slot offset => do
      let r := (← Action.held)[slot]
      return .word (← Action.onHost (r.getWord offset))
  | .write slot offset value => do
      let r := (← Action.held)[slot]
      Action.onHost (r.putWord offset value)
      return .nothing
  | .locate slot size offset count => do
      let _ ← Action.ofExcept (((← Action.held)[slot]).locate size offset count)
      return .size offset

/-- The lengths of the slots, as far as they are mapped. -/
def view (s : Session Slots) : List (Option UInt64) :=
  s.held.toList.map fun r => r.mapping?.map Mapping.length

/-- Release what is left in the slots. -/
def finish : Action Slots Unit := do
  Action.onHost (Bank.releaseAll (← Action.held))

/-- Run steps on empty slots.  The kernel has a ring set up already. -/
def run (k : Kernel) (steps : List RegionStep) : Session.Report Reply (List (Option UInt64)) :=
  Session.run perform view finish steps ⟨.ofKernel { k with active := true }, Bank.empty⟩

end RegionStep

end IoRing
