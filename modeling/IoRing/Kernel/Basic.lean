import IoRing.Entry
import IoRing.Mapping
import IoRing.Params

/-!
# The kernel's side: state

A kernel drives one ring at a time.  Its `KernelConfig` fixes what it grants at
setup, which words it presets in fresh mappings, and which calls it fails.  The
rest of its state changes with the calls made and with the work it does.

The kernel finds the ring fields through the offsets it granted last, and it
sees memory only as words of the three areas.  When both rings share one
mapping, the completion ring is read and written in the submission ring's
mapping.
-/

namespace IoRing

/-! ## Configuration -/

/-- Errors that the mapping call gives, by what is mapped. -/
structure MapFailures where
  /-- For the submission ring. -/
  sqRing : Option Errno := none
  /-- For the completion ring. -/
  cqRing : Option Errno := none
  /-- For the array of entries. -/
  sqes : Option Errno := none
  /-- For private memory. -/
  anonymous : Option Errno := none

/-- The error for an area. -/
def MapFailures.ofArea (f : MapFailures) : Area → Option Errno
  | .sqRing => f.sqRing
  | .cqRing => f.cqRing
  | .sqes => f.sqes

/-- Words that the kernel stores into fresh mappings, by area. -/
structure Presets where
  /-- For the submission ring. -/
  sqRing : List (Nat × UInt32) := []
  /-- For the completion ring. -/
  cqRing : List (Nat × UInt32) := []
  /-- For the array of entries. -/
  sqes : List (Nat × UInt32) := []

/-- What never changes about a kernel. -/
structure KernelConfig where
  /-- The descriptor it hands out and accepts. -/
  fd : Int32 := -1
  /-- Size of the submission queue it grants. -/
  sqEntries : UInt32 := 0
  /-- Size of the completion queue it grants. -/
  cqEntries : UInt32 := 0
  /-- The features it grants. -/
  features : UInt32 := 0
  /-- The setup flags it reports, if it changes them. -/
  flags? : Option UInt32 := none
  /-- Where it puts the fields of the submission ring. -/
  sqOffsets : SubmissionOffsets := {}
  /-- Where it puts the fields of the completion ring. -/
  cqOffsets : CompletionOffsets := {}
  /-- The words preset in fresh mappings. -/
  presets : Presets := {}
  /-- The error that setup gives. -/
  setupError? : Option Errno := none
  /-- The error that closing gives. -/
  closeError? : Option Errno := none
  /-- The errors that mapping gives. -/
  mapFailures : MapFailures := {}
  /-- The errors that unmapping gives, by number of the mapping. -/
  unmapErrors : List (Nat × Errno) := []

namespace KernelConfig

/-- The parameters after a successful setup: what was asked for, overwritten
with what is granted. -/
def grant (c : KernelConfig) (asked : Params) : Params :=
  { asked with
    flags := c.flags?.getD asked.flags
    features := c.features
    sqEntries := c.sqEntries
    cqEntries := c.cqEntries
    sqOffsets := c.sqOffsets
    cqOffsets := c.cqOffsets }

/-- The granted features put both rings into one mapping. -/
def singleMap (c : KernelConfig) : Bool := hasBits c.features Feature.singleMap

end KernelConfig

/-! ## State -/

/-- The state of a kernel. -/
structure Kernel where
  /-- What never changes. -/
  config : KernelConfig
  /-- All shared memory. -/
  memory : Memory := .zero
  /-- A ring is set up and not closed. -/
  active : Bool := false
  /-- The parameters granted last. -/
  granted : Params := {}
  /-- The completion ring lies in the submission ring's mapping. -/
  sharedRings : Bool := false
  /-- The number of mappings made. -/
  mapped : Nat := 0
  /-- The submission ring's mapping. -/
  sqRing? : Option Mapping := none
  /-- The completion ring's mapping, unless the rings share one. -/
  cqRing? : Option Mapping := none
  /-- The mapping of the array of entries. -/
  sqes? : Option Mapping := none
  /-- The most entries one enter call takes, if there is a limit. -/
  accept? : Option Nat := none
  /-- Results that the next enter calls give without doing anything. -/
  enterScript : List Int := []
  /-- Results that the next registration calls give without doing anything. -/
  registerScript : List Int := []
  /-- The kinds of resource that are registered. -/
  registered : Resource → Bool := fun _ => false

namespace Kernel

/-- A kernel before any call. -/
def ofConfig (config : KernelConfig) : Kernel :=
  { config, sharedRings := config.singleMap }

/-- A call on this descriptor reaches a ring. -/
def admits (k : Kernel) (fd : Int32) : Bool := k.active && fd == k.config.fd

/-- The mapping through which the kernel sees an area. -/
def mapping? (k : Kernel) : Area → Option Mapping
  | .sqRing => k.sqRing?
  | .cqRing => if k.sharedRings then k.sqRing? else k.cqRing?
  | .sqes => k.sqes?

/-- The kernel with the mapping of an area replaced. -/
def setMapping (k : Kernel) (mapping? : Option Mapping) : Area → Kernel
  | .sqRing => { k with sqRing? := mapping? }
  | .cqRing => { k with cqRing? := mapping? }
  | .sqes => { k with sqes? := mapping? }

/-! ## Words -/

/-- A word of an area, 0 if it is not mapped there. -/
def word (k : Kernel) (area : Area) (offset : Nat) : UInt32 :=
  match k.mapping? area with
  | some m => m.guardedWord k.memory offset
  | none => 0

/-- The kernel with a word of an area stored, if it is mapped there. -/
def setWord (k : Kernel) (area : Area) (offset : Nat) (value : UInt32) : Kernel :=
  match k.mapping? area with
  | some m => { k with memory := m.guardedSetWord k.memory offset value }
  | none => k

/-- The kernel with consecutive words stored. -/
def setWords (k : Kernel) (area : Area) (offset : Nat) : List UInt32 → Kernel
  | [] => k
  | w :: ws => (k.setWord area offset w).setWords area (offset + 4) ws

end Kernel

end IoRing
