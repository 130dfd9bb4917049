import IoRing.Session.Reply

/-!
# Steps on the kernel's side

A session may let the kernel work by itself: read and write words, consume
entries, post completions, or prepare the results of later calls.
-/

namespace IoRing

/-- Something that the kernel does by itself. -/
inductive KernelStep where
  /-- Write a word of an area. -/
  | poke (area : Area) (offset : Nat) (value : UInt32)
  /-- Read a word of an area. -/
  | peek (area : Area) (offset : Nat)
  /-- Consume entries. -/
  | consume (limit? : Option Nat)
  /-- Drop the oldest entry. -/
  | drop
  /-- Count a completion as lost. -/
  | overflow
  /-- Post a completion. -/
  | post (c : Completion)
  /-- Write the flags of the submission ring. -/
  | setFlags (value : UInt32)
  /-- Limit the entries that one enter call takes. -/
  | setAccept (limit? : Option Nat)
  /-- Add the result of a later enter call. -/
  | scriptEnter (result : Int)
  /-- Add the result of a later registration call. -/
  | scriptRegister (result : Int)

namespace KernelStep

/-- Let the kernel do a step. -/
def work : KernelStep → Kernel → Reply × Kernel
  | .poke area offset value, k => (.nothing, k.setWord area offset value)
  | .peek area offset, k => (.word (k.word area offset), k)
  | .consume limit?, k =>
      let taken := k.consume limit?
      (.entries taken.entries, taken.kernel)
  | .drop, k => (.nothing, k.drop)
  | .overflow, k => (.nothing, k.overflow)
  | .post c, k =>
      let (posted, k) := k.post c
      (.flag posted, k)
  | .setFlags value, k =>
      (.nothing, k.setWord .sqRing k.granted.sqOffsets.flags.toNat value)
  | .setAccept limit?, k => (.nothing, { k with accept? := limit? })
  | .scriptEnter result, k => (.nothing, { k with enterScript := k.enterScript ++ [result] })
  | .scriptRegister result, k =>
      (.nothing, { k with registerScript := k.registerScript ++ [result] })

/-- Do a step in a session. -/
def perform {σ : Type} (step : KernelStep) : Action σ Reply :=
  .onHost (Sys.onKernel step.work)

end KernelStep

end IoRing
