import IoRing.Params
import IoRing.Registration

/-!
# System calls as seen from outside

A `Call` is one system call with its arguments and the number it returned, as an
observer between the process and the kernel would note it.  Errors are returned
as negative numbers.
-/

namespace IoRing

/-- The arguments of an enter call. -/
structure EnterCall where
  /-- The ring's descriptor. -/
  fd : Int32
  /-- How many entries the kernel may take. -/
  toSubmit : UInt32
  /-- How many completions to wait for. -/
  minComplete : UInt32
  /-- Flags of the call. -/
  flags : UInt32
  /-- The signal mask to use while waiting. -/
  mask? : Option UInt64 := none
deriving DecidableEq

/-- The size of the signal mask in bytes, as the kernel is told. -/
def EnterCall.maskSize (c : EnterCall) : UInt64 :=
  match c.mask? with
  | some _ => 8
  | none => 0

/-- One system call and the number it returned. -/
inductive Call where
  /-- Set up a ring, with the parameters as they were passed in. -/
  | setup (entries : UInt32) (params : Params) (result : Int)
  /-- Map memory. -/
  | map (fd : Int32) (offset : Int) (length : UInt64) (protection flags : UInt32) (result : Int)
  /-- Unmap a mapping. -/
  | unmap (block : Nat) (length : UInt64) (result : Int)
  /-- Close a descriptor. -/
  | close (fd : Int32) (result : Int)
  /-- Submit entries, wait for completions, or both. -/
  | enter (call : EnterCall) (result : Int)
  /-- Register or unregister resources. -/
  | register (fd : Int32) (op : UInt32) (argument : RegisterArgument) (count : UInt32)
      (result : Int)
deriving DecidableEq

/-- A mask may hold this signal.  Signals have the numbers 1 to 64, and 32 and 33
are reserved for threads. -/
def isMaskable (signal : Nat) : Bool :=
  1 ≤ signal && signal ≤ 64 && signal != 32 && signal != 33

/-- The mask that blocks the given signals.  Signal `s` is bit `s - 1`, and a
number that a mask may not hold is left out. -/
def signalMask (signals : List Nat) : UInt64 :=
  (signals.filter isMaskable).foldl (fun mask s => mask ||| 1 <<< UInt64.ofNat (s - 1)) 0

end IoRing
