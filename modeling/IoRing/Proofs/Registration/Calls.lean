import IoRing.Proofs.Running

/-!
# Registration calls

A user means to register some items or to unregister a kind of resource
(`RegistryCall`).  What reaches the kernel is a code, an argument and a count.  A target
that passed its check carries those of the request that it was made for, and they do not
depend on where the target lies (`Target.carries_of_check`).

The codes to register and to unregister come in pairs, one for each kind.  So the kernel
answers a call by the one kind that it is about, and changes no other
(`Kernel.register_call`).
-/

namespace IoRing

/-! ## What is asked for -/

/-- The number of items in an argument. -/
def RegisterArgument.size : RegisterArgument → Nat
  | .none => 0
  | .buffers items => items.size
  | .descriptors items => items.size

namespace RegisterRequest

/-- The kind of resource. -/
def resource : RegisterRequest → Resource
  | .buffers _ => .buffers
  | .files _ => .files
  | .eventDescriptor _ => .eventDescriptor

/-- The items to register. -/
def items : RegisterRequest → RegisterArgument
  | .buffers items => .buffers items
  | .files items => .descriptors items
  | .eventDescriptor fd => .descriptors (.listed [fd])

end RegisterRequest

namespace Target

theorem checkedCount_eq_ok_iff {resource : Resource} {size : Nat} {count : UInt32} :
    checkedCount resource size = .ok count ↔ 0 < size ∧ count.toNat = size := by
  unfold checkedCount
  split
  · next hempty => simp [hempty]
  · next hsome =>
    split
    · next hmany =>
      have hlt : count.toNat < size := Nat.lt_of_lt_of_le count.toNat_lt hmany
      simp only [reduceCtorEq, false_iff, not_and]
      exact fun _ => Nat.ne_of_lt hlt
    · next hfits =>
      have hsize : (UInt32.ofNat size).toNat = size :=
        UInt32.toNat_ofNat_of_lt' (Nat.not_le.mp hfits)
      constructor
      · rintro ⟨⟩
        exact ⟨Nat.pos_of_ne_zero hsome, hsize⟩
      · rintro ⟨-, hcount⟩
        exact congrArg _ (UInt32.toNat_inj.mp (hsize.trans hcount.symm))

/-- What the kernel is told about a target is what a request asks for. -/
structure Carries (t : Target) (request : RegisterRequest) : Prop where
  op_eq : t.op = request.resource.registerOp
  argument_eq : t.argument = request.items
  count_eq : t.count.toNat = request.items.size

variable {request : RegisterRequest} {t : Target}

/-- A target that was accepted carries its request. -/
theorem carries_of_check (hcheck : ofRequest request = .ok t) : t.Carries request := by
  cases request with
  | buffers items | files items =>
    simp only [ofRequest, bind, Except.bind] at hcheck
    split at hcheck
    · cases hcheck
    · next count hcount =>
      cases hcheck
      exact ⟨rfl, rfl, (checkedCount_eq_ok_iff.mp hcount).2⟩
  | eventDescriptor fd =>
    cases hcheck
    exact ⟨rfl, rfl, rfl⟩

/-- A request passes its check if its items can be counted. -/
theorem exists_check (hpos : 0 < request.items.size) (hlt : request.items.size < UInt32.size) :
    ∃ t, ofRequest request = .ok t := by
  have hcount {size : Nat} (hpos : 0 < size) (hlt : size < UInt32.size) (resource : Resource) :
      checkedCount resource size = .ok (UInt32.ofNat size) :=
    checkedCount_eq_ok_iff.mpr ⟨hpos, UInt32.toNat_ofNat_of_lt' hlt⟩
  cases request with
  | buffers items | files items =>
    simp only [RegisterRequest.items, RegisterArgument.size] at hpos hlt
    rw [ofRequest, hcount hpos hlt]
    exact ⟨_, rfl⟩
  | eventDescriptor fd => exact ⟨_, rfl⟩

end Target

/-! ## Calls -/

/-- A call to register or to unregister, as the user means it. -/
inductive RegistryCall where
  /-- Register what is asked for. -/
  | register (request : RegisterRequest)
  /-- Unregister a kind of resource. -/
  | unregister (resource : Resource)
deriving DecidableEq

/-- A registration call as it reaches the kernel. -/
structure SentRegistration where
  fd : Int32
  op : UInt32
  argument : RegisterArgument
  count : UInt32
deriving DecidableEq

/-- The registration call that a system call is, if it is one. -/
def Call.registration? : Call → Option SentRegistration
  | .register fd op argument count _ => some ⟨fd, op, argument, count⟩
  | _ => none

/-- The registration calls made, oldest first. -/
def Host.registrations (h : Host) : List SentRegistration := h.calls.filterMap Call.registration?

namespace RegistryCall

/-- The kind that the call is about. -/
def resource : RegistryCall → Resource
  | .register request => request.resource
  | .unregister resource => resource

/-- What the kind is to be: registered or not. -/
def wants : RegistryCall → Bool
  | .register _ => true
  | .unregister _ => false

/-- The code for the kernel. -/
def op : RegistryCall → UInt32
  | .register request => request.resource.registerOp
  | .unregister resource => resource.unregisterOp

/-- The argument for the kernel. -/
def argument : RegistryCall → RegisterArgument
  | .register request => request.items
  | .unregister _ => .none

/-- The number of items, as the kernel counts them. -/
def count (c : RegistryCall) : UInt32 := UInt32.ofNat c.argument.size

/-- The call as it should reach the kernel. -/
def sent (c : RegistryCall) (fd : Int32) : SentRegistration := ⟨fd, c.op, c.argument, c.count⟩

/-- The call as an observer would note it. -/
def systemCall (c : RegistryCall) (fd : Int32) (result : Int) : Call :=
  .register fd c.op c.argument c.count result

/-- Why the call is refused if the kind is already what it is to be. -/
def refusal : RegistryCall → Errno
  | .register _ => .busy
  | .unregister _ => .notRegistered

/-- The fault that a refused call ends in. -/
def fault (c : RegistryCall) : Fault := .registerFailed c.op c.refusal

/-- What should come of the call, by whether the kind is registered. -/
def outcome (c : RegistryCall) (held : Bool) : Except Fault Unit :=
  if held = c.wants then .error c.fault else .ok ()

/-- Make the call on a descriptor. -/
def make (c : RegistryCall) (fd : Int32) : Sys Unit := do
  let _ ← Sys.register fd c.op c.argument c.count

theorem ofOp?_op (c : RegistryCall) : Resource.ofOp? c.op = some (c.resource, c.wants) := by
  cases c with
  | register request => exact Resource.ofOp?_registerOp request.resource
  | unregister resource => exact Resource.ofOp?_unregisterOp resource

end RegistryCall

/-! ## The kernel's answer -/

/-- The kernel answers a call by the kind that it is about.  A call that is refused
changes nothing, and one that is not changes that kind only. -/
theorem Kernel.register_call {k : Kernel} {fd : Int32} (hadmits : k.admits fd = true)
    (hscript : k.registerScript = []) (c : RegistryCall) :
    k.register fd c.op =
      if k.registered c.resource = c.wants then (.error c.refusal, k)
      else (.ok 0, k.setRegistered c.resource c.wants) := by
  rw [register, hadmits, hscript]
  simp only [Bool.not_true, Bool.false_eq_true, if_false, c.ofOp?_op]
  cases c with
  | register request => rfl
  | unregister resource =>
    cases hheld : k.registered resource with
    | true => simp [RegistryCall.resource, RegistryCall.wants, hheld]
    | false => simp [RegistryCall.resource, RegistryCall.wants, RegistryCall.refusal, hheld]

/-- The host after a call was noted. -/
def Host.noted (h : Host) (call : Call) : Host := { h with calls := h.calls ++ [call] }

namespace RegistryCall

variable {h : Host} {fd : Int32} (hadmits : h.kernel.admits fd = true)
  (hscript : h.kernel.registerScript = []) {c : RegistryCall}
include hadmits hscript

/-- A call that asks for what is the case already is refused, and changes nothing.
-/
theorem make_refused (hheld : h.kernel.registered c.resource = c.wants) :
    c.make fd h = .error c.fault (h.noted (c.systemCall fd (-c.refusal.code))) := by
  have hregister := Sys.register_eq fd c.op c.argument c.count h
  rw [Kernel.register_call hadmits hscript, if_pos hheld] at hregister
  exact Sys.bind_error hregister

/-- Any other call is accepted and changes its own kind. -/
theorem make_accepted (hheld : h.kernel.registered c.resource ≠ c.wants) :
    c.make fd h = .ok () ({ h with kernel := h.kernel.setRegistered c.resource c.wants }.noted
      (c.systemCall fd 0)) := by
  have hregister := Sys.register_eq fd c.op c.argument c.count h
  rw [Kernel.register_call hadmits hscript, if_neg hheld] at hregister
  exact Sys.bind_ok hregister

end RegistryCall

end IoRing
