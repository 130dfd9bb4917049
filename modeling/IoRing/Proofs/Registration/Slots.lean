import IoRing.Proofs.Registration.Calls
import IoRing.Proofs.SharedRing.OneThread

/-!
# Registrations as slots

A user builds targets, copies them, and registers and unregisters through a ring, or
through a shared ring that other threads use too (`RegistryTrace`).

Each kind of resource is a slot of its own (`ResourceSlot`).  A call fills it or empties
it, and is refused if the slot is so already.  `RegistryTrace.run_as_slots` says that a
ring behaves as three of them.  Work on the queues makes no registration call and leaves
all slots as they are (`HolderAction.keeps`), and a call reaches the slot of its kind
only (`RegistryTrace.Tracks.answers`).
-/

namespace IoRing

/-! ## One slot -/

/-- One kind of resource by itself: it is registered or not, and some calls about it had
these outcomes. -/
structure ResourceSlot where
  held : Bool
  outcomes : List (Except Fault Unit) := []
deriving DecidableEq

namespace ResourceSlot

/-- Make a call about the kind.  A refused call changes nothing. -/
def call (s : ResourceSlot) (c : RegistryCall) : ResourceSlot where
  held := if s.held = c.wants then s.held else c.wants
  outcomes := s.outcomes ++ [c.outcome s.held]

/-- Make calls one after the other. -/
def run (s : ResourceSlot) (cs : List RegistryCall) : ResourceSlot := cs.foldl call s

theorem run_concat (s : ResourceSlot) (cs : List RegistryCall) (c : RegistryCall) :
    s.run (cs ++ [c]) = (s.run cs).call c := List.foldl_append

end ResourceSlot

/-! ## Who holds the ring -/

/-- Whoever holds the ring: one user, or threads that share it. -/
inductive RingHolder where
  | plain (ring : Ring)
  | shared (shared : SharedRing)

namespace RingHolder

/-- The ring inside, unless it was handed back. -/
def ring? : RingHolder → Option Ring
  | .plain r => some r
  | .shared s => s.ring?

/-- Register a target. -/
def register (t : Target) : RingHolder → Sys Unit
  | .plain r => r.register t
  | .shared s => s.register t

/-- Unregister a kind of resource. -/
def unregister (resource : Resource) : RingHolder → Sys Unit
  | .plain r => r.unregister resource
  | .shared s => s.unregister resource

/-- The ring inside is open on a descriptor. -/
def Owns (holder : RingHolder) (fd : Int32) : Prop :=
  ∃ ring b, holder.ring? = some ring ∧ ring.body? = some b ∧ b.fd = fd

variable {holder : RingHolder} {fd : Int32}

theorem Owns.cases (howns : holder.Owns fd) : ∃ ring b, ring.body? = some b ∧ b.fd = fd ∧
    (holder = .plain ring ∨ holder = .shared ⟨some ring⟩) := by
  obtain ⟨ring, b, hring, hbody, hfd⟩ := howns
  refine ⟨ring, b, hbody, hfd, ?_⟩
  cases holder with
  | plain r => exact .inl (congrArg _ (Option.some.inj hring))
  | shared s => exact .inr (congrArg (fun r? => RingHolder.shared ⟨r?⟩) hring)

/-- A registration through a shared ring is one through the ring inside. -/
theorem register_eq (howns : holder.Owns fd) (t : Target) :
    holder.register t = (do let _ ← Sys.register fd t.op t.argument t.count; pure ()) := by
  obtain ⟨ring, b, hbody, rfl, rfl | rfl⟩ := howns.cases
  · exact SharedRing.register_eq hbody t
  · exact SharedRing.register_eq hbody t

theorem unregister_eq (howns : holder.Owns fd) (resource : Resource) :
    holder.unregister resource =
      (do let _ ← Sys.register fd resource.unregisterOp .none 0; pure ()) := by
  obtain ⟨ring, b, hbody, rfl, rfl | rfl⟩ := howns.cases
  · exact SharedRing.unregister_eq hbody resource
  · exact SharedRing.unregister_eq hbody resource

end RingHolder

/-! ## Everything else that is done with a ring -/

/-- What is done with a ring.  Threads that share one submit in three steps, and other
threads may run in between. -/
inductive HolderAction where
  /-- The user does something with the ring. -/
  | ring (op : RingOperation)
  /-- A thread does something with the shared ring. -/
  | shared (op : SharedOperation)
  /-- A thread publishes and decides how to enter the kernel. -/
  | prepare (want : UInt32)
  /-- A thread starts to enter the kernel. -/
  | startEnter (request : EnterRequest)
  /-- An enter call returns to its thread. -/
  | finishEnter (running : Sys.RunningEnter)
  /-- Share the ring. -/
  | share
  /-- Hand the ring back. -/
  | handBack

namespace HolderAction

/-- Do something.  What does not fit the holder does nothing. -/
def perform : HolderAction → RingHolder → Sys RingHolder
  | .ring op, .plain r => do
      let (_, r) ← op.perform r
      return .plain r
  | .shared op, .shared s => do
      let (_, s) ← op.perform s
      return .shared s
  | .prepare want, .shared s => do
      let _ ← s.prepare want
      return .shared s
  | .startEnter request, .shared s => do
      let _ ← s.startEnter request
      return .shared s
  | .finishEnter running, .shared s => do
      let _ ← Sys.finishEnter running
      return .shared s
  | .share, .plain r => return .shared (← Sys.ofExcept (SharedRing.ofRing? (some r)))
  | .handBack, .shared s => do
      let (r, _) ← Sys.ofExcept s.release
      return .plain r
  | _, holder => pure holder

/-- It neither makes a registration call nor closes the ring. -/
def isQueueWork : HolderAction → Bool
  | .ring .close => false
  | .ring op => !op.registers
  | .shared op => !op.registers
  | _ => true

end HolderAction

/-- Neither the ring nor what is registered with it differs, and no registration call was
made. -/
structure Host.SameRegistry (h h' : Host) : Prop where
  ring : h.kernel.SameRing h'.kernel
  registered_eq : h'.kernel.registered = h.kernel.registered
  registerScript_eq : h'.kernel.registerScript = h.kernel.registerScript
  registrations_eq : h'.registrations = h.registrations

namespace Host.SameRegistry

variable {h h' h'' : Host}

theorem refl (h : Host) : SameRegistry h h := ⟨.refl _, rfl, rfl, rfl⟩

theorem trans (hsame : SameRegistry h h') (hsame' : SameRegistry h' h'') : SameRegistry h h'' :=
  ⟨hsame.ring.trans hsame'.ring, hsame'.registered_eq.trans hsame.registered_eq,
    hsame'.registerScript_eq.trans hsame.registerScript_eq,
    hsame'.registrations_eq.trans hsame.registrations_eq⟩

theorem of_queueWork (hkernel : h.kernel.QueueWork h'.kernel)
    (hcalls : h'.registrations = h.registrations) : SameRegistry h h' := by
  have hring := hkernel.sameRing
  obtain ⟨_, _, _, hkernel⟩ := hkernel
  exact ⟨hring, by rw [hkernel], by rw [hkernel], hcalls⟩

/-- An enter call is noted among the other calls. -/
theorem finishEnter (running : Sys.RunningEnter) (h : Host) :
    SameRegistry h (Sys.after (Sys.finishEnter running) h) := by
  rw [Sys.after_finishEnter]
  refine of_queueWork (h.kernel.queueWork_serve _) ?_
  simp only [registrations, List.filterMap_append, List.filterMap_cons, Call.registration?]
  rw [← List.filterMap_append, List.take_append_drop]

theorem startEnter (call : EnterCall) (h : Host) :
    SameRegistry h (Sys.after (Sys.startEnter call) h) := by
  cases hadmits : h.kernel.admits call.fd with
  | true =>
    rw [Sys.after, Sys.startEnter_admitted hadmits]
    exact .refl h
  | false =>
    rw [Sys.after_of_error (Sys.startEnter_refused hadmits)]
    refine of_queueWork (.refl _) ?_
    rw [registrations, List.filterMap_append]
    exact List.append_nil _

theorem enter (call : EnterCall) (h : Host) : SameRegistry h (Sys.after (Sys.enter call) h) := by
  have hstart := startEnter call h
  cases hrun : Sys.startEnter call h with
  | ok running h₁ =>
    rw [Sys.after, hrun] at hstart
    rw [Sys.enter, Sys.after_bind_ok hrun]
    exact hstart.trans (finishEnter running h₁)
  | error f h₁ =>
    rw [Sys.after_of_error hrun] at hstart
    rwa [Sys.enter, Sys.after_bind_error hrun]

/-- What is registered as a frame. -/
def frame : Host.Frame where
  Rel := SameRegistry
  refl := refl
  trans := trans
  memory _ _ := of_queueWork ⟨_, _, _, rfl⟩ rfl
  report _ _ := of_queueWork (.refl _) rfl
  enter := enter

end Host.SameRegistry

namespace HolderAction

variable {ring : Ring} {b : RingBody} (hbody : ring.body? = some b) {action : HolderAction}
  (haction : action.isQueueWork = true)

section Keeps

include hbody haction

theorem keeps_plain : Sys.Keeps Host.SameRegistry.frame (·.Owns b.fd)
    (action.perform (.plain ring)) := by
  have hplain : (RingHolder.plain ring).Owns b.fd := ⟨ring, b, rfl, hbody, rfl⟩
  have hshared : (RingHolder.shared ⟨some ring⟩).Owns b.fd := ⟨ring, b, rfl, hbody, rfl⟩
  cases action with
  | ring op =>
    have hop : op ≠ .close := by
      rintro rfl
      cases haction
    have hregisters : op.registers = false := by
      cases op with
      | register t | unregister resource | close => cases haction
      | _ => rfl
    have hring : Sys.Keeps Host.SameRegistry.frame (fun result => ∃ b',
        result.2.body? = some b' ∧ b'.fd = b.fd ∧ b'.regions = b.regions) (op.perform ring) :=
      RingOperation.keeps hbody hop fun h => absurd h (by simp [hregisters])
    refine hring.bind ?_
    rintro ⟨_, r⟩ ⟨b', hbody', hfd, -⟩
    exact .pure ⟨r, b', rfl, hbody', hfd⟩
  | share =>
    rw [perform, SharedRing.ofRing?_open hbody]
    exact .pure hshared
  | _ => exact .pure hplain

theorem keeps_shared : Sys.Keeps Host.SameRegistry.frame (·.Owns b.fd)
    (action.perform (.shared ⟨some ring⟩)) := by
  have hplain : (RingHolder.plain ring).Owns b.fd := ⟨ring, b, rfl, hbody, rfl⟩
  have hshared : (RingHolder.shared ⟨some ring⟩).Owns b.fd := ⟨ring, b, rfl, hbody, rfl⟩
  cases action with
  | shared op =>
    have hregisters : op.registers = false := by
      cases op with
      | register t | unregister resource => cases haction
      | _ => rfl
    have hplainly : Sys.Keeps Host.SameRegistry.frame
        (fun result => ∃ b', result.2.body? = some b' ∧ b'.fd = b.fd) (op.plainly ring) :=
      SharedOperation.plainly_keeps hbody op fun h => absurd h (by simp [hregisters])
    simp only [perform, SharedOperation.perform_eq hbody op, map_eq_pure_bind, bind_assoc,
      pure_bind]
    refine hplainly.bind ?_
    rintro ⟨_, r⟩ ⟨b', hbody', hfd⟩
    exact .pure ⟨r, b', rfl, hbody', hfd⟩
  | prepare want =>
    exact ((Sys.Keeps.found _).bind fun _ _ => (Sys.Keeps.found _).bind fun s _ =>
      s.keeps_prepare want).bind fun _ _ => .pure hshared
  | startEnter request =>
    have hstart (call : EnterCall) :
        Sys.Keeps Host.SameRegistry.frame (fun _ => True) (Sys.startEnter call) :=
      fun h => ⟨.startEnter call h, fun _ _ _ => trivial⟩
    exact ((Sys.Keeps.found _).bind fun _ _ => (Sys.Keeps.found _).bind fun _ _ =>
      hstart _).bind fun _ _ => .pure hshared
  | finishEnter running =>
    have hfinish : Sys.Keeps Host.SameRegistry.frame (fun _ => True) (Sys.finishEnter running) :=
      fun h => ⟨.finishEnter running h, fun _ _ _ => trivial⟩
    exact hfinish.bind fun _ _ => .pure hshared
  | handBack => exact .pure hplain
  | _ => exact .pure hshared

end Keeps

/-- Work on the queues leaves the registrations alone, and the ring stays open on its
descriptor. -/
theorem keeps {holder : RingHolder} {fd : Int32} (howns : holder.Owns fd)
    {action : HolderAction} (haction : action.isQueueWork = true) :
    Sys.Keeps Host.SameRegistry.frame (·.Owns fd) (action.perform holder) := by
  obtain ⟨ring, b, hbody, rfl, rfl | rfl⟩ := howns.cases
  · exact keeps_plain hbody haction
  · exact keeps_shared hbody haction

end HolderAction

/-! ## Runs -/

/-- A target, and the request that it was built for. -/
structure BuiltTarget where
  request : RegisterRequest
  target : Target

/-- What happens next. -/
inductive RegistryMove where
  /-- Build a target and put it somewhere. -/
  | build (place : Nat) (request : RegisterRequest)
  /-- Copy a target to another place. -/
  | copy (source place : Nat)
  /-- Discard a target. -/
  | discard (place : Nat)
  /-- Register the target at a place. -/
  | register (place : Nat)
  /-- Unregister a kind of resource. -/
  | unregister (resource : Resource)
  /-- Do something else with the ring. -/
  | work (action : HolderAction)
  /-- The kernel does something by itself. -/
  | kernel (step : KernelStep)

/-- The move keeps the ring open, makes no registration call but through a target, and does
not tell the kernel how to answer one. -/
def RegistryMove.isAllowed : RegistryMove → Bool
  | .work action => action.isQueueWork
  | .kernel (.scriptRegister _) => false
  | _ => true

/-- A call and what came of it. -/
structure RegistryAnswer where
  call : RegistryCall
  outcome : Except Fault Unit

/-- A ring on its host with some targets, and the calls made so far. -/
structure RegistryTrace where
  holder : RingHolder
  host : Host
  targets : Nat → Option BuiltTarget := fun _ => none
  answers : List RegistryAnswer := []

namespace RegistryTrace

/-- Record what came of a call. -/
def answered (t : RegistryTrace) (c : RegistryCall) (outcome : Except Fault Unit) (host : Host) :
    RegistryTrace :=
  { t with host, answers := t.answers ++ [⟨c, outcome⟩] }

/-- Make a call. -/
def call (t : RegistryTrace) (c : RegistryCall) (act : Sys Unit) : RegistryTrace :=
  match act t.host with
  | .ok _ host => t.answered c (.ok ()) host
  | .error f host => t.answered c (.error f) host

/-- Put a target somewhere, or nothing. -/
def put (t : RegistryTrace) (place : Nat) (built? : Option BuiltTarget) : RegistryTrace :=
  { t with targets := Function.update t.targets place built? }

/-- Make a move.  What ends in a fault leaves the holder as it is. -/
def move (t : RegistryTrace) : RegistryMove → RegistryTrace
  | .build place request =>
      match Target.ofRequest request with
      | .ok target => t.put place (some ⟨request, target⟩)
      | .error _ => t
  | .copy source place => t.put place (t.targets source)
  | .discard place => t.put place none
  | .register place =>
      match t.targets place with
      | some built => t.call (.register built.request) (t.holder.register built.target)
      | none => t
  | .unregister resource => t.call (.unregister resource) (t.holder.unregister resource)
  | .work action =>
      match action.perform t.holder t.host with
      | .ok holder host => { t with holder, host }
      | .error _ host => { t with host }
  | .kernel step => { t with host := { t.host with kernel := (step.work t.host.kernel).2 } }

/-- Make moves one after the other. -/
def run (t : RegistryTrace) (moves : List RegistryMove) : RegistryTrace := moves.foldl move t

/-- The call that a move makes, if it makes one. -/
def call? (t : RegistryTrace) : RegistryMove → Option RegistryCall
  | .register place => (t.targets place).map (.register ·.request)
  | .unregister resource => some (.unregister resource)
  | _ => none

/-- The answers to the calls about a kind. -/
def answersOn (t : RegistryTrace) (r : Resource) : List RegistryAnswer :=
  t.answers.filter (·.call.resource = r)

/-- The slot of a kind after all calls about it. -/
def slot (t : RegistryTrace) (r : Resource) : ResourceSlot :=
  ⟨t.host.kernel.registered r, (t.answersOn r).map (·.outcome)⟩

/-- A move makes one registration call, with all that was asked for, and the kind that the
call is about decides what comes of it.  A refused call changes nothing, and another
changes that kind only. -/
structure Answers (t : RegistryTrace) (fd : Int32) (m : RegistryMove) (c : RegistryCall) :
    Prop where
  count : c.count.toNat = c.argument.size
  refused : t.host.kernel.registered c.resource = c.wants →
    c.fault.kind = .system ∧ c.fault.errno? = some c.refusal ∧
      c.refusal.code = (if c.wants then 16 else 6) ∧
      t.move m = t.answered c (.error c.fault)
        (t.host.noted (c.systemCall fd (-c.refusal.code)))
  accepted : t.host.kernel.registered c.resource ≠ c.wants →
    t.move m = t.answered c (.ok ())
      ({ t.host with kernel := t.host.kernel.setRegistered c.resource c.wants }.noted
        (c.systemCall fd 0))

/-- Between two traces no registration call was made and no kind changed. -/
structure Spares (t t' : RegistryTrace) : Prop where
  registry : t.host.SameRegistry t'.host
  answers_eq : t'.answers = t.answers

/-- The ring is open, and the calls made so far reached the kernel and moved the slots from
where they were at first. -/
structure Tracks (t : RegistryTrace) (fd : Int32) (h : Host) : Prop where
  owns : t.holder.Owns fd
  admits : t.host.kernel.admits fd = true
  unscripted : t.host.kernel.registerScript = []
  checked : ∀ place built, t.targets place = some built →
    Target.ofRequest built.request = .ok built.target
  sent : t.host.registrations = h.registrations ++ t.answers.map (·.call.sent fd)
  slots : ∀ r, ResourceSlot.run ⟨h.kernel.registered r, []⟩ ((t.answersOn r).map (·.call)) =
    t.slot r

variable {t t' : RegistryTrace} {fd : Int32} {h : Host} {m : RegistryMove} {c : RegistryCall}

/-! ### Calls -/

theorem answersOn_answered (outcome : Except Fault Unit) (host : Host) (r : Resource) :
    (t.answered c outcome host).answersOn r =
      t.answersOn r ++ if c.resource = r then [⟨c, outcome⟩] else [] := by
  by_cases hr : c.resource = r <;> simp [answersOn, answered, hr]

theorem slot_answered (outcome : Except Fault Unit) (host : Host) (r : Resource) :
    (t.answered c outcome host).slot r =
      ⟨host.kernel.registered r,
        (t.slot r).outcomes ++ if c.resource = r then [outcome] else []⟩ := by
  rw [slot, answersOn_answered, List.map_append]
  split <;> rfl

namespace Tracks

/-- A target makes the call that its request asks for, and so does any copy of it. -/
theorem move_eq_call (ht : t.Tracks fd h) (hcall : t.call? m = some c) :
    t.move m = t.call c (c.make fd) ∧ c.count.toNat = c.argument.size := by
  cases m with
  | register place =>
    obtain ⟨built, hbuilt, rfl⟩ := Option.map_eq_some_iff.mp hcall
    have hmove : t.move (.register place) =
        t.call (.register built.request) (t.holder.register built.target) := by
      simp only [move, hbuilt]
    have hcarries := Target.carries_of_check (ht.checked place built hbuilt)
    have hcount : built.target.count = (RegistryCall.register built.request).count :=
      UInt32.ofNat_toNat.symm.trans (congrArg _ hcarries.count_eq)
    refine ⟨?_, hcount ▸ hcarries.count_eq⟩
    rw [hmove, RingHolder.register_eq ht.owns, hcarries.op_eq, hcarries.argument_eq, hcount]
    rfl
  | unregister resource =>
    cases hcall
    refine ⟨?_, rfl⟩
    rw [move, RingHolder.unregister_eq ht.owns resource]
    rfl
  | _ => cases hcall

/-- Every call is answered by its kind. -/
theorem answers (ht : t.Tracks fd h) (hcall : t.call? m = some c) : t.Answers fd m c := by
  obtain ⟨hmove, hcount⟩ := ht.move_eq_call hcall
  refine ⟨hcount, fun hheld => ⟨rfl, rfl, by cases c <;> rfl, ?_⟩, fun hheld => ?_⟩
  · rw [hmove, call, RegistryCall.make_refused ht.admits ht.unscripted hheld]
  · rw [hmove, call, RegistryCall.make_accepted ht.admits ht.unscripted hheld]

theorem answered (ht : t.Tracks fd h) (kernel : Kernel) (result : Int)
    (hring : t.host.kernel.SameRing kernel)
    (hscript : kernel.registerScript = t.host.kernel.registerScript)
    (hslot : ∀ r, kernel.registered r =
      if c.resource = r then ((t.slot r).call c).held else t.host.kernel.registered r) :
    (t.answered c (c.outcome (t.host.kernel.registered c.resource))
      ({ t.host with kernel }.noted (c.systemCall fd result))).Tracks fd h where
  owns := ht.owns
  admits := (hring.admits_eq fd).trans ht.admits
  unscripted := hscript.trans ht.unscripted
  checked := ht.checked
  sent := by
    have hsent := ht.sent
    simp only [Host.registrations] at hsent
    simp only [RegistryTrace.answered, Host.noted, Host.registrations, List.filterMap_append,
      List.map_append, ← List.append_assoc, hsent]
    rfl
  slots r := by
    have hheld := hslot r
    rw [answersOn_answered, slot_answered, List.map_append]
    by_cases hr : c.resource = r
    · subst hr
      rw [if_pos rfl] at hheld
      rw [if_pos rfl, if_pos rfl, List.map_singleton, ResourceSlot.run_concat, ht.slots]
      exact congrArg (ResourceSlot.mk · _) hheld.symm
    · rw [if_neg hr] at hheld
      rw [if_neg hr, if_neg hr, List.map_nil, List.append_nil, List.append_nil, ht.slots]
      exact congrArg (ResourceSlot.mk · _) hheld.symm

/-- A call moves the slot of its kind, and no other. -/
theorem move_call (ht : t.Tracks fd h) (hcall : t.call? m = some c) : (t.move m).Tracks fd h := by
  by_cases hheld : t.host.kernel.registered c.resource = c.wants
  · obtain ⟨-, -, -, hmove⟩ := (ht.answers hcall).refused hheld
    have houtcome : c.outcome (t.host.kernel.registered c.resource) = .error c.fault := if_pos hheld
    rw [hmove, ← houtcome]
    refine ht.answered t.host.kernel _ (.refl _) rfl fun r => ?_
    split
    · next hr =>
      subst hr
      exact (if_pos hheld).symm
    · rfl
  · have hmove := (ht.answers hcall).accepted hheld
    have houtcome : c.outcome (t.host.kernel.registered c.resource) = .ok () := if_neg hheld
    rw [hmove, ← houtcome]
    refine ht.answered (t.host.kernel.setRegistered c.resource c.wants) _ ⟨rfl, rfl⟩ rfl
      fun r => ?_
    split
    · next hr =>
      subst hr
      exact (if_pos rfl).trans (if_neg hheld).symm
    · next hr => exact if_neg (Ne.symm hr)

/-! ### Everything else -/

theorem of_spares (ht : t.Tracks fd h) (hspares : t.Spares t') (howns : t'.holder.Owns fd)
    (hchecked : ∀ place built, t'.targets place = some built →
      Target.ofRequest built.request = .ok built.target) : t'.Tracks fd h where
  owns := howns
  admits := (hspares.registry.ring.admits_eq fd).trans ht.admits
  unscripted := hspares.registry.registerScript_eq.trans ht.unscripted
  checked := hchecked
  sent := by rw [hspares.registry.registrations_eq, hspares.answers_eq, ht.sent]
  slots r := by
    rw [slot, answersOn, hspares.answers_eq, hspares.registry.registered_eq]
    exact ht.slots r

theorem put (ht : t.Tracks fd h) (place : Nat) {built? : Option BuiltTarget}
    (hbuilt : ∀ built, built? = some built → Target.ofRequest built.request = .ok built.target) :
    t.Spares (t.put place built?) ∧ (t.put place built?).Tracks fd h := by
  have hspares : t.Spares (t.put place built?) := ⟨.refl _, rfl⟩
  refine ⟨hspares, ht.of_spares hspares ht.owns fun place' built hfound => ?_⟩
  by_cases hplace : place' = place
  · subst hplace
    exact hbuilt built (by simpa [RegistryTrace.put] using hfound)
  · exact ht.checked place' built (by simpa [RegistryTrace.put, hplace] using hfound)

/-- No other move makes a registration call, and none changes a slot. -/
theorem move_spares (ht : t.Tracks fd h) (hallowed : m.isAllowed = true)
    (hcall : t.call? m = none) : t.Spares (t.move m) ∧ (t.move m).Tracks fd h := by
  have hself : t.Spares t ∧ t.Tracks fd h := ⟨⟨.refl _, rfl⟩, ht⟩
  cases m with
  | build place request =>
    cases hcheck : Target.ofRequest request with
    | ok target =>
      simp only [move, hcheck]
      exact ht.put place (by rintro _ ⟨⟩; exact hcheck)
    | error f =>
      simp only [move, hcheck]
      exact hself
  | copy source place => exact ht.put place (ht.checked source)
  | discard place => exact ht.put place nofun
  | register place =>
    have hnone : t.targets place = none := Option.map_eq_none_iff.mp hcall
    simp only [move, hnone]
    exact hself
  | unregister resource => cases hcall
  | work action =>
    have hkeeps : Sys.Keeps Host.SameRegistry.frame (·.Owns fd) (action.perform t.holder) :=
      HolderAction.keeps ht.owns hallowed
    cases hrun : action.perform t.holder t.host with
    | ok holder host =>
      obtain ⟨hsame, howns⟩ := hkeeps.ok hrun
      have hspares : t.Spares { t with holder, host } := ⟨hsame, rfl⟩
      simp only [move, hrun]
      exact ⟨hspares, ht.of_spares hspares howns ht.checked⟩
    | error f host =>
      have hspares : t.Spares { t with host } := ⟨hkeeps.error hrun, rfl⟩
      simp only [move, hrun]
      exact ⟨hspares, ht.of_spares hspares ht.owns ht.checked⟩
  | kernel step =>
    have hstep : ∀ n, step ≠ .scriptRegister n := by
      rintro n rfl
      cases hallowed
    have hspares : t.Spares (t.move (.kernel step)) :=
      ⟨.of_queueWork (t.host.kernel.queueWork_work hstep) rfl, rfl⟩
    exact ⟨hspares, ht.of_spares hspares ht.owns ht.checked⟩

theorem move (ht : t.Tracks fd h) (hallowed : m.isAllowed = true) : (t.move m).Tracks fd h := by
  cases hcall : t.call? m with
  | some c => exact ht.move_call hcall
  | none => exact (ht.move_spares hallowed hcall).2

theorem run (ht : t.Tracks fd h) {moves : List RegistryMove}
    (hmoves : ∀ m ∈ moves, m.isAllowed = true) : (t.run moves).Tracks fd h :=
  List.foldlRecOn (motive := (Tracks · fd h)) moves _ ht fun _ ht m hm => ht.move (hmoves m hm)

end Tracks

/-- Nothing is registered with a ring that was just set up. -/
theorem registered_of_setUp {entries : UInt32} {params granted : Params} {ring : Ring}
    {h₀ : Host} (hopen : Ring.setUp entries params h₀ = .ok ⟨.ok ring, granted⟩ h) (r : Resource) :
    h.kernel.registered r = false := by
  obtain ⟨-, hhost⟩ := Ring.eq_built_of_setUp hopen
  rw [hhost, Host.withParts, Kernel.registered_withParts]
  rfl

/-- **Registrations are three slots.**  Take an open ring, in the hands of one user or
shared, and a kernel that answers registration calls by itself.  Let anything happen that
keeps the ring open: targets are built, copied and discarded, registered and unregistered,
and meanwhile the ring is used, shared and handed back, and the kernel works.

A target can be built for any items that can be counted.  Every call makes one system call
with the items given.  It succeeds exactly if its kind is not already what it is to be, and
a refused call changes nothing.  No other move makes such a call or changes a kind.

So the calls that reached the kernel are those that were made, in order.  The outcomes for
a kind, and whether it is registered in the end, follow from the calls about this kind
alone. -/
theorem run_as_slots {holder : RingHolder} (howns : holder.Owns fd)
    (hadmits : h.kernel.admits fd = true) (hscript : h.kernel.registerScript = [])
    {moves : List RegistryMove} (hmoves : ∀ m ∈ moves, m.isAllowed = true) :
    let t := RegistryTrace.run { holder, host := h } moves
    (∀ place request, 0 < request.items.size → request.items.size < 2 ^ 32 →
      ∃ target, t.move (.build place request) = t.put place (some ⟨request, target⟩)) ∧
    (∀ m c, t.call? m = some c → t.Answers fd m c) ∧
    (∀ m, m.isAllowed = true → t.call? m = none → t.Spares (t.move m)) ∧
    t.host.registrations = h.registrations ++ t.answers.map (·.call.sent fd) ∧
    (∀ r, ResourceSlot.run ⟨h.kernel.registered r, []⟩ ((t.answersOn r).map (·.call)) =
      t.slot r) ∧
    ((∃ entries params granted ring h₀,
        Ring.setUp entries params h₀ = .ok ⟨.ok ring, granted⟩ h) →
      ∀ r, h.kernel.registered r = false) := by
  intro t
  have hstart : Tracks { holder, host := h } fd h :=
    ⟨howns, hadmits, hscript, nofun, (List.append_nil _).symm, fun _ => rfl⟩
  have ht : t.Tracks fd h := hstart.run hmoves
  refine ⟨?_, fun m c => ht.answers, fun m hallowed hcall => (ht.move_spares hallowed hcall).1,
    ht.sent, ht.slots, ?_⟩
  · intro place request hpos hlt
    obtain ⟨target, hcheck⟩ := Target.exists_check hpos hlt
    exact ⟨target, by simp only [RegistryTrace.move, hcheck]⟩
  · rintro ⟨entries, params, granted, ring, h₀, hopen⟩
    exact registered_of_setUp hopen

/-- A copy of an event descriptor is registered in place of the target that it was copied
from.  Files come and go meanwhile. -/
def copiedMoves : List RegistryMove :=
  [.build 0 (.eventDescriptor 7), .copy 0 1, .discard 0, .build 0 (.files (.listed [5, -1])),
    .register 0, .register 1, .work (.ring (.submission (.push (.make 0 0 7)))),
    .work (.ring (.submit 1 none)), .unregister .files, .register 1, .work .share,
    .unregister .buffers]

/-- The copy is registered once, and a second time it is refused. -/
theorem run_as_slots_copied :
    (RingHolder.plain RingSite.smallRing).Owns 3 ∧ RingSite.smallHost.kernel.admits 3 = true ∧
      RingSite.smallHost.kernel.registerScript = [] ∧ (∀ m ∈ copiedMoves, m.isAllowed = true) ∧
      let t := RegistryTrace.run
        { holder := .plain RingSite.smallRing, host := RingSite.smallHost } copiedMoves
      t.Answers 3 (.register 1) (.register (.eventDescriptor 7)) ∧
      t.slot .eventDescriptor = ⟨true, [.ok (), .error (.registerFailed 4 .busy)]⟩ ∧
      t.slot .files = ⟨false, [.ok (), .ok ()]⟩ ∧
      t.slot .buffers = ⟨false, [.error (.registerFailed 1 .notRegistered)]⟩ ∧
      t.host.registrations =
        [⟨3, 2, .descriptors (.listed [5, -1]), 2⟩, ⟨3, 4, .descriptors (.listed [7]), 1⟩,
          ⟨3, 3, .none, 0⟩, ⟨3, 4, .descriptors (.listed [7]), 1⟩, ⟨3, 1, .none, 0⟩] := by
  have howns : (RingHolder.plain RingSite.smallRing).Owns 3 := ⟨_, _, rfl, rfl, rfl⟩
  have hadmits : RingSite.smallHost.kernel.admits 3 = true := rfl
  have hscript : RingSite.smallHost.kernel.registerScript = [] := by decide +kernel
  have hmoves : ∀ m ∈ copiedMoves, m.isAllowed = true := by decide
  obtain ⟨-, hanswers, -, hsent, hslots, -⟩ := run_as_slots howns hadmits hscript hmoves
  refine ⟨howns, hadmits, hscript, hmoves, hanswers _ _ (by decide +kernel), ?_, ?_, ?_, ?_⟩
  · rw [← hslots]
    decide +kernel
  · rw [← hslots]
    decide +kernel
  · rw [← hslots]
    decide +kernel
  · rw [hsent]
    decide +kernel

end RegistryTrace

end IoRing
