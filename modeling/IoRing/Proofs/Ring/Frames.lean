import IoRing.Proofs.Place
import IoRing.Proofs.Running
import IoRing.Session.KernelStep
import IoRing.Session.QueueStep

/-!
# What work leaves alone

The kernel's work on the queues changes its memory, and it may change how later enter
calls are answered (`Kernel.QueueWork`).

What stays the same about a host is up to a `Host.Frame`, a relation that no step towards
the queues breaks: to store into memory, to write to the diagnostic stream, or to enter
the kernel.  Every computation that is made of such steps then keeps the frame, whatever
comes of it (`Sys.Keeps`).
-/

namespace IoRing

/-! ## The kernel -/

namespace Kernel

/-- Only the memory differs, and how enter calls will be answered. -/
def QueueWork (k k' : Kernel) : Prop :=
  ∃ memory accept? enterScript, k' = { k with memory, accept?, enterScript }

variable {k k' k'' : Kernel}

theorem QueueWork.refl (k : Kernel) : k.QueueWork k := ⟨_, _, _, rfl⟩

theorem QueueWork.trans (h : k.QueueWork k') (h' : k'.QueueWork k'') : k.QueueWork k'' := by
  obtain ⟨_, _, _, rfl⟩ := h
  obtain ⟨_, _, _, rfl⟩ := h'
  exact ⟨_, _, _, rfl⟩

theorem QueueWork.admits_eq (h : k.QueueWork k') (fd : Int32) : k'.admits fd = k.admits fd := by
  obtain ⟨_, _, _, rfl⟩ := h
  rfl

variable (k)

theorem queueWork_setWord (area : Area) (offset : Nat) (value : UInt32) :
    k.QueueWork (k.setWord area offset value) := by
  unfold setWord
  cases k.mapping? area with
  | none => exact .refl k
  | some m => exact ⟨_, _, _, rfl⟩

theorem queueWork_setWords (area : Area) (offset : Nat) (ws : List UInt32) :
    k.QueueWork (k.setWords area offset ws) := by
  induction ws generalizing k offset with
  | nil => exact .refl k
  | cons w ws ih => exact (k.queueWork_setWord area offset w).trans (ih _ _)

theorem queueWork_overflow : k.QueueWork k.overflow :=
  (k.queueWork_setWord _ _ _).trans (queueWork_setWord _ _ _ _)

theorem queueWork_post (c : Completion) : k.QueueWork (k.post c).2 := by
  simp only [post]
  split
  · exact k.queueWork_overflow
  · exact (k.queueWork_setWords _ _ _).trans (queueWork_setWord _ _ _ _)

theorem queueWork_takeSlots {handle : Handler} (hhandle : ∀ e k, QueueWork k (handle e k))
    (tail mask : UInt32) (limit : Nat) (head : UInt32) :
    k.QueueWork (takeSlots handle tail mask limit head k).kernel := by
  induction limit generalizing head k with
  | zero => exact .refl k
  | succ limit ih =>
    rw [takeSlots]
    split
    · exact .refl k
    · cases k.slotEntry? (head &&& mask) with
      | none => exact (k.queueWork_setWord _ _ _).trans (ih _ _)
      | some e => exact (hhandle e k).trans (ih _ _)

theorem queueWork_consumeEach {handle : Handler} (hhandle : ∀ e k, QueueWork k (handle e k))
    (limit? : Option Nat) : k.QueueWork (consumeEach handle k limit?).kernel :=
  (k.queueWork_takeSlots hhandle _ _ _ _).trans (queueWork_setWord _ _ _ _)

theorem queueWork_drop : k.QueueWork k.drop := by
  unfold drop
  simp only
  split
  · exact .refl k
  · exact (k.queueWork_setWord _ _ _).trans (queueWork_setWord _ _ _ _)

theorem queueWork_serve (toSubmit : UInt32) : k.QueueWork (k.serve toSubmit).2 := by
  unfold serve
  split
  · exact ⟨_, _, _, rfl⟩
  · exact k.queueWork_consumeEach (fun e k => k.queueWork_post (completionOf e)) _

/-- The kernel only works on the queues by itself, unless it is told how to answer a
registration call. -/
theorem queueWork_work {step : KernelStep} (hstep : ∀ n, step ≠ .scriptRegister n) :
    k.QueueWork (step.work k).2 := by
  cases step with
  | poke area offset value => exact k.queueWork_setWord area offset value
  | peek area offset => exact .refl k
  | consume limit? => exact k.queueWork_consumeEach (fun _ k => .refl k) limit?
  | drop => exact k.queueWork_drop
  | overflow => exact k.queueWork_overflow
  | post c => exact k.queueWork_post c
  | setFlags value => exact k.queueWork_setWord _ _ value
  | setAccept limit? => exact ⟨_, _, _, rfl⟩
  | scriptEnter result => exact ⟨_, _, _, rfl⟩
  | scriptRegister result => exact absurd rfl (hstep result)

end Kernel

/-! ## The host -/

/-- A relation between hosts that holds across every step towards the queues. -/
structure Host.Frame where
  Rel : Host → Host → Prop
  refl (h : Host) : Rel h h
  trans {h h' h'' : Host} : Rel h h' → Rel h' h'' → Rel h h''
  memory (h : Host) (m : Memory) : Rel h (h.withMemory m)
  report (h : Host) (text : String) : Rel h { h with diagnostics := h.diagnostics ++ text }
  enter (call : EnterCall) (h : Host) : Rel h (Sys.after (Sys.enter call) h)

/-- Work on the queues as a frame. -/
def Host.queueWork : Host.Frame where
  Rel h h' := h.kernel.QueueWork h'.kernel
  refl h := .refl h.kernel
  trans := .trans
  memory _ _ := ⟨_, _, _, rfl⟩
  report h _ := .refl h.kernel
  enter call h := by
    rcases Sys.kernel_after_enter call h with hrefused | hserved
    · rw [hrefused]
      exact .refl h.kernel
    · rw [hserved]
      exact h.kernel.queueWork_serve _

namespace Sys

variable {α β : Type} {F : Host.Frame} {P : α → Prop} {Q : β → Prop}

/-- A computation keeps a frame, and its results have a property. -/
def Keeps (F : Host.Frame) (P : α → Prop) (act : Sys α) : Prop :=
  ∀ h, F.Rel h (after act h) ∧ ∀ a h', act h = .ok a h' → P a

namespace Keeps

theorem ok {act : Sys α} {h h' : Host} {a : α} (hact : Keeps F P act) (hrun : act h = .ok a h') :
    F.Rel h h' ∧ P a := by
  have hkept := (hact h).1
  rw [after, hrun] at hkept
  exact ⟨hkept, (hact h).2 a h' hrun⟩

theorem error {act : Sys α} {h h' : Host} {f : Fault} (hact : Keeps F P act)
    (hrun : act h = .error f h') : F.Rel h h' := by
  have hkept := (hact h).1
  rwa [after_of_error hrun] at hkept

theorem imp {act : Sys α} {P' : α → Prop} (hact : Keeps F P act) (himp : ∀ a, P a → P' a) :
    Keeps F P' act :=
  fun h => ⟨(hact h).1, fun a h' hrun => himp a ((hact h).2 a h' hrun)⟩

theorem bind {act : Sys α} {next : α → Sys β} (hact : Keeps F P act)
    (hnext : ∀ a, P a → Keeps F Q (next a)) : Keeps F Q (act >>= next) := by
  intro h
  cases hrun : act h with
  | ok a h₁ =>
    obtain ⟨hkept, ha⟩ := hact.ok hrun
    rw [after_bind_ok hrun, bind_ok hrun]
    exact ⟨F.trans hkept (hnext a ha h₁).1, (hnext a ha h₁).2⟩
  | error f h₁ =>
    rw [after_bind_error hrun, bind_error hrun]
    exact ⟨hact.error hrun, fun b h' hok => by cases hok⟩

theorem pure {a : α} (ha : P a) : Keeps F P (Pure.pure a : Sys α) := by
  refine fun h => ⟨F.refl h, fun b h' hrun => ?_⟩
  cases hrun
  exact ha

theorem ofExcept {r : Except Fault α} (hr : ∀ a, r = .ok a → P a) :
    Keeps F P (ofExcept r) := by
  intro h
  cases r with
  | ok a => exact Keeps.pure (hr a rfl) h
  | error f => exact ⟨F.refl h, fun b h' hrun => by cases hrun⟩

theorem found (r : Except Fault α) : Keeps F (fun _ => True) (Sys.ofExcept r) :=
  ofExcept fun _ _ => trivial

theorem memory : Keeps F (fun _ => True) Sys.memory :=
  fun h => ⟨F.refl h, fun _ _ _ => trivial⟩

theorem setMemory (m : Memory) : Keeps F (fun _ => True) (Sys.setMemory m) :=
  fun h => ⟨F.memory h m, fun _ _ _ => trivial⟩

theorem report (text : String) : Keeps F (fun _ => True) (Sys.report text) :=
  fun h => ⟨F.report h text, fun _ _ _ => trivial⟩

theorem enter (call : EnterCall) : Keeps F (fun _ => True) (Sys.enter call) :=
  fun h => ⟨F.enter call h, fun _ _ _ => trivial⟩

end Keeps

end Sys

/-! ## Steps on the queues -/

variable {F : Host.Frame}

theorem SubmissionStep.keeps (q : SubmissionQueue) (step : SubmissionStep) :
    Sys.Keeps F (fun _ => True) (step.perform q) := by
  have hpush (outcome : Memory → Option (SubmissionQueue × Memory)) :
      Sys.Keeps F (fun _ => True) (Sys.ofPush outcome) := by
    refine Sys.Keeps.memory.bind fun m _ => ?_
    cases outcome m with
    | some result => exact (Sys.Keeps.setMemory result.2).bind fun _ _ => .pure trivial
    | none => exact fun h => ⟨F.refl h, fun _ _ _ => trivial⟩
  cases step with
  | push e => exact (hpush _).bind fun _ _ => .pure trivial
  | pushDeferred e => exact (hpush _).bind fun _ _ => .pure trivial
  | pushAll es => exact (hpush _).bind fun _ _ => .pure trivial
  | sync =>
    exact (Sys.Keeps.memory.bind fun m _ => .setMemory _).bind fun _ _ =>
      .pure trivial
  | inspect => exact Sys.Keeps.memory.bind fun _ _ => .pure trivial

theorem CompletionStep.keeps (q : CompletionQueue) (step : CompletionStep) :
    Sys.Keeps F (fun _ => True) (step.perform q) := by
  cases step with
  | next =>
    have hnext : Sys.Keeps F (fun _ => True) q.next := by
      refine Sys.Keeps.memory.bind fun m _ => ?_
      cases q.next? m with
      | some taken => exact .pure trivial
      | none => exact .pure trivial
    exact hnext.bind fun _ _ => .pure trivial
  | drain limit => exact Sys.Keeps.memory.bind fun _ _ => .pure trivial
  | sync =>
    exact (Sys.Keeps.memory.bind fun m _ => .setMemory _).bind fun _ _ =>
      .pure trivial
  | inspect => exact Sys.Keeps.memory.bind fun _ _ => .pure trivial

namespace Submitter

variable (s : Submitter)

theorem keeps_prepare (want : UInt32) : Sys.Keeps F (fun _ => True) (s.prepare want) :=
  (Sys.Keeps.memory.bind fun _ _ => .setMemory _).bind fun _ _ =>
    Sys.Keeps.memory.bind fun _ _ => .pure trivial

theorem keeps_submit (want : UInt32) (mask? : Option UInt64) :
    Sys.Keeps F (fun _ => True) (s.submit want mask?) := by
  refine (s.keeps_prepare want).bind fun r _ => ?_
  cases r.needed with
  | true => exact .enter _
  | false => exact .pure trivial

end Submitter

end IoRing
