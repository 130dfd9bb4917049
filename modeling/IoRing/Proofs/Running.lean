import IoRing.Host

/-!
# Running computations over a host

How a computation made of two parts runs, forwards from how its parts run
(`Sys.bind_ok`, `Sys.bind_error`) and backwards from its outcome
(`Sys.bind_eq_ok_iff`, `Sys.tryCatch_throw_eq_ok_iff`).  A fault that is caught
only to clean up and to be thrown again leads to no success.

The kernel refuses an enter call or serves it (`Sys.kernel_after_enter`).  A call
to register changes only what is registered (`Kernel.register_eq`).
-/

namespace IoRing

namespace Sys

variable {α β : Type} {act : Sys α} {next : α → Sys β} {h h' : Host} {a : α} {f : Fault}

/-- The host after a computation, whatever came of it. -/
def after (act : Sys α) (h : Host) : Host :=
  match act h with
  | .ok _ h => h
  | .error _ h => h

/-- What comes of a computation. -/
def result (act : Sys α) (h : Host) : Except Fault α :=
  match act h with
  | .ok a _ => .ok a
  | .error f _ => .error f

theorem after_of_error (hact : act h = .error f h') : after act h = h' := by
  simp only [after, hact]

theorem after_congr {act' : Sys α} (hact : act h = act' h') : after act h = after act' h' := by
  rw [after, hact, after]

theorem result_congr {act' : Sys α} (hact : act h = act' h') : result act h = result act' h' := by
  rw [result, hact, result]

/-! ## Sequences -/

theorem bind_ok (hact : act h = .ok a h') : (act >>= next) h = next a h' := by
  simp only [bind, EStateM.bind, hact]

theorem bind_error (hact : act h = .error f h') : (act >>= next) h = .error f h' := by
  simp only [bind, EStateM.bind, hact]

theorem after_bind_ok (hact : act h = .ok a h') :
    after (act >>= next) h = after (next a) h' := after_congr (bind_ok hact)

theorem after_bind_error (hact : act h = .error f h') : after (act >>= next) h = h' :=
  after_of_error (bind_error hact)

theorem result_bind_ok (hact : act h = .ok a h') :
    result (act >>= next) h = result (next a) h' := result_congr (bind_ok hact)

theorem bind_eq_ok_iff {b : β} {h'' : Host} :
    (act >>= next) h = .ok b h'' ↔ ∃ a h', act h = .ok a h' ∧ next a h' = .ok b h'' := by
  constructor
  · intro hrun
    simp only [bind, EStateM.bind] at hrun
    split at hrun
    · next a h' hact => exact ⟨a, h', hact, hrun⟩
    · cases hrun
  · rintro ⟨a, h', hact, hnext⟩
    rw [bind_ok hact, hnext]

theorem pure_eq_ok_iff {b : α} : (pure a : Sys α) h = .ok b h' ↔ a = b ∧ h = h' := by
  constructor
  · intro hrun
    cases hrun
    exact ⟨rfl, rfl⟩
  · rintro ⟨rfl, rfl⟩
    rfl

theorem ofExcept_ok {r : Except Fault α} (hr : r = .ok a) (h : Host) :
    ofExcept r h = .ok a h := by
  rw [hr]
  rfl

theorem ofExcept_error {r : Except Fault α} (hr : r = .error f) (h : Host) :
    ofExcept r h = .error f h := by
  rw [hr]
  rfl

theorem ofExcept_eq_ok_iff {r : Except Fault α} :
    ofExcept r h = .ok a h' ↔ r = .ok a ∧ h = h' := by
  constructor
  · intro hrun
    cases r with
    | ok b =>
      cases hrun
      exact ⟨rfl, rfl⟩
    | error f => cases hrun
  · rintro ⟨hr, rfl⟩
    exact ofExcept_ok hr h

theorem onKernel_eq (act : Kernel → α × Kernel) (h : Host) :
    onKernel act h = .ok (act h.kernel).1 { h with kernel := (act h.kernel).2 } := rfl

theorem memory_eq (h : Host) : memory h = .ok h.kernel.memory h := rfl

theorem get_eq (h : Host) : (get : Sys Host) h = .ok h h := rfl

/-! ## Faults -/

variable {handler : Fault → Sys α}

theorem tryCatch_ok (hact : act h = .ok a h') : (tryCatch act handler : Sys α) h = .ok a h' := by
  change EStateM.tryCatch act handler h = _
  unfold EStateM.tryCatch
  rw [hact]

theorem tryCatch_error (hact : act h = .error f h') :
    (tryCatch act handler : Sys α) h = handler f h' := by
  change EStateM.tryCatch act handler h = _
  unfold EStateM.tryCatch
  rw [hact]
  rfl

/-- To clean up after a fault and to throw it again leads to no success. -/
theorem tryCatch_throw_eq_ok_iff {cleanup : Fault → Sys Unit} :
    (tryCatch act fun f => do cleanup f; throw f : Sys α) h = .ok a h' ↔ act h = .ok a h' := by
  cases hact : act h with
  | ok b h₁ => rw [tryCatch_ok hact]
  | error f h₁ =>
    rw [tryCatch_error hact]
    constructor
    · intro hrun
      obtain ⟨_, _, -, hthrow⟩ := bind_eq_ok_iff.mp hrun
      cases hthrow
    · intro hrun
      cases hrun

/-- An observed computation gives a value exactly if it succeeds. -/
theorem observing_eq_ok_iff :
    (observing act : Sys (Except Fault α)) h = .ok (.ok a) h' ↔ act h = .ok a h' := by
  cases hact : act h with
  | ok b h₁ =>
    have hrun : (observing act : Sys (Except Fault α)) h = .ok (.ok b) h₁ :=
      tryCatch_ok (bind_ok hact)
    rw [hrun]
    simp
  | error f h₁ =>
    have hrun : (observing act : Sys (Except Fault α)) h = .ok (.error f) h₁ :=
      tryCatch_error (bind_error hact)
    rw [hrun]
    simp

/-! ## Entering the kernel -/

theorem startEnter_admitted {call : EnterCall} (hadmits : h.kernel.admits call.fd = true) :
    startEnter call h = .ok ⟨call, h.calls.length⟩ h := by
  rw [startEnter, bind_ok (get_eq h), if_pos hadmits]
  rfl

theorem startEnter_refused {call : EnterCall} (hadmits : h.kernel.admits call.fd = false) :
    startEnter call h = .error (.enterFailed .badDescriptor)
      { h with calls := h.calls ++ [.enter call (CallResult.code (.error .badDescriptor))] } := by
  rw [startEnter, bind_ok (get_eq h), if_neg (by simp [hadmits])]
  rfl

theorem finishEnter_eq (running : RunningEnter) (h : Host) :
    finishEnter running h =
      returned .enterFailed (h.kernel.serve running.call.toSubmit).1
        { h with
          kernel := (h.kernel.serve running.call.toSubmit).2
          calls := h.calls.take running.before ++
            Call.enter running.call (h.kernel.serve running.call.toSubmit).1.code ::
              h.calls.drop running.before } := rfl

theorem after_returned (fault : Errno → Fault) (result : CallResult) (h : Host) :
    after (returned fault result) h = h := by
  cases result <;> rfl

theorem after_finishEnter (running : RunningEnter) (h : Host) :
    after (finishEnter running) h =
      { h with
        kernel := (h.kernel.serve running.call.toSubmit).2
        calls := h.calls.take running.before ++
          Call.enter running.call (h.kernel.serve running.call.toSubmit).1.code ::
            h.calls.drop running.before } := by
  rw [after, finishEnter_eq]
  exact after_returned _ _ _

theorem kernel_after_finishEnter (running : RunningEnter) (h : Host) :
    (after (finishEnter running) h).kernel = (h.kernel.serve running.call.toSubmit).2 := by
  rw [after_finishEnter]

theorem enter_admitted {call : EnterCall} (hadmits : h.kernel.admits call.fd = true) :
    enter call h = returned .enterFailed (h.kernel.serve call.toSubmit).1
      { h with kernel := (h.kernel.serve call.toSubmit).2
               calls := h.calls ++ [.enter call (h.kernel.serve call.toSubmit).1.code] } := by
  rw [enter, bind_ok (startEnter_admitted hadmits), finishEnter_eq]
  simp only [List.take_length, List.drop_length]

theorem after_enter_admitted {call : EnterCall} (hadmits : h.kernel.admits call.fd = true) :
    after (enter call) h =
      { h with kernel := (h.kernel.serve call.toSubmit).2
               calls := h.calls ++ [.enter call (h.kernel.serve call.toSubmit).1.code] } := by
  rw [after, enter_admitted hadmits]
  exact after_returned _ _ _

/-- An enter call is refused or served. -/
theorem kernel_after_enter (call : EnterCall) (h : Host) :
    (after (enter call) h).kernel = h.kernel ∨
      (after (enter call) h).kernel = (h.kernel.serve call.toSubmit).2 := by
  cases hadmits : h.kernel.admits call.fd with
  | true =>
    right
    rw [enter, after_bind_ok (startEnter_admitted hadmits), kernel_after_finishEnter]
  | false =>
    left
    rw [enter, after_bind_error (startEnter_refused hadmits)]

end Sys

/-! ## Registering -/

/-- A call to register changes only what is registered. -/
theorem Kernel.register_eq (k : Kernel) (fd : Int32) (op : UInt32) :
    ∃ registered registerScript,
      (k.register fd op).2 = { k with registered, registerScript } := by
  unfold register
  split
  · exact ⟨_, _, rfl⟩
  · split
    · exact ⟨_, _, rfl⟩
    · split
      · exact ⟨_, _, rfl⟩
      · split <;> exact ⟨_, _, rfl⟩
      · split <;> exact ⟨_, _, rfl⟩

namespace Sys

theorem register_eq (fd : Int32) (op : UInt32) (argument : RegisterArgument) (count : UInt32)
    (h : Host) :
    register fd op argument count h =
      returned (.registerFailed op) (h.kernel.register fd op).1
        { h with kernel := (h.kernel.register fd op).2
                 calls := h.calls ++ [.register fd op argument count
                   (h.kernel.register fd op).1.code] } := rfl

theorem after_register (fd : Int32) (op : UInt32) (argument : RegisterArgument) (count : UInt32)
    (h : Host) :
    after (register fd op argument count) h =
      { h with kernel := (h.kernel.register fd op).2
               calls := h.calls ++ [.register fd op argument count
                 (h.kernel.register fd op).1.code] } := by
  rw [after, register_eq]
  exact after_returned _ _ _

theorem kernel_after_register (fd : Int32) (op : UInt32) (argument : RegisterArgument)
    (count : UInt32) (h : Host) :
    (after (do let _ ← register fd op argument count; pure ()) h).kernel =
      (h.kernel.register fd op).2 := by
  have hregister := register_eq fd op argument count h
  cases hresult : (h.kernel.register fd op).1 with
  | ok n =>
    rw [hresult] at hregister
    rw [after_bind_ok hregister]
    rfl
  | error e =>
    rw [hresult] at hregister
    rw [after_bind_error hregister]

end Sys

end IoRing
