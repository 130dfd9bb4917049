import IoRing.Proofs.SharedRing.Steps

/-!
# When a pop gives slots back

A pop publishes the head only if it took a completion.  So a ring that was
shared while it kept the slots of completions taken before keeps them until a
pop finds a completion.  From then on no slot is kept (`pop_gives_back`).

This matters if the slots kept are all that the ring has.  Then the kernel can
post nothing, so no pop ever finds a completion, and the ring is stuck
(`pop_keeps_slots`).
-/

namespace IoRing

/-- The number of completions taken whose slots are kept. -/
def CompletionQueue.unpublished (q : CompletionQueue) (m : Memory) : UInt32 :=
  q.localHead - q.publishedHead m

namespace RingSite.Carries

variable {s : RingSite} {b : RingBody} {k : Kernel} {published deferred : List Entry}
  {kept waiting : List Completion}

/-- The slots kept are those between the mapped and the private head. -/
theorem toNat_unpublished (hc : s.Carries b k published deferred kept waiting) :
    (b.cq.unpublished k.memory).toNat = kept.length := by
  have hcount : (b.cq.localHead - s.completion.word k.memory .head).toNat = kept.length :=
    hc.completion.toNat_front
  rw [hc.cq_eq]
  exact hcount

/-- The head is published exactly if no slot is kept. -/
theorem publishedHead_eq_iff (hc : s.Carries b k published deferred kept waiting) :
    b.cq.publishedHead k.memory = b.cq.localHead ↔ kept = [] := by
  have hmiddle : b.cq.localHead = s.completion.word k.memory .head + UInt32.ofNat kept.length :=
    hc.completion.middle_eq
  have hhead : b.cq.publishedHead k.memory = s.completion.word k.memory .head := by
    rw [hc.cq_eq]
    rfl
  have hlt := Nat.lt_of_le_of_lt (Nat.le_add_right _ _) hc.completion.length_lt
  rw [hhead, hmiddle, add_ofNat_eq_self_iff _ hlt, List.length_eq_zero_iff]

end RingSite.Carries

/-! ## Operations of a shared ring -/

namespace SharedRing

variable {ring : Ring} {b : RingBody}

/-- Submitting takes the two steps of a submitter. -/
theorem submit_eq (hbody : ring.body? = some b) (want : UInt32) :
    submit ⟨some ring⟩ want = (⟨b.fd, ring.setupFlags, b.sq⟩ : Submitter).submit want none := by
  have hring : (⟨some ring⟩ : SharedRing).ring = .ok ring := rfl
  simp only [submit, prepare, startEnter, hring, Ring.submitter_eq hbody, Sys.ofExcept, pure_bind,
    Submitter.submit, Submitter.enter, Sys.enter]

theorem register_eq (hbody : ring.body? = some b) (t : Target) :
    register ⟨some ring⟩ t = (do let _ ← Sys.register b.fd t.op t.argument t.count; pure ()) := by
  have hring : (⟨some ring⟩ : SharedRing).ring = .ok ring := rfl
  simp only [register, hring, Ring.register, Ring.submitter_eq hbody, Sys.ofExcept, pure_bind,
    Submitter.register]

theorem unregister_eq (hbody : ring.body? = some b) (resource : Resource) :
    unregister ⟨some ring⟩ resource =
      (do let _ ← Sys.register b.fd resource.unregisterOp .none 0; pure ()) := by
  have hring : (⟨some ring⟩ : SharedRing).ring = .ok ring := rfl
  simp only [unregister, hring, Ring.unregister, Ring.submitter_eq hbody, Sys.ofExcept, pure_bind,
    Submitter.unregister]

end SharedRing

/-! ## Runs -/

/-- An operation of a shared ring, or the kernel posting. -/
inductive PopMove where
  /-- Push an entry. -/
  | push (e : Entry)
  /-- Take a completion. -/
  | pop
  /-- Submit and wait. -/
  | submit (want : UInt32)
  /-- Register a target. -/
  | register (t : Target)
  /-- Unregister a kind of resource. -/
  | unregister (resource : Resource)
  /-- Hand the ring back. -/
  | release
  /-- The kernel posts. -/
  | post (c : Completion)

/-- A shared ring on a host, and the completions that were popped. -/
structure PopTrace where
  shared : SharedRing
  host : Host
  popped : List Completion := []

namespace PopTrace

/-- Make a call that only matters to the host. -/
def call {α : Type} (r : PopTrace) (act : Sys α) : PopTrace :=
  { r with host := Sys.after act r.host }

/-- Make a move and record what came of it. -/
def move (r : PopTrace) : PopMove → PopTrace
  | .push e =>
      match r.shared.push e r.host with
      | .ok shared host => { r with shared, host }
      | .error _ host => { r with host }
  | .pop =>
      match r.shared.pop r.host with
      | .ok (c?, shared) host => { shared, host, popped := r.popped ++ c?.toList }
      | .error _ host => { r with host }
  | .submit want => r.call (r.shared.submit want)
  | .register t => r.call (r.shared.register t)
  | .unregister resource => r.call (r.shared.unregister resource)
  | .release =>
      match r.shared.release with
      | .ok (_, shared) => { r with shared }
      | .error _ => r
  | .post c => { r with host := { r.host with kernel := (r.host.kernel.post c).2 } }

/-- Make moves one after the other. -/
def run (r : PopTrace) (moves : List PopMove) : PopTrace := moves.foldl move r

/-- What the shared ring carries.  No slot is kept once a completion was popped. -/
structure Follows (r : PopTrace) (s : RingSite) (first : List Completion) (ring : Ring)
    (b : RingBody) (published deferred : List Entry) (kept waiting : List Completion) : Prop where
  shared_eq : r.shared = ⟨some ring⟩
  body_eq : ring.body? = some b
  carries : s.Carries b r.host.kernel published deferred kept waiting
  kept_eq : kept = if r.popped = [] then first else []

/-- The shared ring keeps what it should. -/
def Keeps (r : PopTrace) (s : RingSite) (first : List Completion) : Prop :=
  ∃ ring b published deferred kept waiting,
    r.Follows s first ring b published deferred kept waiting

variable {r : PopTrace} {s : RingSite} {first : List Completion} {ring : Ring} {b : RingBody}
  {published deferred : List Entry} {kept waiting : List Completion}

/-- A push does not change which slots are kept. -/
theorem Follows.push (hs : s.Sound)
    (hr : r.Follows s first ring b published deferred kept waiting) (e : Entry) :
    (r.move (.push e)).Keeps s first := by
  by_cases hroom : published.length + deferred.length < s.submission.entries.toNat
  · obtain ⟨q, m, hpush, hcarries, -⟩ := SharedRing.push_ok hs hr.body_eq hr.carries hroom e
    simp only [move, hr.shared_eq, hpush]
    exact ⟨_, _, _, _, _, _, rfl, Ring.body_withSubmission hr.body_eq q, hcarries, hr.kept_eq⟩
  · have hpush := SharedRing.push_full hr.body_eq hr.carries (Nat.le_of_not_lt hroom) e
    simp only [move, hr.shared_eq, hpush]
    exact ⟨_, _, _, _, _, _, rfl, hr.body_eq, hr.carries, hr.kept_eq⟩

/-- A pop that takes a completion gives all slots back, and any other keeps them. -/
theorem Follows.pop (hs : s.Sound)
    (hr : r.Follows s first ring b published deferred kept waiting) :
    (r.move .pop).Keeps s first := by
  obtain ⟨q, m, hpop, hcarries, -⟩ := SharedRing.pop_ok hs hr.body_eq hr.carries
  simp only [move, hr.shared_eq, hpop]
  refine ⟨_, _, _, _, _, _, rfl, Ring.body_withCompletion hr.body_eq q, hcarries, ?_⟩
  cases waiting with
  | nil => simpa using hr.kept_eq
  | cons c waiting => simp

/-- A call keeps everything if the kernel only takes entries during it. -/
theorem Follows.call {α : Type} {act : Sys α} {taken published' deferred' : List Entry}
    (hr : r.Follows s first ring b published deferred kept waiting)
    (htook : s.Took b r.host.kernel (Sys.after act r.host).kernel published deferred kept waiting
      taken published' deferred') : (r.call act).Keeps s first :=
  ⟨ring, b, _, _, _, _, hr.shared_eq, hr.body_eq, htook.carries, hr.kept_eq⟩

/-- While a ring is submitted to, the kernel may take entries. -/
theorem Follows.submit (hs : s.Sound)
    (hr : r.Follows s first ring b published deferred kept waiting) (want : UInt32) :
    (r.move (.submit want)).Keeps s first := by
  obtain ⟨taken, published', deferred', -, htook⟩ :=
    hr.carries.took_submit hs b.fd ring.setupFlags want none
  simp only [move, hr.shared_eq, SharedRing.submit_eq hr.body_eq]
  exact hr.call htook

/-- Registering or unregistering does nothing to the ring. -/
theorem Follows.registered (hr : r.Follows s first ring b published deferred kept waiting)
    (fd : Int32) (op : UInt32) (argument : RegisterArgument) (count : UInt32) :
    (r.call (do let _ ← Sys.register fd op argument count; pure ())).Keeps s first := by
  obtain ⟨registered, registerScript, hkernel⟩ := r.host.kernel.register_eq fd op
  have hafter := (Sys.kernel_after_register fd op argument count r.host).trans hkernel
  refine hr.call (hr.carries.took_congr ?_ ?_ fun area => ?_)
  · rw [hafter]
  · rw [hafter]
  · rw [hafter]
    cases area <;> rfl

/-- A completion that the kernel posts has to be popped. -/
theorem Follows.post (hs : s.Sound)
    (hr : r.Follows s first ring b published deferred kept waiting) (c : Completion) :
    (r.move (.post c)).Keeps s first :=
  ⟨ring, b, _, _, _, _, hr.shared_eq, hr.body_eq, (hr.carries.post_eq hs c).2, hr.kept_eq⟩

/-- A move other than to hand the ring back keeps the record. -/
theorem Keeps.move (hs : s.Sound) (hr : r.Keeps s first) {move : PopMove}
    (hopen : move ≠ .release) : (r.move move).Keeps s first := by
  obtain ⟨ring, b, published, deferred, kept, waiting, hr⟩ := hr
  cases move with
  | push e => exact hr.push hs e
  | pop => exact hr.pop hs
  | submit want => exact hr.submit hs want
  | register t =>
    simp only [PopTrace.move, hr.shared_eq, SharedRing.register_eq hr.body_eq]
    exact hr.registered _ _ _ _
  | unregister resource =>
    simp only [PopTrace.move, hr.shared_eq, SharedRing.unregister_eq hr.body_eq]
    exact hr.registered _ _ _ _
  | release => exact absurd rfl hopen
  | post c => exact hr.post hs c

/-- Without a release, the slots kept at first are kept until a completion is
popped. -/
theorem Keeps.run (hs : s.Sound) (hr : r.Keeps s first) {moves : List PopMove}
    (hopen : .release ∉ moves) : (r.run moves).Keeps s first :=
  List.foldlRecOn (motive := (Keeps · s first)) moves _ hr fun _ hr _ hmove =>
    hr.move hs fun hrelease => hopen (hrelease ▸ hmove)

theorem move_release (r : PopTrace) : (r.move .release).shared = ⟨none⟩ := by
  obtain ⟨⟨ring?⟩, host, popped⟩ := r
  cases ring? <;> rfl

/-- Nothing brings a released ring back. -/
theorem move_released (hr : r.shared = ⟨none⟩) (move : PopMove) :
    (r.move move).shared = ⟨none⟩ := by
  obtain ⟨shared, host, popped⟩ := r
  cases hr
  cases move <;> rfl

/-- A ring that was handed back is gone. -/
theorem run_released (r : PopTrace) {moves : List PopMove} (hrelease : .release ∈ moves) :
    (r.run moves).shared = ⟨none⟩ := by
  obtain ⟨before, after, rfl⟩ := List.append_of_mem hrelease
  rw [run, List.foldl_append, List.foldl_cons]
  exact List.foldlRecOn (motive := fun r : PopTrace => r.shared = ⟨none⟩) after _ (move_release _)
    fun _ hr move _ => move_released hr move

end PopTrace

namespace RingSite

variable {s : RingSite} {ring : Ring} {b : RingBody} {h : Host}
  {published deferred : List Entry} {kept waiting : List Completion}

/-- **When a pop gives slots back.**  Share an open ring in any state, make any
moves, and pop.  If some move handed the ring back, the ring is gone.  Else the pop
gives a completion or none.  If none was ever popped, the slots kept are those kept
when the ring was shared, and else there are none.  The kernel takes a completion
exactly if those kept and those that wait leave a slot free.  So once a completion
was popped, or if no slot was kept at the start, it refuses one only if all slots
wait. -/
theorem pop_gives_back (hs : s.Sound) (hbody : ring.body? = some b)
    (hc : s.Carries b h.kernel published deferred kept waiting) (moves : List PopMove) :
    let r := PopTrace.run { shared := ⟨some ring⟩, host := h } moves
    (.release ∈ moves → r.shared = ⟨none⟩) ∧
    (.release ∉ moves → ∃ c? ring' b' h', r.shared.pop r.host = .ok (c?, ⟨some ring'⟩) h' ∧
      ring'.body? = some b' ∧
      b'.cq.unpublished h'.kernel.memory =
        (if r.popped ++ c?.toList = [] then b.cq.unpublished h.kernel.memory else 0) ∧
      (b'.cq.publishedHead h'.kernel.memory = b'.cq.localHead ↔
        r.popped ++ c?.toList ≠ [] ∨ b.cq.publishedHead h.kernel.memory = b.cq.localHead) ∧
      ∀ c, (h'.kernel.post c).1 = decide ((b'.cq.unpublished h'.kernel.memory).toNat +
        (b'.cq.len h'.kernel.memory).toNat < s.cqEntries.toNat)) := by
  intro r
  refine ⟨PopTrace.run_released _, fun hopen => ?_⟩
  have hstart : PopTrace.Keeps { shared := ⟨some ring⟩, host := h } s kept :=
    ⟨ring, b, published, deferred, kept, waiting, rfl, hbody, hc, rfl⟩
  have hr : r.Keeps s kept := hstart.run hs hopen
  obtain ⟨ring', b', published', deferred', kept', waiting', hr⟩ := hr
  obtain ⟨q, m, hpop, hcarries, -⟩ := SharedRing.pop_ok hs hr.body_eq hr.carries
  have hkept : (if waiting' = [] then kept' else []) =
      if r.popped ++ waiting'.head?.toList = [] then kept else [] := by
    cases waiting' with
    | nil => simpa using hr.kept_eq
    | cons c waiting' => simp
  rw [hkept] at hcarries
  obtain ⟨-, -, -, -, hlen, -⟩ := hcarries.seen hs
  refine ⟨waiting'.head?, ring'.withCompletion q, { b' with cq := q }, r.host.withMemory m, ?_,
    Ring.body_withCompletion hr.body_eq q, ?_, ?_, fun c => ?_⟩
  · rw [hr.shared_eq]
    exact hpop
  · refine UInt32.toNat_inj.mp (hcarries.toNat_unpublished.trans ?_)
    split
    · exact hc.toNat_unpublished.symm
    · rfl
  · refine hcarries.publishedHead_eq_iff.trans ?_
    rw [hc.publishedHead_eq_iff]
    split
    · next hnone => simp [hnone]
    · next hsome => simp [hsome]
  · exact (hcarries.post_eq hs c).1.trans (by rw [← hlen, ← hcarries.toNat_unpublished]; rfl)

/-- The host after the kernel filled the completion ring of the small ring. -/
def filledHost : Host := Sys.after
  (do
    let _ ← Sys.onKernel (·.post ⟨7, 0, 0⟩)
    Sys.onKernel (·.post ⟨8, 0, 0⟩)) smallHost

/-- The small ring after both completions were taken from it. -/
def drainedRing : Ring := smallRing.withCompletion (small.completion.queue 1)

/-- The drained ring keeps the slots of both completions. -/
theorem carries_drained : ∃ b, drainedRing.body? = some b ∧
    small.Carries b filledHost.kernel [] [] [⟨7, 0, 0⟩, ⟨8, 0, 0⟩] [] := by
  obtain ⟨b, hbody, hc, -⟩ := Carries.ofOpened opened_small
  cases hbody
  obtain ⟨hfits, hc⟩ := hc.post_eq sound_small ⟨7, 0, 0⟩
  rw [hfits] at hc
  obtain ⟨hfits, hc⟩ := hc.post_eq sound_small ⟨8, 0, 0⟩
  rw [hfits] at hc
  exact ⟨_, rfl, hc.sq_eq, rfl, hc.serves, hc.submission, hc.completion.take 2⟩

/-- On the drained ring nothing is popped, so no slot is given back. -/
theorem pop_gives_back_small :
    let moves : List PopMove := [.post ⟨9, 0, 0⟩, .pop, .push (.make 0 0 10), .submit 0]
    let r := PopTrace.run { shared := ⟨some drainedRing⟩, host := filledHost } moves
    small.Sound ∧ ∃ b, drainedRing.body? = some b ∧
      small.Carries b filledHost.kernel [] [] [⟨7, 0, 0⟩, ⟨8, 0, 0⟩] [] ∧
      b.cq.unpublished filledHost.kernel.memory = 2 ∧ .release ∉ moves ∧ r.popped = [] ∧
      ∃ c? ring b' h', r.shared.pop r.host = .ok (c?, ⟨some ring⟩) h' ∧
        ring.body? = some b' ∧
        b'.cq.unpublished h'.kernel.memory =
          (if r.popped ++ c?.toList = [] then b.cq.unpublished filledHost.kernel.memory else 0) ∧
        (b'.cq.publishedHead h'.kernel.memory = b'.cq.localHead ↔
          r.popped ++ c?.toList ≠ [] ∨
            b.cq.publishedHead filledHost.kernel.memory = b.cq.localHead) ∧
        ∀ c, (h'.kernel.post c).1 = decide ((b'.cq.unpublished h'.kernel.memory).toNat +
          (b'.cq.len h'.kernel.memory).toNat < small.cqEntries.toNat) := by
  intro moves r
  have hopen : .release ∉ moves := by simp [moves]
  obtain ⟨b, hbody, hc⟩ := carries_drained
  exact ⟨sound_small, b, hbody, hc, UInt32.toNat_inj.mp hc.toNat_unpublished, hopen,
    by decide +kernel, (pop_gives_back sound_small hbody hc moves).2 hopen⟩

/-- **A pop may leave the ring stuck.**  The kernel fills the completion ring,
both completions are taken, and the ring is shared.  A pop finds no completion
and leaves the head where it was.  The kernel finds no free slot, although no
completion waits. -/
theorem pop_keeps_slots :
    (small.completion.queue 0xFFFFFFFF).drain filledHost.kernel.memory 2 =
        ([⟨7, 0, 0⟩, ⟨8, 0, 0⟩], small.completion.queue 1) ∧
      SharedRing.ofRing? (some drainedRing) = .ok ⟨some drainedRing⟩ ∧
      SharedRing.pop ⟨some drainedRing⟩ filledHost =
        .ok (none, ⟨some drainedRing⟩) filledHost ∧
      (small.completion.queue 1).publishedHead filledHost.kernel.memory ≠ 1 ∧
      (small.completion.queue 1).len filledHost.kernel.memory = 0 ∧
      (filledHost.kernel.post ⟨9, 0, 0⟩).1 = false := by
  refine ⟨by decide +kernel, rfl, ?_, by decide +kernel, by decide +kernel, by decide +kernel⟩
  have hnone : (small.completion.queue 1).next? filledHost.kernel.memory = none := by
    decide +kernel
  have hnext : (small.completion.queue 1).next filledHost =
      .ok (none, small.completion.queue 1) filledHost := by
    rw [CompletionQueue.next, Sys.bind_ok (Sys.memory_eq _), hnone]
    rfl
  have hfind : Sys.ofExcept drainedRing.completion filledHost =
      .ok (small.completion.queue 1) filledHost := rfl
  rw [SharedRing.pop, Sys.bind_ok (SharedRing.ring_some _ _), Sys.bind_ok hfind, Sys.bind_ok hnext]
  rfl

end RingSite

end IoRing
