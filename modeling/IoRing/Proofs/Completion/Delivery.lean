import IoRing.Proofs.Completion.Contents

/-!
# A completion ring delivers what was posted

A run over a completion ring is a list of moves: steps of the process on its
queue, and the kernel posting.  `CompletionTrace` records beside the queue and
the host what was posted, what the process was given, and what it had been given
when it last published its head.

`run_delivery` says that, from an empty ring at any counter, the completions
given out and then those still to be read are the posted ones in order, at the
end of every run.  Those given out since the process last published lie intact
in their slots.  The kernel refuses a completion exactly if all slots are in
use, and then it only counts it.
-/

namespace IoRing

/-- The queue of a reader that starts over at the published head. -/
def CompletionQueue.restarted (q : CompletionQueue) (m : Memory) : CompletionQueue :=
  { q with localHead := q.publishedHead m }

/-- A move on a completion ring. -/
inductive CompletionMove where
  /-- The process takes a step on its queue. -/
  | step (step : CompletionStep)
  /-- The kernel posts. -/
  | post (c : Completion)

/-- A completion queue on a host, and what happened to it so far. -/
structure CompletionTrace where
  queue : CompletionQueue
  host : Host
  /-- The completions that the kernel posted with room for them, in order. -/
  posted : List Completion := []
  /-- Those that the process was given. -/
  returned : List Completion := []
  /-- Those it had been given when it last published. -/
  released : List Completion := []

namespace CompletionTrace

/-- Make a move and record what came of it. -/
def move (r : CompletionTrace) : CompletionMove → CompletionTrace
  | .step step =>
      match step.perform r.queue r.host with
      | .ok (reply, queue) host =>
          let returned := r.returned ++ reply.taken
          { r with queue, host, returned,
                   released := if step.publishes then returned else r.released }
      | .error _ host => { r with host }
  | .post c =>
      let (fits, kernel) := r.host.kernel.post c
      { r with host := { r.host with kernel }
               posted := if fits then r.posted ++ [c] else r.posted }

/-- Make moves one after the other. -/
def run (r : CompletionTrace) (moves : List CompletionMove) : CompletionTrace :=
  moves.foldl move r

/-- The record agrees with what the ring carries. -/
def Follows (r : CompletionTrace) (s : CompletionSite) : Prop :=
  ∃ t kept waiting, r.queue = s.queue t ∧ r.host.kernel.ServesCompletion s ∧
    s.Carries r.host.kernel.memory t kept waiting ∧
    r.returned = r.released ++ kept ∧ r.posted = r.returned ++ waiting

/-- The ring delivers what was posted. -/
structure Delivers (r : CompletionTrace) (s : CompletionSite) : Prop where
  /-- The completions given out and those still to be read are the posted ones, in
  order. -/
  posted_eq : r.returned ++ r.queue.readable r.host.kernel.memory = r.posted
  /-- The next one given out is the first of those to be read. -/
  next_eq : ∃ q', r.queue.next r.host =
      .ok ((r.queue.readable r.host.kernel.memory).head?, q') r.host ∧
    q'.readable r.host.kernel.memory = (r.queue.readable r.host.kernel.memory).tail
  /-- The length counts those to be read. -/
  length_readable : (r.queue.readable r.host.kernel.memory).length =
    (r.queue.len r.host.kernel.memory).toNat
  /-- A reader that starts over at the published head finds all that were not
  released, so none was overwritten. -/
  restarted_eq :
    r.released ++ (r.queue.restarted r.host.kernel.memory).readable r.host.kernel.memory = r.posted
  /-- The published head, the private head and the tail stand in this order. -/
  distance_eq :
    (r.queue.localHead - r.queue.publishedHead r.host.kernel.memory).toNat +
        (r.queue.len r.host.kernel.memory).toNat =
      (r.queue.tail r.host.kernel.memory - r.queue.publishedHead r.host.kernel.memory).toNat
  /-- They are at most a ring size apart. -/
  distance_le :
    r.queue.tail r.host.kernel.memory - r.queue.publishedHead r.host.kernel.memory ≤ s.entries
  /-- The kernel refuses a completion exactly if they are a ring size apart, and then
  it only counts it and notes it. -/
  post_eq (c : Completion) :
    if r.queue.tail r.host.kernel.memory - r.queue.publishedHead r.host.kernel.memory =
        s.entries then
      ∃ m, r.host.kernel.post c = (false, r.host.kernel.withMemory m) ∧
        SameOutside ([.overflow, .flags].map s.place) r.host.kernel.memory m ∧
        s.word m .overflow = s.word r.host.kernel.memory .overflow + 1 ∧
        s.word m .flags = s.word r.host.kernel.memory .flags ||| RingFlag.cqOverflow
    else (r.host.kernel.post c).1 = true

variable {r : CompletionTrace} {s : CompletionSite}

/-- A step hands over the oldest completions that wait. -/
theorem Follows.step (hs : s.Sound) (hr : r.Follows s) (step : CompletionStep) :
    (r.move (.step step)).Follows s := by
  obtain ⟨queue, host, posted, returned, released⟩ := r
  obtain ⟨t, kept, waiting, hqueue, hserves, hc, hreturned, hposted⟩ := hr
  simp only at hqueue hserves hc hreturned hposted
  subst hqueue
  obtain ⟨reply, t', m', hperform, htaken, -, hc'⟩ := hc.perform_ok hs step
  simp only [move, hperform, htaken]
  refine ⟨t', _, _, rfl, hserves.withMemory m', hc', ?_, ?_⟩
  · simp only
    split
    · rw [List.append_nil]
    · rw [hreturned, List.append_assoc]
  · simp only
    rw [hposted, List.append_assoc, List.take_append_drop]

/-- A completion that the kernel posts comes last, or it is counted as lost. -/
theorem Follows.post (hs : s.Sound) (hr : r.Follows s) (c : Completion) :
    (r.move (.post c)).Follows s := by
  obtain ⟨t, kept, waiting, hqueue, hserves, hc, hreturned, hposted⟩ := hr
  by_cases hroom : kept.length + waiting.length < s.entries.toNat
  · simp only [move, hc.post_room hs hserves hroom c]
    refine ⟨t, kept, waiting ++ [c], hqueue, hserves.withMemory _, hc.posted hs hroom c,
      hreturned, ?_⟩
    simp only [if_true]
    rw [hposted, List.append_assoc]
  · simp only [move, hc.post_full hs hserves (Nat.le_of_not_lt hroom) c]
    exact ⟨t, kept, waiting, hqueue, hserves.withMemory _, hc.overflowed hs, hreturned, hposted⟩

/-- Every move keeps the record. -/
theorem Follows.move (hs : s.Sound) (hr : r.Follows s) (move : CompletionMove) :
    (r.move move).Follows s := by
  cases move with
  | step step => exact hr.step hs step
  | post c => exact hr.post hs c

/-- The record is right after any moves. -/
theorem Follows.run (hs : s.Sound) (hr : r.Follows s) (moves : List CompletionMove) :
    (r.run moves).Follows s :=
  List.foldlRecOn (motive := (Follows · s)) moves _ hr fun _ hr move _ => hr.move hs move

/-- What the process was given and what it can still read are the posted
completions, also for a reader that starts over at the published head. -/
theorem Follows.posted_eq (hr : r.Follows s) :
    r.returned ++ r.queue.readable r.host.kernel.memory = r.posted ∧
      r.released ++ (r.queue.restarted r.host.kernel.memory).readable r.host.kernel.memory =
        r.posted := by
  obtain ⟨t, kept, waiting, hqueue, -, hc, hreturned, hposted⟩ := hr
  have hrestarted : (s.queue t).restarted r.host.kernel.memory =
      s.queue (s.word r.host.kernel.memory .head) := rfl
  rw [hqueue, hc.readable_eq, hrestarted, hc.restart.readable_eq, hposted, hreturned]
  exact ⟨rfl, (List.append_assoc ..).symm⟩

/-- The length counts what can still be read. -/
theorem Follows.length_readable (hr : r.Follows s) :
    (r.queue.readable r.host.kernel.memory).length =
      (r.queue.len r.host.kernel.memory).toNat := by
  obtain ⟨t, kept, waiting, hqueue, -, hc, -, -⟩ := hr
  rw [hqueue, hc.readable_eq, hc.toNat_len]

/-- The counters stand in order, and they are no more than a ring size apart. -/
theorem Follows.distance_eq (hr : r.Follows s) :
    (r.queue.localHead - r.queue.publishedHead r.host.kernel.memory).toNat +
        (r.queue.len r.host.kernel.memory).toNat =
      (r.queue.tail r.host.kernel.memory - r.queue.publishedHead r.host.kernel.memory).toNat ∧
    r.queue.tail r.host.kernel.memory - r.queue.publishedHead r.host.kernel.memory ≤
      s.entries := by
  obtain ⟨t, kept, waiting, hqueue, -, hc, -, -⟩ := hr
  have hfront : ((s.queue t).localHead - (s.queue t).publishedHead r.host.kernel.memory).toNat =
      kept.length := hc.toNat_front
  have hall : ((s.queue t).tail r.host.kernel.memory -
      (s.queue t).publishedHead r.host.kernel.memory).toNat = kept.length + waiting.length :=
    hc.toNat_all
  rw [hqueue, UInt32.le_iff_toNat_le, hfront, hall, hc.toNat_len]
  exact ⟨rfl, hc.length_le⟩

/-- The kernel refuses a completion exactly if all slots are in use.  Then it
counts it, notes it in the flags, and changes nothing else. -/
theorem Follows.post_eq (hs : s.Sound) (hr : r.Follows s) (c : Completion) :
    if r.queue.tail r.host.kernel.memory - r.queue.publishedHead r.host.kernel.memory =
        s.entries then
      ∃ m, r.host.kernel.post c = (false, r.host.kernel.withMemory m) ∧
        SameOutside ([.overflow, .flags].map s.place) r.host.kernel.memory m ∧
        s.word m .overflow = s.word r.host.kernel.memory .overflow + 1 ∧
        s.word m .flags = s.word r.host.kernel.memory .flags ||| RingFlag.cqOverflow
    else (r.host.kernel.post c).1 = true := by
  obtain ⟨t, kept, waiting, hqueue, hserves, hc, -, -⟩ := hr
  have hall : ((s.queue t).tail r.host.kernel.memory -
      (s.queue t).publishedHead r.host.kernel.memory).toNat = kept.length + waiting.length :=
    hc.toNat_all
  rw [hqueue]
  split
  · next hfull =>
    rw [hfull] at hall
    exact ⟨_, hc.post_full hs hserves (Nat.le_of_eq hall) c,
      s.sameOutside_overflowed _, hs.overflow_overflowed _, s.flags_overflowed _⟩
  · next hne =>
    have hne' : kept.length + waiting.length ≠ s.entries.toNat :=
      fun heq => hne (UInt32.toNat_inj.mp (hall.trans heq))
    rw [hc.post_room hs hserves (Nat.lt_of_le_of_ne hc.length_le hne')]

/-- A record that agrees with the ring is that of a ring which delivers. -/
theorem Follows.delivers (hs : s.Sound) (hr : r.Follows s) : r.Delivers s where
  posted_eq := hr.posted_eq.1
  next_eq := r.queue.next_readable r.host
  length_readable := hr.length_readable
  restarted_eq := hr.posted_eq.2
  distance_eq := hr.distance_eq.1
  distance_le := hr.distance_eq.2
  post_eq := hr.post_eq hs

end CompletionTrace

namespace CompletionSite

variable {s : CompletionSite} {h : Host}

/-- **A completion ring delivers what was posted, once and in order.**  Attach to
an empty ring at any counter and make any moves.  Then the completions given out
and those still to be read are the posted ones in order, and the next one given
out is the first of those to be read.  A reader that starts over at the published
head finds all that were not released, so none was overwritten.  The published
head, the private head and the tail stand in this order and at most a ring size
apart.  The kernel refuses a completion exactly if they are a ring size apart, and
then it only counts it and notes it. -/
theorem run_delivery (hs : s.Sound) (hk : h.kernel.ServesCompletion s)
    (hm : s.Formatted h.kernel.memory)
    (hempty : s.word h.kernel.memory .tail = s.word h.kernel.memory .head) :
    ∃ q, CompletionQueue.attach ⟨some s.ring⟩ s.offsets h.kernel.memory = .ok q ∧
      ∀ moves : List CompletionMove,
        (CompletionTrace.run { queue := q, host := h } moves).Delivers s := by
  refine ⟨_, hs.attach_eq hm, fun moves => ?_⟩
  have hstart : CompletionTrace.Follows
      { queue := s.queue (s.word h.kernel.memory .head), host := h } s :=
    ⟨_, [], [], rfl, hk, .nil hm hempty, rfl, rfl⟩
  exact (hstart.run hs moves).delivers hs

/-- A ring of two slots. -/
def small : CompletionSite where
  ring := ⟨1, 56⟩
  offsets := ⟨0, 4, 8, 12, 16, 24⟩
  entries := 2
  sqRing := ⟨1, 56⟩
  flagsOffset := 20

theorem sound_small : small.Sound where
  isRingSize := ⟨1, rfl⟩
  fits f := by cases f <;> decide
  apart f g hne := by cases f <;> cases g <;> first | exact absurd rfl hne | decide

/-- A host with the small ring, both counters one step before they wrap. -/
def smallHost : Host := .ofKernel
  { config := {}
    granted := { cqEntries := 2, cqOffsets := small.offsets, sqOffsets := { flags := 20 } }
    sharedRings := true
    sqRing? := some small.ring
    memory := Memory.zero.setWords 1 0 [0xFFFFFFFF, 0xFFFFFFFF, 1, 2] }

/-- The small ring delivers what was posted, also past the wrap. -/
theorem run_delivery_small :
    small.Sound ∧ smallHost.kernel.ServesCompletion small ∧
      small.Formatted smallHost.kernel.memory ∧
      small.word smallHost.kernel.memory .tail = small.word smallHost.kernel.memory .head ∧
      ∃ q, CompletionQueue.attach ⟨some small.ring⟩ small.offsets smallHost.kernel.memory =
          .ok q ∧
        ∀ moves : List CompletionMove,
          (CompletionTrace.run { queue := q, host := smallHost } moves).Delivers small := by
  have hk : smallHost.kernel.ServesCompletion small := ⟨rfl, rfl, rfl, rfl, rfl⟩
  have hm : small.Formatted smallHost.kernel.memory := ⟨by decide +kernel, by decide +kernel⟩
  have hempty : small.word smallHost.kernel.memory .tail =
      small.word smallHost.kernel.memory .head := by decide +kernel
  exact ⟨sound_small, hk, hm, hempty, run_delivery sound_small hk hm hempty⟩

end CompletionSite

end IoRing
