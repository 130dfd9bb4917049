import IoRing.Proofs.Completion.Site
import IoRing.Proofs.Running
import IoRing.Session.QueueStep

/-!
# What a completion ring carries

`Carries` is the invariant of a completion ring.  Between the published and the
private head lie the completions that were taken and whose slots are kept, and
between the private head and the tail those that wait.

Taking moves the private head.  Publishing gives up the slots of all completions
taken.  The kernel posts into the slot of the tail if a slot is free
(`Carries.post_room`), and else it counts an overflow (`Carries.post_full`).
-/

namespace IoRing

namespace CompletionQueue

variable (q : CompletionQueue) {m : Memory}

/-- The completions that are still to be read. -/
def readable (m : Memory) : List Completion := (q.drain m (q.len m).toNat).1

/-- Taking one completion on a host. -/
theorem next_eq (h : Host) :
    q.next h = .ok ((q.next? h.kernel.memory).map (·.1),
      ((q.next? h.kernel.memory).map (·.2)).getD q) h := by
  rw [next, Sys.bind_ok (Sys.memory_eq h)]
  cases q.next? h.kernel.memory <;> rfl

variable {q}

theorem readable_nil (hnext : q.next? m = none) : q.readable m = [] := by
  rw [readable]
  cases (q.len m).toNat with
  | zero => rfl
  | succ limit => rw [drain, hnext]

/-- What is readable starts with the completion that is taken next. -/
theorem readable_cons {q' : CompletionQueue} {c : Completion} (hnext : q.next? m = some (c, q')) :
    q.readable m = c :: q'.readable m := by
  have hne : q.localHead ≠ q.tail m := by
    intro hempty
    rw [next?_eq_none hempty] at hnext
    cases hnext
  have hlen : (q.len m).toNat = (q'.len m).toNat + 1 := by
    rw [queue_of_next? hnext]
    exact toNat_sub_succ hne
  rw [readable, readable, hlen, drain, hnext]

variable (q)

/-- `next` gives the first completion that is readable, if there is one, and the
others stay readable. -/
theorem next_readable (h : Host) :
    ∃ q', q.next h = .ok ((q.readable h.kernel.memory).head?, q') h ∧
      q'.readable h.kernel.memory = (q.readable h.kernel.memory).tail := by
  rw [q.next_eq h]
  cases hnext : q.next? h.kernel.memory with
  | none =>
    rw [readable_nil hnext]
    exact ⟨q, rfl, readable_nil hnext⟩
  | some taken =>
    rw [readable_cons hnext]
    exact ⟨taken.2, rfl, rfl⟩

end CompletionQueue

namespace CompletionSite

/-- The ring holds the completions taken and kept, and after them those that
wait. -/
structure Carries (s : CompletionSite) (m : Memory) (localHead : UInt32)
    (kept waiting : List Completion) : Prop
    extends Row (s.cell m) s.entries (s.word m .head) localHead (s.word m .tail) kept waiting where
  formatted : s.Formatted m

variable {s : CompletionSite} {m m' : Memory} {t : UInt32} {kept waiting : List Completion}

namespace Carries

theorem nil (hm : s.Formatted m) (hempty : s.word m .tail = s.word m .head) :
    s.Carries m (s.word m .head) [] [] where
  toRow := hempty ▸ .nil
  formatted := hm

/-- The length is the number of completions that wait. -/
theorem toNat_len (h : s.Carries m t kept waiting) :
    ((s.queue t).len m).toNat = waiting.length := h.toNat_back

/-- A reader that starts over at the published head finds all completions. -/
theorem restart (h : s.Carries m t kept waiting) :
    s.Carries m (s.word m .head) [] (kept ++ waiting) := ⟨h.rewound, h.formatted⟩

/-- The overflow count and the flags do not matter. -/
theorem congr (hs : s.Sound) (h : s.Carries m t kept waiting)
    (hsame : ∀ f, f ≠ .overflow → f ≠ .flags → SameAt (s.place f) m m') :
    s.Carries m' t kept waiting := by
  have hhead : s.word m' .head = s.word m .head :=
    Fields.word_congr rfl (hsame .head (by decide) (by decide))
  have htail : s.word m' .tail = s.word m .tail :=
    Fields.word_congr rfl (hsame .tail (by decide) (by decide))
  constructor
  case formatted =>
    exact h.formatted.congr (hsame .ringEntries (by decide) (by decide))
      (hsame .ringMask (by decide) (by decide))
  case toRow =>
    rw [hhead, htail]
    exact h.toRow.congr fun i _ => hs.cell_congr (hsame .cqes (by decide) (by decide)) _

/-! ## Taking -/

/-- Where none waits, none is next. -/
theorem next?_nil (h : s.Carries m t kept []) : (s.queue t).next? m = none := by
  have htail : s.word m .tail = t := by simpa using h.last_eq
  exact CompletionQueue.next?_eq_none htail.symm

/-- The oldest that waits is next, and the private head moves on by one. -/
theorem next?_cons {c : Completion} (h : s.Carries m t kept (c :: waiting)) :
    (s.queue t).next? m = some (c, s.queue (t + 1)) := by
  have hne : ¬ (s.queue t).localHead = (s.queue t).tail m := by
    have htail : (s.queue t).tail m = t + UInt32.ofNat (c :: waiting).length := h.last_eq
    have hlt := h.length_lt
    rw [htail]
    exact (add_ofNat_eq_self_iff t (by omega)).not.mpr (Nat.succ_ne_zero _)
  have hload : s.completionAt m t = c := Option.some.inj (CellsHold.cons_iff.mp h.held_back).1
  rw [CompletionQueue.next?_eq_some hne, ← hload]
  rfl

/-- Taking moves completions from those that wait to those kept. -/
theorem take (h : s.Carries m t kept waiting) (n : Nat) :
    s.Carries m (t + UInt32.ofNat (waiting.take n).length) (kept ++ waiting.take n)
      (waiting.drop n) := ⟨h.advance n, h.formatted⟩

/-- Draining takes the oldest completions in order, up to its limit. -/
theorem drain_eq (h : s.Carries m t kept waiting) (limit : Nat) :
    (s.queue t).drain m limit =
      (waiting.take limit, s.queue (t + UInt32.ofNat (waiting.take limit).length)) := by
  induction limit generalizing t kept waiting with
  | zero => simp [CompletionQueue.drain]
  | succ limit ih =>
    cases waiting with
    | nil => simp [CompletionQueue.drain, h.next?_nil]
    | cons c waiting =>
      have hrest : s.Carries m (t + 1) (kept ++ [c]) waiting := h.take 1
      have hcount (n : Nat) : t + UInt32.ofNat (n + 1) = t + 1 + UInt32.ofNat n := by
        rw [Nat.add_comm, add_ofNat_add]
        rfl
      simp only [CompletionQueue.drain, h.next?_cons, ih hrest, List.take_succ_cons,
        List.length_cons, hcount]

/-- Draining as many completions as there are gives those that wait. -/
theorem readable_eq (h : s.Carries m t kept waiting) : (s.queue t).readable m = waiting := by
  rw [CompletionQueue.readable, h.toNat_len, h.drain_eq, List.take_length]

/-! ## Publishing -/

/-- To publish changes the mapped head only. -/
theorem sameOutside_publish (s : CompletionSite) (m : Memory) (t : UInt32) :
    SameOutside ([.head].map s.place) m ((s.queue t).publish m) :=
  Fields.sameOutside_setWord rfl m t

/-- Publishing gives up the slots of the completions taken. -/
theorem publish (hs : s.Sound) (h : s.Carries m t kept waiting) :
    s.Carries ((s.queue t).publish m) t [] waiting := by
  have hsame := sameOutside_publish s m t
  have hhead : s.word ((s.queue t).publish m) .head = t := Memory.word_setWord ..
  have htail : s.word ((s.queue t).publish m) .tail = s.word m .tail :=
    hs.word_eq hsame (by decide) rfl
  constructor
  case formatted =>
    exact h.formatted.congr (hs.sameAt hsame (by decide)) (hs.sameAt hsame (by decide))
  case toRow =>
    rw [hhead, htail]
    exact h.dropAll.congr fun i _ => hs.cell_congr (hs.sameAt hsame (by decide)) _

end Carries

/-! ## Posting -/

/-- The memory after a completion was written into the slot of the tail. -/
def filled (s : CompletionSite) (m : Memory) (c : Completion) : Memory :=
  m.setWords s.ring.block (s.offsets.cqes.toNat + 16 * (slotOf s.entries (s.word m .tail)).toNat)
    c.words

/-- The memory after the overflow count went up. -/
def counted (s : CompletionSite) (m : Memory) : Memory :=
  m.setWord s.ring.block s.offsets.overflow.toNat (s.word m .overflow + 1)

/-- The memory after a completion was posted. -/
def posted (s : CompletionSite) (m : Memory) (c : Completion) : Memory :=
  (s.filled m c).setWord s.ring.block s.offsets.tail.toNat (s.word m .tail + 1)

/-- The memory after a completion was counted as lost. -/
def overflowed (s : CompletionSite) (m : Memory) : Memory :=
  (s.counted m).setWord s.sqRing.block s.flagsOffset.toNat
    (s.word m .flags ||| RingFlag.cqOverflow)

theorem sameOutside_filled (s : CompletionSite) (m : Memory) (c : Completion) :
    SameOutside [s.cqePlace (s.word m .tail)] m (s.filled m c) :=
  m.sameOutside_setWords _ _ c.words

theorem sameOutside_tail_posted (s : CompletionSite) (m : Memory) (c : Completion) :
    SameOutside ([.tail].map s.place) (s.filled m c) (s.posted m c) :=
  Fields.sameOutside_setWord rfl _ _

theorem sameOutside_overflow_counted (s : CompletionSite) (m : Memory) :
    SameOutside ([.overflow].map s.place) m (s.counted m) :=
  Fields.sameOutside_setWord rfl _ _

theorem sameOutside_flags_overflowed (s : CompletionSite) (m : Memory) :
    SameOutside ([.flags].map s.place) (s.counted m) (s.overflowed m) :=
  Fields.sameOutside_setWord rfl _ _

/-- The fields that posting changes. -/
def postedFields : List CompletionField := [.cqes, .tail]

/-- The fields that an overflow changes. -/
def overflowedFields : List CompletionField := [.overflow, .flags]

/-- To post changes the slots and the tail only. -/
theorem Sound.sameOutside_posted (hs : s.Sound) (m : Memory) (c : Completion) :
    SameOutside (postedFields.map s.place) m (s.posted m c) :=
  (((s.sameOutside_filled m c).widen (hs.cqe_within _)).of_subset (by simp [postedFields])).trans
    ((s.sameOutside_tail_posted m c).of_subset (by simp [postedFields]))

/-- To lose a completion changes its count and the flags only. -/
theorem sameOutside_overflowed (s : CompletionSite) (m : Memory) :
    SameOutside (overflowedFields.map s.place) m (s.overflowed m) :=
  ((s.sameOutside_overflow_counted m).of_subset (by simp [overflowedFields])).trans
    ((s.sameOutside_flags_overflowed m).of_subset (by simp [overflowedFields]))

theorem Sound.overflow_overflowed (hs : s.Sound) (m : Memory) :
    s.word (s.overflowed m) .overflow = s.word m .overflow + 1 :=
  (hs.word_eq (s.sameOutside_flags_overflowed m) (by decide) rfl).trans (Memory.word_setWord ..)

theorem flags_overflowed (s : CompletionSite) (m : Memory) :
    s.word (s.overflowed m) .flags = s.word m .flags ||| RingFlag.cqOverflow :=
  Memory.word_setWord ..

/-- A posted completion lies in the slot of the old tail. -/
theorem Sound.cell_posted (hs : s.Sound) (m : Memory) (c : Completion) :
    s.cell (s.posted m c) (s.word m .tail) = some c := by
  rw [hs.cell_congr (hs.sameAt (s.sameOutside_tail_posted m c) (by decide))]
  exact congrArg some (Completion.load_setWords ..)

/-- To post leaves the other slots as they are. -/
theorem Sound.cell_posted_of_ne (hs : s.Sound) (m : Memory) (c : Completion) {d : UInt32}
    (hne : slotOf s.entries d ≠ slotOf s.entries (s.word m .tail)) :
    s.cell (s.posted m c) d = s.cell m d := by
  rw [hs.cell_congr (hs.sameAt (s.sameOutside_tail_posted m c) (by decide))]
  refine congrArg some (Completion.load_congr ((s.sameOutside_filled m c).sameAt fun p hp => ?_))
  rw [List.mem_singleton.mp hp]
  exact cqe_apart_cqe hne.symm

/-- Posting adds a completion behind those that wait. -/
theorem Carries.posted (hs : s.Sound) (h : s.Carries m t kept waiting)
    (hroom : kept.length + waiting.length < s.entries.toNat) (c : Completion) :
    s.Carries (s.posted m c) t kept (waiting ++ [c]) := by
  have hsame := hs.sameOutside_posted m c
  have hhead : s.word (s.posted m c) .head = s.word m .head := hs.word_eq hsame (by decide) rfl
  have htail : s.word (s.posted m c) .tail = s.word m .tail + 1 := Memory.word_setWord ..
  constructor
  case formatted =>
    exact h.formatted.congr (hs.sameAt hsame (by decide)) (hs.sameAt hsame (by decide))
  case toRow =>
    rw [hhead, htail]
    exact h.push hs.isRingSize hroom (hs.cell_posted m c) fun d hd => hs.cell_posted_of_ne m c hd

/-- An overflow does not touch what the ring carries. -/
theorem Carries.overflowed (hs : s.Sound) (h : s.Carries m t kept waiting) :
    s.Carries (s.overflowed m) t kept waiting := by
  refine h.congr hs fun f hoverflow hflags => ?_
  refine hs.sameAt (s.sameOutside_overflowed m) ?_
  simp [overflowedFields, hoverflow, hflags]

variable {k : Kernel}

/-- A completion is posted if the counters are less than the size apart. -/
theorem Sound.post_below (hs : s.Sound) (hk : k.ServesCompletion s) (hm : s.Formatted k.memory)
    (hbelow : ¬ s.entries ≤ s.word k.memory .tail - s.word k.memory .head) (c : Completion) :
    k.post c = (true, k.withMemory (s.posted k.memory c)) := by
  have htail := hk.tail_eq hs
  have hhead := hk.head_eq hs
  have hmask := hk.mask_eq hs hm
  rw [hk.offsets] at htail hhead hmask
  have hfits : s.ring.Holds
      (s.offsets.cqes.toNat + 16 * (slotOf s.entries (s.word k.memory .tail)).toNat)
      (4 * c.words.length) := by
    have hall : s.ring.Holds s.offsets.cqes.toNat (16 * s.entries.toNat) := hs.fits .cqes
    have hlt := slotOf_lt hs.isRingSize (s.word k.memory .tail)
    have hcount : c.words.length = 4 := rfl
    simp only [Mapping.Holds] at hall ⊢
    omega
  have hset (m : Memory) : (k.withMemory m).setWord .cqRing s.offsets.tail.toNat
      (s.word k.memory .tail + 1) =
      k.withMemory (m.setWord s.ring.block s.offsets.tail.toNat (s.word k.memory .tail + 1)) :=
    hs.kernelSetWord_eq (f := .tail) (hk.withMemory m).ring rfl _
  have hslot : s.word k.memory .tail &&& (s.entries - 1) =
      slotOf s.entries (s.word k.memory .tail) := rfl
  simp only [Kernel.post, hk.offsets, hk.entries, htail, hhead, if_neg hbelow, hmask, hslot,
    Kernel.setWords_eq hk.ring c.words hfits, hset]
  rfl

/-- Else it is counted as lost. -/
theorem Sound.post_beyond (hs : s.Sound) (hk : k.ServesCompletion s)
    (hbeyond : s.entries ≤ s.word k.memory .tail - s.word k.memory .head) (c : Completion) :
    k.post c = (false, k.withMemory (s.overflowed k.memory)) := by
  have htail := hk.tail_eq hs
  have hhead := hk.head_eq hs
  rw [hk.offsets] at htail hhead
  have hcount : k.word .cqRing s.offsets.overflow.toNat = s.word k.memory .overflow :=
    hs.kernelWord_eq (f := .overflow) hk.ring rfl
  have hsetCount (value : UInt32) : k.setWord .cqRing s.offsets.overflow.toNat value =
      k.withMemory (k.memory.setWord s.ring.block s.offsets.overflow.toNat value) :=
    hs.kernelSetWord_eq (f := .overflow) hk.ring rfl value
  -- The flags are read after the count was stored, and they are apart from it.
  have hflags : (k.withMemory (k.memory.setWord s.ring.block s.offsets.overflow.toNat
      (s.word k.memory .overflow + 1))).word .sqRing s.flagsOffset.toNat =
      s.word k.memory .flags :=
    (hs.kernelWord_eq (f := .flags) (hk.withMemory _).sqRing rfl).trans
      (hs.word_eq (s.sameOutside_overflow_counted _) (by decide) rfl)
  have hsetFlags (m : Memory) (value : UInt32) :
      (k.withMemory m).setWord .sqRing s.flagsOffset.toNat value =
      k.withMemory (m.setWord s.sqRing.block s.flagsOffset.toNat value) :=
    hs.kernelSetWord_eq (f := .flags) (hk.withMemory m).sqRing rfl value
  simp only [Kernel.post, hk.offsets, hk.entries, htail, hhead, if_pos hbeyond]
  rw [Kernel.overflow, hk.offsets, hk.flagsOffset, hcount, hsetCount, hflags, hsetFlags]
  rfl

/-- The counters are a size apart exactly if every slot is in use. -/
theorem Carries.full_iff (h : s.Carries m t kept waiting) :
    s.entries ≤ s.word m .tail - s.word m .head ↔
      s.entries.toNat ≤ kept.length + waiting.length := by
  rw [UInt32.le_iff_toNat_le, h.toNat_all]

/-- With a free slot, the kernel posts. -/
theorem Carries.post_room (hs : s.Sound) (hk : k.ServesCompletion s)
    (h : s.Carries k.memory t kept waiting)
    (hroom : kept.length + waiting.length < s.entries.toNat) (c : Completion) :
    k.post c = (true, k.withMemory (s.posted k.memory c)) :=
  hs.post_below hk h.formatted (by rw [h.full_iff]; omega) c

/-- Without a free slot, the kernel counts the completion as lost. -/
theorem Carries.post_full (hs : s.Sound) (hk : k.ServesCompletion s)
    (h : s.Carries k.memory t kept waiting)
    (hfull : s.entries.toNat ≤ kept.length + waiting.length) (c : Completion) :
    k.post c = (false, k.withMemory (s.overflowed k.memory)) :=
  hs.post_beyond hk (h.full_iff.mpr hfull) c

end CompletionSite

/-! ## Steps of the process -/

/-- The completions that a reply hands over. -/
def Reply.taken : Reply → List Completion
  | .completion c? => c?.toList
  | .completions cs => cs
  | _ => []

namespace CompletionStep

/-- How many completions a step asks for. -/
def demand : CompletionStep → Nat
  | .next => 1
  | .drain limit => limit
  | .sync | .inspect => 0

/-- The step gives up the slots of all completions taken so far. -/
def publishes : CompletionStep → Bool
  | .sync => true
  | .next | .drain _ | .inspect => false

end CompletionStep

namespace CompletionSite.Carries

variable {s : CompletionSite} {h : Host} {t : UInt32} {kept waiting : List Completion}

theorem next_nil (hc : s.Carries h.kernel.memory t kept []) :
    (s.queue t).next h = .ok (none, s.queue t) h := by
  rw [CompletionQueue.next_eq, hc.next?_nil]
  rfl

theorem next_cons {c : Completion} (hc : s.Carries h.kernel.memory t kept (c :: waiting)) :
    (s.queue t).next h = .ok (some c, s.queue (t + 1)) h := by
  rw [CompletionQueue.next_eq, hc.next?_cons]
  rfl

/-- A step hands over the oldest completions, as many as it asks for and as there
are. -/
theorem perform_ok (hs : s.Sound) (hc : s.Carries h.kernel.memory t kept waiting)
    (step : CompletionStep) :
    ∃ reply t' m', step.perform (s.queue t) h = .ok (reply, s.queue t') (h.withMemory m') ∧
      reply.taken = waiting.take step.demand ∧
      SameOutside ([.head].map s.place) h.kernel.memory m' ∧
      s.Carries m' t' (if step.publishes then [] else kept ++ waiting.take step.demand)
        (waiting.drop step.demand) := by
  cases step with
  | next =>
    cases waiting with
    | nil =>
      refine ⟨.completion none, t, h.kernel.memory, Sys.bind_ok hc.next_nil, rfl, .refl _ _, ?_⟩
      simpa [CompletionStep.publishes, CompletionStep.demand] using hc
    | cons c waiting =>
      exact ⟨.completion (some c), t + 1, h.kernel.memory, Sys.bind_ok hc.next_cons, rfl,
        .refl _ _, hc.take 1⟩
  | drain limit =>
    have hdrain : (CompletionStep.drain limit).perform (s.queue t) h =
        .ok (.completions ((s.queue t).drain h.kernel.memory limit).1,
          ((s.queue t).drain h.kernel.memory limit).2) (h.withMemory h.kernel.memory) := rfl
    rw [hc.drain_eq] at hdrain
    exact ⟨_, _, _, hdrain, rfl, .refl _ _, hc.take limit⟩
  | sync => exact ⟨.nothing, t, _, rfl, rfl, sameOutside_publish s _ t, hc.publish hs⟩
  | inspect =>
    refine ⟨_, t, h.kernel.memory, rfl, rfl, .refl _ _, ?_⟩
    simpa [CompletionStep.publishes, CompletionStep.demand] using hc

end CompletionSite.Carries

end IoRing
