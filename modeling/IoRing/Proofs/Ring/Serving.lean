import IoRing.Proofs.Ring.Contents

/-!
# What serving leaves alone

While the kernel serves a call it moves its head, writes completions and counts
what it drops and what finds no room.  It never writes the tail of the submission
ring.  It writes the flags only to note an overflow, so it neither sets nor clears
the flag of a sleeping poll thread (`RingSite.spares_serve`).

The counters may be anything.  The completion ring must be formatted, since the
kernel masks its tail with what the ring says before it writes a completion.
-/

namespace IoRing

/-- Noting an overflow does not touch the flag of a sleeping poll thread. -/
theorem hasBits_needWakeup_or_overflow (flags : UInt32) :
    hasBits (flags ||| RingFlag.cqOverflow) RingFlag.needWakeup =
      hasBits flags RingFlag.needWakeup := by
  have hmasked : (flags ||| RingFlag.cqOverflow) &&& RingFlag.needWakeup =
      flags &&& RingFlag.needWakeup ||| RingFlag.cqOverflow &&& RingFlag.needWakeup :=
    UInt32.toBitVec_inj.mp BitVec.and_or_distrib_right
  have hapart : RingFlag.cqOverflow &&& RingFlag.needWakeup = 0 := by decide
  rw [hasBits, hmasked, hapart, UInt32.or_zero]
  rfl

namespace RingSite

/-- The kernel still works on the site, and of the process's word and of the flag
of the poll thread nothing has changed. -/
structure Spares (s : RingSite) (k k' : Kernel) : Prop where
  serves : k'.Serves s
  formatted : s.completion.Formatted k'.memory
  tail : SameAt (s.submission.place .tail) k.memory k'.memory
  asleep : hasBits (s.submission.word k'.memory .flags) RingFlag.needWakeup =
    hasBits (s.submission.word k.memory .flags) RingFlag.needWakeup

variable {s : RingSite} {k k' k'' : Kernel} {m : Memory}

theorem Spares.refl (hk : k.Serves s) (hm : s.completion.Formatted k.memory) : s.Spares k k :=
  ⟨hk, hm, .refl _ _, rfl⟩

theorem Spares.trans (h : s.Spares k k') (h' : s.Spares k' k'') : s.Spares k k'' :=
  ⟨h'.serves, h'.formatted, h.tail.trans h'.tail, h'.asleep.trans h.asleep⟩

/-- Other fields of the submission ring may change. -/
theorem Sound.spares_submission (hs : s.Sound) (hk : k.Serves s)
    (hm : s.completion.Formatted k.memory) {l : List SubmissionField}
    (hsame : SameOutside (l.map s.submission.place) k.memory m) (htail : .tail ∉ l)
    (hflags : .flags ∉ l) : s.Spares k (k.withMemory m) where
  serves := hk.withMemory m
  formatted := hm.congr (hs.completion_sameAt hsame hflags _) (hs.completion_sameAt hsame hflags _)
  tail := hs.submission.sameAt hsame htail
  asleep := congrArg (hasBits · _) (hs.submission.word_eq hsame hflags rfl)

/-- Fields of the completion ring may change, but not its size and its mask. -/
theorem Sound.spares_completion (hs : s.Sound) (hk : k.Serves s)
    (hm : s.completion.Formatted k.memory) {l : List CompletionField}
    (hsame : SameOutside (l.map s.completion.place) k.memory m) (hentries : .ringEntries ∉ l)
    (hmask : .ringMask ∉ l)
    (hasleep : hasBits (s.completion.word m .flags) RingFlag.needWakeup =
      hasBits (s.completion.word k.memory .flags) RingFlag.needWakeup) :
    s.Spares k (k.withMemory m) where
  serves := hk.withMemory m
  formatted := hm.congr (hs.completion.sameAt hsame hentries) (hs.completion.sameAt hsame hmask)
  tail := hs.submission_sameAt hsame (by decide)
  asleep := hasleep

/-! ## The kernel at work -/

/-- To handle an entry spares tail and flags. -/
theorem spares_complete (hs : s.Sound) (hk : k.Serves s) (hm : s.completion.Formatted k.memory)
    (e : Entry) : s.Spares k (Kernel.complete e k) := by
  by_cases hbeyond : s.completion.entries ≤
      s.completion.word k.memory .tail - s.completion.word k.memory .head
  · have hflags := s.completion.flags_overflowed k.memory
    rw [Kernel.complete, hs.completion.post_beyond hk.completion hbeyond]
    refine hs.spares_completion hk hm (s.completion.sameOutside_overflowed k.memory) (by decide)
      (by decide) ?_
    rw [hflags, hasBits_needWakeup_or_overflow]
  · have hsame := hs.completion.sameOutside_posted k.memory (Kernel.completionOf e)
    rw [Kernel.complete, hs.completion.post_below hk.completion hm hbeyond]
    exact hs.spares_completion hk hm hsame (by decide) (by decide)
      (congrArg (hasBits · _) (hs.completion.word_eq hsame (by decide) rfl))

/-- To count a dropped entry spares tail and flags. -/
theorem spares_countDropped (hs : s.Sound) (hk : k.Serves s)
    (hm : s.completion.Formatted k.memory) : s.Spares k k.countDropped := by
  have hset (value : UInt32) : k.setWord .sqRing s.submission.offsets.dropped.toNat value =
      k.withMemory (k.memory.setWord s.submission.ring.block
        s.submission.offsets.dropped.toNat value) :=
    hs.submission.kernelSetWord_eq (f := .dropped) hk.ring rfl value
  rw [Kernel.countDropped, hk.offsets, hset]
  exact hs.spares_submission (l := [.dropped]) hk hm (Fields.sameOutside_setWord rfl _ _)
    (by decide) (by decide)

/-- To take entries spares tail and flags. -/
theorem spares_takeSlots (hs : s.Sound) (hk : k.Serves s) (hm : s.completion.Formatted k.memory)
    (tail mask : UInt32) (limit : Nat) (head : UInt32) :
    s.Spares k (Kernel.takeSlots Kernel.complete tail mask limit head k).kernel := by
  induction limit generalizing head k with
  | zero => exact .refl hk hm
  | succ limit ih =>
    rw [Kernel.takeSlots]
    split
    · exact .refl hk hm
    · split
      · have hdrop := spares_countDropped hs hk hm
        exact hdrop.trans (ih hdrop.serves hdrop.formatted _)
      · next e _ =>
        have hcomplete := spares_complete hs hk hm e
        exact hcomplete.trans (ih hcomplete.serves hcomplete.formatted _)

/-- So does all that the kernel consumes. -/
theorem spares_consumeEach (hs : s.Sound) (hk : k.Serves s)
    (hm : s.completion.Formatted k.memory) (limit? : Option Nat) :
    s.Spares k (Kernel.consumeEach Kernel.complete k limit?).kernel := by
  have hslots := spares_takeSlots hs hk hm (k.word .sqRing k.granted.sqOffsets.tail.toNat)
    (k.word .sqRing k.granted.sqOffsets.ringMask.toNat)
    ((limit?.getD k.granted.sqEntries.toNat).min k.granted.sqEntries.toNat)
    (k.word .sqRing k.granted.sqOffsets.head.toNat)
  refine hslots.trans ?_
  rw [Kernel.consumeEach]
  generalize Kernel.takeSlots .. = taken at hslots ⊢
  have hset : taken.kernel.setWord .sqRing s.submission.offsets.head.toNat taken.head =
      taken.kernel.withMemory (taken.kernel.memory.setWord s.submission.ring.block
        s.submission.offsets.head.toNat taken.head) :=
    hs.submission.kernelSetWord_eq (f := .head) hslots.serves.ring rfl taken.head
  simp only [hk.offsets, hset]
  exact hs.spares_submission (l := [.head]) hslots.serves hslots.formatted
    (Fields.sameOutside_setWord rfl _ _) (by decide) (by decide)

/-- **Serving a call leaves the tail and the flag of the poll thread alone**,
whatever the counters are. -/
theorem spares_serve (hs : s.Sound) (hk : k.Serves s) (hm : s.completion.Formatted k.memory)
    (toSubmit : UInt32) : s.Spares k (k.serve toSubmit).2 := by
  unfold Kernel.serve
  split
  · exact ⟨⟨⟨hk.ring, hk.sqes, hk.offsets, hk.entries⟩, hk.cqRing, hk.cqOffsets, hk.cqEntries⟩,
      hm, .refl _ _, rfl⟩
  · exact spares_consumeEach hs hk hm _

end RingSite

end IoRing
