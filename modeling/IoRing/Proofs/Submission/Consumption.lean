import IoRing.Proofs.Submission.Contents

/-!
# Consuming what a submission ring carries

The kernel takes published entries, oldest first, and does something with each
one.  What it does must leave the ring alone, but for the flags.
`HandlesAt` says so for a class of kernels, since a handler may need to know
more about the kernel than that it serves the site.

Then a run over the slots is a fold over the entries (`takeSlots_eq`).  The
entries taken are a prefix of the published ones, the rest stays published, and
nothing is dropped (`Carries.consumeEach_eq`).
-/

namespace IoRing

namespace Kernel

/-- The kernel after it handled entries one after the other. -/
def handleAll (handle : Handler) (k : Kernel) (es : List Entry) : Kernel :=
  es.foldl (fun k e => handle e k) k

/-- In every kernel of the class the handler stays in the class, and it changes
no field of the submission ring but the flags. -/
structure HandlesAt (s : SubmissionSite) (inClass : Kernel → Prop) (handle : Handler) : Prop where
  serves : ∀ k, inClass k → k.ServesSubmission s
  stays : ∀ e k, inClass k → inClass (handle e k)
  same : ∀ e k f, inClass k → f ≠ .flags → SameAt (s.place f) k.memory (handle e k).memory

/-- A handler that does nothing leaves the ring alone. -/
theorem handlesAt_keep (s : SubmissionSite) :
    HandlesAt s (fun k => k.ServesSubmission s) keep where
  serves _ hk := hk
  stays _ _ hk := hk
  same _ _ _ _ _ := .refl _ _

theorem handleAll_keep (k : Kernel) (es : List Entry) : k.handleAll keep es = k := by
  induction es with
  | nil => rfl
  | cons e es ih => exact ih

namespace HandlesAt

variable {s : SubmissionSite} {inClass : Kernel → Prop} {handle : Handler} {k : Kernel}

theorem handleAll (hh : HandlesAt s inClass handle) (hk : inClass k) (es : List Entry) :
    inClass (k.handleAll handle es) := by
  induction es generalizing k with
  | nil => exact hk
  | cons e es ih => exact ih (hh.stays e k hk)

/-- To handle entries leaves all fields but the flags alone. -/
theorem sameAt_handleAll (hh : HandlesAt s inClass handle) (hk : inClass k) (es : List Entry)
    {f : SubmissionField} (hf : f ≠ .flags) :
    SameAt (s.place f) k.memory (k.handleAll handle es).memory := by
  induction es generalizing k with
  | nil => exact .refl _ _
  | cons e es ih => exact (hh.same e k f hk hf).trans (ih (hh.stays e k hk))

/-- A run over slots that hold entries takes them in order, up to its limit. -/
theorem takeSlots_eq (hh : HandlesAt s inClass handle) (hs : s.Sound) (hk : inClass k)
    {head : UInt32} {es : List Entry} (hheld : CellsHold (s.entryAt? k.memory) head es)
    (hlt : es.length < 2 ^ 32) (limit : Nat) :
    takeSlots handle (head + UInt32.ofNat es.length) (s.entries - 1) limit head k =
      ⟨k.handleAll handle (es.take limit), head + UInt32.ofNat (es.take limit).length,
        (es.take limit).length, es.take limit⟩ := by
  induction es generalizing head k limit with
  | nil =>
    cases limit with
    | zero => simp [takeSlots, Kernel.handleAll]
    | succ limit => simp [takeSlots, Kernel.handleAll]
  | cons e es ih =>
    cases limit with
    | zero => simp [takeSlots, Kernel.handleAll]
    | succ limit =>
      obtain ⟨hhead, htail⟩ := CellsHold.cons_iff.mp hheld
      have hne : ¬ head = head + UInt32.ofNat (e :: es).length := by
        rw [add_ofNat_eq_self_iff head hlt]
        exact Nat.succ_ne_zero _
      have hslot : k.slotEntry? (head &&& (s.entries - 1)) = some e :=
        (hh.serves k hk).slotEntry?_eq hs hhead
      have hstep (n : Nat) : head + UInt32.ofNat (n + 1) = head + 1 + UInt32.ofNat n := by
        rw [Nat.add_comm, add_ofNat_add]
        rfl
      -- The handler may have written the flags, so the other cells are read again.
      have htail' : CellsHold (s.entryAt? (handle e k).memory) (head + 1) es :=
        htail.congr fun i _ => hs.entryAt?_congr (hh.same e k .array hk (by decide))
          (hh.same e k .sqes hk (by decide)) _
      have hrest := ih (hh.stays e k hk) htail' (Nat.lt_of_succ_lt hlt) limit
      rw [takeSlots, if_neg hne, hslot]
      simp only [List.length_cons, List.take_succ_cons, hstep, hrest]
      rfl

end HandlesAt

end Kernel

namespace SubmissionSite

/-- The memory after the head moved on. -/
def retired (s : SubmissionSite) (m : Memory) (n : Nat) : Memory :=
  m.setWord s.ring.block s.offsets.head.toNat (s.word m .head + UInt32.ofNat n)

/-- To retire entries changes the mapped head only. -/
theorem sameOutside_retired (s : SubmissionSite) (m : Memory) (n : Nat) :
    SameOutside ([.head].map s.place) m (s.retired m n) :=
  Fields.sameOutside_setWord rfl m _

namespace Carries

variable {s : SubmissionSite} {inClass : Kernel → Prop} {handle : Kernel.Handler} {k : Kernel}
  {m : Memory} {t : UInt32} {published deferred : List Entry}

/-- Moving the head takes the oldest published entries off the ring. -/
theorem retire (hs : s.Sound) (hc : s.Carries m t published deferred) (n : Nat) :
    s.Carries (s.retired m (published.take n).length) t (published.drop n) deferred := by
  have hsame := s.sameOutside_retired m (published.take n).length
  have hhead : s.word (s.retired m (published.take n).length) .head =
      s.word m .head + UInt32.ofNat (published.take n).length := Memory.word_setWord ..
  have htail : s.word (s.retired m (published.take n).length) .tail = s.word m .tail :=
    hs.word_eq hsame (by decide) rfl
  constructor
  case formatted =>
    exact hc.formatted.congr (hs.sameAt hsame (by decide)) (hs.sameAt hsame (by decide))
  case toRow =>
    rw [hhead, htail]
    exact (hc.drop n).congr fun i _ => hs.entryAt?_congr (hs.sameAt hsame (by decide))
      (hs.sameAt hsame (by decide)) _

theorem handleAll (hs : s.Sound) (hc : s.Carries k.memory t published deferred)
    (hh : Kernel.HandlesAt s inClass handle) (hk : inClass k) (es : List Entry) :
    s.Carries (k.handleAll handle es).memory t published deferred :=
  hc.congr hs fun _ hflags _ => hh.sameAt_handleAll hk es hflags

/-- The kernel takes the oldest published entries up to its limit, handles them
in order and moves the head. -/
theorem consumeEach_eq (hs : s.Sound) (hc : s.Carries k.memory t published deferred)
    (hh : Kernel.HandlesAt s inClass handle) (hk : inClass k) (limit? : Option Nat)
    {taken : List Entry} (htaken : taken = published.take (limit?.getD published.length)) :
    Kernel.consumeEach handle k limit? =
      ⟨(k.handleAll handle taken).withMemory
          (s.retired (k.handleAll handle taken).memory taken.length),
        s.word k.memory .head + UInt32.ofNat taken.length, taken.length, taken⟩ := by
  have hlt := s.entries.toNat_lt
  have hle := hc.length_le
  have hserves := hh.serves k hk
  have hhead := hserves.head_eq hs
  have htail := hserves.tail_eq hs
  have hmask := hserves.mask_eq hs hc.formatted
  rw [hserves.offsets] at hhead htail hmask
  -- The tail stops the run, so a limit beyond the size is as good as none.
  have hsize : published.take ((limit?.getD s.entries.toNat).min s.entries.toNat) = taken := by
    change published.take (min (limit?.getD s.entries.toNat) s.entries.toNat) = taken
    rw [htaken, List.take_eq_take_iff]
    cases limit? with
    | none => simp only [Option.getD_none]; omega
    | some limit => simp only [Option.getD_some]; omega
  have hslots := hh.takeSlots_eq hs hk hc.held_front (by omega)
    ((limit?.getD s.entries.toNat).min s.entries.toNat)
  rw [← hc.middle_eq, hsize] at hslots
  have hafter := hh.serves _ (hh.handleAll hk taken)
  have hheadAfter : s.word (k.handleAll handle taken).memory .head = s.word k.memory .head :=
    Fields.word_congr rfl (hh.sameAt_handleAll hk taken (by decide))
  have hset (value : UInt32) : (k.handleAll handle taken).setWord .sqRing s.offsets.head.toNat
      value = (k.handleAll handle taken).withMemory ((k.handleAll handle taken).memory.setWord
        s.ring.block s.offsets.head.toNat value) :=
    hs.kernelSetWord_eq (f := .head) hafter.ring rfl value
  simp only [Kernel.consumeEach, hserves.offsets, hserves.entries, htail, hmask, hhead, hslots,
    hset, retired, hheadAfter]

end Carries

end SubmissionSite

end IoRing
