import IoRing.Proofs.Submission.Fifo
import IoRing.Proofs.Submission.Pushing
import Mathlib.Tactic.TFAE

/-!
# What fits, in a batch and one by one

`pushAll?` takes a batch whole and `pushEach?` takes its entries one by one.  The
two measure the free slots in different ways.  A single push compares the length
with the size, so it finds `room` free slots.  A batch compares its own length with
`available`, the difference of the two modulo 2^32.

The two agree while the length is at most the size.  The length is the private
tail less the head, so it exceeds the size if the kernel's head is ahead of the
tail.  Then a single push is refused, but the difference has wrapped and exceeds
the size too.  A batch longer than the ring is accepted and overwrites its own
slots.

`batches_agree_iff` says that a length of at most the size is what every part of
the agreement needs.
-/

namespace IoRing

namespace SubmissionQueue

/-- Push entries one after the other without publishing, or fail if one of them
finds no slot. -/
def pushEach? (q : SubmissionQueue) (m : Memory) : List Entry → Option (SubmissionQueue × Memory)
  | [] => some (q, m)
  | e :: es => (q.pushDeferred? m e).bind fun (q, m) => q.pushEach? m es

variable (q : SubmissionQueue) (m : Memory)

/-- The number of slots that single pushes find free. -/
def room : Nat := q.entries.toNat - (q.len m).toNat

variable {q m}

/-! ## The two measures -/

/-- The queue is full exactly if it has no room. -/
theorem isFull_iff : q.isFull m = true ↔ q.room m = 0 := by
  rw [isFull, decide_eq_true_iff, UInt32.le_iff_toNat_le, room]
  omega

/-- Both measures agree if the length is at most the size. -/
theorem toNat_available_of_le (hle : q.len m ≤ q.entries) :
    (q.available m).toNat = q.room m :=
  UInt32.toNat_sub_of_le _ _ hle

/-- Otherwise the difference wraps and exceeds the size. -/
theorem lt_toNat_available (hlt : q.entries < q.len m) :
    q.entries.toNat < (q.available m).toNat := by
  have hlen := (q.len m).toNat_lt
  rw [UInt32.lt_iff_toNat_lt] at hlt
  rw [available, UInt32.toNat_sub]
  omega

/-- A batch is taken exactly if as many slots are available. -/
theorem pushAll?_isSome_iff (es : List Entry) :
    (q.pushAll? m es).isSome ↔ es.length ≤ (q.available m).toNat := by
  by_cases hfull : (q.available m).toNat < es.length
  · rw [pushAll?_full hfull]
    simpa using hfull
  · rw [pushAll?_room hfull]
    simpa using hfull

end SubmissionQueue

namespace SubmissionSite

open SubmissionQueue

variable {s : SubmissionSite}

/-! ## Single pushes -/

theorem len_queue (s : SubmissionSite) (t : UInt32) (m : Memory) :
    (s.queue t).len m = t - s.word m .head := rfl

/-- A push takes one slot. -/
theorem Sound.room_stored (hs : s.Sound) {m : Memory} {t : UInt32}
    (hroom : (s.queue t).room m ≠ 0) (e : Entry) :
    (s.queue (t + 1)).room (s.stored m t e) = (s.queue t).room m - 1 := by
  have hhead : s.word (s.stored m t e) .head = s.word m .head :=
    hs.word_eq (hs.sameOutside_stored m t e) (by decide) rfl
  have hlen : (s.queue (t + 1)).len (s.stored m t e) = (s.queue t).len m + 1 := by
    rw [len_queue, hhead, len_queue, add_sub_eq_sub_add]
  have hsize := s.entries.toNat_lt
  have hentries (t : UInt32) : (s.queue t).entries = s.entries := rfl
  simp only [room, hlen, hentries, UInt32.toNat_add, UInt32.toNat_one] at hroom ⊢
  omega

/-- One by one, as many entries fit as there is room. -/
theorem Sound.pushEach?_isSome_iff (hs : s.Sound) (m : Memory) (t : UInt32) (es : List Entry) :
    ((s.queue t).pushEach? m es).isSome ↔ es.length ≤ (s.queue t).room m := by
  induction es generalizing m t with
  | nil => simp [pushEach?]
  | cons e es ih =>
    by_cases hfull : (s.queue t).isFull m = true
    · rw [pushEach?, pushDeferred?_full hfull, isFull_iff.mp hfull]
      simp
    · have hpush : (s.queue t).pushDeferred? m e = some (s.queue (t + 1), s.stored m t e) :=
        pushDeferred?_room hfull e
      rw [isFull_iff] at hfull
      rw [pushEach?, hpush, Option.bind_some, ih, hs.room_stored hfull, List.length_cons]
      omega

/-! ## Slots of a batch -/

/-- Writing leaves the slots of other counters alone. -/
theorem Sound.entryAt?_writeSlots_of_ne (hs : s.Sound) (m : Memory) {t d : UInt32}
    {es : List Entry}
    (hne : ∀ i < es.length, slotOf s.entries d ≠ slotOf s.entries (t + UInt32.ofNat i)) :
    s.entryAt? ((s.queue t).writeSlots m es).2 d = s.entryAt? m d := by
  induction es generalizing m t with
  | nil => rfl
  | cons e es ih =>
    have hfirst : slotOf s.entries d ≠ slotOf s.entries t := by
      simpa using hne 0 (Nat.succ_pos _)
    have hrest : ∀ i < es.length,
        slotOf s.entries d ≠ slotOf s.entries (t + 1 + UInt32.ofNat i) := by
      intro i hi
      have hstep : t + 1 + UInt32.ofNat i = t + UInt32.ofNat (1 + i) := (add_ofNat_add ..).symm
      rw [hstep]
      exact hne (1 + i) (by rw [List.length_cons]; omega)
    exact (ih (s.stored m t e) hrest).trans (hs.entryAt?_stored_of_ne m e hfirst)

/-- As many entries as there are slots are all found after they were written. -/
theorem Sound.cellsHold_writeSlots (hs : s.Sound) (m : Memory) (t : UInt32) {es : List Entry}
    (hle : es.length ≤ s.entries.toNat) :
    CellsHold (s.entryAt? ((s.queue t).writeSlots m es).2) t es := by
  induction es generalizing m t with
  | nil => exact .nil
  | cons e es ih =>
    rw [List.length_cons] at hle
    refine CellsHold.cons_iff.mpr ⟨?_, ih (s.stored m t e) (t + 1) (Nat.le_of_succ_le hle)⟩
    -- The other entries are less than a turn ahead.
    have hother : ∀ i < es.length,
        slotOf s.entries t ≠ slotOf s.entries (t + 1 + UInt32.ofNat i) := by
      intro i hi
      have hne := slotOf_ne hs.isRingSize t (Nat.succ_pos i) (by omega)
      rw [Nat.succ_eq_one_add, add_ofNat_add] at hne
      simpa using hne
    exact (hs.entryAt?_writeSlots_of_ne (s.stored m t e) hother).trans
      (hs.entryAt?_stored m t e)

/-- One entry more overwrites the first. -/
theorem Sound.entryAt?_writeSlots_turn (hs : s.Sound) (m : Memory) (t : UInt32) {es : List Entry}
    (hlength : es.length = s.entries.toNat) (e : Entry) :
    s.entryAt? ((s.queue t).writeSlots m (es ++ [e])).2 t = some e := by
  have hslot : s.entryAt? ((s.queue t).writeSlots m (es ++ [e])).2 t =
      s.entryAt? ((s.queue t).writeSlots m (es ++ [e])).2 (t + s.entries) := by
    rw [entryAt?, entryAt?, slotOf_add_size hs.isRingSize]
  have hlast : (s.queue t).localTail + UInt32.ofNat es.length = t + s.entries := by
    rw [hlength, UInt32.ofNat_toNat]
    rfl
  rw [hslot, writeSlots_append, fst_writeSlots, hlast]
  exact hs.entryAt?_stored _ (t + s.entries) e

/-- After a batch the slots are as it wrote them. -/
theorem Sound.entryAt?_pushAll? (hs : s.Sound) {m m' : Memory} {t : UInt32} {es : List Entry}
    {q' : SubmissionQueue} (hpush : (s.queue t).pushAll? m es = some (q', m')) (c : UInt32) :
    s.entryAt? m' c = s.entryAt? ((s.queue t).writeSlots m es).2 c := by
  by_cases hfull : ((s.queue t).available m).toNat < es.length
  · rw [pushAll?_full hfull] at hpush
    cases hpush
  · rw [pushAll?_room hfull] at hpush
    cases hpush
    have hsame := Carries.sameOutside_publish s ((s.queue t).writeSlots m es).2
      (t + UInt32.ofNat es.length)
    exact hs.entryAt?_congr (hs.sameAt hsame (by decide)) (hs.sameAt hsame (by decide)) c

/-- A batch one entry longer than the ring loses its first entry. -/
theorem Sound.not_cellsHold_pushAll? (hs : s.Sound) {m m' : Memory} {t : UInt32}
    {q' : SubmissionQueue} {e e' : Entry} (hne : e ≠ e')
    (hpush : (s.queue t).pushAll? m (List.replicate s.entries.toNat e ++ [e']) =
      some (q', m')) :
    ¬ CellsHold (s.entryAt? m') t (List.replicate s.entries.toNat e ++ [e']) := by
  intro hheld
  obtain ⟨n, hn⟩ := Nat.exists_eq_succ_of_ne_zero (Nat.ne_of_gt hs.isRingSize.pos)
  have hlast : s.entryAt? m' t = some e' := by
    rw [hs.entryAt?_pushAll? hpush]
    exact hs.entryAt?_writeSlots_turn m t (List.length_replicate ..) e'
  have hfirst : s.entryAt? m' t = some e := by
    rw [hn, List.replicate_succ, List.cons_append] at hheld
    exact (CellsHold.cons_iff.mp hheld).1
  exact hne (Option.some.inj (hfirst.symm.trans hlast))

/-! ## Agreement -/

/-- **A batch and single pushes agree on what fits exactly while the length is at most
the size.**  A batch fits if it is no longer than `available`, single pushes fit if
they are no more than `room`.  It is the same to say that the two always agree, that
the queue is full exactly if nothing is available, that no batch longer than the ring
is accepted, that all entries of an accepted batch are found in their slots, and that
the length is at most the size. -/
theorem batches_agree_iff (hs : s.Sound) (m : Memory) (t : UInt32) :
    let q := s.queue t
    (∀ es, (q.pushAll? m es).isSome ↔ es.length ≤ (q.available m).toNat) ∧
    (∀ es, (q.pushEach? m es).isSome ↔ es.length ≤ q.room m) ∧
    [ ∀ es, (q.pushAll? m es).isSome ↔ (q.pushEach? m es).isSome,
      q.isFull m = true ↔ q.available m = 0,
      ∀ es, (q.pushAll? m es).isSome → es.length ≤ s.entries.toNat,
      ∀ es q' m', q.pushAll? m es = some (q', m') → CellsHold (s.entryAt? m') t es,
      q.len m ≤ s.entries ].TFAE := by
  intro q
  refine ⟨pushAll?_isSome_iff, hs.pushEach?_isSome_iff m t, ?_⟩
  have hwraps (hlt : ¬ q.len m ≤ s.entries) : s.entries.toNat < (q.available m).toNat :=
    lt_toNat_available (q := q) (UInt32.not_le.mp hlt)
  tfae_have 5 → 1 := by
    intro hle es
    rw [pushAll?_isSome_iff, hs.pushEach?_isSome_iff, toNat_available_of_le hle]
  tfae_have 5 → 2 := by
    intro hle
    rw [isFull_iff, ← toNat_available_of_le hle, ← UInt32.toNat_inj]
    rfl
  tfae_have 1 → 3 := by
    intro hagree es hfits
    have hroom := (hs.pushEach?_isSome_iff m t es).mp ((hagree es).mp hfits)
    exact Nat.le_trans hroom (Nat.sub_le _ _)
  tfae_have 3 → 4 := by
    intro hshort es q' m' hpush
    have hle := hshort es (by rw [hpush]; rfl)
    exact (hs.cellsHold_writeSlots m t hle).congr fun i _ => hs.entryAt?_pushAll? hpush _
  tfae_have 4 → 5 := by
    intro hheld
    by_contra hlt
    have hfits : (q.pushAll? m (List.replicate s.entries.toNat (Entry.make 0 0 0) ++
        [Entry.make 0 0 1])).isSome := by
      rw [pushAll?_isSome_iff, List.length_append, List.length_replicate]
      exact hwraps hlt
    obtain ⟨⟨q', m'⟩, hpush⟩ := Option.isSome_iff_exists.mp hfits
    exact hs.not_cellsHold_pushAll? (by decide) hpush (hheld _ _ _ hpush)
  tfae_have 2 → 5 := by
    intro hfull
    by_contra hlt
    have hzero := hfull.mp (decide_eq_true (UInt32.le_of_lt (UInt32.not_le.mp hlt)))
    have havailable := hwraps hlt
    rw [hzero] at havailable
    exact absurd havailable (Nat.not_lt_zero _)
  tfae_finish

/-- The small ring, empty, with the head one ahead of the tail. -/
def overtaken : Memory := Memory.zero.setWords 1 0 [1, 0, 3, 4]

/-- On the small ring a batch and single pushes agree, and with the head ahead they
do not. -/
theorem batches_agree_small :
    (∀ es, ((small.queue 0xFFFFFFFE).pushAll? smallHost.kernel.memory es).isSome ↔
      ((small.queue 0xFFFFFFFE).pushEach? smallHost.kernel.memory es).isSome) ∧
    ¬ ∀ es, ((small.queue 0).pushAll? overtaken es).isSome ↔
      ((small.queue 0).pushEach? overtaken es).isSome := by
  obtain ⟨-, -, hagree⟩ := batches_agree_iff sound_small smallHost.kernel.memory 0xFFFFFFFE
  obtain ⟨-, -, hdiffer⟩ := batches_agree_iff sound_small overtaken 0
  have hahead : ¬ (small.queue 0).len overtaken ≤ small.entries := by decide +kernel
  exact ⟨(hagree.out 0 4).mpr (by decide +kernel), mt (hdiffer.out 0 4).mp hahead⟩

/-- Entries with the numbers from 0 on as user data. -/
def numbered (n : Nat) : List Entry :=
  (List.range n).map fun i => Entry.make 0 0 (UInt64.ofNat i)

/-- With the head one ahead of the tail, a full ring of four slots takes a batch of
five.  The fifth entry lies in the slot of the first. -/
theorem batch_overwrites_itself :
    let q := small.queue 0
    q.isFull overtaken = true ∧ q.available overtaken = 5 ∧
      q.pushEach? overtaken (numbered 5) = none ∧
      (q.pushAll? overtaken (numbered 5)).map (fun after => small.entryAt? after.2 0) =
        some (numbered 5)[4]? := by
  decide +kernel

end SubmissionSite

end IoRing
