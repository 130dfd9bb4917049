import IoRing.Proofs.Access.Bounds
import IoRing.Proofs.Ring.Opening
import Mathlib.Order.Bounds.Defs

/-!
# The layout fits the queues

The layout says how long the mappings of a ring must be, and attaching a queue
checks that all that belongs to it lies inside.  Both count with what the kernel
granted, but the checks take the sizes of the queues from memory.

The lengths are exact numbers (`Layout.toNat_ofParams`).  So if memory says what was
granted, the checks pass and no byte more is needed.  If memory says something
else, the entries, which are mapped at their exact length, still admit no queue
that is larger than what was granted.
-/

namespace IoRing

/-! ## Exact lengths -/

namespace Layout

/-- No length wraps. -/
theorem toNat_ofParams (p : Params) :
    (ofParams p).sqRingLength.toNat = p.sqOffsets.array.toNat + 4 * p.sqEntries.toNat ∧
    (ofParams p).cqRingLength.toNat = p.cqOffsets.cqes.toNat + 16 * p.cqEntries.toNat ∧
    (ofParams p).sqesLength.toNat = 64 * p.sqEntries.toNat := by
  have hsq := p.sqEntries.toNat_lt
  have hcq := p.cqEntries.toNat_lt
  have harray := p.sqOffsets.array.toNat_lt
  have hcqes := p.cqOffsets.cqes.toNat_lt
  have hindex : ((4 : UInt64) * p.sqEntries.toUInt64).toNat = 4 * p.sqEntries.toNat :=
    toNat_cells 4 (by decide) _
  have hcompletions : ((16 : UInt64) * p.cqEntries.toUInt64).toNat = 16 * p.cqEntries.toNat :=
    toNat_cells 16 (by decide) _
  refine ⟨?_, ?_, toNat_cells 64 (by decide) _⟩
  · rw [ofParams, UInt64.toNat_add, hindex, UInt32.toNat_toUInt64]
    exact Nat.mod_eq_of_lt (by omega)
  · rw [ofParams, UInt64.toNat_add, hcompletions, UInt32.toNat_toUInt64]
    exact Nat.mod_eq_of_lt (by omega)

theorem combinedLength_le_iff (l : Layout) (n : Nat) :
    l.combinedLength.toNat ≤ n ↔ l.sqRingLength.toNat ≤ n ∧ l.cqRingLength.toNat ≤ n := by
  unfold combinedLength
  split
  · next hlt =>
    have hlt' := UInt64.lt_iff_toNat_lt.mp hlt
    omega
  · next hle =>
    have hle' := UInt64.le_iff_toNat_le.mp (UInt64.not_lt.mp hle)
    omega

/-- One mapping for both rings is as long as the longer one. -/
theorem isLeast_combinedLength (p : Params) :
    IsLeast {n | p.sqOffsets.array.toNat + 4 * p.sqEntries.toNat ≤ n ∧
        p.cqOffsets.cqes.toNat + 16 * p.cqEntries.toNat ≤ n}
      (ofParams p).combinedLength.toNat := by
  obtain ⟨hsq, hcq, -⟩ := toNat_ofParams p
  rw [← hsq, ← hcq]
  constructor
  · exact ((ofParams p).combinedLength_le_iff _).mp (Nat.le_refl _)
  · intro n hn
    exact ((ofParams p).combinedLength_le_iff n).mpr hn

/-! ## Mappings of these lengths -/

/-- The mappings have the lengths that the layout says.  The rings have one each, or
one together. -/
structure Measures (l : Layout) (ring sqes cqRing : Mapping) : Prop where
  rings : ring.length = l.sqRingLength ∧ cqRing.length = l.cqRingLength ∨
    ring.length = l.combinedLength ∧ cqRing = ring
  sqes : sqes.length = l.sqesLength

variable {l : Layout} {ring sqes cqRing : Mapping}

/-- Each ring has room for what it needs by itself. -/
theorem Measures.le_length (h : l.Measures ring sqes cqRing) :
    l.sqRingLength.toNat ≤ ring.length.toNat ∧ l.cqRingLength.toNat ≤ cqRing.length.toNat := by
  rcases h.rings with ⟨hring, hcqRing⟩ | ⟨hring, hshared⟩
  · rw [hring, hcqRing]
    exact ⟨Nat.le_refl _, Nat.le_refl _⟩
  · rw [hshared, hring]
    exact (l.combinedLength_le_iff _).mp (Nat.le_refl _)

end Layout

/-- Mapping a layout gives mappings of its lengths. -/
theorem RingRegions.measures_of_map {fd : Int32} {layout : Layout} {r : RingRegions}
    {h h' : Host} (hmap : RingRegions.map fd layout h = .ok r h') :
    ∃ ring sqes cqRing, r.sqRing = ⟨some ring⟩ ∧ r.sqes = ⟨some sqes⟩ ∧
      r.completionRegion = ⟨some cqRing⟩ ∧ layout.Measures ring sqes cqRing := by
  obtain ⟨sqes, h₁, hsqes, hrings⟩ := map_steps hmap
  obtain ⟨-, mSqes, rfl, ⟨hsqesLength, -⟩, -⟩ := Region.map_ok (a := .sqes) hsqes
  rcases hrings with ⟨-, ring, hring, rfl⟩ | ⟨-, sqRing, cqRing, h₂, hsqRing, hcqRing, rfl⟩
  · obtain ⟨-, mRing, rfl, ⟨hlength, -⟩, -⟩ := Region.map_ok (a := .sqRing) hring
    exact ⟨mRing, mSqes, mRing, rfl, rfl, rfl, .inr ⟨hlength, rfl⟩, hsqesLength⟩
  · obtain ⟨-, mSq, rfl, ⟨hsqLength, -⟩, -⟩ := Region.map_ok (a := .sqRing) hsqRing
    obtain ⟨-, mCq, rfl, ⟨hcqLength, -⟩, -⟩ := Region.map_ok (a := .cqRing) hcqRing
    exact ⟨mSq, mSqes, mCq, rfl, rfl, rfl, .inl ⟨hsqLength, hcqLength⟩, hsqesLength⟩

/-! ## Attaching to them -/

/-- The places of the words of the header. -/
def SubmissionOffsets.header (off : SubmissionOffsets) : List UInt32 :=
  [off.head, off.tail, off.flags, off.dropped, off.ringMask, off.ringEntries]

/-- The places of the words of the header. -/
def CompletionOffsets.header (off : CompletionOffsets) : List UInt32 :=
  [off.head, off.tail, off.overflow, off.ringMask, off.ringEntries]

/-- Words at these places lie in the first bytes of a ring. -/
def WordsWithin (places : List UInt32) (length : Nat) : Prop :=
  ∀ o ∈ places, o.toNat + 4 ≤ length

-- By the places, not by all offsets that there are.
instance (places : List UInt32) (length : Nat) : Decidable (WordsWithin places length) :=
  List.decidableBAll (fun o : UInt32 => o.toNat + 4 ≤ length) places

/-- A queue is attached if its header, its index array and its entries lie inside. -/
theorem SubmissionQueue.attach_ok {ring sqes : Mapping} {off : SubmissionOffsets} {m : Memory}
    {n : UInt32} (hentries : m.word ring.block off.ringEntries.toNat = n)
    (hheader : WordsWithin off.header ring.length.toNat)
    (harray : ring.Holds off.array.toNat (4 * n.toNat)) (hsqes : sqes.Holds 0 (64 * n.toNat)) :
    attach ⟨some ring⟩ ⟨some sqes⟩ off m = .ok (ofWords ring sqes off m) := by
  have hattach := attach_inside ring sqes off m
  rwa [if_pos] at hattach
  subst hentries
  intro a ha
  simp only [extent, List.mem_cons, List.not_mem_nil, or_false] at ha
  rcases ha with rfl | rfl | rfl | rfl | rfl | rfl | rfl | rfl
  case inr.inr.inr.inr.inr.inr.inl => exact harray
  case inr.inr.inr.inr.inr.inr.inr => exact hsqes
  all_goals exact hheader _ (by simp [SubmissionOffsets.header, ofWords])

theorem CompletionQueue.attach_ok {ring : Mapping} {off : CompletionOffsets} {m : Memory}
    {n : UInt32} (hentries : m.word ring.block off.ringEntries.toNat = n)
    (hheader : WordsWithin off.header ring.length.toNat)
    (hcqes : ring.Holds off.cqes.toNat (16 * n.toNat)) :
    attach ⟨some ring⟩ off m = .ok (ofWords ring off m) := by
  have hattach := attach_inside ring off m
  rwa [if_pos] at hattach
  subst hentries
  intro a ha
  simp only [extent, List.mem_cons, List.not_mem_nil, or_false] at ha
  rcases ha with rfl | rfl | rfl | rfl | rfl | rfl
  case inr.inr.inr.inr.inr => exact hcqes
  all_goals exact hheader _ (by simp [CompletionOffsets.header, ofWords])

/-- An attached queue has all its entries in their mapping. -/
theorem SubmissionQueue.entries_of_attach {ring sqes : Mapping} {off : SubmissionOffsets}
    {m : Memory} {q : SubmissionQueue} (hattach : attach ⟨some ring⟩ ⟨some sqes⟩ off m = .ok q) :
    64 * q.entries.toNat ≤ sqes.length.toNat := by
  have hinside := attach_inside ring sqes off m
  split at hinside
  · next hall =>
    cases hattach.symm.trans hinside
    have hsqes : (⟨sqes, 0, 64 * (ofWords ring sqes off m).entries.toNat⟩ : Access).Inside :=
      hall _ (by simp [extent, ofWords])
    simp only [Access.Inside, Mapping.Holds, Nat.zero_add] at hsqes
    exact hsqes
  · obtain ⟨f, herror, -⟩ := hinside
    cases hattach.symm.trans herror

/-- **The layout is exact and tight.**  For all parameters granted, the lengths are
exact numbers, and one mapping for both rings is as short as it can be.  On
mappings of these lengths both queues can be attached if their headers lie inside
and memory says what was granted.  On the regions that a ring maps, no submission
queue can be attached that is larger than what was granted, whatever memory says. -/
theorem layout_exact (p : Params) :
    let l := Layout.ofParams p
    (l.sqRingLength.toNat = p.sqOffsets.array.toNat + 4 * p.sqEntries.toNat ∧
      l.cqRingLength.toNat = p.cqOffsets.cqes.toNat + 16 * p.cqEntries.toNat ∧
      l.sqesLength.toNat = 64 * p.sqEntries.toNat) ∧
    IsLeast {n | p.sqOffsets.array.toNat + 4 * p.sqEntries.toNat ≤ n ∧
        p.cqOffsets.cqes.toNat + 16 * p.cqEntries.toNat ≤ n} l.combinedLength.toNat ∧
    (∀ ring sqes cqRing m, l.Measures ring sqes cqRing →
      WordsWithin p.sqOffsets.header l.sqRingLength.toNat →
      WordsWithin p.cqOffsets.header l.cqRingLength.toNat →
      m.word ring.block p.sqOffsets.ringEntries.toNat = p.sqEntries →
      m.word cqRing.block p.cqOffsets.ringEntries.toNat = p.cqEntries →
      SubmissionQueue.attach ⟨some ring⟩ ⟨some sqes⟩ p.sqOffsets m =
          .ok (.ofWords ring sqes p.sqOffsets m) ∧
        CompletionQueue.attach ⟨some cqRing⟩ p.cqOffsets m =
          .ok (.ofWords cqRing p.cqOffsets m)) ∧
    ∀ fd r h h', RingRegions.map fd l h = .ok r h' →
      (∃ ring sqes cqRing, r.sqRing = ⟨some ring⟩ ∧ r.sqes = ⟨some sqes⟩ ∧
        r.completionRegion = ⟨some cqRing⟩ ∧ l.Measures ring sqes cqRing) ∧
      ∀ m q, SubmissionQueue.attach r.sqRing r.sqes p.sqOffsets m = .ok q →
        q.entries ≤ p.sqEntries := by
  intro l
  obtain ⟨hsq, hcq, hsqes⟩ := Layout.toNat_ofParams p
  refine ⟨⟨hsq, hcq, hsqes⟩, Layout.isLeast_combinedLength p, ?_, ?_⟩
  · intro ring sqes cqRing m hmeasures hsqHeader hcqHeader hsqEntries hcqEntries
    obtain ⟨hring, hcqRing⟩ := hmeasures.le_length
    have harray : ring.Holds p.sqOffsets.array.toNat (4 * p.sqEntries.toNat) := by
      rw [hsq] at hring
      exact hring
    have hcqes : cqRing.Holds p.cqOffsets.cqes.toNat (16 * p.cqEntries.toNat) := by
      rw [hcq] at hcqRing
      exact hcqRing
    have hslots : sqes.Holds 0 (64 * p.sqEntries.toNat) := by
      rw [Mapping.Holds, hmeasures.sqes, hsqes, Nat.zero_add]
    exact ⟨SubmissionQueue.attach_ok hsqEntries (fun o ho => Nat.le_trans (hsqHeader o ho) hring)
        harray hslots,
      CompletionQueue.attach_ok hcqEntries (fun o ho => Nat.le_trans (hcqHeader o ho) hcqRing)
        hcqes⟩
  · intro fd r h h' hmap
    obtain ⟨ring, sqes, cqRing, hringEq, hsqesEq, hcqRingEq, hmeasures⟩ :=
      RingRegions.measures_of_map hmap
    refine ⟨⟨ring, sqes, cqRing, hringEq, hsqesEq, hcqRingEq, hmeasures⟩, ?_⟩
    intro m q hattach
    rw [hringEq, hsqesEq] at hattach
    have hentries := SubmissionQueue.entries_of_attach hattach
    rw [hmeasures.sqes, hsqes] at hentries
    rw [UInt32.le_iff_toNat_le]
    omega

/-- Both queues of a small ring are attached to one mapping, and no queue of its
regions has more than four slots. -/
theorem layout_exact_small :
    let p := RingSite.smallConfig.grant {}
    let m := RingSite.smallHost.kernel.memory
    SubmissionQueue.attach ⟨some ⟨2, 96⟩⟩ ⟨some ⟨1, 256⟩⟩ p.sqOffsets m =
        .ok (.ofWords ⟨2, 96⟩ ⟨1, 256⟩ p.sqOffsets m) ∧
      CompletionQueue.attach ⟨some ⟨2, 96⟩⟩ p.cqOffsets m =
        .ok (.ofWords ⟨2, 96⟩ p.cqOffsets m) ∧
      ∃ fd r h h', RingRegions.map fd (.ofParams p) h = .ok r h' ∧
        ∀ m q, SubmissionQueue.attach r.sqRing r.sqes p.sqOffsets m = .ok q → q.entries ≤ 4 := by
  intro p m
  obtain ⟨-, -, haccepts, hcapacity⟩ := layout_exact p
  obtain ⟨hsq, hcq⟩ := haccepts ⟨2, 96⟩ ⟨1, 256⟩ ⟨2, 96⟩ m ⟨.inr ⟨rfl, rfl⟩, rfl⟩
    (by decide) (by decide) (by decide +kernel) (by decide +kernel)
  obtain ⟨fd, regions, -, -, h₁, -, -, -, -, hmap, -, -⟩ := Ring.setUp_steps RingSite.setUp_small
  exact ⟨hsq, hcq, fd, regions, h₁, _, hmap, (hcapacity _ _ _ _ hmap).2⟩

end IoRing
