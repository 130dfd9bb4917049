import IoRing.Proofs.Ring.Site

/-!
# Two rings with the same bytes

The same fields may lie in other mappings.  Two sites are *twins* if both are
sound and say the same about offsets and sizes (`RingSite.Twins`).  Two memories
agree if each field holds the same bytes in both, at its place in the one and at
its place in the other (`RingSite.Agree`).

What is read inside a field is then the same in both, and what is stored inside a
field in both keeps them in agreement.  Soundness is needed on both sides for
the second, since a store may not reach into another field on either.
-/

namespace IoRing

/-! ## Fields -/

namespace Fields

variable {F : Type} {l l' : Fields F} {m m' : Memory} {f : F} {i n : Nat}

/-- Each field holds the same bytes in both memories. -/
def Agree (l l' : Fields F) (m m' : Memory) : Prop :=
  ∀ f i, i < l.count f →
    m'.byte (l'.mapping f).block (l'.offset f + i) = m.byte (l.mapping f).block (l.offset f + i)

/-- The memory with bytes stored inside a field. -/
def write (l : Fields F) (m : Memory) (f : F) (i : Nat) (bytes : List UInt8) : Memory :=
  m.write (l.mapping f).block (l.offset f + i) bytes

/-- A store inside a field changes nothing outside of it. -/
theorem sameOutside_write (m : Memory) {bytes : List UInt8} (hi : i + bytes.length ≤ l.count f) :
    SameOutside ([f].map l.place) m (l.write m f i bytes) := by
  refine (m.sameOutside_write (l.mapping f).block (l.offset f + i) bytes).widen ?_
  exact ⟨rfl, Nat.le_add_right _ _, by simp only [place, Mapping.place]; omega⟩

namespace Agree

/-- Memories that do not change inside the fields stay in agreement. -/
theorem congr {m₁ m₁' : Memory} (h : Agree l l' m m') (hcount : ∀ f, l'.count f = l.count f)
    (hsame : ∀ f, SameAt (l.place f) m m₁) (hsame' : ∀ f, SameAt (l'.place f) m' m₁') :
    Agree l l' m₁ m₁' := by
  intro f i hi
  have hi' : i < l'.count f := by rwa [hcount]
  have hold : m₁.byte (l.mapping f).block (l.offset f + i) =
      m.byte (l.mapping f).block (l.offset f + i) :=
    hsame f _ (Nat.le_add_right _ _) (Nat.add_lt_add_left hi _)
  have hold' : m₁'.byte (l'.mapping f).block (l'.offset f + i) =
      m'.byte (l'.mapping f).block (l'.offset f + i) :=
    hsame' f _ (Nat.le_add_right _ _) (Nat.add_lt_add_left hi' _)
  rw [hold, hold', h f i hi]

theorem read_eq (h : Agree l l' m m') (hi : i + n ≤ l.count f) :
    m'.read (l'.mapping f).block (l'.offset f + i) n =
      m.read (l.mapping f).block (l.offset f + i) n := by
  simp only [Memory.read, List.map_inj_left, List.mem_range]
  intro j hj
  have hbyte := h f (i + j) (by omega)
  rwa [← Nat.add_assoc, ← Nat.add_assoc] at hbyte

theorem word_eq (h : Agree l l' m m') (hi : i + 4 ≤ l.count f) :
    m'.word (l'.mapping f).block (l'.offset f + i) =
      m.word (l.mapping f).block (l.offset f + i) := by
  rw [Memory.word, Memory.word, h.read_eq hi]

theorem fieldWord_eq (h : Agree l l' m m') (f : F) (hf : l.count f = 4) :
    l'.word m' f = l.word m f :=
  h.word_eq (i := 0) (by omega)

theorem write (h : Agree l l' m m') (hl : l.Sound) (hl' : l'.Sound)
    (hcount : ∀ f, l'.count f = l.count f) {bytes : List UInt8}
    (hi : i + bytes.length ≤ l.count f) :
    Agree l l' (l.write m f i bytes) (l'.write m' f i bytes) := by
  intro g j hj
  by_cases hg : g = f
  · subst hg
    have hin : l.offset g + i ≤ l.offset g + j ↔ l'.offset g + i ≤ l'.offset g + j := by omega
    have hat : l.offset g + j - (l.offset g + i) = l'.offset g + j - (l'.offset g + i) := by omega
    simp only [Fields.write, Memory.byte_write, true_and, hin, hat, h g j hj]
  · -- A store inside `f` misses `g`, wherever the two fields are mapped.
    have hother {l : Fields F} {m : Memory} (hl : l.Sound) (hi : i + bytes.length ≤ l.count f)
        (hj : j < l.count g) :
        (l.write m f i bytes).byte (l.mapping g).block (l.offset g + j) =
          m.byte (l.mapping g).block (l.offset g + j) := by
      have hsame := hl.sameAt (sameOutside_write m hi) (by simpa using hg)
      exact hsame _ (Nat.le_add_right _ _) (Nat.add_lt_add_left hj _)
    rw [hother hl hi hj, hother hl' (by rwa [hcount]) (by rwa [hcount]), h g j hj]

end Agree

end Fields

/-! ## Sites -/

namespace RingSite

/-- Two sound sites with the same offsets and sizes. -/
structure Twins (s s' : RingSite) : Prop where
  sound : s.Sound
  sound' : s'.Sound
  offsets_eq : s'.submission.offsets = s.submission.offsets
  entries_eq : s'.submission.entries = s.submission.entries
  cqOffsets_eq : s'.cqOffsets = s.cqOffsets
  cqEntries_eq : s'.cqEntries = s.cqEntries

/-- All fields hold the same bytes in both memories. -/
structure Agree (s s' : RingSite) (m m' : Memory) : Prop where
  submission : s.submission.fields.Agree s'.submission.fields m m'
  completion : s.completion.fields.Agree s'.completion.fields m m'

/-- They agree, and the sizes and masks among the bytes are those of the site. -/
structure Alike (s s' : RingSite) (m m' : Memory) : Prop extends s.Agree s' m m' where
  formatted : s.Formatted m

variable {s s' : RingSite} {m m' : Memory} {f : SubmissionField} {g : CompletionField} {i : Nat}

namespace Twins

theorem sqOffset_eq (ht : s.Twins s') (f : SubmissionField) :
    s'.submission.fields.offset f = s.submission.fields.offset f := by
  cases f <;> simp only [SubmissionSite.fields, ht.offsets_eq]

theorem cqOffset_eq (ht : s.Twins s') (g : CompletionField) :
    s'.completion.fields.offset g = s.completion.fields.offset g := by
  cases g <;> simp only [CompletionSite.fields, completion, ht.offsets_eq, ht.cqOffsets_eq]

theorem sqCount_eq (ht : s.Twins s') (f : SubmissionField) :
    s'.submission.fields.count f = s.submission.fields.count f := by
  cases f <;> simp only [SubmissionSite.fields, ht.entries_eq]

theorem cqCount_eq (ht : s.Twins s') (g : CompletionField) :
    s'.completion.fields.count g = s.completion.fields.count g := by
  cases g <;> simp only [CompletionSite.fields, completion, ht.cqEntries_eq]

end Twins

namespace Agree

theorem writeSubmission (h : s.Agree s' m m') (ht : s.Twins s') {bytes : List UInt8}
    (hi : i + bytes.length ≤ s.submission.fields.count f) :
    s.Agree s' (s.submission.fields.write m f i bytes)
      (s'.submission.fields.write m' f i bytes) := by
  have hi' : i + bytes.length ≤ s'.submission.fields.count f := by rwa [ht.sqCount_eq]
  have hsame := s.submission.fields.sameOutside_write m hi
  have hsame' := s'.submission.fields.sameOutside_write m' hi'
  constructor
  case submission =>
    exact h.submission.write ht.sound.submission.toSound ht.sound'.submission.toSound
      ht.sqCount_eq hi
  case completion =>
    by_cases hflags : f = .flags
    · -- The flags are a field of the completion side too.
      subst hflags
      exact h.completion.write (f := .flags) ht.sound.completion.toSound
        ht.sound'.completion.toSound ht.cqCount_eq hi
    · exact h.completion.congr ht.cqCount_eq
        (ht.sound.completion_sameAt hsame (by simpa using Ne.symm hflags))
        (ht.sound'.completion_sameAt hsame' (by simpa using Ne.symm hflags))

theorem writeCompletion (h : s.Agree s' m m') (ht : s.Twins s') (hg : g ≠ .flags)
    {bytes : List UInt8} (hi : i + bytes.length ≤ s.completion.fields.count g) :
    s.Agree s' (s.completion.fields.write m g i bytes)
      (s'.completion.fields.write m' g i bytes) := by
  have hi' : i + bytes.length ≤ s'.completion.fields.count g := by rwa [ht.cqCount_eq]
  have hsame := s.completion.fields.sameOutside_write m hi
  have hsame' := s'.completion.fields.sameOutside_write m' hi'
  constructor
  case submission =>
    have hflags : .flags ∉ [g] := by simpa using hg.symm
    exact h.submission.congr ht.sqCount_eq (ht.sound.submission_sameAt_of_notMem hsame hflags)
      (ht.sound'.submission_sameAt_of_notMem hsame' hflags)
  case completion =>
    exact h.completion.write ht.sound.completion.toSound ht.sound'.completion.toSound
      ht.cqCount_eq hi

end Agree

namespace Alike

theorem formatted' (h : s.Alike s' m m') (ht : s.Twins s') : s'.Formatted m' := by
  refine ⟨⟨?_, ?_⟩, ?_, ?_⟩
  · exact (h.submission.fieldWord_eq .ringEntries rfl).trans
      (h.formatted.submission.entries_eq.trans ht.entries_eq.symm)
  · exact (h.submission.fieldWord_eq .ringMask rfl).trans
      (h.formatted.submission.mask_eq.trans (congrArg (· - 1) ht.entries_eq.symm))
  · exact (h.completion.fieldWord_eq .ringEntries rfl).trans
      (h.formatted.completion.entries_eq.trans ht.cqEntries_eq.symm)
  · exact (h.completion.fieldWord_eq .ringMask rfl).trans
      (h.formatted.completion.mask_eq.trans (congrArg (· - 1) ht.cqEntries_eq.symm))

/-- The same bytes stored on the submission side, but not over the size or the
mask. -/
theorem writeSubmission (h : s.Alike s' m m') (ht : s.Twins s')
    (hf : f ∉ [SubmissionField.ringEntries, .ringMask]) {bytes : List UInt8}
    (hi : i + bytes.length ≤ s.submission.fields.count f) :
    s.Alike s' (s.submission.fields.write m f i bytes)
      (s'.submission.fields.write m' f i bytes) := by
  refine ⟨h.toAgree.writeSubmission ht hi, ?_⟩
  have hsame := s.submission.fields.sameOutside_write m hi
  have hsq {g : SubmissionField} (hg : g ∈ [SubmissionField.ringEntries, .ringMask]) :
      SameAt (s.submission.place g) m (s.submission.fields.write m f i bytes) :=
    ht.sound.submission.sameAt hsame (by
      rw [List.mem_singleton]
      rintro rfl
      exact hf hg)
  exact ⟨h.formatted.submission.congr (hsq (by simp)) (hsq (by simp)),
    h.formatted.completion.congr
      (ht.sound.completion_sameAt_of_ne hsame (by decide))
      (ht.sound.completion_sameAt_of_ne hsame (by decide))⟩

/-- The same bytes stored on the completion side, but not over the size or the
mask. -/
theorem writeCompletion (h : s.Alike s' m m') (ht : s.Twins s')
    (hg : g ∉ [CompletionField.ringEntries, .ringMask, .flags]) {bytes : List UInt8}
    (hi : i + bytes.length ≤ s.completion.fields.count g) :
    s.Alike s' (s.completion.fields.write m g i bytes)
      (s'.completion.fields.write m' g i bytes) := by
  have hflags : g ≠ .flags := by
    rintro rfl
    simp at hg
  refine ⟨h.toAgree.writeCompletion ht hflags hi, ?_⟩
  have hsame := s.completion.fields.sameOutside_write m hi
  have hcq {f : CompletionField} (hf : f ∈ [CompletionField.ringEntries, .ringMask, .flags]) :
      SameAt (s.completion.place f) m (s.completion.fields.write m g i bytes) :=
    ht.sound.completion.sameAt hsame (by
      rw [List.mem_singleton]
      rintro rfl
      exact hg hf)
  exact ⟨h.formatted.submission.congr (ht.sound.submission_sameAt hsame (by decide))
      (ht.sound.submission_sameAt hsame (by decide)),
    h.formatted.completion.congr (hcq (by simp)) (hcq (by simp))⟩

end Alike

end RingSite

end IoRing
