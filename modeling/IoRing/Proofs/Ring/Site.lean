import IoRing.Proofs.Completion.Site
import IoRing.Proofs.Submission.Site
import IoRing.Ring

/-!
# The site of a ring

A ring stands on a submission site and a completion site that share the flags,
and nothing else.  So what is written on one side, flags apart, leaves the other
side alone.

A ring that was opened fixes its site: the granted parameters say where the
fields are, and the mapped regions say in which mappings
(`RingRegions.site?`).
-/

namespace IoRing

/-- Where a ring lies and how large its queues are. -/
structure RingSite where
  /-- The site of the submission ring. -/
  submission : SubmissionSite
  /-- The mapping of the completion ring. -/
  cqRing : Mapping
  /-- Where its fields are. -/
  cqOffsets : CompletionOffsets
  /-- The number of its slots. -/
  cqEntries : UInt32

/-- The site of an opened ring. -/
def RingRegions.site? (r : RingRegions) (granted : Params) : Option RingSite :=
  match r.sqRing.mapping?, r.sqes.mapping?, r.completionRegion.mapping? with
  | some sqRing, some sqes, some cqRing =>
      some ⟨⟨sqRing, sqes, granted.sqOffsets, granted.sqEntries⟩, cqRing, granted.cqOffsets,
        granted.cqEntries⟩
  | _, _, _ => none

namespace RingSite

variable (s : RingSite)

/-- The site of the completion ring. -/
def completion : CompletionSite :=
  ⟨s.cqRing, s.cqOffsets, s.cqEntries, s.submission.ring, s.submission.offsets.flags⟩

/-- Both sides are sound, and they share no byte but those of the flags. -/
structure Sound : Prop where
  submission : s.submission.Sound
  completion : s.completion.Sound
  apart : ∀ f g, f ≠ .flags → g ≠ .flags → (s.submission.place f).Apart (s.completion.place g)

/-- The sizes and masks in memory are those of the site. -/
structure Formatted (m : Memory) : Prop where
  submission : s.submission.Formatted m
  completion : s.completion.Formatted m

variable {s} {m m' : Memory}

section

variable {f : SubmissionField} {g : CompletionField}

/-- Whatever is not the flags is apart from the whole other side. -/
theorem Sound.apart_completion (hs : s.Sound) (hf : f ≠ .flags) (g : CompletionField) :
    (s.submission.place f).Apart (s.completion.place g) := by
  by_cases hg : g = .flags
  · subst hg
    exact hs.submission.apart f .flags hf
  · exact hs.apart f g hf hg

/-- The two rings do not overlap, also where they share a mapping. -/
theorem Sound.apart_submission (hs : s.Sound) (hg : g ≠ .flags) (f : SubmissionField) :
    (s.completion.place g).Apart (s.submission.place f) := by
  by_cases hf : f = .flags
  · subst hf
    exact hs.completion.apart g .flags hg
  · exact (hs.apart f g hf hg).symm

/-- Writing on the submission side leaves the completion side alone. -/
theorem Sound.completion_sameAt (hs : s.Sound) {fs : List SubmissionField}
    (h : SameOutside (fs.map s.submission.place) m m') (hfs : .flags ∉ fs) (g : CompletionField) :
    SameAt (s.completion.place g) m m' := by
  refine h.sameAt fun p hp => ?_
  obtain ⟨f, hf, rfl⟩ := List.mem_map.mp hp
  refine hs.apart_completion ?_ g
  rintro rfl
  exact hfs hf

/-- Even if the flags are written, only the flags change on the completion side. -/
theorem Sound.completion_sameAt_of_ne (hs : s.Sound) {fs : List SubmissionField}
    (h : SameOutside (fs.map s.submission.place) m m') (hg : g ≠ .flags) :
    SameAt (s.completion.place g) m m' := by
  refine h.sameAt fun p hp => ?_
  obtain ⟨f, -, rfl⟩ := List.mem_map.mp hp
  exact (hs.apart_submission hg f).symm

/-- Writing on the completion side leaves the submission side alone. -/
theorem Sound.submission_sameAt_of_notMem (hs : s.Sound) {gs : List CompletionField}
    (h : SameOutside (gs.map s.completion.place) m m') (hgs : .flags ∉ gs) (f : SubmissionField) :
    SameAt (s.submission.place f) m m' := by
  refine h.sameAt fun p hp => ?_
  obtain ⟨g, hg, rfl⟩ := List.mem_map.mp hp
  refine hs.apart_submission ?_ f
  rintro rfl
  exact hgs hg

/-- Even if the flags are written, only the flags change on the submission side. -/
theorem Sound.submission_sameAt (hs : s.Sound) {gs : List CompletionField}
    (h : SameOutside (gs.map s.completion.place) m m') (hf : f ≠ .flags) :
    SameAt (s.submission.place f) m m' := by
  refine h.sameAt fun p hp => ?_
  obtain ⟨g, -, rfl⟩ := List.mem_map.mp hp
  exact (hs.apart_completion hf g).symm

end

end RingSite

/-! ## The kernel at a site -/

/-- The kernel works on the ring of the site. -/
structure Kernel.Serves (k : Kernel) (s : RingSite) : Prop
    extends k.ServesSubmission s.submission where
  cqRing : k.mapping? .cqRing = some s.cqRing
  cqOffsets : k.granted.cqOffsets = s.cqOffsets
  cqEntries : k.granted.cqEntries = s.cqEntries

namespace Kernel.Serves

variable {k : Kernel} {s : RingSite}

theorem completion (hk : k.Serves s) : k.ServesCompletion s.completion :=
  ⟨hk.cqRing, hk.cqOffsets, hk.cqEntries, hk.ring, congrArg SubmissionOffsets.flags hk.offsets⟩

theorem withMemory (hk : k.Serves s) (m : Memory) : (k.withMemory m).Serves s :=
  ⟨hk.toServesSubmission.withMemory m, by simpa using hk.cqRing, hk.cqOffsets, hk.cqEntries⟩

end Kernel.Serves

end IoRing
