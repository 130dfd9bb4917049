import IoRing.Proofs.Ring.Construction
import IoRing.Proofs.Twins.Presets
import IoRing.Proofs.Twins.Sessions

/-!
# One mapping or two for the same rings

A kernel's features say whether both rings share one mapping.  Nothing else about
its configuration does, so the same offsets must serve both layouts
(`KernelConfig.MapsEitherWay`).

Then the two sites are twins, and the kernels preset the same bytes into the
fields of both (`KernelConfig.MapsEitherWay.alike_presetAt`).  A ring is set up
under either layout (`KernelConfig.MapsEitherWay.setUp_ok`), and the two rings and
their kernels are twins.
-/

namespace IoRing

theorem Kernel.unmapped_withParts (k : Kernel) (ps : List Part) :
    (k.withParts ps).unmapped = k.unmapped := by
  induction ps generalizing k with
  | nil => rfl
  | cons p ps ih =>
    have hpart : (k.withPart p).unmapped = k.unmapped := by
      unfold withPart
      cases p.area <;> rfl
    exact (ih (k.withPart p)).trans hpart

/-! ## Configurations -/

namespace KernelConfig

variable (c : KernelConfig)

/-- The configuration that grants one mapping for both rings, or one for each. -/
def withSingleMap (single : Bool) : KernelConfig :=
  { c with
    features :=
      if single then c.features ||| Feature.singleMap else c.features &&& ~~~Feature.singleMap }

def layout (single : Bool) : Layout := { Layout.ofParams (c.grant {}) with singleMap := single }

/-- The site of the first ring. -/
def site (single : Bool) : RingSite := (c.layout single).site 0 (c.grant {})

/-- The configuration grants a ring that can be mapped either way.

`sound` is about the site with both rings in one mapping, so no two fields share
a byte by their offsets alone.  But each ring also keeps to its own length.  What
is preset in a ring lies in its fields, and the last words preset for the size and
the mask are those of the size granted. -/
structure MapsEitherWay : Prop where
  fd_nonneg : 0 ≤ c.fd
  setupError?_eq : c.setupError? = none
  mapFailures_eq : ∀ area, c.mapFailures.ofArea area = none
  unmapErrors_eq : c.unmapErrors = []
  sqRingLength_le : (c.layout true).sqRingLength ≤ Kernel.mapLimit
  cqRingLength_le : (c.layout true).cqRingLength ≤ Kernel.mapLimit
  sqesLength_le : (c.layout true).sqesLength ≤ Kernel.mapLimit
  sound : (c.site true).Sound
  sqInside : ∀ f, f ≠ .sqes → (c.site true).submission.fields.offset f +
    (c.site true).submission.fields.count f ≤ (c.layout true).sqRingLength.toNat
  cqInside : ∀ g, g ≠ .flags → (c.site true).completion.fields.offset g +
    (c.site true).completion.fields.count g ≤ (c.layout true).cqRingLength.toNat
  sqPresets : ∀ w ∈ c.presets.sqRing, ∃ f, f ≠ .sqes ∧
    (c.site true).submission.fields.Covers f w.1 4
  cqPresets : ∀ w ∈ c.presets.cqRing, ∃ g, g ≠ .flags ∧
    (c.site true).completion.fields.Covers g w.1 4
  sqSize_eq : c.presets.sqRing.reverse.lookup c.sqOffsets.ringEntries.toNat = some c.sqEntries
  sqMask_eq : c.presets.sqRing.reverse.lookup c.sqOffsets.ringMask.toNat = some (c.sqEntries - 1)
  cqSize_eq : c.presets.cqRing.reverse.lookup c.cqOffsets.ringEntries.toNat = some c.cqEntries
  cqMask_eq : c.presets.cqRing.reverse.lookup c.cqOffsets.ringMask.toNat = some (c.cqEntries - 1)

@[simp] theorem singleMap_withSingleMap (single : Bool) :
    (c.withSingleMap single).singleMap = single := by
  cases single with
  | true =>
    have hmask : (c.features ||| Feature.singleMap) &&& Feature.singleMap = Feature.singleMap := by
      apply UInt32.toBitVec_inj.mp
      ext i
      simpa using fun h => Or.inr h
    exact bne_iff_ne.mpr fun h => absurd (hmask.symm.trans h) (by decide)
  | false =>
    have hmask : (c.features &&& ~~~Feature.singleMap) &&& Feature.singleMap = 0 := by
      rw [UInt32.and_assoc, UInt32.not_and_self, UInt32.and_zero]
    exact bne_eq_false_iff_eq.mpr hmask

theorem ofParams_grant (single : Bool) (asked : Params) :
    Layout.ofParams ((c.withSingleMap single).grant asked) = c.layout single := by
  have hsingle : ((c.withSingleMap single).grant asked).hasFeature Feature.singleMap = single :=
    c.singleMap_withSingleMap single
  rw [Layout.ofParams, hsingle]
  rfl

/-! ## What the layouts say -/

/-- The completion ring has the third mapping, and all else has an earlier one. -/
theorem block_submission (f : SubmissionField) :
    ((c.site false).submission.place f).block < 3 := by
  cases f <;> first | exact Nat.lt_succ_self 2 | exact Nat.lt_succ_of_lt (Nat.lt_succ_self 1)

theorem block_completion {g : CompletionField} (hg : g ≠ .flags) :
    ((c.site false).completion.place g).block = 3 := by
  cases g <;> first | rfl | exact absurd rfl hg

theorem block_shared (g : CompletionField) : ((c.site true).completion.place g).block = 2 := by
  cases g <;> rfl

theorem toNat_sqesLength (single : Bool) :
    (c.layout single).sqesLength.toNat = 64 * c.sqEntries.toNat := by
  have hlt := c.sqEntries.toNat_lt
  change (64 * c.sqEntries.toUInt64).toNat = _
  rw [UInt64.toNat_mul, UInt32.toNat_toUInt64]
  exact Nat.mod_eq_of_lt (by change 64 * _ < _; omega)

/-! ## The first ring -/

/-- The memory with all presets at a site. -/
def presetAt (s : RingSite) : Memory :=
  s.cqRing.preset (s.submission.ring.preset (s.submission.sqes.preset .zero c.presets.sqes)
    c.presets.sqRing) c.presets.cqRing

/-- The kernel that is about to map its first ring. -/
def begun (single : Bool) (asked : Params) : Kernel :=
  (Kernel.ofConfig (c.withSingleMap single)).withRing asked

/-- The kernel after it mapped its first ring. -/
def mapped (single : Bool) (asked : Params) : Kernel :=
  (c.begun single asked).withParts (c.layout single).parts

/-- Under either layout each ring has its presets in the mapping that holds it. -/
theorem memory_mapped (single : Bool) (asked : Params) :
    (c.mapped single asked).memory = c.presetAt (c.site single) := by
  have hshared : (c.begun single asked).sharedRings = single := c.singleMap_withSingleMap single
  have hfresh : (c.begun single asked).Fresh := fun _ _ _ => rfl
  have hsqes : (c.begun single asked).presetsOf .sqes = c.presets.sqes := rfl
  have hcq : (c.begun single asked).presetsOf .cqRing = c.presets.cqRing := rfl
  have hsq : (c.begun single asked).presetsOf .sqRing =
      if single then c.presets.sqRing ++ c.presets.cqRing else c.presets.sqRing := by
    rw [Kernel.presetsOf, hshared]
    rfl
  cases single with
  | true =>
    have hmemory := (hfresh.withPart ⟨.sqes, (c.layout true).sqesLength, "sqes"⟩).memory_withPart
      ⟨.sqRing, (c.layout true).combinedLength, "sq/cq ring"⟩
    rw [Kernel.presetsOf_withPart, hsq, hfresh.memory_withPart, hsqes, if_pos rfl,
      Mapping.preset_append] at hmemory
    exact hmemory
  | false =>
    have hmemory := ((hfresh.withPart ⟨.sqes, (c.layout false).sqesLength, "sqes"⟩).withPart
      ⟨.sqRing, (c.layout false).sqRingLength, "sq ring"⟩).memory_withPart
        ⟨.cqRing, (c.layout false).cqRingLength, "cq ring"⟩
    rw [Kernel.presetsOf_withPart, Kernel.presetsOf_withPart, hcq,
      (hfresh.withPart _).memory_withPart, Kernel.presetsOf_withPart, hsq, hfresh.memory_withPart,
      hsqes, if_neg Bool.false_ne_true] at hmemory
    exact hmemory

theorem serves_mapped (single : Bool) (asked : Params) :
    (c.mapped single asked).Serves (c.site single) :=
  (c.layout single).serves_withParts (k := c.begun single asked)
    (c.singleMap_withSingleMap single)

/-- The host after the first ring was set up. -/
def opened (single : Bool) (entries : UInt32) (asked : Params) : Host :=
  ((Host.ofKernel (.ofConfig (c.withSingleMap single))).withRing entries asked).withParts c.fd
    (c.layout single).parts

def ring (single : Bool) (asked : Params) : Ring :=
  .built c.fd ((c.withSingleMap single).grant asked) (c.begun single asked)

namespace MapsEitherWay

variable {c} (hc : c.MapsEitherWay)
include hc

/-! ### Sites -/

theorem sound_split : (c.site false).Sound where
  submission := {
    isRingSize := hc.sound.submission.isRingSize
    fits := fun f => by
      by_cases hf : f = .sqes
      · subst hf
        exact hc.sound.submission.fits .sqes
      · have hinside := hc.sqInside f hf
        cases f <;> first | exact absurd rfl hf | exact hinside
    apart := fun f g hne => by
      have hapart := hc.sound.submission.apart f g hne
      cases f <;> cases g <;> exact hapart }
  completion := {
    isRingSize := hc.sound.completion.isRingSize
    fits := fun g => by
      by_cases hg : g = .flags
      · subst hg
        exact hc.sqInside .flags (by decide)
      · have hinside := hc.cqInside g hg
        cases g <;> first | exact absurd rfl hg | exact hinside
    apart := fun f g hne => by
      by_cases hf : f = .flags
      · subst hf
        exact .inl (Nat.ne_of_lt (c.block_completion hne.symm ▸ c.block_submission .flags))
      · by_cases hg : g = .flags
        · subst hg
          exact .inl (Nat.ne_of_gt (c.block_completion hf ▸ c.block_submission .flags))
        · -- Apart in one mapping, they are so by their offsets.
          rcases hc.sound.completion.apart f g hne with hblock | hranges
          · exact absurd ((c.block_shared f).trans (c.block_shared g).symm) hblock
          · exact .inr hranges }
  apart f g hf hg := .inl (Nat.ne_of_lt (c.block_completion hg ▸ c.block_submission f))

theorem twins : (c.site false).Twins (c.site true) :=
  ⟨hc.sound_split, hc.sound, rfl, rfl, rfl, rfl⟩

/-! ### Presets -/

theorem agree_presetAt :
    (c.site false).Agree (c.site true) (c.presetAt (c.site false)) (c.presetAt (c.site true)) := by
  have ht := hc.twins
  refine Mapping.preset_induction (Mapping.preset_induction (Mapping.preset_induction ?_ ?_) ?_) ?_
  · exact ⟨fun _ _ _ => rfl, fun _ _ _ => rfl⟩
  · intro w _ m m' hm
    by_cases hin : (c.site true).submission.sqes.Holds w.1 4
    · have hcovers : (c.site false).submission.fields.Covers .sqes w.1 4 := by
        refine ⟨Nat.zero_le _, ?_⟩
        change _ ≤ 0 + 64 * c.sqEntries.toNat
        rw [← c.toNat_sqesLength true, Nat.zero_add]
        exact hin
      exact hm.guardedSetSubmission ht hcovers w.2
    · -- Outside the array the store is refused on both sides.
      have hout : ¬ (c.site false).submission.sqes.Holds w.1 4 := hin
      rw [Mapping.guardedSetWord, Mapping.guardedSetWord, if_neg hin, if_neg hout]
      exact hm
  · intro w hw m m' hm
    obtain ⟨f, hf, hin⟩ := hc.sqPresets w hw
    have hset := hm.guardedSetSubmission (f := f) ht hin w.2
    cases f <;> first | exact absurd rfl hf | exact hset
  · intro w hw m m' hm
    obtain ⟨g, hg, hin⟩ := hc.cqPresets w hw
    have hset := hm.guardedSetCompletion (g := g) ht hg hin w.2
    cases g <;> first | exact absurd rfl hg | exact hset

theorem formatted_presetAt : (c.site false).Formatted (c.presetAt (c.site false)) := by
  have hsqWords : ∀ w ∈ c.presets.sqRing, ∃ f, (c.site false).submission.fields.mapping f =
      (c.site false).submission.ring ∧ (c.site false).submission.fields.Covers f w.1 4 := by
    intro w hw
    obtain ⟨f, hf, hin⟩ := hc.sqPresets w hw
    refine ⟨f, ?_, hin⟩
    cases f <;> first | exact absurd rfl hf | rfl
  have hcqWords : ∀ w ∈ c.presets.cqRing, ∃ g, (c.site false).completion.fields.mapping g =
      (c.site false).cqRing ∧ (c.site false).completion.fields.Covers g w.1 4 := by
    intro w hw
    obtain ⟨g, hg, hin⟩ := hc.cqPresets w hw
    refine ⟨g, ?_, hin⟩
    cases g <;> first | exact absurd rfl hg | rfl
  -- The completion ring is preset last, in a mapping of its own.
  have hsame (f : SubmissionField) (m : Memory) : SameAt ((c.site false).submission.place f) m
      ((c.site false).cqRing.preset m c.presets.cqRing) := fun i _ _ =>
    Mapping.byte_preset_of_ne _ m _ (Nat.ne_of_gt (c.block_submission f)) i
  have hsubmission := hc.sound_split.submission.toSound
  have hcompletion := hc.sound_split.completion.toSound
  refine ⟨⟨?_, ?_⟩, ?_, ?_⟩
  · exact (Fields.word_congr rfl (hsame .ringEntries _)).trans
      (hsubmission.word_preset _ .ringEntries rfl rfl hsqWords hc.sqSize_eq)
  · exact (Fields.word_congr rfl (hsame .ringMask _)).trans
      (hsubmission.word_preset _ .ringMask rfl rfl hsqWords hc.sqMask_eq)
  · exact hcompletion.word_preset _ .ringEntries rfl rfl hcqWords hc.cqSize_eq
  · exact hcompletion.word_preset _ .ringMask rfl rfl hcqWords hc.cqMask_eq

theorem alike_presetAt :
    (c.site false).Alike (c.site true) (c.presetAt (c.site false)) (c.presetAt (c.site true)) :=
  ⟨hc.agree_presetAt, hc.formatted_presetAt⟩

theorem sound_site (single : Bool) : (c.site single).Sound := by
  cases single with
  | true => exact hc.sound
  | false => exact hc.sound_split

theorem formatted_site (single : Bool) :
    (c.site single).Formatted (c.presetAt (c.site single)) := by
  cases single with
  | true => exact hc.alike_presetAt.formatted' hc.twins
  | false => exact hc.formatted_presetAt

theorem lengths_ne_zero (single : Bool) :
    (c.layout single).sqesLength ≠ 0 ∧ (c.layout single).sqRingLength ≠ 0 ∧
      (c.layout single).cqRingLength ≠ 0 := by
  have hpos {length : UInt64} {n : Nat} (hn : 0 < n) (hle : n ≤ length.toNat) : length ≠ 0 := by
    rintro rfl
    exact absurd hle (Nat.not_le.mpr hn)
  have hsq : 0 < c.sqEntries.toNat := hc.sound.submission.isRingSize.pos
  have hcq : 0 < c.cqEntries.toNat := hc.sound.completion.isRingSize.pos
  -- Each ring is at least as long as the array that ends it.
  refine ⟨?_, ?_, ?_⟩
  · exact hpos hsq (by rw [c.toNat_sqesLength]; omega)
  · exact hpos (Nat.mul_pos (by decide : 0 < 4) hsq)
      (Nat.le_trans (Nat.le_add_left _ _) (hc.sqInside .array (by decide)))
  · exact hpos (Nat.mul_pos (by decide : 0 < 16) hcq)
      (Nat.le_trans (Nat.le_add_left _ _) (hc.cqInside .cqes (by decide)))

theorem part_fault?_eq {single : Bool} {p : Part} (hp : p ∈ (c.layout single).parts) :
    p.fault? (c.withSingleMap single) = none := by
  obtain ⟨hsqes, hsq, hcq⟩ := hc.lengths_ne_zero single
  have hlength : p.length ≠ 0 ∧ p.length ≤ Kernel.mapLimit := by
    cases single with
    | true =>
      simp only [Layout.parts, layout, if_true, List.mem_cons, List.not_mem_nil, or_false] at hp
      rcases hp with rfl | rfl
      · exact ⟨hsqes, hc.sqesLength_le⟩
      · -- The combined length is that of one of the rings.
        change (c.layout true).combinedLength ≠ 0 ∧ (c.layout true).combinedLength ≤ _
        unfold Layout.combinedLength
        split
        · exact ⟨hsq, hc.sqRingLength_le⟩
        · exact ⟨hcq, hc.cqRingLength_le⟩
    | false =>
      simp only [Layout.parts, layout, Bool.false_eq_true, if_false, List.mem_cons,
        List.not_mem_nil, or_false] at hp
      rcases hp with rfl | rfl | rfl
      · exact ⟨hsqes, hc.sqesLength_le⟩
      · exact ⟨hsq, hc.sqRingLength_le⟩
      · exact ⟨hcq, hc.cqRingLength_le⟩
  exact Part.fault?_eq_none hlength.1 hlength.2 (hc.mapFailures_eq p.area)

/-- The queues that the words of the rings describe are those of the site. -/
theorem built_eq (single : Bool) (asked : Params) :
    RingBody.built c.fd ((c.withSingleMap single).grant asked) (c.begun single asked) =
      ⟨c.fd, (c.layout single).regions 0,
        (c.site single).submission.queue
          ((c.site single).submission.word (c.presetAt (c.site single)) .tail),
        (c.site single).completion.queue
          ((c.site single).completion.word (c.presetAt (c.site single)) .head)⟩ ∧
    (c.begun single asked).buildFault? ((c.withSingleMap single).grant asked) = none := by
  have hsq := (hc.sound_site single).submission.attach_eq (hc.formatted_site single).submission
  have hcq := (hc.sound_site single).completion.attach_eq (hc.formatted_site single).completion
  rw [SubmissionQueue.attach_eq, unlessFault_eq_ok_iff] at hsq
  rw [CompletionQueue.attach_eq, unlessFault_eq_ok_iff] at hcq
  obtain ⟨hsqInside, hsq⟩ := hsq
  obtain ⟨hcqInside, hcq⟩ := hcq
  have hparts : (c.layout single).parts.findSome? (·.fault? (c.withSingleMap single)) = none :=
    List.findSome?_eq_none_iff.mpr fun p hp => hc.part_fault?_eq hp
  have hbuilt (fd : Int32) :
      RingBody.built fd ((c.withSingleMap single).grant asked) (c.begun single asked) =
        ⟨fd, (c.layout single).regions 0,
          (c.site single).submission.queue
            ((c.site single).submission.word (c.presetAt (c.site single)) .tail),
          (c.site single).completion.queue
            ((c.site single).completion.word (c.presetAt (c.site single)) .head)⟩ := by
    rw [← hsq, ← hcq, ← c.memory_mapped single asked, RingBody.built, c.ofParams_grant]
    rfl
  refine ⟨hbuilt c.fd, ?_⟩
  have hconfig : (c.begun single asked).config = c.withSingleMap single := rfl
  rw [hsq] at hsqInside
  rw [hcq] at hcqInside
  rw [Kernel.buildFault?, c.ofParams_grant, hconfig, hparts, hbuilt, RingBody.windows]
  simp only [List.findSome?_append, hsqInside, hcqInside, Option.or_none]

/-! ### Opening -/

variable (asked : Params)

theorem twins_mapped :
    Kernel.Twins (c.site false) (c.site true) (c.mapped false asked) (c.mapped true asked) where
  sites := hc.twins
  serves := c.serves_mapped false asked
  serves' := c.serves_mapped true asked
  alike := by
    rw [c.memory_mapped, c.memory_mapped]
    exact hc.alike_presetAt
  unmapped_eq := by
    rw [mapped, mapped, Kernel.unmapped_withParts, Kernel.unmapped_withParts]
    rfl
  unmapErrors_eq := by
    rw [mapped, Kernel.config_withParts]
    exact hc.unmapErrors_eq

theorem setUp_ok {entries : UInt32} (hvalid : asked.validate entries = .ok ())
    (single : Bool) :
    Ring.setUp entries asked (.ofKernel (.ofConfig (c.withSingleMap single))) =
      .ok ⟨.ok (c.ring single asked), (c.withSingleMap single).grant asked⟩
        (c.opened single entries asked) := by
  have hfailure : (Kernel.ofConfig (c.withSingleMap single)).setupFailure? = none := by
    have herror : (c.withSingleMap single).setupError? = none := hc.setupError?_eq
    simp only [Kernel.setupFailure?, Kernel.ofConfig, herror]
    rfl
  have hsetUp := Ring.setUp_built (h := .ofKernel (.ofConfig (c.withSingleMap single)))
    hvalid hfailure hc.fd_nonneg (hc.built_eq single asked).2
  have hparts : Layout.ofParams ((Kernel.ofConfig (c.withSingleMap single)).config.grant asked) =
      c.layout single := c.ofParams_grant single asked
  simp only [Host.ofKernel, hparts] at hsetUp
  exact hsetUp

theorem twins_ring :
    Ring.Twins (c.site false) (c.site true) (c.ring false asked) (c.ring true asked) := by
  refine ⟨rfl, _, _, rfl, rfl, ?_⟩
  have halike := hc.alike_presetAt
  rw [(hc.built_eq false asked).1, (hc.built_eq true asked).1]
  refine ⟨rfl, ⟨_, rfl, ?_⟩, ⟨_, rfl, ?_⟩⟩
  · exact congrArg _ (halike.submission.fieldWord_eq .tail rfl)
  · exact congrArg _ (halike.completion.fieldWord_eq .head rfl)

end MapsEitherWay

end KernelConfig

theorem RingSite.mapsEitherWay_small : RingSite.smallConfig.MapsEitherWay where
  fd_nonneg := by decide
  setupError?_eq := rfl
  mapFailures_eq area := by cases area <;> rfl
  unmapErrors_eq := rfl
  sqRingLength_le := by decide
  cqRingLength_le := by decide
  sqesLength_le := by decide
  sound := RingSite.sound_small
  sqInside f hf := by cases f <;> first | exact absurd rfl hf | decide
  cqInside g hg := by cases g <;> first | exact absurd rfl hg | decide
  sqPresets w hw := by
    simp only [RingSite.smallConfig, List.mem_cons, List.not_mem_nil, or_false] at hw
    rcases hw with rfl | rfl | rfl | rfl
    · exact ⟨.head, by decide, by decide, by decide⟩
    · exact ⟨.tail, by decide, by decide, by decide⟩
    · exact ⟨.ringMask, by decide, by decide, by decide⟩
    · exact ⟨.ringEntries, by decide, by decide, by decide⟩
  cqPresets w hw := by
    simp only [RingSite.smallConfig, List.mem_cons, List.not_mem_nil, or_false] at hw
    rcases hw with rfl | rfl | rfl | rfl
    · exact ⟨.head, by decide, by decide, by decide⟩
    · exact ⟨.tail, by decide, by decide, by decide⟩
    · exact ⟨.ringMask, by decide, by decide, by decide⟩
    · exact ⟨.ringEntries, by decide, by decide, by decide⟩
  sqSize_eq := by decide
  sqMask_eq := by decide
  cqSize_eq := by decide
  cqMask_eq := by decide

end IoRing
