import IoRing.Proofs.Ring.Site
import IoRing.Proofs.Running

/-!
# Opening a ring

If a ring was opened, each step of opening it succeeded.  The kernel then works
on the mappings that the ring owns, at the places it granted, and it admits the
ring's descriptor (`Ring.setUp_ok`).

The kernel must agree with itself about the features: it looks for both rings in
one mapping exactly if it grants that feature.  That holds of a fresh kernel,
and no call changes either.

`RingSite.Opened` is where every run over a ring starts.  A ring was opened, what
was granted is well formed, and both queues are empty, at any counters.
-/

namespace IoRing

/-! ## Mapping -/

/-- What was mapped is as long as asked for. -/
theorem Kernel.mapRing_ok {k k' : Kernel} {fd : Int32} {area : Area} {length : UInt64}
    {m : Mapping} (h : k.mapRing fd area.offset length = (.ok m, k')) :
    k.admits fd = true ∧ (m.length = length ∧ length ≤ mapLimit) ∧
      ∃ memory mapped, k' = { k with memory, mapped }.setMapping (some m) area := by
  rw [mapRing, Area.ofOffset?_offset] at h
  split at h
  · cases h
  · next hadmits =>
    refine ⟨by simpa using hadmits, ?_⟩
    simp only at h
    split at h
    · cases h
    · split at h
      · cases h
      · next hlimit =>
        cases h
        exact ⟨⟨rfl, UInt64.not_lt.mp hlimit⟩, _, _, rfl⟩

theorem Sys.mapRing_ok {fd : Int32} {offset : Int} {length : UInt64} {what : String}
    {m : Mapping} {h h' : Host} (hmap : Sys.mapRing fd offset length what h = .ok m h') :
    h.kernel.mapRing fd offset length = (.ok m, h'.kernel) := by
  by_cases hlength : length = 0
  · simp only [Sys.mapRing, if_pos hlength] at hmap
    cases hmap
  · simp only [Sys.mapRing, if_neg hlength] at hmap
    rw [bind_ok (onKernel_eq _ h)] at hmap
    obtain ⟨_, h₁, hnote, hmap⟩ := bind_eq_ok_iff.mp hmap
    have hkernel : h₁.kernel = (h.kernel.mapRing fd offset length).2 := by
      cases hnote
      rfl
    cases hresult : (h.kernel.mapRing fd offset length).1 with
    | ok m' =>
      rw [hresult] at hmap
      cases hmap
      exact Prod.ext hresult hkernel.symm
    | error e =>
      rw [hresult] at hmap
      cases hmap

theorem Region.map_ok {fd : Int32} {a : Area} {length : UInt64} {what : String} {r : Region}
    {h h' : Host} (hmap : Region.map fd a.offset length what h = .ok r h') :
    h.kernel.admits fd = true ∧ ∃ m, r = ⟨some m⟩ ∧
      (m.length = length ∧ length ≤ Kernel.mapLimit) ∧
      ∃ memory mapped, h'.kernel = { h.kernel with memory, mapped }.setMapping (some m) a := by
  obtain ⟨m, h₁, hring, hpure⟩ := Sys.bind_eq_ok_iff.mp hmap
  cases hpure
  obtain ⟨hadmits, hlength, hkernel⟩ := Kernel.mapRing_ok (Sys.mapRing_ok hring)
  exact ⟨hadmits, m, rfl, hlength, hkernel⟩

/-- If a layout was mapped, the entries were, and then both rings together or each
by itself. -/
theorem RingRegions.map_steps {fd : Int32} {layout : Layout} {r : RingRegions} {h h' : Host}
    (hmap : RingRegions.map fd layout h = .ok r h') :
    ∃ sqes h₁, Region.map fd Area.sqes.offset layout.sqesLength "sqes" h = .ok sqes h₁ ∧
      ((layout.singleMap = true ∧ ∃ ring,
          Region.map fd Area.sqRing.offset layout.combinedLength "sq/cq ring" h₁ = .ok ring h' ∧
          r = { sqes, sqRing := ring }) ∨
        (layout.singleMap = false ∧ ∃ sqRing cqRing h₂,
          Region.map fd Area.sqRing.offset layout.sqRingLength "sq ring" h₁ = .ok sqRing h₂ ∧
          Region.map fd Area.cqRing.offset layout.cqRingLength "cq ring" h₂ = .ok cqRing h' ∧
          r = { sqes, sqRing, cqRing })) := by
  obtain ⟨sqes, h₁, hsqes, hmap⟩ := Sys.bind_eq_ok_iff.mp hmap
  refine ⟨sqes, h₁, hsqes, ?_⟩
  cases hsingle : layout.singleMap with
  | true =>
    simp only [hsingle, if_true] at hmap
    obtain ⟨ring, h₂, hring, hpure⟩ := Sys.bind_eq_ok_iff.mp hmap
    cases hpure
    exact .inl ⟨rfl, ring, Sys.tryCatch_throw_eq_ok_iff.mp hring, rfl⟩
  | false =>
    simp only [hsingle, Bool.false_eq_true, if_false] at hmap
    obtain ⟨sqRing, h₂, hsqRing, hmap⟩ := Sys.bind_eq_ok_iff.mp hmap
    obtain ⟨cqRing, h₃, hcqRing, hpure⟩ := Sys.bind_eq_ok_iff.mp hmap
    cases hpure
    exact .inr ⟨rfl, sqRing, cqRing, h₂, Sys.tryCatch_throw_eq_ok_iff.mp hsqRing,
      Sys.tryCatch_throw_eq_ok_iff.mp hcqRing, rfl⟩

/-- The entries lie in a mapping that the kernel agreed to make. -/
theorem RingRegions.sqes_of_map_ok {fd : Int32} {layout : Layout} {r : RingRegions} {h h' : Host}
    (hmap : RingRegions.map fd layout h = .ok r h') :
    ∃ m, r.sqes = ⟨some m⟩ ∧ m.length ≤ Kernel.mapLimit := by
  obtain ⟨sqes, h₁, hsqes, hrings⟩ := map_steps hmap
  obtain ⟨-, m, rfl, ⟨hlength, hlimit⟩, -⟩ := Region.map_ok (a := .sqes) hsqes
  rw [← hlength] at hlimit
  rcases hrings with ⟨-, -, -, rfl⟩ | ⟨-, -, -, -, -, -, rfl⟩
  · exact ⟨m, rfl, hlimit⟩
  · exact ⟨m, rfl, hlimit⟩

/-- The kernel works on the mapped areas. -/
theorem RingRegions.map_ok {fd : Int32} {layout : Layout} {r : RingRegions} {h h' : Host}
    (hmap : RingRegions.map fd layout h = .ok r h')
    (hsingle : layout.singleMap = h.kernel.sharedRings) :
    ∃ s, r.site? h.kernel.granted = some s ∧ h'.kernel.Serves s ∧ h'.kernel.admits fd = true := by
  obtain ⟨sqes, h₁, hsqes, hrings⟩ := map_steps hmap
  obtain ⟨hadmits, mSqes, rfl, -, memory₁, mapped₁, hkernel₁⟩ := Region.map_ok (a := .sqes) hsqes
  rcases hrings with ⟨hshared, ring, hring, rfl⟩ |
    ⟨hshared, sqRing, cqRing, h₂, hsqRing, hcqRing, rfl⟩
  · obtain ⟨-, mRing, rfl, -, memory₂, mapped₂, hkernel₂⟩ := Region.map_ok (a := .sqRing) hring
    rw [hkernel₁] at hkernel₂
    rw [hshared] at hsingle
    refine ⟨_, rfl, ⟨⟨?_, ?_, ?_, ?_⟩, ?_, ?_, ?_⟩, ?_⟩
    all_goals simp [hkernel₂, Kernel.setMapping, Kernel.mapping?, ← hsingle]
    exact hadmits
  · obtain ⟨-, mSq, rfl, -, memory₂, mapped₂, hkernel₂⟩ := Region.map_ok (a := .sqRing) hsqRing
    obtain ⟨-, mCq, rfl, -, memory₃, mapped₃, hkernel₃⟩ := Region.map_ok (a := .cqRing) hcqRing
    rw [hkernel₂, hkernel₁] at hkernel₃
    rw [hshared] at hsingle
    refine ⟨_, rfl, ⟨⟨?_, ?_, ?_, ?_⟩, ?_, ?_, ?_⟩, ?_⟩
    all_goals simp [hkernel₃, Kernel.setMapping, Kernel.mapping?, ← hsingle]
    exact hadmits

/-! ## Setting up -/

/-- A kernel that sets a ring up grants what its configuration says. -/
theorem Kernel.setup_ok {k k' : Kernel} {asked left : Params} {n : Nat}
    (h : k.setup asked = (.ok n, left, k')) :
    k'.granted = left ∧ left = k.config.grant asked ∧ k'.sharedRings = k.sharedRings := by
  rw [setup] at h
  split at h
  · cases h
  · split at h
    · cases h
    · obtain ⟨-, hrest⟩ := Prod.mk.inj h
      obtain ⟨rfl, rfl⟩ := Prod.mk.inj hrest
      exact ⟨rfl, rfl, rfl⟩

theorem Sys.setup_ok {entries : UInt32} {asked left : Params} {fd : Int32} {h h' : Host}
    (hsetup : Sys.setup entries (some asked) h = .ok (.ok fd, left) h') :
    ∃ n, h.kernel.setup asked = (.ok n, left, h'.kernel) := by
  simp only [Sys.setup] at hsetup
  rw [bind_ok (onKernel_eq _ h)] at hsetup
  obtain ⟨_, h₁, hnote, hsetup⟩ := bind_eq_ok_iff.mp hsetup
  have hkernel : h₁.kernel = (h.kernel.setup asked).2.2 := by
    cases hnote
    rfl
  obtain ⟨fd?, h₂, hobserve, hpure⟩ := bind_eq_ok_iff.mp hsetup
  obtain ⟨heq, rfl⟩ := pure_eq_ok_iff.mp hpure
  obtain ⟨rfl, hleft⟩ := Prod.mk.inj heq
  have hreturned := observing_eq_ok_iff.mp hobserve
  cases hresult : (h.kernel.setup asked).1 with
  | ok n =>
    simp only [hresult, returned] at hreturned
    obtain ⟨-, rfl⟩ := pure_eq_ok_iff.mp hreturned
    exact ⟨n, Prod.ext hresult (Prod.ext hleft hkernel.symm)⟩
  | error e =>
    simp only [hresult, returned] at hreturned
    cases hreturned

/-! ## Assembling -/

theorem Ring.attachQueues_ok {regions : RingRegions} {granted : Params} {sq : SubmissionQueue}
    {cq : CompletionQueue} {h h' : Host}
    (hattach : attachQueues regions granted h = .ok (sq, cq) h') :
    h' = h ∧
      SubmissionQueue.attach regions.sqRing regions.sqes granted.sqOffsets h.kernel.memory =
        .ok sq ∧
      CompletionQueue.attach regions.completionRegion granted.cqOffsets h.kernel.memory =
        .ok cq := by
  obtain ⟨m, h₁, hmemory, hattach⟩ := Sys.bind_eq_ok_iff.mp hattach
  cases hmemory
  obtain ⟨sq', h₂, hrunSq, hattach⟩ := Sys.bind_eq_ok_iff.mp hattach
  obtain ⟨hsq, rfl⟩ := Sys.ofExcept_eq_ok_iff.mp hrunSq
  obtain ⟨cq', h₃, hrunCq, hpure⟩ := Sys.bind_eq_ok_iff.mp hattach
  obtain ⟨hcq, rfl⟩ := Sys.ofExcept_eq_ok_iff.mp hrunCq
  cases hpure
  exact ⟨rfl, hsq, hcq⟩

/-- An opened ring was granted by the kernel, mapped and attached. -/
theorem Ring.setUp_steps {entries : UInt32} {params granted : Params} {ring : Ring} {h₀ h : Host}
    (hopen : Ring.setUp entries params h₀ = .ok ⟨.ok ring, granted⟩ h) :
    ∃ fd regions sq cq h₁,
      ring = ⟨granted.flags, granted.features, .ofParams granted, some ⟨fd, regions, sq, cq⟩⟩ ∧
      h₁.kernel.granted = granted ∧ granted = h₀.kernel.config.grant params ∧
      h₁.kernel.sharedRings = h₀.kernel.sharedRings ∧
      RingRegions.map fd (.ofParams granted) h₁ = .ok regions h ∧
      SubmissionQueue.attach regions.sqRing regions.sqes granted.sqOffsets h.kernel.memory =
        .ok sq ∧
      CompletionQueue.attach regions.completionRegion granted.cqOffsets h.kernel.memory =
        .ok cq := by
  cases hvalid : params.validate entries with
  | error f =>
    simp only [Ring.setUp, hvalid] at hopen
    cases hopen
  | ok _ =>
    simp only [Ring.setUp, hvalid] at hopen
    obtain ⟨⟨fd?, left⟩, h₁, hsetup, hopen⟩ := Sys.bind_eq_ok_iff.mp hopen
    obtain ⟨result, h₂, hobserve, hpure⟩ := Sys.bind_eq_ok_iff.mp hopen
    cases hpure
    obtain ⟨fd, h₃, hfd, hassemble⟩ := Sys.bind_eq_ok_iff.mp (Sys.observing_eq_ok_iff.mp hobserve)
    obtain ⟨rfl, rfl⟩ := Sys.ofExcept_eq_ok_iff.mp hfd
    obtain ⟨_, hkernel⟩ := Sys.setup_ok hsetup
    obtain ⟨hgranted, hgrant, hshared⟩ := Kernel.setup_ok hkernel
    obtain ⟨regions, h₄, hmap, hassemble⟩ :=
      Sys.bind_eq_ok_iff.mp (Sys.tryCatch_throw_eq_ok_iff.mp hassemble)
    obtain ⟨⟨sq, cq⟩, h₅, hattach, hpure⟩ := Sys.bind_eq_ok_iff.mp hassemble
    cases hpure
    obtain ⟨rfl, hsq, hcq⟩ := attachQueues_ok (Sys.tryCatch_throw_eq_ok_iff.mp hattach)
    exact ⟨fd, regions, sq, cq, h₁, rfl, hgranted, hgrant, hshared, hmap, hsq, hcq⟩

/-- An opened ring owns what the kernel works on. -/
theorem Ring.setUp_ok {entries : UInt32} {params granted : Params} {ring : Ring} {h₀ h : Host}
    (hfresh : h₀.kernel.sharedRings = h₀.kernel.config.singleMap)
    (hopen : Ring.setUp entries params h₀ = .ok ⟨.ok ring, granted⟩ h) :
    ∃ b s, ring.body? = some b ∧ ring.setupFlags = granted.flags ∧
      b.regions.site? granted = some s ∧ h.kernel.Serves s ∧ h.kernel.admits b.fd = true ∧
      SubmissionQueue.attach b.regions.sqRing b.regions.sqes granted.sqOffsets h.kernel.memory =
        .ok b.sq ∧
      CompletionQueue.attach b.regions.completionRegion granted.cqOffsets h.kernel.memory =
        .ok b.cq := by
  obtain ⟨fd, regions, sq, cq, h₁, rfl, hgranted, hgrant, hshared, hmap, hsq, hcq⟩ :=
    setUp_steps hopen
  have hsingle : (Layout.ofParams granted).singleMap = h₁.kernel.sharedRings := by
    rw [hshared, hfresh, hgrant]
    rfl
  obtain ⟨s, hsite, hserves, hadmits⟩ := RingRegions.map_ok hmap hsingle
  rw [hgranted] at hsite
  exact ⟨_, s, rfl, rfl, hsite, hserves, hadmits, hsq, hcq⟩

/-- The site of mapped regions names their mappings and what was granted. -/
theorem RingRegions.site?_eq_some_iff {r : RingRegions} {granted : Params} {s : RingSite} :
    r.site? granted = some s ↔
      r.sqRing = ⟨some s.submission.ring⟩ ∧ r.sqes = ⟨some s.submission.sqes⟩ ∧
      r.completionRegion = ⟨some s.cqRing⟩ ∧ s.submission.offsets = granted.sqOffsets ∧
      s.submission.entries = granted.sqEntries ∧ s.cqOffsets = granted.cqOffsets ∧
      s.cqEntries = granted.cqEntries := by
  constructor
  · intro hsite
    unfold site? at hsite
    split at hsite
    · next sqRing sqes cqRing hsq hsqes hcq =>
      cases hsite
      exact ⟨congrArg Region.mk hsq, congrArg Region.mk hsqes, congrArg Region.mk hcq,
        rfl, rfl, rfl, rfl⟩
    · cases hsite
  · rintro ⟨hsq, hsqes, hcq, hoffsets, hentries, hcqOffsets, hcqEntries⟩
    simp only [site?, hsq, hsqes, hcq, ← hoffsets, ← hentries, ← hcqOffsets, ← hcqEntries]

namespace RingSite

/-- A ring was opened on a well-formed site, and both its queues are empty. -/
structure Opened (s : RingSite) (ring : Ring) (h : Host) : Prop where
  setUp : ∃ entries params granted h₀ b,
    h₀.kernel.sharedRings = h₀.kernel.config.singleMap ∧
    Ring.setUp entries params h₀ = .ok ⟨.ok ring, granted⟩ h ∧
    ring.body? = some b ∧ b.regions.site? granted = some s
  sound : s.Sound
  formatted : s.Formatted h.kernel.memory
  sqEmpty : s.submission.word h.kernel.memory .tail = s.submission.word h.kernel.memory .head
  cqEmpty : s.completion.word h.kernel.memory .tail = s.completion.word h.kernel.memory .head

/-- The size of a ring is far from the largest number. -/
theorem Opened.entries_le {s : RingSite} {ring : Ring} {h : Host} (hopen : s.Opened ring h) :
    s.submission.entries.toNat ≤ 2 ^ 24 := by
  obtain ⟨entries, params, granted, h₀, b, -, hsetUp, hbody, hsite⟩ := hopen.setUp
  obtain ⟨fd, regions, sq, cq, h₁, rfl, -, -, -, hmap, -, -⟩ := Ring.setUp_steps hsetUp
  obtain ⟨m, hsqes, hlength⟩ := RingRegions.sqes_of_map_ok hmap
  cases hbody
  obtain ⟨-, hsite, -⟩ := RingRegions.site?_eq_some_iff.mp hsite
  cases hsqes.symm.trans hsite
  have hfits : 0 + 64 * s.submission.entries.toNat ≤ s.submission.sqes.length.toNat :=
    hopen.sound.submission.fits .sqes
  have hlimit : s.submission.sqes.length.toNat ≤ 2 ^ 30 := UInt64.le_iff_toNat_le.mp hlength
  omega

/-! ### A small ring -/

/-- A kernel that grants four entries and two completions in one mapping, with
all counters one or two steps before they wrap. -/
def smallConfig : KernelConfig where
  fd := 3
  sqEntries := 4
  cqEntries := 2
  features := Feature.singleMap
  sqOffsets := ⟨0, 4, 8, 12, 16, 20, 44⟩
  cqOffsets := ⟨24, 28, 32, 36, 40, 64⟩
  presets := {
    sqRing := [(0, 0xFFFFFFFE), (4, 0xFFFFFFFE), (8, 3), (12, 4)]
    cqRing := [(24, 0xFFFFFFFF), (28, 0xFFFFFFFF), (32, 1), (36, 2)] }

/-- The site of the ring that such a kernel sets up. -/
def small : RingSite where
  submission := ⟨⟨2, 96⟩, ⟨1, 256⟩, smallConfig.sqOffsets, 4⟩
  cqRing := ⟨2, 96⟩
  cqOffsets := smallConfig.cqOffsets
  cqEntries := 2

/-- The ring. -/
def smallRing : Ring where
  setupFlags := 0
  features := Feature.singleMap
  layout := ⟨60, 96, 256, true⟩
  body? := some
    ⟨3, ⟨⟨some ⟨2, 96⟩⟩, ⟨some ⟨1, 256⟩⟩, .empty⟩, small.submission.queue 0xFFFFFFFE,
      small.completion.queue 0xFFFFFFFF⟩

/-- The host on which it was set up. -/
def smallHost : Host := Sys.after (Ring.setUp 4 {}) (.ofKernel (.ofConfig smallConfig))

theorem setUp_small : Ring.setUp 4 {} (.ofKernel (.ofConfig smallConfig)) =
    .ok ⟨.ok smallRing, smallConfig.grant {}⟩ smallHost := rfl

theorem sound_small : small.Sound where
  submission := {
    isRingSize := ⟨2, rfl⟩
    fits := fun f => by cases f <;> decide
    apart := fun f g hne => by cases f <;> cases g <;> first | exact absurd rfl hne | decide }
  completion := {
    isRingSize := ⟨1, rfl⟩
    fits := fun f => by cases f <;> decide
    apart := fun f g hne => by cases f <;> cases g <;> first | exact absurd rfl hne | decide }
  apart f g hf hg := by
    cases f <;> cases g <;> first | exact absurd rfl hf | exact absurd rfl hg | decide

theorem opened_small : small.Opened smallRing smallHost where
  setUp := ⟨4, {}, _, _, _, rfl, setUp_small, rfl, rfl⟩
  sound := sound_small
  formatted := ⟨⟨by decide +kernel, by decide +kernel⟩, ⟨by decide +kernel, by decide +kernel⟩⟩
  sqEmpty := by decide +kernel
  cqEmpty := by decide +kernel

end RingSite

end IoRing
