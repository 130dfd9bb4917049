import IoRing.Proofs.Completion.Site
import IoRing.Proofs.Twins.Agreement
import IoRing.Session.KernelStep

/-!
# Twin kernels

Two kernels are twins if they work on twin sites, their memories are alike, and
nothing else about them differs but how the ring is mapped (`Kernel.Twins`).

Whatever twin kernels do by themselves has the same result, and they stay twins
(`KernelStep.work_twins`).  The same holds of the calls that reach a ring once it
is open (`Kernel.Twins.serve`, `Kernel.Twins.register`).  A store goes to the
field that both sites have at that offset.  The slots of the arrays are taken
modulo the size that both memories hold, so they stay inside the arrays.
-/

namespace IoRing

namespace Kernel

/-- The kernel without its memory and without all that says how a ring is
mapped. -/
def unmapped (k : Kernel) : Kernel :=
  { k with
    config := { k.config with features := 0 }
    granted := { k.granted with features := 0 }
    memory := .zero
    sharedRings := false
    mapped := 0
    sqRing? := none
    cqRing? := none
    sqes? := none }

/-- Two kernels that differ only in how they map a ring.  They do not fail to
unmap, since a failure is reported once for each mapping. -/
structure Twins (s s' : RingSite) (k k' : Kernel) : Prop where
  sites : s.Twins s'
  serves : k.Serves s
  serves' : k'.Serves s'
  alike : s.Alike s' k.memory k'.memory
  unmapped_eq : k'.unmapped = k.unmapped
  unmapErrors_eq : k.config.unmapErrors = []

theorem Serves.congr {k k' : Kernel} {s : RingSite} (hk : k.Serves s)
    (hmapping : ∀ a, k'.mapping? a = k.mapping? a) (hgranted : k'.granted = k.granted) :
    k'.Serves s := by
  refine ⟨⟨?_, ?_, ?_, ?_⟩, ?_, ?_, ?_⟩
  · rw [hmapping, hk.ring]
  · rw [hmapping, hk.sqes]
  · rw [hgranted, hk.offsets]
  · rw [hgranted, hk.entries]
  · rw [hmapping, hk.cqRing]
  · rw [hgranted, hk.cqOffsets]
  · rw [hgranted, hk.cqEntries]

/-! ## Words inside fields -/

section

variable {F : Type} {l : Fields F} {k : Kernel} {area : Area} {f : F} {i : Nat}

theorem word_field (hl : l.Sound) (hmap : k.mapping? area = some (l.mapping f))
    (hi : i + 4 ≤ l.count f) :
    k.word area (l.offset f + i) = k.memory.word (l.mapping f).block (l.offset f + i) := by
  have hfits := hl.fits f
  refine word_eq hmap ?_
  simp only [Mapping.Holds] at hfits ⊢
  omega

theorem setWord_field (hl : l.Sound) (hmap : k.mapping? area = some (l.mapping f))
    (hi : i + 4 ≤ l.count f) (value : UInt32) :
    k.setWord area (l.offset f + i) value =
      k.withMemory (l.write k.memory f i (LittleEndian.encode 4 value.toNat)) := by
  have hfits := hl.fits f
  refine setWord_eq hmap ?_ value
  simp only [Mapping.Holds] at hfits ⊢
  omega

end

theorem Serves.mapping_submission {k : Kernel} {s : RingSite} (hk : k.Serves s)
    {f : SubmissionField} (hf : f ≠ .sqes) :
    k.mapping? .sqRing = some (s.submission.fields.mapping f) := by
  rw [hk.ring]
  cases f <;> first | rfl | exact absurd rfl hf

theorem Serves.mapping_completion {k : Kernel} {s : RingSite} (hk : k.Serves s)
    {g : CompletionField} (hg : g ≠ .flags) :
    k.mapping? .cqRing = some (s.completion.fields.mapping g) := by
  rw [hk.cqRing]
  cases g <;> first | rfl | exact absurd rfl hg

section

variable {s s' : RingSite} {k k' : Kernel} (hk : Twins s s' k k')
include hk

namespace Twins

/-! ## What twins have in common -/

theorem sqOffsets_eq' : k'.granted.sqOffsets = s.submission.offsets := by
  rw [hk.serves'.offsets, hk.sites.offsets_eq]

theorem cqOffsets_eq' : k'.granted.cqOffsets = s.cqOffsets := by
  rw [hk.serves'.cqOffsets, hk.sites.cqOffsets_eq]

theorem sqEntries_eq' : k'.granted.sqEntries = s.submission.entries := by
  rw [hk.serves'.entries, hk.sites.entries_eq]

theorem cqEntries_eq' : k'.granted.cqEntries = s.cqEntries := by
  rw [hk.serves'.cqEntries, hk.sites.cqEntries_eq]

theorem admits_eq (fd : Int32) : k'.admits fd = k.admits fd :=
  (congrArg (·.admits fd) hk.unmapped_eq :)

/-! ## Changes -/

theorem withMemory {m m' : Memory} (hm : s.Alike s' m m') :
    Twins s s' (k.withMemory m) (k'.withMemory m') :=
  ⟨hk.sites, hk.serves.withMemory m, hk.serves'.withMemory m', hm, hk.unmapped_eq,
    hk.unmapErrors_eq⟩

/-- A change that has nothing to do with mappings and memory. -/
theorem change (f : Kernel → Kernel) (hmapping : ∀ k a, (f k).mapping? a = k.mapping? a)
    (hgranted : ∀ k, (f k).granted = k.granted) (hmemory : ∀ k, (f k).memory = k.memory)
    (hunmapped : ∀ k, (f k).unmapped = f k.unmapped) (hconfig : ∀ k, (f k).config = k.config) :
    Twins s s' (f k) (f k') where
  sites := hk.sites
  serves := hk.serves.congr (hmapping k) (hgranted k)
  serves' := hk.serves'.congr (hmapping k') (hgranted k')
  alike := by
    rw [hmemory, hmemory]
    exact hk.alike
  unmapped_eq := by rw [hunmapped, hunmapped, hk.unmapped_eq]
  unmapErrors_eq := by rw [hconfig, hk.unmapErrors_eq]

/-! ## Words -/

theorem sqWord (f : SubmissionField) (hf : f ≠ .sqes) (i : Nat)
    (hi : i + 4 ≤ s.submission.fields.count f) :
    k'.word .sqRing (s.submission.fields.offset f + i) =
      k.word .sqRing (s.submission.fields.offset f + i) := by
  have hi' : i + 4 ≤ s'.submission.fields.count f := by rwa [hk.sites.sqCount_eq]
  rw [word_field hk.sites.sound.submission.toSound (hk.serves.mapping_submission hf) hi,
    ← hk.alike.submission.word_eq hi, ← hk.sites.sqOffset_eq]
  exact word_field hk.sites.sound'.submission.toSound (hk.serves'.mapping_submission hf) hi'

theorem cqWord (g : CompletionField) (hg : g ≠ .flags) (i : Nat)
    (hi : i + 4 ≤ s.completion.fields.count g) :
    k'.word .cqRing (s.completion.fields.offset g + i) =
      k.word .cqRing (s.completion.fields.offset g + i) := by
  have hi' : i + 4 ≤ s'.completion.fields.count g := by rwa [hk.sites.cqCount_eq]
  rw [word_field hk.sites.sound.completion.toSound (hk.serves.mapping_completion hg) hi,
    ← hk.alike.completion.word_eq hi, ← hk.sites.cqOffset_eq]
  exact word_field hk.sites.sound'.completion.toSound (hk.serves'.mapping_completion hg) hi'

theorem setSqWord (f : SubmissionField)
    (hf : f ∉ [SubmissionField.ringEntries, .ringMask, .sqes]) (i : Nat)
    (hi : i + 4 ≤ s.submission.fields.count f) (value : UInt32) :
    Twins s s' (k.setWord .sqRing (s.submission.fields.offset f + i) value)
      (k'.setWord .sqRing (s.submission.fields.offset f + i) value) := by
  simp only [List.mem_cons, List.not_mem_nil, or_false, not_or] at hf
  obtain ⟨hsize, hmask, hsqes⟩ := hf
  have hi' : i + 4 ≤ s'.submission.fields.count f := by rwa [hk.sites.sqCount_eq]
  rw [setWord_field hk.sites.sound.submission.toSound (hk.serves.mapping_submission hsqes) hi,
    ← hk.sites.sqOffset_eq,
    setWord_field hk.sites.sound'.submission.toSound (hk.serves'.mapping_submission hsqes) hi']
  exact hk.withMemory
    (hk.alike.writeSubmission hk.sites (by simp [hsize, hmask]) (by simpa using hi))

theorem setCqWord (g : CompletionField)
    (hg : g ∉ [CompletionField.ringEntries, .ringMask, .flags]) (i : Nat)
    (hi : i + 4 ≤ s.completion.fields.count g) (value : UInt32) :
    Twins s s' (k.setWord .cqRing (s.completion.fields.offset g + i) value)
      (k'.setWord .cqRing (s.completion.fields.offset g + i) value) := by
  have hflags : g ≠ .flags := by
    rintro rfl
    simp at hg
  have hi' : i + 4 ≤ s'.completion.fields.count g := by rwa [hk.sites.cqCount_eq]
  rw [setWord_field hk.sites.sound.completion.toSound (hk.serves.mapping_completion hflags) hi,
    ← hk.sites.cqOffset_eq,
    setWord_field hk.sites.sound'.completion.toSound (hk.serves'.mapping_completion hflags) hi']
  exact hk.withMemory (hk.alike.writeCompletion hk.sites hg (by simpa using hi))

theorem setCqWords (g : CompletionField)
    (hg : g ∉ [CompletionField.ringEntries, .ringMask, .flags]) (i : Nat) (ws : List UInt32)
    (hi : i + 4 * ws.length ≤ s.completion.fields.count g) :
    Twins s s' (k.setWords .cqRing (s.completion.fields.offset g + i) ws)
      (k'.setWords .cqRing (s.completion.fields.offset g + i) ws) := by
  induction ws generalizing k k' i with
  | nil => exact hk
  | cons w ws ih =>
    rw [List.length_cons] at hi
    exact ih (hk.setCqWord g hg i (by omega) w) (i + 4) (by omega)

/-! ## Consuming -/

theorem head_eq : k'.word .sqRing s.submission.offsets.head.toNat =
    k.word .sqRing s.submission.offsets.head.toNat :=
  hk.sqWord .head (by decide) 0 (Nat.le_refl 4)

theorem tail_eq : k'.word .sqRing s.submission.offsets.tail.toNat =
    k.word .sqRing s.submission.offsets.tail.toNat :=
  hk.sqWord .tail (by decide) 0 (Nat.le_refl 4)

theorem slotEntry?_eq {slot : UInt32} (hslot : slot.toNat < s.submission.entries.toNat) :
    k'.slotEntry? slot = k.slotEntry? slot := by
  have hindex : k'.word .sqRing (s.submission.offsets.array.toNat + 4 * slot.toNat) =
      k.word .sqRing (s.submission.offsets.array.toNat + 4 * slot.toNat) := by
    refine hk.sqWord .array (by decide) (4 * slot.toNat) ?_
    change _ ≤ 4 * s.submission.entries.toNat
    omega
  unfold slotEntry?
  simp only [hk.serves.offsets, hk.sqOffsets_eq', hk.serves.entries, hk.sqEntries_eq',
    hk.serves.sqes, hk.serves'.sqes, hindex]
  generalize k.word .sqRing (s.submission.offsets.array.toNat + 4 * slot.toNat) = index
  by_cases hlt : index < s.submission.entries
  · have hin : 64 * index.toNat + 64 ≤ s.submission.fields.count .sqes := by
      have hnat := UInt32.lt_iff_toNat_lt.mp hlt
      change _ ≤ 64 * s.submission.entries.toNat
      omega
    have hholds : s.submission.sqes.Holds (64 * index.toNat) 64 := by
      have hfits : s.submission.sqes.Holds 0 _ := hk.sites.sound.submission.fits .sqes
      simp only [Mapping.Holds] at hfits ⊢
      omega
    have hholds' : s'.submission.sqes.Holds (64 * index.toNat) 64 := by
      have hfits : s'.submission.sqes.Holds 0 _ := hk.sites.sound'.submission.fits .sqes
      simp only [Mapping.Holds, hk.sites.sqCount_eq] at hfits ⊢
      omega
    have hread := hk.alike.submission.read_eq hin
    simp only [SubmissionSite.fields, Nat.zero_add] at hread
    simp only [hlt, hholds, hholds', and_self, if_true, Entry.load, hread]
  · simp only [hlt, false_and, if_false]

theorem countDropped : Twins s s' k.countDropped k'.countDropped := by
  have hword : k'.word .sqRing s.submission.offsets.dropped.toNat =
      k.word .sqRing s.submission.offsets.dropped.toNat :=
    hk.sqWord .dropped (by decide) 0 (Nat.le_refl 4)
  simp only [Kernel.countDropped, hk.serves.offsets, hk.sqOffsets_eq', hword]
  exact hk.setSqWord .dropped (by decide) 0 (Nat.le_refl 4) _

theorem drop : Twins s s' k.drop k'.drop := by
  simp only [Kernel.drop, hk.serves.offsets, hk.sqOffsets_eq', hk.head_eq, hk.tail_eq]
  split
  · exact hk
  · exact (hk.setSqWord .head (by decide) 0 (Nat.le_refl 4) _).countDropped

end Twins

end

/-- Two runs over the submission rings of twins took the same. -/
structure Taken.Twins (s s' : RingSite) (t t' : Taken) : Prop where
  kernel : Kernel.Twins s s' t.kernel t'.kernel
  head_eq : t'.head = t.head
  count_eq : t'.count = t.count
  entries_eq : t'.entries = t.entries

namespace Twins

variable {s s' : RingSite} {k k' : Kernel} {handle : Handler}

theorem takeSlots (hk : Twins s s' k k')
    (hh : ∀ e k k', Twins s s' k k' → Twins s s' (handle e k) (handle e k'))
    (tail : UInt32) (limit : Nat) (head : UInt32) :
    (Kernel.takeSlots handle tail (s.submission.entries - 1) limit head k).Twins s s'
      (Kernel.takeSlots handle tail (s.submission.entries - 1) limit head k') := by
  induction limit generalizing head k k' with
  | zero => exact ⟨hk, rfl, rfl, rfl⟩
  | succ limit ih =>
    -- Whatever the head is, its slot lies inside the index array.
    have hslot := hk.slotEntry?_eq (slotOf_lt hk.sites.sound.submission.isRingSize head)
    rw [slotOf] at hslot
    simp only [Kernel.takeSlots, hslot]
    split
    · exact ⟨hk, rfl, rfl, rfl⟩
    · split
      · have hrest := ih hk.countDropped (head + 1)
        exact ⟨hrest.kernel, hrest.head_eq, congrArg (· + 1) hrest.count_eq, hrest.entries_eq⟩
      · next e _ =>
        have hrest := ih (hh e k k' hk) (head + 1)
        exact ⟨hrest.kernel, hrest.head_eq, congrArg (· + 1) hrest.count_eq,
          congrArg (e :: ·) hrest.entries_eq⟩

theorem consumeEach (hk : Twins s s' k k')
    (hh : ∀ e k k', Twins s s' k k' → Twins s s' (handle e k) (handle e k'))
    (limit? : Option Nat) :
    (Kernel.consumeEach handle k limit?).Twins s s' (Kernel.consumeEach handle k' limit?) := by
  have hmaskWord : k'.word .sqRing s.submission.offsets.ringMask.toNat =
      k.word .sqRing s.submission.offsets.ringMask.toNat :=
    hk.sqWord .ringMask (by decide) 0 (Nat.le_refl 4)
  have hmask := hk.serves.mask_eq hk.sites.sound.submission hk.alike.formatted.submission
  rw [hk.serves.offsets] at hmask
  simp only [Kernel.consumeEach, hk.serves.offsets, hk.sqOffsets_eq', hk.serves.entries,
    hk.sqEntries_eq', hk.head_eq, hk.tail_eq, hmaskWord, hmask]
  have htaken := hk.takeSlots hh (k.word .sqRing s.submission.offsets.tail.toNat)
    ((limit?.getD s.submission.entries.toNat).min s.submission.entries.toNat)
    (k.word .sqRing s.submission.offsets.head.toNat)
  constructor
  case kernel =>
    simp only [htaken.head_eq]
    exact htaken.kernel.setSqWord .head (by decide) 0 (Nat.le_refl 4) _
  case head_eq => exact htaken.head_eq
  case count_eq => exact htaken.count_eq
  case entries_eq => exact htaken.entries_eq

theorem consume (hk : Twins s s' k k') (limit? : Option Nat) :
    (k.consume limit?).Twins s s' (k'.consume limit?) :=
  hk.consumeEach (fun _ _ _ h => h) limit?

/-! ## Posting -/

theorem overflow (hk : Twins s s' k k') : Twins s s' k.overflow k'.overflow := by
  have hcount : k'.word .cqRing s.cqOffsets.overflow.toNat =
      k.word .cqRing s.cqOffsets.overflow.toNat :=
    hk.cqWord .overflow (by decide) 0 (Nat.le_refl 4)
  simp only [Kernel.overflow, hk.serves.offsets, hk.sqOffsets_eq', hk.serves.cqOffsets,
    hk.cqOffsets_eq', hcount]
  have hcounted : Twins s s'
      (k.setWord .cqRing s.cqOffsets.overflow.toNat
        (k.word .cqRing s.cqOffsets.overflow.toNat + 1))
      (k'.setWord .cqRing s.cqOffsets.overflow.toNat
        (k.word .cqRing s.cqOffsets.overflow.toNat + 1)) :=
    hk.setCqWord .overflow (by decide) 0 (Nat.le_refl 4) _
  have hflags := hcounted.sqWord .flags (by decide) 0 (Nat.le_refl 4)
  simp only [SubmissionSite.fields, Nat.add_zero] at hflags
  rw [hflags]
  exact hcounted.setSqWord .flags (by decide) 0 (Nat.le_refl 4) _

/-- Posting finds room on both sides or on none. -/
theorem post (hk : Twins s s' k k') (c : Completion) :
    (k'.post c).1 = (k.post c).1 ∧ Twins s s' (k.post c).2 (k'.post c).2 := by
  have hhead : k'.word .cqRing s.cqOffsets.head.toNat = k.word .cqRing s.cqOffsets.head.toNat :=
    hk.cqWord .head (by decide) 0 (Nat.le_refl 4)
  have htail : k'.word .cqRing s.cqOffsets.tail.toNat = k.word .cqRing s.cqOffsets.tail.toNat :=
    hk.cqWord .tail (by decide) 0 (Nat.le_refl 4)
  have hmaskWord : k'.word .cqRing s.cqOffsets.ringMask.toNat =
      k.word .cqRing s.cqOffsets.ringMask.toNat :=
    hk.cqWord .ringMask (by decide) 0 (Nat.le_refl 4)
  have hmask := hk.serves.completion.mask_eq hk.sites.sound.completion
    hk.alike.formatted.completion
  rw [hk.serves.cqOffsets] at hmask
  simp only [Kernel.post, hk.serves.cqOffsets, hk.cqOffsets_eq', hk.serves.cqEntries,
    hk.cqEntries_eq', hhead, htail, hmaskWord, hmask]
  split
  · exact ⟨rfl, hk.overflow⟩
  · refine ⟨rfl, ?_⟩
    have hslot := slotOf_lt hk.sites.sound.completion.isRingSize
      (k.word .cqRing s.cqOffsets.tail.toNat)
    have hfilled := hk.setCqWords .cqes (by decide)
      (16 * (slotOf s.cqEntries (k.word .cqRing s.cqOffsets.tail.toNat)).toNat) c.words (by
        change _ + 16 ≤ 16 * s.cqEntries.toNat
        change (slotOf s.cqEntries _).toNat < s.cqEntries.toNat at hslot
        omega)
    exact hfilled.setCqWord .tail (by decide) 0 (Nat.le_refl 4) _

theorem complete (hk : Twins s s' k k') (e : Entry) :
    Twins s s' (Kernel.complete e k) (Kernel.complete e k') :=
  (hk.post (completionOf e)).2

/-! ## Calls -/

theorem serve (hk : Twins s s' k k') (toSubmit : UInt32) :
    (k'.serve toSubmit).1 = (k.serve toSubmit).1 ∧
      Twins s s' (k.serve toSubmit).2 (k'.serve toSubmit).2 := by
  have hscript : k'.enterScript = k.enterScript := (congrArg Kernel.enterScript hk.unmapped_eq :)
  have haccept : k'.accept? = k.accept? := (congrArg Kernel.accept? hk.unmapped_eq :)
  cases h : k.enterScript with
  | cons n rest =>
    rw [h] at hscript
    simp only [Kernel.serve, h, hscript]
    exact ⟨trivial, hk.change (fun k => { k with enterScript := rest }) (fun _ _ => rfl)
      (fun _ => rfl) (fun _ => rfl) (fun _ => rfl) fun _ => rfl⟩
  | nil =>
    rw [h] at hscript
    simp only [Kernel.serve, h, hscript, haccept]
    have htaken := hk.consumeEach (fun e _ _ h => h.complete e)
      (some ((k.accept?.getD toSubmit.toNat).min toSubmit.toNat))
    exact ⟨congrArg Except.ok htaken.count_eq, htaken.kernel⟩

theorem setRegistered (hk : Twins s s' k k') (resource : Resource) (value : Bool) :
    Twins s s' (k.setRegistered resource value) (k'.setRegistered resource value) :=
  hk.change (·.setRegistered resource value) (fun _ _ => rfl) (fun _ => rfl) (fun _ => rfl)
    (fun _ => rfl) fun _ => rfl

theorem register (hk : Twins s s' k k') (fd : Int32) (op : UInt32) :
    (k'.register fd op).1 = (k.register fd op).1 ∧
      Twins s s' (k.register fd op).2 (k'.register fd op).2 := by
  have hscript : k'.registerScript = k.registerScript :=
    (congrArg Kernel.registerScript hk.unmapped_eq :)
  have hregistered : k'.registered = k.registered :=
    (congrArg Kernel.registered hk.unmapped_eq :)
  unfold Kernel.register
  rw [hk.admits_eq]
  split
  · exact ⟨rfl, hk⟩
  · cases h : k.registerScript with
    | cons n rest =>
      rw [h] at hscript
      simp only [hscript]
      exact ⟨trivial, hk.change (fun k => { k with registerScript := rest }) (fun _ _ => rfl)
        (fun _ => rfl) (fun _ => rfl) (fun _ => rfl) fun _ => rfl⟩
    | nil =>
      rw [h] at hscript
      simp only [hscript, hregistered]
      split
      · exact ⟨rfl, hk⟩
      · split
        · exact ⟨rfl, hk⟩
        · exact ⟨rfl, hk.setRegistered _ _⟩
      · split
        · exact ⟨rfl, hk.setRegistered _ _⟩
        · exact ⟨rfl, hk⟩

end Twins

end Kernel

/-! ## Steps -/

namespace KernelStep

/-- The step names no place in a mapping. -/
def Placeless : KernelStep → Prop
  | .poke _ _ _ => False
  | .peek _ _ => False
  | _ => True

/-- Twin kernels stay twins, whatever they do by themselves. -/
theorem work_twins {s s' : RingSite} {k k' : Kernel} (hk : Kernel.Twins s s' k k')
    (step : KernelStep) (hstep : step.Placeless) :
    (step.work k').1 = (step.work k).1 ∧ Kernel.Twins s s' (step.work k).2 (step.work k').2 := by
  cases step with
  | poke area offset value => exact hstep.elim
  | peek area offset => exact hstep.elim
  | consume limit? =>
    have htaken := hk.consume limit?
    exact ⟨congrArg Reply.entries htaken.entries_eq, htaken.kernel⟩
  | drop => exact ⟨rfl, hk.drop⟩
  | overflow => exact ⟨rfl, hk.overflow⟩
  | post c =>
    obtain ⟨hposted, hpost⟩ := hk.post c
    exact ⟨congrArg Reply.flag hposted, hpost⟩
  | setFlags value =>
    simp only [work, hk.serves.offsets, hk.sqOffsets_eq']
    exact ⟨trivial, hk.setSqWord .flags (by decide) 0 (Nat.le_refl 4) value⟩
  | setAccept limit? =>
    exact ⟨rfl, hk.change (fun k => { k with accept? := limit? }) (fun _ _ => rfl)
      (fun _ => rfl) (fun _ => rfl) (fun _ => rfl) fun _ => rfl⟩
  | scriptEnter result =>
    exact ⟨rfl, hk.change (fun k => { k with enterScript := k.enterScript ++ [result] })
      (fun _ _ => rfl) (fun _ => rfl) (fun _ => rfl) (fun _ => rfl) fun _ => rfl⟩
  | scriptRegister result =>
    exact ⟨rfl, hk.change (fun k => { k with registerScript := k.registerScript ++ [result] })
      (fun _ _ => rfl) (fun _ => rfl) (fun _ => rfl) (fun _ => rfl) fun _ => rfl⟩

end KernelStep

end IoRing
