import IoRing.Proofs.Fields
import IoRing.Proofs.Row
import IoRing.Submitter

/-!
# The site of a submission ring

A `SubmissionSite` says where a submission ring lies and how many slots it has.
It is *sound* if the size is a power of two and its eight fields are.  Memory is
*formatted* if the ring's own words for the size and the mask say the same as
the site.

The process and the kernel meet at a site.  On formatted memory attaching gives
`SubmissionSite.queue` (`attach_eq`), so the only thing that ever changes about
a queue is its private tail.  A kernel that serves the site finds the entries
that the queue wrote (`ServesSubmission.slotEntry?_eq`).
-/

namespace IoRing

/-- The parts of a submission ring. -/
inductive SubmissionField where
  | head
  | tail
  | ringMask
  | ringEntries
  | flags
  | dropped
  | array
  | sqes
deriving DecidableEq

/-- Where a submission ring lies and how large it is. -/
structure SubmissionSite where
  /-- The mapping of the header and the index array. -/
  ring : Mapping
  /-- The mapping of the entries. -/
  sqes : Mapping
  /-- Where the fields are. -/
  offsets : SubmissionOffsets
  /-- The number of slots. -/
  entries : UInt32

namespace SubmissionSite

variable (s : SubmissionSite)

/-- Where the fields lie. -/
def fields : Fields SubmissionField where
  mapping
    | .sqes => s.sqes
    | _ => s.ring
  offset
    | .head => s.offsets.head.toNat
    | .tail => s.offsets.tail.toNat
    | .ringMask => s.offsets.ringMask.toNat
    | .ringEntries => s.offsets.ringEntries.toNat
    | .flags => s.offsets.flags.toNat
    | .dropped => s.offsets.dropped.toNat
    | .array => s.offsets.array.toNat
    | .sqes => 0
  count
    | .array => 4 * s.entries.toNat
    | .sqes => 64 * s.entries.toNat
    | _ => 4

/-- The place of a field. -/
abbrev place (f : SubmissionField) : Place := s.fields.place f

/-- The word at the start of a field. -/
abbrev word (m : Memory) (f : SubmissionField) : UInt32 := s.fields.word m f

/-- The size is a power of two, and the fields lie inside and apart. -/
structure Sound : Prop extends s.fields.Sound where
  isRingSize : IsRingSize s.entries

/-- The size and the mask in memory are those of the site. -/
structure Formatted (m : Memory) : Prop where
  entries_eq : s.word m .ringEntries = s.entries
  mask_eq : s.word m .ringMask = s.entries - 1

/-- The queue attached to the site, with a private tail. -/
def queue (localTail : UInt32) : SubmissionQueue :=
  ⟨s.ring, s.sqes, s.offsets, s.entries - 1, s.entries, localTail⟩

/-- The place of the index word in the slot of a counter. -/
abbrev indexPlace (c : UInt32) : Place :=
  ⟨s.ring.block, s.offsets.array.toNat + 4 * (slotOf s.entries c).toNat, 4⟩

/-- The place of the entry in the slot of a counter. -/
abbrev sqePlace (c : UInt32) : Place := ⟨s.sqes.block, 64 * (slotOf s.entries c).toNat, 64⟩

/-- The entry in the slot of a counter, if the slot names itself. -/
def entryAt? (m : Memory) (c : UInt32) : Option Entry :=
  let slot := slotOf s.entries c
  if m.word s.ring.block (s.offsets.array.toNat + 4 * slot.toNat) = slot then
    some (Entry.load m s.sqes.block (64 * slot.toNat))
  else none

variable {s} {m m' : Memory}

/-! ## Frames -/

theorem Formatted.congr (h : s.Formatted m) (hentries : SameAt (s.place .ringEntries) m m')
    (hmask : SameAt (s.place .ringMask) m m') : s.Formatted m' :=
  ⟨(Fields.word_congr rfl hentries).trans h.entries_eq,
    (Fields.word_congr rfl hmask).trans h.mask_eq⟩

theorem Sound.index_within (hs : s.Sound) (c : UInt32) :
    (s.indexPlace c).Within (s.place .array) :=
  Place.within_of_cell (slotOf_lt hs.isRingSize c)

theorem Sound.sqe_within (hs : s.Sound) (c : UInt32) :
    (s.sqePlace c).Within (s.place .sqes) := by
  have h : (⟨s.sqes.block, 0 + 64 * (slotOf s.entries c).toNat, 64⟩ : Place).Within
      (s.place .sqes) :=
    Place.within_of_cell (slotOf_lt hs.isRingSize c)
  rwa [Nat.zero_add] at h

/-- Indices and entries do not overlap. -/
theorem Sound.index_apart_sqe (hs : s.Sound) (c d : UInt32) :
    (s.indexPlace c).Apart (s.sqePlace d) :=
  ((hs.apart .array .sqes (by decide)).mono_left (hs.index_within c)).mono_right (hs.sqe_within d)

theorem index_apart_index {c d : UInt32} (hne : slotOf s.entries c ≠ slotOf s.entries d) :
    (s.indexPlace c).Apart (s.indexPlace d) :=
  Memory.apart_slots _ _ _ (UInt32.toNat_inj.not.mpr hne)

theorem sqe_apart_sqe {c d : UInt32} (hne : slotOf s.entries c ≠ slotOf s.entries d) :
    (s.sqePlace c).Apart (s.sqePlace d) := by
  have hslots := Memory.apart_slots s.sqes.block 0 64 (UInt32.toNat_inj.not.mpr hne)
  rwa [Nat.zero_add, Nat.zero_add] at hslots

/-- A slot depends only on the bytes of the two arrays. -/
theorem Sound.entryAt?_congr (hs : s.Sound) (harray : SameAt (s.place .array) m m')
    (hsqes : SameAt (s.place .sqes) m m') (c : UInt32) : s.entryAt? m' c = s.entryAt? m c := by
  have hword := (harray.mono (hs.index_within c)).word_eq
  have hread := (hsqes.mono (hs.sqe_within c)).read_eq
  simp only [entryAt?, Entry.load, hword, hread]

/-! ## Attaching -/

/-- Attaching to formatted memory succeeds and takes over the published tail. -/
theorem Sound.attach_eq (hs : s.Sound) (hm : s.Formatted m) :
    SubmissionQueue.attach ⟨some s.ring⟩ ⟨some s.sqes⟩ s.offsets m =
      .ok (s.queue (s.word m .tail)) := by
  have hhead : (⟨some s.ring⟩ : Region).locate 4 s.offsets.head.toUInt64 1 = .ok s.ring :=
    Region.locate_word (hs.fits .head)
  have htail : (⟨some s.ring⟩ : Region).locate 4 s.offsets.tail.toUInt64 1 = .ok s.ring :=
    Region.locate_word (hs.fits .tail)
  have hflags : (⟨some s.ring⟩ : Region).locate 4 s.offsets.flags.toUInt64 1 = .ok s.ring :=
    Region.locate_word (hs.fits .flags)
  have hdropped : (⟨some s.ring⟩ : Region).locate 4 s.offsets.dropped.toUInt64 1 = .ok s.ring :=
    Region.locate_word (hs.fits .dropped)
  have hmaskIn : (⟨some s.ring⟩ : Region).locate 4 s.offsets.ringMask.toUInt64 1 = .ok s.ring :=
    Region.locate_word (hs.fits .ringMask)
  have hsizeIn : (⟨some s.ring⟩ : Region).locate 4 s.offsets.ringEntries.toUInt64 1 =
      .ok s.ring :=
    Region.locate_word (hs.fits .ringEntries)
  have harray : (⟨some s.ring⟩ : Region).locate 4 s.offsets.array.toUInt64
      s.entries.toUInt64 = .ok s.ring :=
    Region.locate_cells 4 (by decide) _ (hs.fits .array)
  have hsqes : (⟨some s.sqes⟩ : Region).locate 64 0 s.entries.toUInt64 = .ok s.sqes :=
    Region.locate_cells 64 (by decide) 0 (hs.fits .sqes)
  have hentries : m.word s.ring.block s.offsets.ringEntries.toNat = s.entries := hm.entries_eq
  have hmask : m.word s.ring.block s.offsets.ringMask.toNat = s.entries - 1 := hm.mask_eq
  simp only [SubmissionQueue.attach, bind, Except.bind, hhead, htail, hflags, hdropped, hmaskIn,
    hsizeIn, hentries, harray, hsqes, hmask]
  rfl

end SubmissionSite

/-! ## The kernel at a site -/

/-- The kernel works on the submission ring of the site. -/
structure Kernel.ServesSubmission (k : Kernel) (s : SubmissionSite) : Prop where
  ring : k.mapping? .sqRing = some s.ring
  sqes : k.mapping? .sqes = some s.sqes
  offsets : k.granted.sqOffsets = s.offsets
  entries : k.granted.sqEntries = s.entries

namespace Kernel.ServesSubmission

variable {k : Kernel} {s : SubmissionSite}

theorem withMemory (hk : k.ServesSubmission s) (m : Memory) :
    (k.withMemory m).ServesSubmission s :=
  ⟨by simpa using hk.ring, by simpa using hk.sqes, hk.offsets, hk.entries⟩

theorem head_eq (hk : k.ServesSubmission s) (hs : s.Sound) :
    k.word .sqRing k.granted.sqOffsets.head.toNat = s.word k.memory .head := by
  rw [hk.offsets]
  exact hs.kernelWord_eq (f := .head) hk.ring rfl

theorem tail_eq (hk : k.ServesSubmission s) (hs : s.Sound) :
    k.word .sqRing k.granted.sqOffsets.tail.toNat = s.word k.memory .tail := by
  rw [hk.offsets]
  exact hs.kernelWord_eq (f := .tail) hk.ring rfl

theorem mask_eq (hk : k.ServesSubmission s) (hs : s.Sound) (hm : s.Formatted k.memory) :
    k.word .sqRing k.granted.sqOffsets.ringMask.toNat = s.entries - 1 := by
  rw [hk.offsets, ← hm.mask_eq]
  exact hs.kernelWord_eq (f := .ringMask) hk.ring rfl

/-- The kernel finds an entry that lies in its own slot. -/
theorem slotEntry?_eq (hk : k.ServesSubmission s) (hs : s.Sound) {c : UInt32} {e : Entry}
    (he : s.entryAt? k.memory c = some e) : k.slotEntry? (slotOf s.entries c) = some e := by
  have hlt := slotOf_lt hs.isRingSize c
  have hin : s.ring.Holds (s.offsets.array.toNat + 4 * (slotOf s.entries c).toNat) 4 := by
    have hfits : s.ring.Holds s.offsets.array.toNat (4 * s.entries.toNat) := hs.fits .array
    simp only [Mapping.Holds] at hfits ⊢
    omega
  have hinSqe : s.sqes.Holds (64 * (slotOf s.entries c).toNat) 64 := by
    have hfits : s.sqes.Holds 0 (64 * s.entries.toNat) := hs.fits .sqes
    simp only [Mapping.Holds] at hfits ⊢
    omega
  simp only [SubmissionSite.entryAt?] at he
  split at he
  · next hindex =>
    unfold slotEntry?
    rw [hk.offsets, hk.entries, Kernel.word_eq hk.ring hin, hindex, hk.sqes]
    simp only [UInt32.lt_iff_toNat_lt, hlt, hinSqe, and_self, if_true]
    exact he
  · cases he

end Kernel.ServesSubmission

end IoRing
