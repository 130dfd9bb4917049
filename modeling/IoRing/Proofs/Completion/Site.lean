import IoRing.CompletionQueue
import IoRing.Proofs.Fields
import IoRing.Proofs.Row

/-!
# The site of a completion ring

A `CompletionSite` says where a completion ring lies and how many slots it has.
One of its fields belongs to the submission ring.  These are the flags, where
the kernel notes that a completion found no room.

As with submissions, attaching to formatted memory gives `CompletionSite.queue`
(`attach_eq`), so the only thing that ever changes about a queue is its private
head.  A completion is read back as it was written (`Completion.load_setWords`).
-/

namespace IoRing

/-! ## Completions in memory -/

theorem Completion.load_congr {m m' : Memory} {block offset : Nat}
    (h : SameAt ⟨block, offset, 16⟩ m m') :
    Completion.load m' block offset = Completion.load m block offset := by
  have hword (i : Nat) (hi : i + 4 ≤ 16) :
      m'.word block (offset + i) = m.word block (offset + i) := by
    have hwithin : (⟨block, offset + i, 4⟩ : Place).Within ⟨block, offset, 16⟩ :=
      ⟨rfl, Nat.le_add_right _ _, by simp only; omega⟩
    exact (h.mono hwithin).word_eq
  have hfirst := hword 0 (by decide)
  rw [Nat.add_zero] at hfirst
  rw [load, hfirst, hword 4 (by decide), hword 8 (by decide), hword 12 (by decide)]
  rfl

/-- A completion is read back as it was written. -/
theorem Completion.load_setWords (m : Memory) (block offset : Nat) (c : Completion) :
    Completion.load (m.setWords block offset c.words) block offset = c := by
  have hskip (m : Memory) (value : UInt32) {i j : Nat} (hij : i + 4 ≤ j) :
      (m.setWord block j value).word block i = m.word block i :=
    m.word_setWord_of_apart block j value block i (.inr (.inr hij))
  have hlow : (m.setWords block offset c.words).word block offset =
      UInt32.ofNat c.userData.toNat := by
    simp only [Memory.setWords, words]
    rw [hskip _ _ (by omega), hskip _ _ (by omega), hskip _ _ (by omega), Memory.word_setWord]
  have hhigh : (m.setWords block offset c.words).word block (offset + 4) =
      UInt32.ofNat (c.userData.toNat / UInt32.size) := by
    simp only [Memory.setWords, words]
    rw [hskip _ _ (by omega), hskip _ _ (by omega), Memory.word_setWord]
  have hresult : (m.setWords block offset c.words).word block (offset + 8) =
      c.result.toUInt32 := by
    simp only [Memory.setWords, words]
    rw [hskip _ _ (by omega), Memory.word_setWord]
  have hflags : (m.setWords block offset c.words).word block (offset + 12) = c.flags := by
    simp only [Memory.setWords, words]
    rw [Memory.word_setWord]
  have huser : UInt64.ofNat ((UInt32.ofNat c.userData.toNat).toNat +
      UInt32.size * (UInt32.ofNat (c.userData.toNat / UInt32.size)).toNat) = c.userData := by
    have hhigh : c.userData.toNat / UInt32.size < 2 ^ 32 :=
      Nat.div_lt_of_lt_mul c.userData.toNat_lt
    have hlow : (UInt32.ofNat c.userData.toNat).toNat = c.userData.toNat % UInt32.size :=
      UInt32.toNat_ofNat'
    rw [toNat_ofNat hhigh, hlow, Nat.mod_add_div, UInt64.ofNat_toNat]
  rw [load, hlow, hhigh, hresult, hflags, huser]
  simp

/-! ## Sites -/

/-- The parts of a completion ring. -/
inductive CompletionField where
  | head
  | tail
  | ringMask
  | ringEntries
  | overflow
  | cqes
  | flags
deriving DecidableEq

/-- Where a completion ring lies and how large it is. -/
structure CompletionSite where
  /-- The mapping of the header and the completions. -/
  ring : Mapping
  /-- Where the fields are. -/
  offsets : CompletionOffsets
  /-- The number of slots. -/
  entries : UInt32
  /-- The mapping of the submission ring. -/
  sqRing : Mapping
  /-- Where the flags are in it. -/
  flagsOffset : UInt32

namespace CompletionSite

variable (s : CompletionSite)

/-- Where the fields lie. -/
def fields : Fields CompletionField where
  mapping
    | .flags => s.sqRing
    | _ => s.ring
  offset
    | .head => s.offsets.head.toNat
    | .tail => s.offsets.tail.toNat
    | .ringMask => s.offsets.ringMask.toNat
    | .ringEntries => s.offsets.ringEntries.toNat
    | .overflow => s.offsets.overflow.toNat
    | .cqes => s.offsets.cqes.toNat
    | .flags => s.flagsOffset.toNat
  count
    | .cqes => 16 * s.entries.toNat
    | _ => 4

/-- The place of a field. -/
abbrev place (f : CompletionField) : Place := s.fields.place f

/-- The word at the start of a field. -/
abbrev word (m : Memory) (f : CompletionField) : UInt32 := s.fields.word m f

/-- The size is a power of two, and the fields lie inside and apart. -/
structure Sound : Prop extends s.fields.Sound where
  isRingSize : IsRingSize s.entries

/-- The size and the mask in memory are those of the site. -/
structure Formatted (m : Memory) : Prop where
  entries_eq : s.word m .ringEntries = s.entries
  mask_eq : s.word m .ringMask = s.entries - 1

/-- The queue attached to the site, with a private head. -/
def queue (localHead : UInt32) : CompletionQueue :=
  ⟨s.ring, s.offsets, s.entries - 1, s.entries, localHead⟩

/-- The place of the completion in the slot of a counter. -/
abbrev cqePlace (c : UInt32) : Place :=
  ⟨s.ring.block, s.offsets.cqes.toNat + 16 * (slotOf s.entries c).toNat, 16⟩

/-- The completion in the slot of a counter. -/
def completionAt (m : Memory) (c : UInt32) : Completion :=
  Completion.load m s.ring.block (s.offsets.cqes.toNat + 16 * (slotOf s.entries c).toNat)

/-- Every slot holds a completion. -/
abbrev cell (m : Memory) (c : UInt32) : Option Completion := some (s.completionAt m c)

variable {s} {m m' : Memory}

theorem Formatted.congr (h : s.Formatted m) (hentries : SameAt (s.place .ringEntries) m m')
    (hmask : SameAt (s.place .ringMask) m m') : s.Formatted m' :=
  ⟨(Fields.word_congr rfl hentries).trans h.entries_eq,
    (Fields.word_congr rfl hmask).trans h.mask_eq⟩

theorem Sound.cqe_within (hs : s.Sound) (c : UInt32) :
    (s.cqePlace c).Within (s.place .cqes) :=
  Place.within_of_cell (slotOf_lt hs.isRingSize c)

theorem cqe_apart_cqe {c d : UInt32} (hne : slotOf s.entries c ≠ slotOf s.entries d) :
    (s.cqePlace c).Apart (s.cqePlace d) :=
  Memory.apart_slots _ _ _ (UInt32.toNat_inj.not.mpr hne)

/-- A slot depends only on the bytes of the array. -/
theorem Sound.cell_congr (hs : s.Sound) (hcqes : SameAt (s.place .cqes) m m') (c : UInt32) :
    s.cell m' c = s.cell m c :=
  congrArg some (Completion.load_congr (hcqes.mono (hs.cqe_within c)))

/-- Attaching to formatted memory succeeds and takes over the published head. -/
theorem Sound.attach_eq (hs : s.Sound) (hm : s.Formatted m) :
    CompletionQueue.attach ⟨some s.ring⟩ s.offsets m = .ok (s.queue (s.word m .head)) := by
  have hhead : (⟨some s.ring⟩ : Region).locate 4 s.offsets.head.toUInt64 1 = .ok s.ring :=
    Region.locate_word (hs.fits .head)
  have htail : (⟨some s.ring⟩ : Region).locate 4 s.offsets.tail.toUInt64 1 = .ok s.ring :=
    Region.locate_word (hs.fits .tail)
  have hoverflow : (⟨some s.ring⟩ : Region).locate 4 s.offsets.overflow.toUInt64 1 = .ok s.ring :=
    Region.locate_word (hs.fits .overflow)
  have hmaskIn : (⟨some s.ring⟩ : Region).locate 4 s.offsets.ringMask.toUInt64 1 = .ok s.ring :=
    Region.locate_word (hs.fits .ringMask)
  have hsizeIn : (⟨some s.ring⟩ : Region).locate 4 s.offsets.ringEntries.toUInt64 1 =
      .ok s.ring :=
    Region.locate_word (hs.fits .ringEntries)
  have hcqes : (⟨some s.ring⟩ : Region).locate 16 s.offsets.cqes.toUInt64
      s.entries.toUInt64 = .ok s.ring :=
    Region.locate_cells 16 (by decide) _ (hs.fits .cqes)
  have hentries : m.word s.ring.block s.offsets.ringEntries.toNat = s.entries := hm.entries_eq
  have hmask : m.word s.ring.block s.offsets.ringMask.toNat = s.entries - 1 := hm.mask_eq
  simp only [CompletionQueue.attach, bind, Except.bind, hhead, htail, hoverflow, hmaskIn,
    hsizeIn, hentries, hcqes, hmask]
  rfl

end CompletionSite

/-! ## The kernel at a site -/

/-- The kernel works on the completion ring of the site. -/
structure Kernel.ServesCompletion (k : Kernel) (s : CompletionSite) : Prop where
  ring : k.mapping? .cqRing = some s.ring
  offsets : k.granted.cqOffsets = s.offsets
  entries : k.granted.cqEntries = s.entries
  sqRing : k.mapping? .sqRing = some s.sqRing
  flagsOffset : k.granted.sqOffsets.flags = s.flagsOffset

namespace Kernel.ServesCompletion

variable {k : Kernel} {s : CompletionSite}

theorem withMemory (hk : k.ServesCompletion s) (m : Memory) :
    (k.withMemory m).ServesCompletion s :=
  ⟨by simpa using hk.ring, hk.offsets, hk.entries, by simpa using hk.sqRing, hk.flagsOffset⟩

theorem head_eq (hk : k.ServesCompletion s) (hs : s.Sound) :
    k.word .cqRing k.granted.cqOffsets.head.toNat = s.word k.memory .head := by
  rw [hk.offsets]
  exact hs.kernelWord_eq (f := .head) hk.ring rfl

theorem tail_eq (hk : k.ServesCompletion s) (hs : s.Sound) :
    k.word .cqRing k.granted.cqOffsets.tail.toNat = s.word k.memory .tail := by
  rw [hk.offsets]
  exact hs.kernelWord_eq (f := .tail) hk.ring rfl

theorem mask_eq (hk : k.ServesCompletion s) (hs : s.Sound) (hm : s.Formatted k.memory) :
    k.word .cqRing k.granted.cqOffsets.ringMask.toNat = s.entries - 1 := by
  rw [hk.offsets, ← hm.mask_eq]
  exact hs.kernelWord_eq (f := .ringMask) hk.ring rfl

end Kernel.ServesCompletion

end IoRing
