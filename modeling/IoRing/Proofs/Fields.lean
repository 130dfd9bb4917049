import IoRing.Proofs.Place

/-!
# Fields of a ring

A ring is a row of fields, some of them single words.  They are *sound* if each
lies inside its mapping and no two share a byte.  A write into some fields then
leaves the others alone (`Fields.Sound.sameAt`), and the kernel, which reaches
them through its mappings, sees and stores the same words as the process
(`Fields.Sound.kernelWord_eq`, `Fields.Sound.kernelSetWord_eq`).
-/

namespace IoRing

/-- Where the fields of a ring lie. -/
structure Fields (F : Type) where
  /-- The mapping of a field. -/
  mapping : F → Mapping
  /-- Its offset in the mapping. -/
  offset : F → Nat
  /-- Its number of bytes. -/
  count : F → Nat

namespace Fields

variable {F : Type} (l : Fields F)

/-- The place of a field. -/
def place (f : F) : Place := (l.mapping f).place (l.offset f) (l.count f)

/-- The word at the start of a field. -/
def word (m : Memory) (f : F) : UInt32 := m.word (l.mapping f).block (l.offset f)

/-- The fields lie inside their mappings and apart from each other. -/
structure Sound : Prop where
  fits : ∀ f, (l.mapping f).Holds (l.offset f) (l.count f)
  apart : ∀ f g, f ≠ g → (l.place f).Apart (l.place g)

variable {l} {m m' : Memory} {f : F}

/-- A word depends only on its own bytes. -/
theorem word_congr (hf : l.count f = 4) (h : SameAt (l.place f) m m') :
    l.word m' f = l.word m f := by
  rw [place, Mapping.place, hf] at h
  exact h.word_eq

/-- A field is the same if only other fields may differ. -/
theorem Sound.sameAt (hl : l.Sound) {gs : List F} (h : SameOutside (gs.map l.place) m m')
    (hf : f ∉ gs) : SameAt (l.place f) m m' := by
  refine h.sameAt fun p hp => ?_
  obtain ⟨g, hg, rfl⟩ := List.mem_map.mp hp
  refine hl.apart g f ?_
  rintro rfl
  exact hf hg

/-- A field that is not among those changed holds the same word. -/
theorem Sound.word_eq (hl : l.Sound) {gs : List F} (h : SameOutside (gs.map l.place) m m')
    (hf : f ∉ gs) (hcount : l.count f = 4) : l.word m' f = l.word m f :=
  word_congr hcount (hl.sameAt h hf)

variable {k : Kernel} {area : Area}

/-- The kernel reads the same words as the process. -/
theorem Sound.kernelWord_eq (hl : l.Sound) (hmap : k.mapping? area = some (l.mapping f))
    (hcount : l.count f = 4) : k.word area (l.offset f) = l.word k.memory f := by
  have hfits := hl.fits f
  rw [hcount] at hfits
  exact Kernel.word_eq hmap hfits

/-- The kernel stores a word in a field as the process would. -/
theorem Sound.kernelSetWord_eq (hl : l.Sound) (hmap : k.mapping? area = some (l.mapping f))
    (hcount : l.count f = 4) (value : UInt32) :
    k.setWord area (l.offset f) value =
      k.withMemory (k.memory.setWord (l.mapping f).block (l.offset f) value) := by
  have hfits := hl.fits f
  rw [hcount] at hfits
  exact Kernel.setWord_eq hmap hfits value

theorem sameOutside_setWord (hcount : l.count f = 4) (m : Memory) (value : UInt32) :
    SameOutside ([f].map l.place) m (m.setWord (l.mapping f).block (l.offset f) value) := by
  have h := m.sameOutside_setWord (l.mapping f).block (l.offset f) value
  rwa [← hcount] at h

end Fields

end IoRing
