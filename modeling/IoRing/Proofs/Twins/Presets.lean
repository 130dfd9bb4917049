import IoRing.Proofs.Ring.Parts
import IoRing.Proofs.Twins.Agreement

/-!
# Presets

A kernel presets words in the mappings it makes.  A word that lies in a field is
stored into that field and stays in the mapping, so presetting the same words on
twin sites keeps their memories in agreement (`RingSite.Agree.guardedSetSubmission`,
`RingSite.Agree.guardedSetCompletion`).  Of several words for one place the last
one is left (`Fields.Sound.word_preset`).

A kernel writes no block beyond the mappings it made (`Kernel.Fresh`).  So to clear
a new mapping changes nothing, and mapping a part is no more than presetting it.
-/

namespace IoRing

/-- The bytes from `offset` on belong to a field. -/
def Fields.Covers {F : Type} (l : Fields F) (f : F) (offset count : Nat) : Prop :=
  l.offset f ≤ offset ∧ offset + count ≤ l.offset f + l.count f

/-! ## Stores into a mapping -/

namespace Mapping

variable {mapping mapping' : Mapping} {m m' : Memory} {words : List (Nat × UInt32)}

/-- What each store keeps, all of them keep. -/
theorem preset_induction {R : Memory → Memory → Prop} (hm : R m m')
    (hstep : ∀ w ∈ words, ∀ m m', R m m' →
      R (mapping.guardedSetWord m w.1 w.2) (mapping'.guardedSetWord m' w.1 w.2)) :
    R (mapping.preset m words) (mapping'.preset m' words) := by
  induction words generalizing m m' with
  | nil => exact hm
  | cons w words ih =>
    exact ih (hstep w List.mem_cons_self m m' hm) fun v hv =>
      hstep v (List.mem_cons_of_mem w hv)

theorem byte_guardedSetWord_of_ne (mapping : Mapping) (m : Memory) (offset : Nat) (value : UInt32)
    {b : Nat} (hb : mapping.block ≠ b) (i : Nat) :
    (mapping.guardedSetWord m offset value).byte b i = m.byte b i := by
  unfold guardedSetWord
  split
  · exact m.byte_write_of_apart _ _ _ _ _ (.inl hb)
  · rfl

theorem byte_preset_of_ne (mapping : Mapping) (m : Memory) (words : List (Nat × UInt32)) {b : Nat}
    (hb : mapping.block ≠ b) (i : Nat) : (mapping.preset m words).byte b i = m.byte b i := by
  induction words generalizing m with
  | nil => rfl
  | cons w words ih => exact (ih _).trans (mapping.byte_guardedSetWord_of_ne m w.1 w.2 hb i)

theorem preset_append (mapping : Mapping) (m : Memory) (words words' : List (Nat × UInt32)) :
    mapping.preset m (words ++ words') = mapping.preset (mapping.preset m words) words' :=
  List.foldl_append

end Mapping

/-- To clear a block that was never written changes nothing. -/
theorem Memory.clear_of_blank {m : Memory} {block : Nat} (hblank : ∀ i, m.byte block i = 0) :
    m.clear block = m := by
  ext b i
  rw [byte_clear]
  split
  · next hb => rw [hb, hblank]
  · rfl

theorem Fields.Sound.guardedSetWord_eq {F : Type} {l : Fields F} (hl : l.Sound) {f : F}
    {offset : Nat} (hin : l.Covers f offset 4) (m : Memory) (value : UInt32) :
    (l.mapping f).guardedSetWord m offset value =
      l.write m f (offset - l.offset f) (LittleEndian.encode 4 value.toNat) := by
  obtain ⟨hlow, hhigh⟩ := hin
  have hfits := hl.fits f
  have hholds : (l.mapping f).Holds offset 4 := by
    simp only [Mapping.Holds] at hfits ⊢
    omega
  rw [Mapping.guardedSetWord, if_pos hholds, write, Nat.add_sub_cancel' hlow]
  rfl

namespace RingSite.Agree

variable {s s' : RingSite} {m m' : Memory} {f : SubmissionField} {g : CompletionField}
  {offset : Nat}

theorem guardedSetSubmission (hm : s.Agree s' m m') (ht : s.Twins s')
    (hin : s.submission.fields.Covers f offset 4) (value : UInt32) :
    s.Agree s' ((s.submission.fields.mapping f).guardedSetWord m offset value)
      ((s'.submission.fields.mapping f).guardedSetWord m' offset value) := by
  have hin' : s'.submission.fields.Covers f offset 4 := by
    rwa [Fields.Covers, ht.sqOffset_eq, ht.sqCount_eq]
  rw [ht.sound.submission.guardedSetWord_eq hin, ht.sound'.submission.guardedSetWord_eq hin',
    ht.sqOffset_eq]
  obtain ⟨hlow, hhigh⟩ := hin
  exact hm.writeSubmission ht (by rw [LittleEndian.length_encode]; omega)

theorem guardedSetCompletion (hm : s.Agree s' m m') (ht : s.Twins s') (hg : g ≠ .flags)
    (hin : s.completion.fields.Covers g offset 4) (value : UInt32) :
    s.Agree s' ((s.completion.fields.mapping g).guardedSetWord m offset value)
      ((s'.completion.fields.mapping g).guardedSetWord m' offset value) := by
  have hin' : s'.completion.fields.Covers g offset 4 := by
    rwa [Fields.Covers, ht.cqOffset_eq, ht.cqCount_eq]
  rw [ht.sound.completion.guardedSetWord_eq hin, ht.sound'.completion.guardedSetWord_eq hin',
    ht.cqOffset_eq]
  obtain ⟨hlow, hhigh⟩ := hin
  exact hm.writeCompletion ht hg (by rw [LittleEndian.length_encode]; omega)

end RingSite.Agree

/-- The last word preset at the place of a field is the word of that field. -/
theorem Fields.Sound.word_preset {F : Type} {l : Fields F} (hl : l.Sound) {mapping : Mapping}
    {words : List (Nat × UInt32)} (m : Memory) (f : F) (hf : l.count f = 4)
    (hmapping : l.mapping f = mapping)
    (hwords : ∀ w ∈ words, ∃ g, l.mapping g = mapping ∧ l.Covers g w.1 4) {value : UInt32}
    (hvalue : words.reverse.lookup (l.offset f) = some value) :
    l.word (mapping.preset m words) f = value := by
  obtain ⟨later, rfl⟩ : ∃ later, words = later.reverse := ⟨words.reverse, by simp⟩
  rw [List.reverse_reverse] at hvalue
  induction later with
  | nil => cases hvalue
  | cons w later ih =>
    obtain ⟨g, hg, hlow, hhigh⟩ := hwords w (by simp)
    have hfits := hl.fits g
    rw [hg] at hfits
    have hin : mapping.Holds w.1 4 := by
      simp only [Mapping.Holds] at hfits ⊢
      omega
    have hlast : mapping.preset m (w :: later).reverse =
        (mapping.preset m later.reverse).setWord mapping.block w.1 w.2 := by
      rw [List.reverse_cons, Mapping.preset_append]
      exact if_pos hin
    rw [List.lookup_cons] at hvalue
    rw [hlast]
    by_cases hgf : g = f
    · -- The word fills the field, so it is the last one there.
      subst hgf
      have hat : l.offset g = w.1 := by omega
      rw [hat, beq_self_eq_true] at hvalue
      cases hvalue
      rw [word, hmapping, hat, Memory.word_setWord]
    · have hapart := hl.apart g f hgf
      simp only [Place.Apart, place, Mapping.place, hg, hmapping, hf] at hapart
      have hword : Memory.Apart mapping.block w.1 4 mapping.block (l.offset f) 4 := by
        rcases hapart with h | h | h
        · exact absurd rfl h
        · exact .inr (.inl (by omega))
        · exact .inr (.inr (by omega))
      have hne : (l.offset f == w.1) = false := by
        rw [beq_eq_false_iff_ne]
        rintro heq
        rcases hword with h | h | h
        · exact absurd rfl h
        · omega
        · omega
      rw [hne] at hvalue
      have hrest := ih (fun v hv => hwords v (by simp [List.mem_reverse.mp hv])) hvalue
      rw [word, hmapping] at hrest
      rw [word, hmapping, Memory.word_setWord_of_apart _ _ _ _ _ _ hword, hrest]

/-! ## Mapping a part -/

namespace Kernel

/-- No block beyond the mappings made was ever written. -/
def Fresh (k : Kernel) : Prop := ∀ b, k.mapped < b → ∀ i, k.memory.byte b i = 0

theorem presetsOf_withPart (k : Kernel) (p : Part) (area : Area) :
    (k.withPart p).presetsOf area = k.presetsOf area := by
  unfold withPart
  cases p.area <;> rfl

theorem Fresh.memory_withPart {k : Kernel} (hk : k.Fresh) (p : Part) :
    (k.withPart p).memory =
      (⟨k.mapped + 1, p.length⟩ : Mapping).preset k.memory (k.presetsOf p.area) := by
  have hmemory : (k.withPart p).memory = (⟨k.mapped + 1, p.length⟩ : Mapping).preset
      (k.memory.clear (k.mapped + 1)) (k.presetsOf p.area) := by
    unfold withPart
    cases p.area <;> rfl
  rw [hmemory, Memory.clear_of_blank (hk _ (Nat.lt_succ_self _))]

theorem Fresh.withPart {k : Kernel} (hk : k.Fresh) (p : Part) : (k.withPart p).Fresh := by
  intro b hb i
  rw [mapped_withPart] at hb
  rw [hk.memory_withPart, Mapping.byte_preset_of_ne _ _ _ (Nat.ne_of_lt hb)]
  exact hk b (Nat.lt_of_succ_lt hb) i

end Kernel

end IoRing
