import IoRing.Proofs.Place
import IoRing.Session.QueueStep

/-!
# What a computation reads and writes

An `Access` is a row of bytes of a mapping.  `Sys.Confined act h as` says that a
computation started on a host reads and writes nothing but the accesses `as`.
Started on any other memory with the same bytes there, it ends in the same way
and leaves the same bytes there, and neither run changes a byte anywhere else.
A byte that matters cannot be missing from the list.

Shared memory is *exposed*: between two steps of the process the other side may
store there what it likes.  `Exposed.run` makes steps and such stores in any
order.  What every step keeps about the queue holds at the end of every run
(`Exposed.run_keeps`), because a store does not reach the queue.
-/

namespace IoRing

/-! ## Accesses -/

/-- Bytes of a mapping that are read or written. -/
structure Access where
  mapping : Mapping
  offset : Nat
  count : Nat
deriving DecidableEq

namespace Access

abbrev place (a : Access) : Place := a.mapping.place a.offset a.count

/-- All bytes lie inside the mapping. -/
def Inside (a : Access) : Prop := a.mapping.Holds a.offset a.count

instance (a : Access) : Decidable a.Inside := inferInstanceAs (Decidable (Mapping.Holds ..))

/-- All bytes of the first access belong to the second. -/
structure PartOf (a b : Access) : Prop where
  mapping_eq : a.mapping = b.mapping
  le_offset : b.offset ≤ a.offset
  end_le : a.offset + a.count ≤ b.offset + b.count

variable {a b : Access}

theorem PartOf.refl (a : Access) : a.PartOf a := ⟨rfl, Nat.le_refl _, Nat.le_refl _⟩

/-- Part of an access inside its mapping is inside, too. -/
theorem PartOf.inside (h : a.PartOf b) (hb : b.Inside) : a.Inside := by
  rw [Inside, h.mapping_eq]
  exact Nat.le_trans h.end_le hb

theorem PartOf.within (h : a.PartOf b) : a.place.Within b.place :=
  ⟨congrArg Mapping.block h.mapping_eq, h.le_offset, h.end_le⟩

/-- One cell of an array of cells. -/
theorem partOf_cells (mapping : Mapping) (offset size : Nat) {i count : Nat} (hi : i < count) :
    (⟨mapping, offset + size * i, size⟩ : Access).PartOf ⟨mapping, offset, size * count⟩ := by
  have hwithin : (⟨mapping.block, offset + size * i, size⟩ : Place).Within
      ⟨mapping.block, offset, size * count⟩ := Place.within_of_cell hi
  exact ⟨rfl, hwithin.2.1, hwithin.2.2⟩

end Access

/-- A masked counter is below what the mask is below. -/
theorem toNat_and_lt {mask entries : UInt32} (h : mask < entries) (c : UInt32) :
    (c &&& mask).toNat < entries.toNat := by
  rw [UInt32.toNat_and]
  exact Nat.lt_of_le_of_lt Nat.and_le_right (UInt32.lt_iff_toNat_lt.mp h)

/-- The access to a word. -/
def Mapping.wordAccess (m : Mapping) (offset : UInt32) : Access := ⟨m, offset.toNat, 4⟩

/-- Both memories have the same bytes in all accesses. -/
def SameOn (as : List Access) (m m' : Memory) : Prop := ∀ a ∈ as, SameAt a.place m m'

namespace SameOn

variable {as : List Access} {m m' : Memory}

theorem word_eq {mapping : Mapping} {offset : UInt32} (h : SameOn as m m')
    (hmem : mapping.wordAccess offset ∈ as) :
    m'.word mapping.block offset.toNat = m.word mapping.block offset.toNat :=
  SameAt.word_eq (h _ hmem)

theorem byte_eq (h : SameOn as m m') {a : Access} (ha : a ∈ as) {block i : Nat}
    (hcovers : a.place.Covers block i) : m'.byte block i = m.byte block i := by
  obtain ⟨rfl, hfrom, hto⟩ := hcovers
  exact h a ha i hfrom hto

end SameOn

/-! ## Storing -/

/-- The function stores into the accesses only, and what it stores does not
depend on memory. -/
structure Stores (as : List Access) (f : Memory → Memory) : Prop where
  changes : ∀ m, SameOutside (as.map Access.place) m (f m)
  keeps : ∀ p m m', SameAt p m m' → SameAt p (f m) (f m')

namespace Stores

variable {as bs : List Access} {f g : Memory → Memory}

theorem nothing : Stores [] fun m => m where
  changes _ := .refl _ _
  keeps _ _ _ h := h

theorem of_subset (hf : Stores as f) (hsub : as ⊆ bs) : Stores bs f where
  changes m := (hf.changes m).of_subset (List.map_subset _ hsub)
  keeps := hf.keeps

/-- One store after the other. -/
theorem andThen (hf : Stores as f) (hg : Stores bs g) : Stores (as ++ bs) fun m => g (f m) where
  changes m :=
    ((hf.of_subset (List.subset_append_left ..)).changes m).trans
      ((hg.of_subset (List.subset_append_right ..)).changes (f m))
  keeps p m m' h := hg.keeps p _ _ (hf.keeps p m m' h)

end Stores

theorem stores_write (mapping : Mapping) (offset : Nat) (bytes : List UInt8) :
    Stores [⟨mapping, offset, bytes.length⟩] (·.write mapping.block offset bytes) where
  changes m := m.sameOutside_write mapping.block offset bytes
  keeps p m m' h i hfrom hto := by
    rw [Memory.byte_write, Memory.byte_write, h i hfrom hto]

theorem stores_setWord (mapping : Mapping) (offset : Nat) (value : UInt32) :
    Stores [⟨mapping, offset, 4⟩] (·.setWord mapping.block offset value) := by
  have h := stores_write mapping offset (LittleEndian.encode 4 value.toNat)
  rwa [LittleEndian.length_encode] at h

/-! ## Computations -/

/-- Started on the host, the computation reads and writes nothing but the
accesses. -/
def Sys.Confined {α : Type} (act : Sys α) (h : Host) (as : List Access) : Prop :=
  ∀ m, SameOn as h.kernel.memory m →
    ∃ result m₁ m₂, act h = Sys.ofExcept result (h.withMemory m₁) ∧
      act (h.withMemory m) = Sys.ofExcept result (h.withMemory m₂) ∧
      SameOutside (as.map Access.place) h.kernel.memory m₁ ∧
      SameOutside (as.map Access.place) m m₂ ∧ SameOn as m₁ m₂

/-- A computation is confined if its result and what it stores are decided by the
bytes in the accesses. -/
theorem Sys.Confined.of_stores {α : Type} {act : Sys α} {h : Host} {as bs : List Access}
    {f : Memory → Memory} (hf : Stores bs f) (hsub : bs ⊆ as) (result : Except Fault α)
    (hrun : ∀ m, SameOn as h.kernel.memory m →
      act (h.withMemory m) = Sys.ofExcept result (h.withMemory (f m))) : act.Confined h as := by
  intro m hsame
  have hf' := hf.of_subset hsub
  have hself : SameOn as h.kernel.memory h.kernel.memory := fun a _ => .refl _ _
  exact ⟨result, f h.kernel.memory, f m, hrun h.kernel.memory hself, hrun m hsame,
    hf'.changes _, hf'.changes _, fun a ha => hf'.keeps _ _ _ (hsame a ha)⟩

/-! ## Exposed memory -/

/-- A move in memory that the other side writes as well. -/
inductive ExposedMove (S : Type) where
  /-- The process takes a step on its queue. -/
  | step (step : S)
  /-- The other side stores whatever it likes. -/
  | overwrite (m : Memory)

/-- A queue on a host with exposed memory. -/
structure Exposed (Q : Type) where
  queue : Q
  host : Host

namespace Exposed

variable {Q S : Type} (perform : Q → S → Sys (Reply × Q))

/-- Make a move.  A step that fails leaves the queue as it is. -/
def move (r : Exposed Q) : ExposedMove S → Exposed Q
  | .step step =>
      match perform r.queue step r.host with
      | .ok (_, queue) host => { queue, host }
      | .error _ host => { r with host }
  | .overwrite m => { r with host := r.host.withMemory m }

/-- Make moves one after the other. -/
def run (r : Exposed Q) (moves : List (ExposedMove S)) : Exposed Q := moves.foldl (move perform) r

variable {perform} {r : Exposed Q} {P : Q → Prop}

/-- What each step keeps of the queue, a store of the other side keeps, too. -/
theorem move_keeps (hperform : ∀ q step h reply q' h', P q →
      perform q step h = .ok (reply, q') h' → P q') (hr : P r.queue)
    (move : ExposedMove S) : P (r.move perform move).queue := by
  cases move with
  | step step =>
    cases hstep : perform r.queue step r.host with
    | ok a host =>
      simp only [Exposed.move, hstep]
      exact hperform _ _ _ _ _ _ hr hstep
    | error f host =>
      simp only [Exposed.move, hstep]
      exact hr
  | overwrite m => exact hr

/-- What every step keeps about the queue holds at the end of every run. -/
theorem run_keeps (hperform : ∀ q step h reply q' h', P q →
      perform q step h = .ok (reply, q') h' → P q') (hr : P r.queue)
    (moves : List (ExposedMove S)) : P (r.run perform moves).queue :=
  List.foldlRecOn (motive := fun r : Exposed Q => P r.queue) moves _ hr
    fun _ hr move _ => move_keeps hperform hr move

end Exposed

end IoRing
