import IoRing.Host

/-!
# Mapped regions

A `Region` owns a mapping or nothing.  It is the only thing that may unmap it.
An access through a region names an offset, an element size and a count.  It is
refused if the region owns nothing or if the bytes do not fit.  The byte count is
a 64-bit product, and both the check and the message use it as it is.

A `Bank` is a row of slots, each holding one region.  Its operations move
regions between slots.  A slot that is overwritten is released first, and a slot
that is moved out of is left empty.
-/

namespace IoRing

/-- The owner of a mapping, or of nothing. -/
structure Region where
  /-- The mapping, if one is owned. -/
  mapping? : Option Mapping := none
deriving DecidableEq, Inhabited

namespace Region

/-- The region that owns nothing. -/
def empty : Region := {}

/-- The number of bytes owned. -/
def length (r : Region) : UInt64 :=
  match r.mapping? with
  | some m => m.length
  | none => 0

/-- The region owns a mapping. -/
def isMapped (r : Region) : Bool := r.mapping?.isSome

/-- Map an area of a ring.  `what` names it in messages. -/
def map (fd : Int32) (offset : Int) (length : UInt64) (what : String) : Sys Region :=
  return ⟨some (← Sys.mapRing fd offset length what)⟩

/-- Map private memory, all zero. -/
def anonymous (length : UInt64) : Sys Region :=
  return ⟨some (← Sys.mapAnonymous length)⟩

/-- Unmap what the region owns. -/
def release (r : Region) : Sys Unit :=
  match r.mapping? with
  | some m => Sys.unmap m
  | none => pure ()

/-- The mapping behind a region, if `count` elements of `size` bytes fit at an
offset. -/
def locate (r : Region) (size offset count : UInt64) : Except Fault Mapping :=
  let bytes := size * count
  match r.mapping? with
  | some m =>
      if offset ≤ m.length ∧ bytes ≤ m.length - offset then .ok m
      else .error (.outsideMapping offset bytes m.length)
  | none => .error (.outsideMapping offset bytes 0)

/-- An access is allowed exactly if its bytes, counted in 64 bits, lie inside the
mapping. -/
theorem locate_eq_ok_iff {r : Region} {size offset count : UInt64} {m : Mapping} :
    r.locate size offset count = .ok m ↔
      r.mapping? = some m ∧ m.Holds offset.toNat (size * count).toNat := by
  have key (k : Mapping) : (offset ≤ k.length ∧ size * count ≤ k.length - offset) ↔
      k.Holds offset.toNat (size * count).toNat := by
    rw [Mapping.Holds, UInt64.le_iff_toNat_le, UInt64.le_iff_toNat_le]
    constructor
    · intro h
      rw [UInt64.toNat_sub_of_le _ _ (UInt64.le_iff_toNat_le.mpr h.1)] at h
      omega
    · intro h
      have hle : offset.toNat ≤ k.length.toNat := by omega
      refine ⟨hle, ?_⟩
      rw [UInt64.toNat_sub_of_le _ _ (UInt64.le_iff_toNat_le.mpr hle)]
      omega
  unfold locate
  cases hr : r.mapping? with
  | none => simp
  | some k =>
    simp only [Option.some.injEq]
    split
    · next h =>
      constructor
      · intro hk
        cases hk
        exact ⟨rfl, (key _).mp h⟩
      · rintro ⟨rfl, _⟩
        rfl
    · next h =>
      constructor
      · intro hk
        cases hk
      · rintro ⟨hm, hk⟩
        subst hm
        exact absurd ((key _).mpr hk) h

/-- The word at an offset. -/
def getWord (r : Region) (offset : UInt64) : Sys UInt32 := do
  let m ← Sys.ofExcept (r.locate 4 offset 1)
  return (← Sys.memory).word m.block offset.toNat

/-- Store a word at an offset. -/
def putWord (r : Region) (offset : UInt64) (value : UInt32) : Sys Unit := do
  let m ← Sys.ofExcept (r.locate 4 offset 1)
  Sys.setMemory ((← Sys.memory).setWord m.block offset.toNat value)

end Region

/-! ## Banks of regions -/

/-- A row of slots, each holding one region. -/
abbrev Bank (n : Nat) := Vector Region n

namespace Bank

variable {n : Nat}

/-- All slots empty. -/
def empty : Bank n := Vector.replicate n .empty

/-- Release what a slot holds and put a region there. -/
def put (b : Bank n) (slot : Fin n) (r : Region) : Sys (Bank n) := do
  b[slot].release
  return b.set slot r

/-- Put a newly made region into a slot.  It is made first, so the slot keeps
its region if that fails. -/
def create (b : Bank n) (slot : Fin n) (make : Sys Region) : Sys (Bank n) := do
  b.put slot (← make)

/-- Move the region of one slot to another.  Moving a slot onto itself does
nothing. -/
def move (b : Bank n) (source target : Fin n) : Sys (Bank n) :=
  if source = target then pure b
  else do
    let r := b[source]
    return (← b.put target r).set source .empty

/-- Exchange the regions of two slots. -/
def swap (b : Bank n) (i j : Fin n) : Bank n := Vector.swap b i j

/-- Release what a slot holds and leave it empty. -/
def reset (b : Bank n) (slot : Fin n) : Sys (Bank n) := b.put slot .empty

/-- Release every slot in order. -/
def releaseAll (b : Bank n) : Sys Unit := b.toList.forM Region.release

end Bank

end IoRing
