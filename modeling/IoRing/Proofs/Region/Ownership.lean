import IoRing.Proofs.Ring.Parts
import Mathlib.Data.List.Nodup
import Mathlib.Data.List.Perm.Basic

/-!
# Exclusive ownership of mappings

The log of a host says which mappings were *made* and which were *returned*
(`Host.made`, `Host.returned`).  Between them stands what a process *holds*.  A
`Ledger` says that the three balance, and that no two mappings made have the same
number.

To make a region puts its mapping among those held, or changes nothing
(`Ledger.make`).  To release a region takes its mapping from those held to those
returned (`Ledger.release`).  All operations on a bank are made of these two and
of moves, and a move only changes the order of what is held.

`BankMove` is what a user may do with a bank, and a `BankTrace` is a bank with its
host after some of these moves.  Every slot that is mapped is the only owner of
its mapping, and once all slots are released each mapping made was returned
exactly once (`BankTrace.run_ownsExclusively`).
-/

namespace IoRing

/-! ## The ledger -/

/-- The mapping that a call gave back, whatever the call returned. -/
def Call.unmapped? : Call → Option Mapping
  | .unmap block length _ => some ⟨block, length⟩
  | _ => none

namespace Host

/-- The mappings made so far, oldest first. -/
def made (h : Host) : List Mapping := h.calls.filterMap Call.mapped?

/-- The mappings given back so far, oldest first. -/
def returned (h : Host) : List Mapping := h.calls.filterMap Call.unmapped?

/-- To return mappings makes none. -/
theorem Unmapped.made_eq {ms : List Mapping} {h h' : Host} (hu : Unmapped ms h h') :
    h'.made = h.made := by
  have hnone : (ms.map (·.unmapCall h.kernel.config)).filterMap Call.mapped? = [] := by
    simp [List.filterMap_map, Function.comp_def, Mapping.unmapCall, Call.mapped?]
  rw [made, hu.calls_eq, List.filterMap_append, hnone, List.append_nil]
  rfl

/-- The mappings unmapped come behind those returned before. -/
theorem Unmapped.returned_eq {ms : List Mapping} {h h' : Host} (hu : Unmapped ms h h') :
    h'.returned = h.returned ++ ms := by
  have hall : (ms.map (·.unmapCall h.kernel.config)).filterMap Call.unmapped? = ms := by
    simp [List.filterMap_map, Function.comp_def, Mapping.unmapCall, Call.unmapped?]
  rw [returned, hu.calls_eq, List.filterMap_append, hall]
  rfl

/-- To return mappings leaves the number of the next one as it is. -/
theorem Unmapped.mapped_eq {ms : List Mapping} {h h' : Host} (hu : Unmapped ms h h') :
    h'.kernel.mapped = h.kernel.mapped := by
  obtain ⟨_, _, _, hkernel⟩ := h.kernel.forgetAll_eq ms
  rw [hu.kernel_eq, hkernel]

/-- No mapping was made or returned between two hosts. -/
structure SameMappings (h h' : Host) : Prop where
  made_eq : h'.made = h.made
  returned_eq : h'.returned = h.returned
  mapped_eq : h'.kernel.mapped = h.kernel.mapped

theorem SameMappings.refl (h : Host) : SameMappings h h := ⟨rfl, rfl, rfl⟩

end Host

/-- The mappings made are those returned and those held.  The kernel numbered
them all, each with a number of its own. -/
structure Ledger (h : Host) (held : List Mapping) : Prop where
  balanced : h.made.Perm (h.returned ++ held)
  distinct : (h.made.map Mapping.block).Nodup
  numbered : ∀ m ∈ h.made, m.block ≤ h.kernel.mapped

namespace Ledger

variable {h h' : Host} {held held' : List Mapping}

/-- A fresh process holds nothing. -/
theorem start (k : Kernel) : Ledger (.ofKernel k) [] where
  balanced := .nil
  distinct := List.nodup_nil
  numbered _ hm := absurd hm List.not_mem_nil

/-- The ledger does not see the order of what is held. -/
theorem of_perm (hl : Ledger h held) (hperm : held.Perm held') : Ledger h held' where
  balanced := hl.balanced.trans (hperm.append_left _)
  distinct := hl.distinct
  numbered := hl.numbered

/-- Steps that make and return nothing keep the ledger. -/
theorem of_same (hl : Ledger h held) (hsame : h.SameMappings h') : Ledger h' held where
  balanced := by rw [hsame.made_eq, hsame.returned_eq]; exact hl.balanced
  distinct := by rw [hsame.made_eq]; exact hl.distinct
  numbered := by rw [hsame.made_eq, hsame.mapped_eq]; exact hl.numbered

theorem nodup_made (hl : Ledger h held) : h.made.Nodup := List.Nodup.of_map _ hl.distinct

/-- No mapping was returned twice, and none that was returned is held. -/
theorem nodup (hl : Ledger h held) : (h.returned ++ held).Nodup :=
  hl.balanced.nodup_iff.mp hl.nodup_made

/-- What is held is what was made and not returned. -/
theorem mem_held_iff (hl : Ledger h held) {m : Mapping} :
    m ∈ held ↔ m ∈ h.made ∧ m ∉ h.returned := by
  obtain ⟨-, -, hdisjoint⟩ := List.nodup_append.mp hl.nodup
  rw [hl.balanced.mem_iff, List.mem_append]
  constructor
  · intro hm
    exact ⟨.inr hm, fun hm' => hdisjoint m hm' m hm rfl⟩
  · rintro ⟨hm | hm, hnot⟩
    · exact absurd hm hnot
    · exact hm

/-- A fresh mapping comes to those held. -/
theorem gain (hl : Ledger h held) {length : UInt64}
    (hmade : h'.made = h.made ++ [⟨h.kernel.mapped + 1, length⟩])
    (hreturned : h'.returned = h.returned) (hmapped : h'.kernel.mapped = h.kernel.mapped + 1) :
    Ledger h' (⟨h.kernel.mapped + 1, length⟩ :: held) where
  balanced := by
    rw [hmade, hreturned]
    exact (List.perm_append_singleton _ _).trans
      ((hl.balanced.cons _).trans List.perm_middle.symm)
  distinct := by
    rw [hmade, List.map_append, List.map_singleton]
    refine List.nodup_append.mpr ⟨hl.distinct, List.nodup_singleton _, ?_⟩
    rintro block hblock _ hfresh rfl
    obtain ⟨m, hm, rfl⟩ := List.mem_map.mp hblock
    have hle := hl.numbered m hm
    rw [List.mem_singleton.mp hfresh] at hle
    exact Nat.not_succ_le_self _ hle
  numbered := by
    rw [hmade, hmapped]
    intro m hm
    rcases List.mem_append.mp hm with hm | hm
    · exact Nat.le_succ_of_le (hl.numbered m hm)
    · obtain rfl := List.mem_singleton.mp hm
      exact Nat.le_refl _

/-- To release a region returns what it holds. -/
theorem release {r : Region} (hl : Ledger h (r.mapping?.toList ++ held)) :
    ∃ h', r.release h = .ok () h' ∧ Ledger h' held ∧ h'.made = h.made := by
  obtain ⟨h', hrelease, hunmapped⟩ := r.release_ok h
  refine ⟨h', hrelease, ⟨?_, ?_, ?_⟩, hunmapped.made_eq⟩
  · rw [hunmapped.made_eq, hunmapped.returned_eq, List.append_assoc]
    exact hl.balanced
  · rw [hunmapped.made_eq]
    exact hl.distinct
  · rw [hunmapped.made_eq, hunmapped.mapped_eq]
    exact hl.numbered

end Ledger

/-! ## Making regions -/

namespace Kernel

/-- A mapping call gives a fresh mapping, or fails and leaves the kernel as it
is. -/
theorem mapRing_cases (k : Kernel) (fd : Int32) (offset : Int) (length : UInt64) :
    (∃ k', k.mapRing fd offset length = (.ok ⟨k.mapped + 1, length⟩, k') ∧
      k'.mapped = k.mapped + 1) ∨
    ∃ e, k.mapRing fd offset length = (.error e, k) := by
  unfold mapRing
  split
  · exact .inr ⟨_, rfl⟩
  · cases Area.ofOffset? offset with
    | none => exact .inr ⟨_, rfl⟩
    | some area =>
      cases hfails : k.config.mapFailures.ofArea area with
      | some e => exact .inr ⟨e, by simp only [hfails]⟩
      | none =>
        simp only [hfails]
        split
        · exact .inr ⟨_, rfl⟩
        · refine .inl ⟨_, rfl, ?_⟩
          cases area <;> rfl

theorem mapAnonymous_cases (k : Kernel) (length : UInt64) :
    (∃ k', k.mapAnonymous length = (.ok ⟨k.mapped + 1, length⟩, k') ∧
      k'.mapped = k.mapped + 1) ∨
    ∃ e, k.mapAnonymous length = (.error e, k) := by
  unfold mapAnonymous
  cases k.config.mapFailures.anonymous with
  | some e => exact .inr ⟨e, rfl⟩
  | none =>
    simp only
    split
    · exact .inr ⟨_, rfl⟩
    · exact .inl ⟨_, rfl, rfl⟩

end Kernel

/-- A computation makes a region over a fresh mapping of a length.  If it fails,
it leaves the kernel as it is and makes nothing. -/
def Region.Makes (make : Sys Region) (length : UInt64) : Prop :=
  ∀ h, (∃ h', make h = .ok ⟨some ⟨h.kernel.mapped + 1, length⟩⟩ h' ∧
      h'.made = h.made ++ [⟨h.kernel.mapped + 1, length⟩] ∧ h'.returned = h.returned ∧
      h'.kernel.mapped = h.kernel.mapped + 1) ∨
    ∃ f h', make h = .error f h' ∧ h'.kernel = h.kernel ∧ h.SameMappings h'

/-- What both mapping calls do: refuse a length of 0, call, note, and turn an
error into a fault. -/
def Sys.mapNoted (act : Kernel → Except Errno Mapping × Kernel) (length : UInt64)
    (noted : Int → Call) (empty : Fault) (failed : Errno → Fault) : Sys Mapping := do
  if length = 0 then throw empty
  let result ← onKernel act
  note (noted (mapCode result))
  match result with
  | .ok m => return m
  | .error e => throw (failed e)

theorem Sys.mapRing_eq (fd : Int32) (offset : Int) (length : UInt64) (what : String) :
    mapRing fd offset length what =
      mapNoted (·.mapRing fd offset length) length
        (.map fd offset length MapFlag.readWrite MapFlag.sharedPopulated)
        (.emptyMapping what) (.mapFailed what) := rfl

theorem Sys.mapAnonymous_eq (length : UInt64) :
    mapAnonymous length =
      mapNoted (·.mapAnonymous length) length
        (.map (-1) 0 length MapFlag.readWrite MapFlag.privateAnonymous)
        .emptyAnonymousMapping .anonymousMapFailed := rfl

namespace Region

/-- A mapping call that gives a fresh mapping or fails makes a region. -/
theorem makes_mapNoted {act : Kernel → Except Errno Mapping × Kernel} {fd : Int32} {offset : Int}
    {length : UInt64} {protection flags : UInt32} {empty : Fault} {failed : Errno → Fault}
    (hact : ∀ k, (∃ k', act k = (.ok ⟨k.mapped + 1, length⟩, k') ∧ k'.mapped = k.mapped + 1) ∨
      ∃ e, act k = (.error e, k)) :
    Makes (do return ⟨some (← Sys.mapNoted act length
      (.map fd offset length protection flags) empty failed)⟩) length := by
  intro h
  by_cases hlength : length = 0
  · refine .inr ⟨empty, h, ?_, rfl, .refl h⟩
    rw [Sys.mapNoted, if_pos hlength]
    rfl
  · rcases hact h.kernel with ⟨k', hok, hmapped⟩ | ⟨e, herror⟩
    · refine .inl ⟨{ h with
        kernel := k'
        calls := h.calls ++ [.map fd offset length protection flags (h.kernel.mapped + 1 : Nat)] },
        ?_, ?_, ?_, hmapped⟩
      · simp only [Sys.mapNoted, if_neg hlength, bind_assoc]
        rw [Sys.bind_ok (Sys.onKernel_eq act h), hok]
        rfl
      · simp [Host.made, Call.mapped?]
      · simp [Host.returned, Call.unmapped?]
    · refine .inr ⟨failed e, { h with
        calls := h.calls ++ [.map fd offset length protection flags (-e.code)] },
        ?_, rfl, ?_, ?_, rfl⟩
      · simp only [Sys.mapNoted, if_neg hlength, bind_assoc]
        rw [Sys.bind_ok (Sys.onKernel_eq act h), herror]
        rfl
      · simp [Host.made, Call.mapped?]
      · simp [Host.returned, Call.unmapped?]

theorem makes_map (fd : Int32) (offset : Int) (length : UInt64) (what : String) :
    Makes (Region.map fd offset length what) length := by
  rw [Region.map, Sys.mapRing_eq]
  exact makes_mapNoted fun k => k.mapRing_cases fd offset length

theorem makes_anonymous (length : UInt64) : Makes (Region.anonymous length) length := by
  rw [Region.anonymous, Sys.mapAnonymous_eq]
  exact makes_mapNoted fun k => k.mapAnonymous_cases length

end Region

/-! ## Banks -/

namespace Bank

variable {n : Nat} {b : Bank n} {h : Host}

/-- The mappings that the slots own. -/
def owned (b : Bank n) : List Mapping := b.toList.filterMap Region.mapping?

/-- A bank owns the mappings of its slots. -/
theorem mem_owned_iff {m : Mapping} : m ∈ b.owned ↔ ∃ i : Fin n, (b.get i).mapping? = some m := by
  rw [owned, List.mem_filterMap]
  constructor
  · rintro ⟨r, hr, hm⟩
    obtain ⟨i, hi, rfl⟩ := Vector.mem_iff_getElem.mp (Vector.mem_toList_iff.mp hr)
    exact ⟨⟨i, hi⟩, hm⟩
  · rintro ⟨i, hm⟩
    exact ⟨b.get i, Vector.mem_toList_iff.mpr (Vector.getElem_mem i.isLt), hm⟩

theorem filterMap_mapping_cons (r : Region) (rs : List Region) :
    (r :: rs).filterMap Region.mapping? =
      r.mapping?.toList ++ rs.filterMap Region.mapping? := by
  rw [List.filterMap_cons]
  cases r.mapping? <;> rfl

/-- To put a region into a slot is to exchange it for the one there. -/
theorem owned_set (b : Bank n) (i : Fin n) (r : Region) :
    ((b.get i).mapping?.toList ++ owned (b.set i r i.isLt)).Perm
      (r.mapping?.toList ++ b.owned) := by
  have hi : i < b.toList.length := by rw [Vector.length_toList]; exact i.isLt
  have hnew := (List.set_perm_cons_eraseIdx hi r).filterMap Region.mapping?
  have hold := (List.getElem_cons_eraseIdx_perm hi).filterMap Region.mapping?
  rw [filterMap_mapping_cons, ← Vector.toList_set] at hnew
  rw [filterMap_mapping_cons, Vector.getElem_toList] at hold
  exact (hnew.append_left _).trans
    ((List.perm_append_comm_assoc _ _ _).trans (hold.append_left _))

/-! ## Operations on banks -/

theorem get_eq_getElem (b : Bank n) (i : Fin n) : b.get i = getElem b i.val i.isLt := rfl

theorem get_set_self (b : Bank n) (i : Fin n) (r : Region) : (b.set i r i.isLt).get i = r :=
  Vector.getElem_set_self _

theorem get_set_ne (b : Bank n) {i j : Fin n} (hne : i ≠ j) (r : Region) :
    (b.set i r i.isLt).get j = b.get j :=
  Vector.getElem_set_ne _ _ (Fin.val_ne_of_ne hne)

/-- A slot is released before the new region comes in. -/
theorem put_eq (b : Bank n) (i : Fin n) (r : Region) :
    b.put i r = do
      (b.get i).release
      return b.set i r i.isLt := rfl

theorem put_of_empty {i : Fin n} (hempty : b.get i = .empty) (r : Region) :
    b.put i r = pure (b.set i r i.isLt) := by
  rw [put_eq, hempty]
  rfl

theorem move_self (b : Bank n) (i : Fin n) : b.move i i = pure b := if_pos rfl

/-- To move a region is to take it out and to put it into the other slot. -/
theorem move_of_ne {source target : Fin n} (hne : source ≠ target) :
    b.move source target =
      Bank.put (b.set source .empty source.isLt) target (b.get source) := by
  simp only [move, if_neg hne, put_eq, get_set_ne b hne, bind_assoc, pure_bind]
  rw [Vector.set_comm _ _ (Fin.val_ne_of_ne hne)]
  rfl

/-- Exchange two slots by three moves, over a variable of its own. -/
def swapByMoves (b : Bank n) (i j : Fin n) : Sys (Bank n) := do
  let temporary := b.get i
  let b ← Bank.move (b.set i .empty i.isLt) j i
  b.put j temporary

/-- The three moves release nothing, also if both slots are the same. -/
theorem swapByMoves_eq (b : Bank n) (i j : Fin n) : b.swapByMoves i j = pure (b.swap i j) := by
  rw [swapByMoves]
  by_cases hij : j = i
  · subst hij
    rw [move_self, pure_bind, put_of_empty (get_set_self b j _)]
    congr 1
    ext k hk
    grind [Bank.swap, get_eq_getElem]
  · rw [move_of_ne hij, put_of_empty, pure_bind, put_of_empty]
    · congr 1
      ext k hk
      grind [Bank.swap, get_eq_getElem]
    · rw [get_set_ne _ (Ne.symm hij), get_set_self]
    · rw [get_set_ne _ hij, get_set_self]

/-- A create that succeeds leaves a fresh mapping of the asked length in the slot,
and returns the one that was there. -/
theorem create_eq_ok {make : Sys Region} {length : UInt64} {i : Fin n} {b' : Bank n} {h' : Host}
    (hmakes : Region.Makes make length) (hcreate : b.create i make h = .ok b' h') :
    ∃ m : Mapping, m.length = length ∧ b' = b.set i ⟨some m⟩ i.isLt ∧
      h'.made = h.made ++ [m] ∧ h'.returned = h.returned ++ (b.get i).mapping?.toList := by
  rcases hmakes h with ⟨h₁, hmake, hmade, hreturned, -⟩ | ⟨f, h₁, hmake, -⟩
  · obtain ⟨h₂, hrelease, hunmapped⟩ := (b.get i).release_ok h₁
    rw [create, Sys.bind_ok hmake, put_eq, Sys.bind_ok hrelease] at hcreate
    cases hcreate
    refine ⟨_, rfl, rfl, ?_, ?_⟩
    · rw [hunmapped.made_eq, hmade]
    · rw [hunmapped.returned_eq, hreturned]
  · rw [create, Sys.bind_error hmake] at hcreate
    cases hcreate

/-- Take a region out into a variable of its own, which is destroyed at once. -/
def take (b : Bank n) (i : Fin n) : Sys (Bank n) := do
  let temporary := b.get i
  let b : Bank n := b.set i .empty i.isLt
  temporary.release
  return b

theorem take_eq_reset (b : Bank n) (i : Fin n) : b.take i = b.reset i := rfl

end Bank

namespace Ledger

open Bank (owned)

variable {n : Nat} {b : Bank n} {h : Host}

/-- A region held outside the bank can be put into a slot. -/
theorem put {i : Fin n} {r : Region} (hl : Ledger h (r.mapping?.toList ++ b.owned)) :
    ∃ h', b.put i r h = .ok (b.set i r i.isLt) h' ∧ Ledger h' (owned (b.set i r i.isLt)) ∧
      h'.made = h.made := by
  obtain ⟨h', hrelease, hl', hmade⟩ := (hl.of_perm (b.owned_set i r).symm).release
  refine ⟨h', ?_, hl', hmade⟩
  rw [Bank.put_eq, Sys.bind_ok hrelease]
  rfl

/-- A region taken out of its slot is held outside the bank. -/
theorem out (hl : Ledger h b.owned) (i : Fin n) :
    Ledger h ((b.get i).mapping?.toList ++ owned (b.set i .empty i.isLt)) :=
  hl.of_perm (b.owned_set i .empty).symm

/-- To move a region releases the one in its way. -/
theorem move (hl : Ledger h b.owned) (source target : Fin n) :
    ∃ b' h', b.move source target h = .ok b' h' ∧ Ledger h' b'.owned := by
  by_cases hne : source = target
  · subst hne
    exact ⟨b, h, by rw [Bank.move_self]; rfl, hl⟩
  · obtain ⟨h', hput, hl', -⟩ := (hl.out source).put (i := target)
    exact ⟨_, h', by rw [Bank.move_of_ne hne]; exact hput, hl'⟩

/-- To exchange two slots changes the order of what is held. -/
theorem swap (hl : Ledger h b.owned) (i j : Fin n) : Ledger h (b.swap i j).owned :=
  hl.of_perm ((Vector.swap_perm i.isLt j.isLt).toList.filterMap _).symm

/-- To reset a slot returns what it owned. -/
theorem reset (hl : Ledger h b.owned) (i : Fin n) :
    ∃ b' h', b.reset i h = .ok b' h' ∧ Ledger h' b'.owned := by
  obtain ⟨h', hput, hl', -⟩ := hl.put (i := i) (r := .empty)
  exact ⟨_, h', hput, hl'⟩

/-- A region is made and put into a slot, or nothing happens. -/
theorem create (hl : Ledger h b.owned) (i : Fin n) {make : Sys Region} {length : UInt64}
    (hmakes : Region.Makes make length) :
    (∃ b' h', b.create i make h = .ok b' h' ∧ Ledger h' b'.owned) ∨
      ∃ f h', b.create i make h = .error f h' ∧ h'.kernel = h.kernel ∧ h.SameMappings h' := by
  rcases hmakes h with ⟨h₁, hmake, hmade, hreturned, hmapped⟩ | ⟨f, h', hmake, hsame⟩
  · obtain ⟨h', hput, hl', -⟩ := (hl.gain hmade hreturned hmapped).put (i := i)
      (r := ⟨some ⟨h.kernel.mapped + 1, length⟩⟩)
    exact .inl ⟨_, h', by rw [Bank.create, Sys.bind_ok hmake, hput], hl'⟩
  · exact .inr ⟨f, h', by rw [Bank.create, Sys.bind_error hmake], hsame⟩

/-- To release all slots returns all that is held. -/
theorem releaseAll (hl : Ledger h b.owned) :
    ∃ h', b.releaseAll h = .ok () h' ∧ Ledger h' [] ∧ h'.made = h.made := by
  rw [Bank.releaseAll]
  rw [Bank.owned] at hl
  generalize b.toList = rs at hl
  induction rs generalizing h with
  | nil => exact ⟨h, rfl, hl, rfl⟩
  | cons r rs ih =>
    rw [Bank.filterMap_mapping_cons] at hl
    obtain ⟨h₁, hrelease, hl₁, hmade₁⟩ := hl.release
    obtain ⟨h', hrest, hl', hmade'⟩ := ih hl₁
    exact ⟨h', (Sys.bind_ok hrelease).trans hrest, hl', hmade'.trans hmade₁⟩

end Ledger

/-! ## What a user may do -/

/-- A move of a user who holds `n` slots. -/
inductive BankMove (n : Nat) where
  /-- Map an area of a ring into a slot. -/
  | map (slot : Fin n) (fd : Int32) (offset : Int) (length : UInt64) (what : String)
  /-- Map private memory into a slot. -/
  | anonymous (slot : Fin n) (length : UInt64)
  /-- Move a region to another slot or to its own. -/
  | move (source target : Fin n)
  /-- Exchange two slots, or one with itself. -/
  | swap (i j : Fin n)
  /-- Take a region out into a variable of its own and destroy it. -/
  | take (slot : Fin n)
  /-- Release a region. -/
  | reset (slot : Fin n)
  /-- Read a word. -/
  | read (slot : Fin n) (offset : UInt64)
  /-- Write a word. -/
  | write (slot : Fin n) (offset : UInt64) (value : UInt32)
  /-- Let mapping fail from now on as told. -/
  | failing (failures : MapFailures)

/-- Let the kernel fail mapping calls as told. -/
def Kernel.failing (k : Kernel) (failures : MapFailures) : Kernel :=
  { k with config := { k.config with mapFailures := failures } }

/-- Take a move. -/
def BankMove.perform {n : Nat} (b : Bank n) : BankMove n → Sys (Bank n)
  | .map slot fd offset length what => b.create slot (Region.map fd offset length what)
  | .anonymous slot length => b.create slot (Region.anonymous length)
  | .move source target => b.move source target
  | .swap i j => b.swapByMoves i j
  | .take slot => b.take slot
  | .reset slot => b.reset slot
  | .read slot offset => do
      let _ ← (b.get slot).getWord offset
      return b
  | .write slot offset value => do
      (b.get slot).putWord offset value
      return b
  | .failing failures => do
      modify fun h => { h with kernel := h.kernel.failing failures }
      return b

/-- The slot into which a move maps, and the length it asks for. -/
def BankMove.created? {n : Nat} : BankMove n → Option (Fin n × UInt64)
  | .map slot _ _ length _ => some (slot, length)
  | .anonymous slot length => some (slot, length)
  | _ => none

/-- A move that maps is one create. -/
theorem BankMove.perform_eq_create {n : Nat} {m : BankMove n} {slot : Fin n} {length : UInt64}
    (hcreated : m.created? = some (slot, length)) :
    ∃ make, Region.Makes make length ∧ ∀ b, m.perform b = Bank.create b slot make := by
  cases m with
  | map _ fd offset _ what =>
    cases hcreated
    exact ⟨_, Region.makes_map fd offset length what, fun _ => rfl⟩
  | anonymous =>
    cases hcreated
    exact ⟨_, Region.makes_anonymous length, fun _ => rfl⟩
  | _ => cases hcreated

/-- A move keeps the ledger, or ends in a fault and changes nothing that counts. -/
theorem Ledger.perform {n : Nat} {b : Bank n} {h : Host} (hl : Ledger h b.owned) (m : BankMove n) :
    (∃ b' h', m.perform b h = .ok b' h' ∧ Ledger h' b'.owned) ∨
      ∃ f h', m.perform b h = .error f h' ∧ h'.kernel = h.kernel ∧ h.SameMappings h' := by
  cases m with
  | map slot fd offset length what => exact hl.create slot (Region.makes_map fd offset length what)
  | anonymous slot length => exact hl.create slot (Region.makes_anonymous length)
  | move source target => exact .inl (hl.move source target)
  | swap i j =>
    refine .inl ⟨b.swap i j, h, ?_, hl.swap i j⟩
    rw [BankMove.perform, Bank.swapByMoves_eq]
    rfl
  | take slot =>
    rw [BankMove.perform, Bank.take_eq_reset]
    exact .inl (hl.reset slot)
  | reset slot => exact .inl (hl.reset slot)
  | read slot offset =>
    cases hlocate : (b.get slot).locate 4 offset 1 with
    | ok m =>
      refine .inl ⟨b, h, ?_, hl⟩
      rw [BankMove.perform, Region.getWord, hlocate]
      rfl
    | error f =>
      refine .inr ⟨f, h, ?_, rfl, .refl h⟩
      rw [BankMove.perform, Region.getWord, hlocate]
      rfl
  | write slot offset value =>
    cases hlocate : (b.get slot).locate 4 offset 1 with
    | ok m =>
      refine .inl ⟨b, { h with kernel := { h.kernel with
        memory := h.kernel.memory.setWord m.block offset.toNat value } }, ?_,
        hl.of_same ⟨rfl, rfl, rfl⟩⟩
      rw [BankMove.perform, Region.putWord, hlocate]
      rfl
    | error f =>
      refine .inr ⟨f, h, ?_, rfl, .refl h⟩
      rw [BankMove.perform, Region.putWord, hlocate]
      rfl
  | failing failures =>
    exact .inl ⟨b, { h with kernel := h.kernel.failing failures }, rfl, hl.of_same ⟨rfl, rfl, rfl⟩⟩

/-- A bank and its host. -/
structure BankTrace (n : Nat) where
  bank : Bank n := .empty
  host : Host

namespace BankTrace

variable {n : Nat}

/-- Take a move.  The bank stays as it is if the move ends in a fault. -/
def move (t : BankTrace n) (m : BankMove n) : BankTrace n :=
  match m.perform t.bank t.host with
  | .ok bank host => ⟨bank, host⟩
  | .error _ host => ⟨t.bank, host⟩

/-- Take moves one after the other. -/
def run (moves : List (BankMove n)) (t : BankTrace n) : BankTrace n := moves.foldl move t

/-- Mappings are owned exclusively.  Those made and not returned are those of the
slots that are mapped, no two slots have the same one, and a slot has the length
that its mapping was made with. -/
structure OwnsExclusively (t : BankTrace n) : Prop where
  distinct : (t.host.made.map Mapping.block).Nodup
  owned : ∀ m, (m ∈ t.host.made ∧ m ∉ t.host.returned) ↔
    ∃ i : Fin n, (t.bank.get i).mapping? = some m
  alone : ∀ i j : Fin n, ∀ m,
    (t.bank.get i).mapping? = some m → (t.bank.get j).mapping? = some m → i = j
  length_eq : ∀ i : Fin n,
    (∃ m ∈ t.host.made, (t.bank.get i).mapping? = some m ∧ (t.bank.get i).length = m.length) ∨
      (t.bank.get i).isMapped = false ∧ (t.bank.get i).length = 0

/-- Every move keeps the ledger. -/
theorem ledger_move {t : BankTrace n} (hl : Ledger t.host t.bank.owned) (m : BankMove n) :
    Ledger (t.move m).host (t.move m).bank.owned := by
  rcases hl.perform m with ⟨b', h', hperform, hl'⟩ | ⟨f, h', hperform, -, hsame⟩
  · rw [move, hperform]
    exact hl'
  · rw [move, hperform]
    exact hl.of_same hsame

/-- The ledger holds after any moves. -/
theorem ledger_run {t : BankTrace n} (hl : Ledger t.host t.bank.owned)
    (moves : List (BankMove n)) : Ledger (t.run moves).host (t.run moves).bank.owned :=
  List.foldlRecOn (motive := fun t : BankTrace n => Ledger t.host t.bank.owned) moves _ hl
    fun _ hl m _ => ledger_move hl m

/-- Where the ledger balances, no mapping has two owners. -/
theorem ownsExclusively_of_ledger {t : BankTrace n} (hl : Ledger t.host t.bank.owned) :
    t.OwnsExclusively where
  distinct := hl.distinct
  owned m := hl.mem_held_iff.symm.trans Bank.mem_owned_iff
  alone i j m hi hj := by
    by_contra hne
    obtain ⟨-, -, hdisjoint⟩ := List.nodup_append.mp
      (List.nodup_append.mp (hl.out i).nodup).2.1
    have hout : m ∈ Bank.owned (t.bank.set i .empty i.isLt) := by
      refine Bank.mem_owned_iff.mpr ⟨j, ?_⟩
      rwa [Bank.get_set_ne _ hne]
    exact hdisjoint m (Option.mem_toList.mpr hi) m hout rfl
  length_eq i := by
    cases hmapping : (t.bank.get i).mapping? with
    | none => exact .inr ⟨by rw [Region.isMapped, hmapping]; rfl, by rw [Region.length, hmapping]⟩
    | some m =>
      have hmade := (hl.mem_held_iff.mp (Bank.mem_owned_iff.mpr ⟨i, hmapping⟩)).1
      exact .inl ⟨m, hmade, rfl, by rw [Region.length, hmapping]⟩

/-- Empty slots own nothing. -/
theorem ledger_empty (k : Kernel) : Ledger (.ofKernel k) (Bank.empty : Bank n).owned := by
  have hnone : (Bank.empty : Bank n).owned = [] := by
    simp [Bank.empty, Bank.owned, Region.empty]
  rw [hnone]
  exact .start k

/-- A move that ends in a fault changes nothing that counts. -/
theorem move_error {t : BankTrace n} (hl : Ledger t.host t.bank.owned) {m : BankMove n} {f : Fault}
    {h' : Host} (hfault : m.perform t.bank t.host = .error f h') :
    t.move m = ⟨t.bank, h'⟩ ∧ h'.kernel = t.host.kernel ∧ h'.made = t.host.made ∧
      h'.returned = t.host.returned := by
  rcases hl.perform m with ⟨_, _, hperform, -⟩ | ⟨_, _, hperform, hkernel, hsame⟩
  · rw [hfault] at hperform
    cases hperform
  · rw [hfault] at hperform
    cases hperform
    refine ⟨?_, hkernel, hsame.made_eq, hsame.returned_eq⟩
    rw [move, hfault]

/-- A move that maps and succeeds leaves a new mapping of the asked length in its
slot. -/
theorem move_created {t : BankTrace n} {m : BankMove n} {slot : Fin n} {length : UInt64}
    {b' : Bank n} {h' : Host} (hcreated : m.created? = some (slot, length))
    (hok : m.perform t.bank t.host = .ok b' h') :
    t.move m = ⟨b', h'⟩ ∧ ∃ mapping : Mapping, mapping.length = length ∧
      b' = t.bank.set slot ⟨some mapping⟩ slot.isLt ∧ h'.made = t.host.made ++ [mapping] ∧
      h'.returned = t.host.returned ++ (t.bank.get slot).mapping?.toList := by
  obtain ⟨make, hmakes, hperform⟩ := BankMove.perform_eq_create hcreated
  refine ⟨by rw [move, hok], Bank.create_eq_ok hmakes ?_⟩
  rw [← hperform, hok]

/-- Once all slots are released, what was returned is what was made. -/
theorem returned_of_releaseAll {t : BankTrace n} (hl : Ledger t.host t.bank.owned) :
    ∃ h', t.bank.releaseAll t.host = .ok () h' ∧ h'.made = t.host.made ∧
      h'.returned.Perm h'.made := by
  obtain ⟨h', hrelease, hl', hmade⟩ := hl.releaseAll
  refine ⟨h', hrelease, hmade, ?_⟩
  have hbalanced := hl'.balanced
  rw [List.append_nil] at hbalanced
  exact hbalanced.symm

/-- **Each mapping has one owner and is returned once.**  Whatever moves a user
takes, from empty slots on and with whatever failures, mappings are owned
exclusively.  A move that ends in a fault leaves the slots and the kernel as they
are, and makes and returns nothing.  A move that maps and succeeds leaves a new
mapping of the asked length in its slot, and returns the one that was there.  If
all slots are released at the end, what was returned is what was made, each
mapping once and with the length it was made with. -/
theorem run_ownsExclusively (k : Kernel) (moves : List (BankMove n)) :
    let t := run moves { host := .ofKernel k }
    t.OwnsExclusively ∧
      (∀ m f h', m.perform t.bank t.host = .error f h' →
        t.move m = ⟨t.bank, h'⟩ ∧ h'.kernel = t.host.kernel ∧ h'.made = t.host.made ∧
          h'.returned = t.host.returned) ∧
      (∀ m (slot : Fin n) length b' h', m.created? = some (slot, length) →
        m.perform t.bank t.host = .ok b' h' →
        t.move m = ⟨b', h'⟩ ∧ ∃ mapping : Mapping, mapping.length = length ∧
          b' = t.bank.set slot ⟨some mapping⟩ slot.isLt ∧
          h'.made = t.host.made ++ [mapping] ∧
          h'.returned = t.host.returned ++ (t.bank.get slot).mapping?.toList) ∧
      ∃ h', t.bank.releaseAll t.host = .ok () h' ∧ h'.made = t.host.made ∧
        h'.returned.Perm h'.made := by
  intro t
  have hl : Ledger t.host t.bank.owned :=
    ledger_run (t := { host := .ofKernel k }) (ledger_empty k) moves
  exact ⟨ownsExclusively_of_ledger hl, fun m f h' => move_error hl,
    fun m slot length b' h' => move_created, returned_of_releaseAll hl⟩

-- The second create releases mapping 1, and the one of length 0 is refused.  Slot 1
-- then owns mapping 2, and slot 0 is empty.
example :
    let t : BankTrace 2 := run
      [.anonymous 0 16, .anonymous 0 32, .anonymous 1 0, .swap 0 1, .move 1 1]
      { host := .ofKernel { config := { unmapErrors := [(1, .invalidArgument)] } } }
    t.bank.toList = [⟨none⟩, ⟨some ⟨2, 32⟩⟩] ∧ t.host.made = [⟨1, 16⟩, ⟨2, 32⟩] ∧
      t.host.returned = [⟨1, 16⟩] := by
  decide +kernel

end BankTrace

end IoRing
