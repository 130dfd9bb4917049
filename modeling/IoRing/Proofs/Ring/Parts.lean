import IoRing.Proofs.Running
import IoRing.Ring

/-!
# Mapping a ring part by part

A ring is mapped in *parts*, two under a single mapping and three otherwise.  So
to map a ring is to map a list of parts one after the other
(`RingRegions.map_eq_mapParts`).  Whether a part can be mapped depends on the
part and on the kernel's configuration only (`Part.fault?`).

Mapping a list of parts gives all of them or none.  If no part is at fault, each
has a mapping of its length, numbered in order (`RingRegions.mapParts_ok`).
Otherwise the fault is that of the first part that has one, and what was mapped
before is unmapped again, each mapping once (`RingRegions.mapParts_error`).
-/

namespace IoRing

/-! ## Parts -/

/-- A part of a ring that is mapped in one piece. -/
structure Part where
  area : Area
  length : UInt64
  /-- Its name in messages. -/
  name : String

/-- The parts of a ring, in the order in which they are mapped. -/
def Layout.parts (l : Layout) : List Part :=
  ⟨.sqes, l.sqesLength, "sqes"⟩ ::
    if l.singleMap then [⟨.sqRing, l.combinedLength, "sq/cq ring"⟩]
    else [⟨.sqRing, l.sqRingLength, "sq ring"⟩, ⟨.cqRing, l.cqRingLength, "cq ring"⟩]

def KernelConfig.mapError? (c : KernelConfig) (p : Part) : Option Errno :=
  match c.mapFailures.ofArea p.area with
  | some e => some e
  | none => if Kernel.mapLimit < p.length then some .outOfMemory else none

/-- Why a part cannot be mapped. -/
def Part.fault? (p : Part) (c : KernelConfig) : Option Fault :=
  if p.length = 0 then some (.emptyMapping p.name)
  else (c.mapError? p).map (.mapFailed p.name)

theorem Part.fault?_eq_none {p : Part} {c : KernelConfig} (hlength : p.length ≠ 0)
    (hlimit : p.length ≤ Kernel.mapLimit) (hnone : c.mapFailures.ofArea p.area = none) :
    p.fault? c = none := by
  have herror : c.mapError? p = none := by
    rw [KernelConfig.mapError?, hnone]
    exact if_neg (UInt64.not_lt.mpr hlimit)
  rw [fault?, if_neg hlength, herror]
  rfl

/-- The mappings of parts, numbered from the next number on. -/
def Part.mappings : (mapped : Nat) → List Part → List Mapping
  | _, [] => []
  | n, p :: ps => ⟨n + 1, p.length⟩ :: mappings (n + 1) ps

theorem Part.lt_of_mem_mappings {n : Nat} {ps : List Part} {m : Mapping}
    (hm : m ∈ Part.mappings n ps) : n < m.block := by
  induction ps generalizing n with
  | nil => cases hm
  | cons p ps ih =>
    rcases List.mem_cons.mp hm with rfl | hm
    · exact Nat.lt_succ_self n
    · exact Nat.lt_of_succ_lt (ih hm)

theorem Part.nodup_mappings (n : Nat) (ps : List Part) : (Part.mappings n ps).Nodup := by
  induction ps generalizing n with
  | nil => exact List.nodup_nil
  | cons p ps ih =>
    refine List.nodup_cons.mpr ⟨fun hm => ?_, ih (n + 1)⟩
    exact Nat.lt_irrefl _ (Part.lt_of_mem_mappings hm)

/-! ## The kernel -/

namespace Kernel

/-- The kernel after it mapped a part. -/
def withPart (k : Kernel) (p : Part) : Kernel :=
  let (m, k) := k.freshMapping p.length
  { k with memory := m.preset k.memory (k.presetsOf p.area) }.setMapping (some m) p.area

variable (k : Kernel) (p : Part)

@[simp] theorem config_withPart : (k.withPart p).config = k.config := by
  unfold withPart
  cases p.area <;> rfl

@[simp] theorem mapped_withPart : (k.withPart p).mapped = k.mapped + 1 := by
  unfold withPart
  cases p.area <;> rfl

@[simp] theorem admits_withPart (fd : Int32) : (k.withPart p).admits fd = k.admits fd := by
  unfold withPart
  cases p.area <;> rfl

@[simp] theorem registered_withPart : (k.withPart p).registered = k.registered := by
  unfold withPart
  cases p.area <;> rfl

/-- The kernel after it mapped parts one after the other. -/
def withParts (ps : List Part) : Kernel := ps.foldl withPart k

@[simp] theorem config_withParts (ps : List Part) : (k.withParts ps).config = k.config := by
  induction ps generalizing k with
  | nil => rfl
  | cons p ps ih => exact (ih (k.withPart p)).trans (config_withPart k p)

@[simp] theorem admits_withParts (ps : List Part) (fd : Int32) :
    (k.withParts ps).admits fd = k.admits fd := by
  induction ps generalizing k with
  | nil => rfl
  | cons p ps ih => exact (ih (k.withPart p)).trans (admits_withPart k p fd)

@[simp] theorem registered_withParts (ps : List Part) :
    (k.withParts ps).registered = k.registered := by
  induction ps generalizing k with
  | nil => rfl
  | cons p ps ih => exact (ih (k.withPart p)).trans (registered_withPart k p)

variable {k}

/-- The kernel maps a part unless it has an error for it. -/
theorem mapRing_part {fd : Int32} (hadmits : k.admits fd = true) :
    k.mapRing fd p.area.offset p.length =
      match k.config.mapError? p with
      | some e => (.error e, k)
      | none => (.ok ⟨k.mapped + 1, p.length⟩, k.withPart p) := by
  rw [mapRing, Area.ofOffset?_offset, if_neg (by simp [hadmits]), KernelConfig.mapError?]
  cases hfails : k.config.mapFailures.ofArea p.area with
  | some e => simp only [hfails]
  | none =>
    by_cases hlimit : mapLimit < p.length
    · simp only [hfails, if_pos hlimit]
    · simp only [hfails, if_neg hlimit]
      rfl

end Kernel

/-! ## What the calls say -/

namespace Call

/-- The mapping that a call made. -/
def mapped? : Call → Option Mapping
  | .map _ _ length _ _ result => if 0 < result then some ⟨result.toNat, length⟩ else none
  | _ => none

end Call

/-- The call that maps a part. -/
def Part.call (p : Part) (fd : Int32) (result : Int) : Call :=
  .map fd p.area.offset p.length MapFlag.readWrite MapFlag.sharedPopulated result

/-- The call that unmaps a mapping. -/
def Mapping.unmapCall (m : Mapping) (c : KernelConfig) : Call :=
  .unmap m.block m.length (CallResult.ofError? (c.unmapErrors.lookup m.block)).code

def Host.withPart (h : Host) (fd : Int32) (p : Part) : Host :=
  { h with kernel := h.kernel.withPart p
           calls := h.calls ++ [p.call fd (h.kernel.mapped + 1 : Nat)] }

/-- The calls that map parts, as far as none is at fault. -/
def Part.calls (fd : Int32) : (mapped : Nat) → List Part → List Call
  | _, [] => []
  | n, p :: ps => p.call fd (n + 1 : Nat) :: calls fd (n + 1) ps

theorem Part.mapped?_calls (fd : Int32) (n : Nat) (ps : List Part) :
    (Part.calls fd n ps).filterMap Call.mapped? = Part.mappings n ps := by
  induction ps generalizing n with
  | nil => rfl
  | cons p ps ih =>
    have hpos : (0 : Int) < (n + 1 : Nat) := by omega
    simp only [Part.calls, Part.mappings, List.filterMap_cons, Part.call, Call.mapped?, hpos,
      if_true, Int.toNat_natCast, ih]

theorem Part.of_mem_calls {fd : Int32} {n : Nat} {ps : List Part} {c : Call}
    (hc : c ∈ Part.calls fd n ps) : ∃ p ∈ ps, ∃ result, c = p.call fd result := by
  induction ps generalizing n with
  | nil => cases hc
  | cons p ps ih =>
    rcases List.mem_cons.mp hc with rfl | hc
    · exact ⟨p, List.mem_cons_self, _, rfl⟩
    · obtain ⟨q, hq, result, hcall⟩ := ih hc
      exact ⟨q, List.mem_cons_of_mem p hq, result, hcall⟩

/-- The host after parts were mapped. -/
def Host.withParts (h : Host) (fd : Int32) (ps : List Part) : Host :=
  { h with kernel := h.kernel.withParts ps
           calls := h.calls ++ Part.calls fd h.kernel.mapped ps }

theorem Host.withParts_cons (h : Host) (fd : Int32) (p : Part) (ps : List Part) :
    h.withParts fd (p :: ps) = (h.withPart fd p).withParts fd ps := by
  simp only [withParts, withPart, Kernel.mapped_withPart, Part.calls, List.append_assoc,
    List.singleton_append]
  rfl

/-! ## One part -/

namespace Region

variable {fd : Int32} {p : Part} {h : Host}

theorem map_part_ok (hadmits : h.kernel.admits fd = true)
    (hfault : p.fault? h.kernel.config = none) :
    Region.map fd p.area.offset p.length p.name h =
      .ok ⟨some ⟨h.kernel.mapped + 1, p.length⟩⟩ (h.withPart fd p) := by
  unfold Part.fault? at hfault
  split at hfault
  · cases hfault
  · next hlength =>
    have hmap := Kernel.mapRing_part p hadmits
    rw [Option.map_eq_none_iff.mp hfault] at hmap
    have hring : Sys.mapRing fd p.area.offset p.length p.name h =
        .ok ⟨h.kernel.mapped + 1, p.length⟩ (h.withPart fd p) := by
      simp only [Sys.mapRing, if_neg hlength]
      rw [Sys.bind_ok (Sys.onKernel_eq _ h), hmap]
      rfl
    rw [Region.map, Sys.bind_ok hring]
    rfl

/-- A part at fault is not mapped.  At most a failed call is noted. -/
theorem map_part_error (hadmits : h.kernel.admits fd = true) {f : Fault}
    (hfault : p.fault? h.kernel.config = some f) :
    ∃ failed, Region.map fd p.area.offset p.length p.name h =
        .error f { h with calls := h.calls ++ failed } ∧
      ∀ c ∈ failed, ∃ e : Errno, c = p.call fd (-e.code) := by
  unfold Part.fault? at hfault
  split at hfault
  · next hlength =>
    cases hfault
    refine ⟨[], ?_, by simp⟩
    have hring : Sys.mapRing fd p.area.offset p.length p.name h =
        .error (.emptyMapping p.name) h := by
      simp only [Sys.mapRing, if_pos hlength]
      rfl
    rw [Region.map, Sys.bind_error hring, List.append_nil]
  · next hlength =>
    obtain ⟨e, herror, rfl⟩ := Option.map_eq_some_iff.mp hfault
    have hmap := Kernel.mapRing_part p hadmits
    rw [herror] at hmap
    have hring : Sys.mapRing fd p.area.offset p.length p.name h =
        .error (.mapFailed p.name e) { h with calls := h.calls ++ [p.call fd (-e.code)] } := by
      simp only [Sys.mapRing, if_neg hlength]
      rw [Sys.bind_ok (Sys.onKernel_eq _ h), hmap]
      rfl
    refine ⟨[p.call fd (-e.code)], ?_, fun c hc => ⟨e, List.mem_singleton.mp hc⟩⟩
    rw [Region.map, Sys.bind_error hring]

end Region

/-! ## Unmapping -/

/-- The kernel after mappings were unmapped. -/
def Kernel.forgetAll (k : Kernel) (ms : List Mapping) : Kernel := ms.foldl forget k

theorem Kernel.forgetAll_eq (k : Kernel) (ms : List Mapping) :
    ∃ sqRing? cqRing? sqes?, k.forgetAll ms = { k with sqRing?, cqRing?, sqes? } := by
  induction ms generalizing k with
  | nil => exact ⟨_, _, _, rfl⟩
  | cons m ms ih =>
    obtain ⟨sqRing?, cqRing?, sqes?, heq⟩ := ih (k.forget m)
    exact ⟨sqRing?, cqRing?, sqes?, heq⟩

/-- The second host is the first one after mappings were unmapped, in order. -/
structure Host.Unmapped (ms : List Mapping) (h h' : Host) : Prop where
  kernel_eq : h'.kernel = h.kernel.forgetAll ms
  calls_eq : h'.calls = h.calls ++ ms.map (·.unmapCall h.kernel.config)
  diagnostics_eq : h.kernel.config.unmapErrors = [] → h'.diagnostics = h.diagnostics

namespace Host.Unmapped

variable {ms ns : List Mapping} {h h' h'' : Host}

theorem nil (h : Host) : Unmapped [] h h := ⟨rfl, by simp, fun _ => rfl⟩

theorem config_eq (hu : Unmapped ms h h') : h'.kernel.config = h.kernel.config := by
  obtain ⟨_, _, _, hkernel⟩ := h.kernel.forgetAll_eq ms
  rw [hu.kernel_eq, hkernel]

theorem admits_eq (hu : Unmapped ms h h') (fd : Int32) :
    h'.kernel.admits fd = h.kernel.admits fd := by
  obtain ⟨_, _, _, hkernel⟩ := h.kernel.forgetAll_eq ms
  rw [hu.kernel_eq, hkernel]
  rfl

theorem append (hu : Unmapped ms h h') (hu' : Unmapped ns h' h'') : Unmapped (ms ++ ns) h h'' where
  kernel_eq := by
    rw [hu'.kernel_eq, hu.kernel_eq]
    exact List.foldl_append.symm
  calls_eq := by
    rw [hu'.calls_eq, hu.calls_eq, hu.config_eq, List.map_append, List.append_assoc]
  diagnostics_eq hnone := by
    rw [hu'.diagnostics_eq (hu.config_eq.symm ▸ hnone), hu.diagnostics_eq hnone]

end Host.Unmapped

/-- Unmapping always succeeds for the caller.  An error is only reported. -/
theorem Sys.unmap_ok (m : Mapping) (h : Host) :
    ∃ h', Sys.unmap m h = .ok () h' ∧ Host.Unmapped [m] h h' := by
  cases hlookup : h.kernel.config.unmapErrors.lookup m.block with
  | none =>
    have hunmap : h.kernel.unmap m = (.ok 0, h.kernel.forget m) := by
      rw [Kernel.unmap, hlookup]
      rfl
    refine ⟨{ h with kernel := h.kernel.forget m
                     calls := h.calls ++ [m.unmapCall h.kernel.config] },
      ?_, rfl, rfl, fun _ => rfl⟩
    rw [Sys.unmap, Sys.bind_ok (Sys.onKernel_eq _ h), hunmap, Mapping.unmapCall, hlookup]
    rfl
  | some e =>
    have hunmap : h.kernel.unmap m = (.error e, h.kernel.forget m) := by
      rw [Kernel.unmap, hlookup]
      rfl
    refine ⟨{ h with kernel := h.kernel.forget m
                     calls := h.calls ++ [m.unmapCall h.kernel.config]
                     diagnostics := h.diagnostics ++
                       ("[MappedRegion] munmap failed: " ++ e.message ++ "\n") },
      ?_, rfl, rfl, fun hnone => ?_⟩
    · rw [Sys.unmap, Sys.bind_ok (Sys.onKernel_eq _ h), hunmap, Mapping.unmapCall, hlookup]
      rfl
    · rw [hnone] at hlookup
      cases hlookup

theorem Region.release_ok (r : Region) (h : Host) :
    ∃ h', r.release h = .ok () h' ∧ Host.Unmapped r.mapping?.toList h h' := by
  cases hmapping : r.mapping? with
  | none =>
    refine ⟨h, ?_, .nil h⟩
    rw [release, hmapping]
    rfl
  | some m =>
    rw [release, hmapping]
    exact Sys.unmap_ok m h

namespace RingRegions

/-- The mappings owned, in the order in which they are released. -/
def owned (r : RingRegions) : List Mapping :=
  r.cqRing.mapping?.toList ++ (r.sqes.mapping?.toList ++ r.sqRing.mapping?.toList)

/-- Releasing unmaps every mapping owned, once. -/
theorem release_ok (r : RingRegions) (h : Host) :
    ∃ h', r.release h = .ok () h' ∧ Host.Unmapped r.owned h h' := by
  obtain ⟨h₁, hcq, hcqUnmapped⟩ := r.cqRing.release_ok h
  obtain ⟨h₂, hsqes, hsqesUnmapped⟩ := r.sqes.release_ok h₁
  obtain ⟨h₃, hsq, hsqUnmapped⟩ := r.sqRing.release_ok h₂
  refine ⟨h₃, ?_, hcqUnmapped.append (hsqesUnmapped.append hsqUnmapped)⟩
  rw [release, Sys.bind_ok hcq, Sys.bind_ok hsqes, hsq]

variable {α : Type} {r : RingRegions} {act : Sys α} {h h' : Host}

theorem orRelease_ok {a : α} (hact : act h = .ok a h') : r.orRelease act h = .ok a h' :=
  Sys.tryCatch_ok hact

/-- A step that fails is undone, and its fault is handed on. -/
theorem orRelease_error {f : Fault} (hact : act h = .error f h') :
    ∃ h'', r.orRelease act h = .error f h'' ∧ Host.Unmapped r.owned h' h'' := by
  obtain ⟨h'', hrelease, hunmapped⟩ := r.release_ok h'
  refine ⟨h'', ?_, hunmapped⟩
  rw [orRelease, Sys.tryCatch_error hact, Sys.bind_ok hrelease]
  rfl

/-! ## All parts -/

/-- The regions with the region of an area replaced. -/
def put (r : RingRegions) (region : Region) : Area → RingRegions
  | .sqRing => { r with sqRing := region }
  | .cqRing => { r with cqRing := region }
  | .sqes => { r with sqes := region }

def ofArea (r : RingRegions) : Area → Region
  | .sqRing => r.sqRing
  | .cqRing => r.cqRing
  | .sqes => r.sqes

/-- Map parts one after the other.  A failure releases what was mapped. -/
def mapParts (fd : Int32) : List Part → RingRegions → Sys RingRegions
  | [], r => pure r
  | p :: ps, r => do
      let region ← r.orRelease (Region.map fd p.area.offset p.length p.name)
      mapParts fd ps (r.put region p.area)

/-- The regions after parts were mapped, numbered from the next number on. -/
def withParts (r : RingRegions) : (mapped : Nat) → List Part → RingRegions
  | _, [] => r
  | n, p :: ps => (r.put ⟨some ⟨n + 1, p.length⟩⟩ p.area).withParts (n + 1) ps

theorem orRelease_empty (act : Sys α) : ({} : RingRegions).orRelease act = act := by
  funext h
  cases hact : act h with
  | ok a h' => exact orRelease_ok hact
  | error f h' => rw [orRelease, Sys.tryCatch_error hact]; rfl

/-- To map a ring is to map its parts in order. -/
theorem map_eq_mapParts (fd : Int32) (layout : Layout) :
    RingRegions.map fd layout = mapParts fd layout.parts {} := by
  rw [RingRegions.map, Layout.parts]
  cases layout.singleMap with
  | true =>
    simp only [if_true, mapParts, orRelease_empty]
    rfl
  | false =>
    simp only [Bool.false_eq_true, if_false, mapParts, orRelease_empty]
    rfl

/-- A region put into a free place joins those owned. -/
theorem owned_put {m : Mapping} {a : Area} (hfree : r.ofArea a = .empty) :
    (r.put ⟨some m⟩ a).owned.Perm (m :: r.owned) := by
  cases a with
  | cqRing =>
    have hcq : r.cqRing = .empty := hfree
    rw [owned, owned, hcq]
    exact .refl _
  | sqes =>
    have hsqes : r.sqes = .empty := hfree
    rw [owned, owned, hsqes]
    exact List.perm_middle
  | sqRing =>
    have hsq : r.sqRing = .empty := hfree
    have hafter : (r.put ⟨some m⟩ .sqRing).owned =
        (r.cqRing.mapping?.toList ++ r.sqes.mapping?.toList) ++ [m] :=
      (List.append_assoc ..).symm
    have hbefore : r.owned = r.cqRing.mapping?.toList ++ r.sqes.mapping?.toList := by
      rw [owned, hsq]
      exact congrArg _ (List.append_nil _)
    rw [hafter, hbefore]
    exact List.perm_append_singleton m _

theorem ofArea_put_of_ne {region : Region} {a b : Area} (hne : a ≠ b) :
    (r.put region a).ofArea b = r.ofArea b := by
  cases a <;> cases b <;> first | rfl | exact absurd rfl hne

/-- Parts mapped into free places join those owned. -/
theorem owned_withParts {ps : List Part} (n : Nat) (hdistinct : (ps.map Part.area).Nodup)
    (hfree : ∀ p ∈ ps, r.ofArea p.area = .empty) :
    (r.withParts n ps).owned.Perm (Part.mappings n ps ++ r.owned) := by
  induction ps generalizing r n with
  | nil => exact .refl _
  | cons p ps ih =>
    rw [List.map_cons, List.nodup_cons] at hdistinct
    have hrest : ∀ q ∈ ps, (r.put ⟨some ⟨n + 1, p.length⟩⟩ p.area).ofArea q.area = .empty := by
      intro q hq
      have hne : p.area ≠ q.area := fun heq =>
        hdistinct.1 (heq ▸ List.mem_map_of_mem hq)
      rw [ofArea_put_of_ne hne]
      exact hfree q (List.mem_cons_of_mem p hq)
    have hput := owned_put (m := ⟨n + 1, p.length⟩) (hfree p List.mem_cons_self)
    exact (ih (n + 1) hdistinct.2 hrest).trans
      ((hput.append_left _).trans List.perm_middle)

/-- Where nothing was mapped before, the parts mapped are all that is owned. -/
theorem owned_of_withParts {ps : List Part} (n : Nat) (hdistinct : (ps.map Part.area).Nodup) :
    (({} : RingRegions).withParts n ps).owned.Perm (Part.mappings n ps) := by
  have hperm := owned_withParts (r := {}) n hdistinct fun p _ => by cases p.area <;> rfl
  rwa [show ({} : RingRegions).owned = [] from rfl, List.append_nil] at hperm

theorem mapParts_append (fd : Int32) (ps qs : List Part) (r : RingRegions) :
    mapParts fd (ps ++ qs) r = mapParts fd ps r >>= mapParts fd qs := by
  induction ps generalizing r with
  | nil => exact (pure_bind r _).symm
  | cons p ps ih => simp only [List.cons_append, mapParts, bind_assoc, ih]

variable {fd : Int32} {ps : List Part} {p : Part}

/-- Parts without fault are all mapped. -/
theorem mapParts_ok (hadmits : h.kernel.admits fd = true)
    (hnone : ∀ p ∈ ps, p.fault? h.kernel.config = none) :
    mapParts fd ps r h = .ok (r.withParts h.kernel.mapped ps) (h.withParts fd ps) := by
  induction ps generalizing r h with
  | nil =>
    rw [Host.withParts, Part.calls, List.append_nil]
    rfl
  | cons p ps ih =>
    have hmap := Region.map_part_ok hadmits (hnone p List.mem_cons_self)
    have hrest : ∀ q ∈ ps, q.fault? (h.withPart fd p).kernel.config = none := by
      intro q hq
      rw [Host.withPart, Kernel.config_withPart]
      exact hnone q (List.mem_cons_of_mem p hq)
    have hadmits' : (h.withPart fd p).kernel.admits fd = true := by
      rw [Host.withPart, Kernel.admits_withPart, hadmits]
    rw [mapParts, Sys.bind_ok (orRelease_ok hmap), ih hadmits' hrest, Host.withParts_cons,
      Host.withPart, Kernel.mapped_withPart, withParts]

/-- The parts before the one at fault are mapped, and then all is released. -/
theorem mapParts_error (hadmits : h.kernel.admits fd = true)
    (hnone : ∀ p ∈ ps, p.fault? h.kernel.config = none) {f : Fault}
    (hfault : p.fault? h.kernel.config = some f) (rest : List Part) :
    ∃ h' failed, mapParts fd (ps ++ p :: rest) r h = .error f h' ∧
      Host.Unmapped (r.withParts h.kernel.mapped ps).owned
        { h.withParts fd ps with calls := (h.withParts fd ps).calls ++ failed } h' ∧
      ∀ c ∈ failed, ∃ e : Errno, c = p.call fd (-e.code) := by
  have hadmits' : (h.withParts fd ps).kernel.admits fd = true := by
    rw [Host.withParts, Kernel.admits_withParts, hadmits]
  have hfault' : p.fault? (h.withParts fd ps).kernel.config = some f := by
    rw [Host.withParts, Kernel.config_withParts, hfault]
  obtain ⟨failed, hmap, hfailed⟩ := Region.map_part_error hadmits' hfault'
  obtain ⟨h', hrelease, hunmapped⟩ :=
    orRelease_error (r := r.withParts h.kernel.mapped ps) hmap
  refine ⟨h', failed, ?_, hunmapped, hfailed⟩
  rw [mapParts_append, Sys.bind_ok (mapParts_ok hadmits hnone), mapParts,
    Sys.bind_error hrelease]

end RingRegions

end IoRing
