import IoRing.Proofs.Ring.Opening
import IoRing.Proofs.Ring.Parts
import IoRing.Proofs.Ring.Windows

/-!
# Building a ring is all or nothing

A ring is built in steps, and each step may fail: the parameters are validated,
the kernel sets the ring up, each part is mapped, and each field that a queue
reaches is checked against its mapping.  What could fail is listed in order, each
with its own fault: `Params.validate`, `Kernel.setupFailure?`, `Part.fault?` and
`Window.fault?`.

`Ring.setUp_allOrNothing` says what comes of it on every host.  If no step has a
fault, there is a ring that owns its mappings and the kernel works on them.
Otherwise the fault is that of the first step that has one, and nothing is left:
every mapping made was unmapped once, and after that the descriptor was closed.
-/

namespace IoRing

/-! ## Setting up -/

/-- The error that the kernel gives when it is asked for a ring. -/
def Kernel.setupFailure? (k : Kernel) : Option Errno :=
  match k.config.setupError? with
  | some e => some e
  | none => if k.active then some .tooManyDescriptors else none

/-- The kernel after it set a ring up. -/
def Kernel.withRing (k : Kernel) (asked : Params) : Kernel :=
  { k with active := true, granted := k.config.grant asked, registered := fun _ => false }

/-- The host after a ring was set up. -/
def Host.withRing (h : Host) (entries : UInt32) (asked : Params) : Host :=
  { h with kernel := h.kernel.withRing asked
           calls := h.calls ++ [.setup entries asked h.kernel.config.fd.toInt] }

theorem Kernel.admits_withRing (k : Kernel) (asked : Params) :
    (k.withRing asked).admits k.config.fd = true := by
  simp [admits, withRing]

theorem Kernel.setup_eq (k : Kernel) (asked : Params) :
    k.setup asked =
      match k.setupFailure? with
      | some e => (.error e, asked, k)
      | none => (.ofCode k.config.fd.toInt, k.config.grant asked, k.withRing asked) := by
  rw [setup, setupFailure?]
  cases k.config.setupError? with
  | some e => rfl
  | none => cases k.active <;> rfl

theorem Int32.ofNat_toNat_toInt {n : Int32} (hn : 0 ≤ n) : Int32.ofNat n.toInt.toNat = n := by
  have h : 0 ≤ n.toInt := Int32.le_iff_toInt_le.mp hn
  rw [← Int32.ofInt_eq_ofNat, Int.toNat_of_nonneg h, Int32.ofInt_toInt]

namespace Sys

variable (entries : UInt32) (asked : Params) {h : Host}

theorem note_eq (c : Call) (h : Host) :
    note c h = .ok () { h with calls := h.calls ++ [c] } := rfl

/-- A setup call that the kernel refuses is logged and changes nothing. -/
theorem setup_refused {e : Errno} (hfailure : h.kernel.setupFailure? = some e) :
    Sys.setup entries (some asked) h =
      .ok (.error (.setupFailed e), asked)
        { h with calls := h.calls ++ [.setup entries asked (-e.code)] } := by
  have hsetup := h.kernel.setup_eq asked
  rw [hfailure] at hsetup
  simp only [Sys.setup]
  rw [bind_ok (onKernel_eq _ h), hsetup]
  rfl

/-- A setup call that the kernel grants opens the ring. -/
theorem setup_granted (hfailure : h.kernel.setupFailure? = none) (hfd : 0 ≤ h.kernel.config.fd) :
    Sys.setup entries (some asked) h =
      .ok (.ok h.kernel.config.fd, h.kernel.config.grant asked) (h.withRing entries asked) := by
  have hsetup := h.kernel.setup_eq asked
  have hcode : CallResult.ofCode h.kernel.config.fd.toInt = .ok h.kernel.config.fd.toInt.toNat :=
    if_neg (Int.not_lt.mpr (Int32.le_iff_toInt_le.mp hfd))
  have hreturned : ∀ h₁, (observing (returned .setupFailed (.ok h.kernel.config.fd.toInt.toNat)) :
      Sys (Except Fault Int32)) h₁ = .ok (.ok h.kernel.config.fd) h₁ := by
    intro h₁
    refine observing_eq_ok_iff.mpr ?_
    rw [returned, Int32.ofNat_toNat_toInt hfd]
    rfl
  simp only [hfailure, hcode] at hsetup
  have hnumber : CallResult.code (.ok h.kernel.config.fd.toInt.toNat) =
      h.kernel.config.fd.toInt := by
    rw [← hcode, CallResult.code_ofCode]
  simp only [Sys.setup]
  rw [bind_ok (onKernel_eq _ h), hsetup, hnumber, bind_ok (note_eq _ _),
    bind_ok (hreturned _)]
  rfl

/-- What is reported when a descriptor was closed. -/
def closeReport (fd : Int32) : CallResult → String
  | .ok _ => ""
  | .error e => "[Ring] close(" ++ toString fd ++ ") failed: " ++ e.message ++ "\n"

/-- Closing always succeeds for the caller. -/
theorem close_eq (fd : Int32) (h : Host) :
    Sys.close fd h = .ok ()
      { kernel := (h.kernel.close fd).2
        calls := h.calls ++ [.close fd (h.kernel.close fd).1.code]
        diagnostics := h.diagnostics ++ closeReport fd (h.kernel.close fd).1 } := by
  rw [Sys.close, bind_ok (onKernel_eq _ h), bind_ok (note_eq _ _)]
  cases (h.kernel.close fd).1 with
  | ok n =>
    rw [closeReport, String.append_empty]
    rfl
  | error e => rfl

end Sys

/-- A ring is closed once its mappings are released. -/
theorem Ring.close_eq {r : Ring} {b : RingBody} {h h₁ : Host} (hbody : r.body? = some b)
    (hrelease : b.regions.release h = .ok () h₁) :
    r.close h = .ok { r with body? := none } (Sys.after (Sys.close b.fd) h₁) := by
  rw [Ring.close, hbody]
  simp only
  rw [Sys.bind_ok hrelease, Sys.after, Sys.close_eq, Sys.bind_ok (Sys.close_eq _ _)]
  rfl

/-! ## Mapping and attaching -/

/-- The regions that come of mapping a layout. -/
def Layout.regions (l : Layout) (mapped : Nat) : RingRegions :=
  ({} : RingRegions).withParts mapped l.parts

/-- The mapping that holds the submission ring. -/
def Layout.sqRing (l : Layout) (mapped : Nat) : Mapping :=
  ⟨mapped + 2, if l.singleMap then l.combinedLength else l.sqRingLength⟩

/-- The mapping that holds the completion ring. -/
def Layout.cqRing (l : Layout) (mapped : Nat) : Mapping :=
  if l.singleMap then l.sqRing mapped else ⟨mapped + 3, l.cqRingLength⟩

/-- The mapping that holds the entries. -/
def Layout.sqes (l : Layout) (mapped : Nat) : Mapping := ⟨mapped + 1, l.sqesLength⟩

namespace Layout

variable (l : Layout) (mapped : Nat)

@[simp] theorem sqes_regions : (l.regions mapped).sqes = ⟨some (l.sqes mapped)⟩ := by
  unfold regions parts
  cases l.singleMap <;> rfl

@[simp] theorem sqRing_regions : (l.regions mapped).sqRing = ⟨some (l.sqRing mapped)⟩ := by
  unfold regions parts sqRing
  cases l.singleMap <;> rfl

@[simp] theorem completionRegion_regions :
    (l.regions mapped).completionRegion = ⟨some (l.cqRing mapped)⟩ := by
  unfold regions parts cqRing sqRing
  cases l.singleMap <;> rfl

/-- Under a single mapping the completion ring has none of its own. -/
theorem isMapped_cqRing_regions : (l.regions mapped).cqRing.isMapped = !l.singleMap := by
  unfold regions parts
  cases l.singleMap <;> rfl

/-- The site of a ring that is mapped like this. -/
def site (granted : Params) : RingSite where
  submission := ⟨l.sqRing mapped, l.sqes mapped, granted.sqOffsets, granted.sqEntries⟩
  cqRing := l.cqRing mapped
  cqOffsets := granted.cqOffsets
  cqEntries := granted.cqEntries

/-- The kernel works on the areas that it mapped. -/
theorem serves_withParts {k : Kernel} (hshared : k.sharedRings = l.singleMap) :
    (k.withParts l.parts).Serves (l.site k.mapped k.granted) := by
  unfold parts site sqRing cqRing
  cases hsingle : l.singleMap with
  | true =>
    rw [hsingle] at hshared
    exact ⟨⟨rfl, rfl, rfl, rfl⟩, by
      simp [Kernel.withParts, Kernel.withPart, Kernel.mapping?, Kernel.setMapping,
        Kernel.freshMapping, hshared, sqRing, hsingle], rfl, rfl⟩
  | false =>
    rw [hsingle] at hshared
    exact ⟨⟨rfl, rfl, rfl, rfl⟩, by
      simp [Kernel.withParts, Kernel.withPart, Kernel.mapping?, Kernel.setMapping,
        Kernel.freshMapping, hshared], rfl, rfl⟩

theorem nodup_areas : (l.parts.map Part.area).Nodup := by
  unfold parts
  cases l.singleMap <;> simp

end Layout

/-- What a ring owns once its areas are mapped and its queues attached, if the
kernel was like this before. -/
def RingBody.built (fd : Int32) (granted : Params) (k : Kernel) : RingBody :=
  let l := Layout.ofParams granted
  let m := (k.withParts l.parts).memory
  ⟨fd, l.regions k.mapped,
    .ofWords (l.sqRing k.mapped) (l.sqes k.mapped) granted.sqOffsets m,
    .ofWords (l.cqRing k.mapped) granted.cqOffsets m⟩

/-- What both queues reach, in the order of the checks. -/
def RingBody.windows (b : RingBody) : List Window := b.sq.windows ++ b.cq.windows

/-- Attaching both queues checks what both reach. -/
theorem Ring.attachQueues_eq (fd : Int32) (granted : Params) (k : Kernel) {h : Host}
    (hmemory : h.kernel.memory = (k.withParts (Layout.ofParams granted).parts).memory) :
    attachQueues ((Layout.ofParams granted).regions k.mapped) granted h =
      Sys.ofExcept (unlessFault ((RingBody.built fd granted k).windows.findSome? Window.fault?)
        (.ok ((RingBody.built fd granted k).sq, (RingBody.built fd granted k).cq))) h := by
  rw [RingBody.windows, unlessFault_append, attachQueues, Sys.bind_ok (Sys.memory_eq h), hmemory,
    Layout.sqRing_regions, Layout.sqes_regions, Layout.completionRegion_regions,
    SubmissionQueue.attach_eq, CompletionQueue.attach_eq]
  change _ = Sys.ofExcept (unlessFault (List.findSome? _ (SubmissionQueue.windows (.ofWords ..)))
    (unlessFault (List.findSome? _ (CompletionQueue.windows (.ofWords ..))) _)) h
  cases (SubmissionQueue.ofWords _ _ _ _).windows.findSome? Window.fault? with
  | some f => rfl
  | none => cases (CompletionQueue.ofWords _ _ _).windows.findSome? Window.fault? <;> rfl

/-! ## Assembling -/

/-- Why a ring cannot be built on what was granted: the first part or else the
first window that is at fault. -/
def Kernel.buildFault? (k : Kernel) (granted : Params) : Option Fault :=
  match (Layout.ofParams granted).parts.findSome? (·.fault? k.config) with
  | some f => some f
  | none => (RingBody.built k.config.fd granted k).windows.findSome? Window.fault?

/-- The calls of an attempt that was undone: parts were mapped, or failed to be,
each mapping made was unmapped with its length, and the descriptor was closed
last. -/
def Host.Undone (fd : Int32) (ps : List Part) (h h' : Host) : Prop :=
  ∃ (maps : List Call) (made : List Mapping) (closed : Int),
    h'.calls = h.calls ++
      (maps ++ (made.map (·.unmapCall h.kernel.config) ++ [.close fd closed])) ∧
    (∀ c ∈ maps, ∃ p ∈ ps, ∃ result, c = p.call fd result) ∧
    made.Perm (maps.filterMap Call.mapped?) ∧ made.Nodup

section

variable {fd : Int32} {granted : Params} {h h' h₁ : Host} {f : Fault}

/-- To release what was mapped and to close is to undo. -/
theorem Host.undone_of_unmapped {done ps : List Part} (failed : List Call) {closed : Int}
    (hdone : done.Sublist ps) (hdistinct : (ps.map Part.area).Nodup)
    (hfailed : ∀ c ∈ failed, ∃ p ∈ ps, ∃ e : Errno, c = p.call fd (-e.code))
    (hunmapped : Unmapped (({} : RingRegions).withParts h.kernel.mapped done).owned
      { h.withParts fd done with calls := (h.withParts fd done).calls ++ failed } h₁)
    (hclosed : h'.calls = h₁.calls ++ [.close fd closed]) : Undone fd ps h h' := by
  have howned : (({} : RingRegions).withParts h.kernel.mapped done).owned.Perm
      (Part.mappings h.kernel.mapped done) :=
    RingRegions.owned_of_withParts _ (hdistinct.sublist (hdone.map Part.area))
  have hnone : failed.filterMap Call.mapped? = [] := by
    refine List.filterMap_eq_nil_iff.mpr fun c hc => ?_
    obtain ⟨p, -, e, rfl⟩ := hfailed c hc
    exact if_neg (by omega)
  refine ⟨Part.calls fd h.kernel.mapped done ++ failed,
    (({} : RingRegions).withParts h.kernel.mapped done).owned, closed, ?_, ?_, ?_, ?_⟩
  · rw [hclosed, hunmapped.calls_eq]
    simp only [withParts, Kernel.config_withParts, List.append_assoc]
  · intro c hc
    rcases List.mem_append.mp hc with hc | hc
    · obtain ⟨p, hp, result, hcall⟩ := Part.of_mem_calls hc
      exact ⟨p, hdone.subset hp, result, hcall⟩
    · obtain ⟨p, hp, e, hcall⟩ := hfailed c hc
      exact ⟨p, hp, _, hcall⟩
  · rwa [List.filterMap_append, Part.mapped?_calls, hnone, List.append_nil]
  · exact howned.nodup_iff.mpr (Part.nodup_mappings _ done)

namespace Ring

/-- The steps of assembling that may have to be undone. -/
def mapAndAttach (fd : Int32) (granted : Params) : Sys Ring := do
  let layout := Layout.ofParams granted
  let regions ← RingRegions.map fd layout
  let (sq, cq) ← regions.orRelease (attachQueues regions granted)
  return ⟨granted.flags, granted.features, layout, some ⟨fd, regions, sq, cq⟩⟩

theorem assemble_eq (fd : Int32) (granted : Params) :
    assemble fd granted =
      tryCatch (mapAndAttach fd granted) (fun f => do Sys.close fd; throw f) := rfl

/-- The ring that comes of it. -/
def built (fd : Int32) (granted : Params) (k : Kernel) : Ring :=
  ⟨granted.flags, granted.features, Layout.ofParams granted, some (.built fd granted k)⟩

/-- Without a failing step, the ring stands over the mappings of its layout. -/
theorem assemble_ok (hadmits : h.kernel.admits fd = true)
    (hnone : h.kernel.buildFault? granted = none) :
    assemble fd granted h =
      .ok (built fd granted h.kernel) (h.withParts fd (Layout.ofParams granted).parts) := by
  rw [Kernel.buildFault?] at hnone
  split at hnone
  · cases hnone
  · next hparts =>
    have hmap := RingRegions.mapParts_ok (r := {}) hadmits (List.findSome?_eq_none_iff.mp hparts)
    have hattach := attachQueues_eq h.kernel.config.fd granted h.kernel
      (h := h.withParts fd (Layout.ofParams granted).parts) rfl
    rw [hnone] at hattach
    rw [assemble_eq]
    refine Sys.tryCatch_ok ?_
    rw [mapAndAttach, RingRegions.map_eq_mapParts, Sys.bind_ok hmap]
    exact Sys.bind_ok (RingRegions.orRelease_ok hattach)

/-- The first failing step gives the fault, and all before it is undone. -/
theorem assemble_error (hadmits : h.kernel.admits fd = true)
    (hfault : h.kernel.buildFault? granted = some f) :
    ∃ h', assemble fd granted h = .error f h' ∧
      Host.Undone fd (Layout.ofParams granted).parts h h' := by
  have hdistinct := (Layout.ofParams granted).nodup_areas
  -- Whatever fails, the mappings are released first and then the descriptor is closed.
  have hclose : ∀ h₁, mapAndAttach fd granted h = .error f h₁ →
      ∃ h' closed, assemble fd granted h = .error f h' ∧
        h'.calls = h₁.calls ++ [.close fd closed] := by
    intro h₁ hfails
    obtain ⟨h', hclose, hcalls⟩ : ∃ h', Sys.close fd h₁ = .ok () h' ∧
        h'.calls = h₁.calls ++ [.close fd (h₁.kernel.close fd).1.code] :=
      ⟨_, Sys.close_eq fd h₁, rfl⟩
    refine ⟨h', _, ?_, hcalls⟩
    rw [assemble_eq, Sys.tryCatch_error hfails, Sys.bind_ok hclose]
    rfl
  rw [Kernel.buildFault?] at hfault
  split at hfault
  · next hparts =>
    cases hfault
    obtain ⟨done, p, rest, hsplit, hp, hdone⟩ := List.findSome?_eq_some_iff.mp hparts
    obtain ⟨h₁, failed, hmap, hunmapped, hfailed⟩ :=
      RingRegions.mapParts_error (r := {}) hadmits hdone hp rest
    have hfails : mapAndAttach fd granted h = .error f h₁ := by
      rw [mapAndAttach, RingRegions.map_eq_mapParts, hsplit, Sys.bind_error hmap]
    obtain ⟨h', closed, hassemble, hcalls⟩ := hclose h₁ hfails
    have hmem : p ∈ (Layout.ofParams granted).parts := by
      rw [hsplit]
      exact List.mem_append_right _ List.mem_cons_self
    refine ⟨h', hassemble, Host.undone_of_unmapped failed ?_ hdistinct
      (fun c hc => ⟨p, hmem, hfailed c hc⟩) hunmapped hcalls⟩
    rw [hsplit]
    exact List.sublist_append_left _ _
  · next hparts =>
    have hmap := RingRegions.mapParts_ok (r := {}) hadmits (List.findSome?_eq_none_iff.mp hparts)
    have hattach := attachQueues_eq h.kernel.config.fd granted h.kernel
      (h := h.withParts fd (Layout.ofParams granted).parts) rfl
    rw [hfault] at hattach
    obtain ⟨h₁, hrelease, hunmapped⟩ := RingRegions.orRelease_error hattach
    have hfails : mapAndAttach fd granted h = .error f h₁ := by
      rw [mapAndAttach, RingRegions.map_eq_mapParts, Sys.bind_ok hmap]
      exact Sys.bind_error hrelease
    obtain ⟨h', closed, hassemble, hcalls⟩ := hclose h₁ hfails
    refine ⟨h', hassemble, Host.undone_of_unmapped [] (.refl _) hdistinct
      (by simp) ?_ hcalls⟩
    simpa using hunmapped

end Ring

end

/-! ## All or nothing -/

/-- A ring stands.  Under a single mapping it owns two mappings, else three.
They are where the kernel sees its areas, and both queues lie inside them. -/
structure RingBody.Stands (b : RingBody) (l : Layout) (mapped : Nat) (k : Kernel) : Prop where
  owned : b.regions.owned.Perm (Part.mappings mapped l.parts)
  separate : b.regions.cqRing.isMapped = !l.singleMap
  sqRing : b.regions.sqRing = ⟨some b.sq.ring⟩ ∧ k.mapping? .sqRing = some b.sq.ring
  sqes : b.regions.sqes = ⟨some b.sq.sqes⟩ ∧ k.mapping? .sqes = some b.sq.sqes
  cqRing : b.regions.completionRegion = ⟨some b.cq.ring⟩ ∧ k.mapping? .cqRing = some b.cq.ring
  inside : ∀ w ∈ b.windows, w.Inside
  admits : k.admits b.fd = true

theorem RingBody.stands_built {fd : Int32} {granted : Params} {k : Kernel}
    (hshared : k.sharedRings = (Layout.ofParams granted).singleMap) (hadmits : k.admits fd = true)
    (hnone : k.buildFault? granted = none) :
    (built fd granted k).Stands (Layout.ofParams granted) k.mapped
      (k.withParts (Layout.ofParams granted).parts) := by
  have hserves := (Layout.ofParams granted).serves_withParts hshared
  rw [Kernel.buildFault?] at hnone
  split at hnone
  · cases hnone
  · refine
      { owned := RingRegions.owned_of_withParts _ (Layout.ofParams granted).nodup_areas
        separate := Layout.isMapped_cqRing_regions _ _
        sqRing := ⟨Layout.sqRing_regions _ _, hserves.ring⟩
        sqes := ⟨Layout.sqes_regions _ _, hserves.sqes⟩
        cqRing := ⟨Layout.completionRegion_regions _ _, hserves.cqRing⟩
        inside := fun w hw =>
          Window.fault?_eq_none_iff.mp (List.findSome?_eq_none_iff.mp hnone w hw)
        admits := by rw [Kernel.admits_withParts]; exact hadmits }

/-- If nothing is at fault, the ring is built and all its parts stay mapped. -/
theorem Ring.setUp_built {entries : UInt32} {params : Params} {h : Host}
    (hvalid : params.validate entries = .ok ()) (hfailure : h.kernel.setupFailure? = none)
    (hfd : 0 ≤ h.kernel.config.fd)
    (hbuild : (h.withRing entries params).kernel.buildFault? (h.kernel.config.grant params) =
      none) :
    Ring.setUp entries params h =
      .ok ⟨.ok (built h.kernel.config.fd (h.kernel.config.grant params)
          (h.withRing entries params).kernel), h.kernel.config.grant params⟩
        ((h.withRing entries params).withParts h.kernel.config.fd
          (Layout.ofParams (h.kernel.config.grant params)).parts) := by
  have hadmits : (h.withRing entries params).kernel.admits h.kernel.config.fd = true :=
    h.kernel.admits_withRing params
  simp only [setUp, hvalid]
  rw [Sys.bind_ok (Sys.setup_granted entries params hfailure hfd)]
  exact Sys.bind_ok (Sys.observing_eq_ok_iff.mpr (assemble_ok hadmits hbuild))

/-- **Opening a ring is all or nothing.**  It always comes to an end on a kernel
that hands out a descriptor.  Refused parameters reach no kernel, and a refused
setup is the only call.  Otherwise, if no part and no window is at fault, the
ring stands and nothing was given back.  If one is, the fault is that of the
first one, and everything was given back in order. -/
theorem Ring.setUp_allOrNothing (entries : UInt32) (params : Params) (h : Host)
    (hfd : 0 ≤ h.kernel.config.fd) (hshared : h.kernel.sharedRings = h.kernel.config.singleMap) :
    ∃ result left h', Ring.setUp entries params h = .ok ⟨result, left⟩ h' ∧
      match params.validate entries with
      | .error f => result = .error f ∧ h' = h
      | .ok () =>
        match h.kernel.setupFailure? with
        | some e => result = .error (.setupFailed e) ∧
            h' = { h with calls := h.calls ++ [.setup entries params (-e.code)] }
        | none =>
          let fd := h.kernel.config.fd
          let begun := h.withRing entries params
          let granted := h.kernel.config.grant params
          let layout := Layout.ofParams granted
          match begun.kernel.buildFault? granted with
          | some f => result = .error f ∧ Host.Undone fd layout.parts begun h'
          | none => ∃ ring b, result = .ok ring ∧ ring.body? = some b ∧ ring.layout = layout ∧
              b.fd = fd ∧ b.Stands layout h.kernel.mapped h'.kernel ∧
              h'.calls = begun.calls ++ Part.calls fd h.kernel.mapped layout.parts := by
  cases hvalid : params.validate entries with
  | error f =>
    refine ⟨.error f, params, h, ?_, rfl, rfl⟩
    simp only [setUp, hvalid]
    rfl
  | ok _ =>
    cases hfailure : h.kernel.setupFailure? with
    | some e =>
      refine ⟨.error (.setupFailed e), params, _, ?_, rfl, rfl⟩
      simp only [setUp, hvalid]
      rw [Sys.bind_ok (Sys.setup_refused entries params hfailure)]
      rfl
    | none =>
      have hsetup := Sys.setup_granted entries params hfailure hfd
      have hadmits : (h.withRing entries params).kernel.admits h.kernel.config.fd = true := by
        simp [Kernel.admits, Host.withRing, Kernel.withRing]
      simp only
      cases hbuild :
        (h.withRing entries params).kernel.buildFault? (h.kernel.config.grant params) with
      | some f =>
        obtain ⟨h', hassemble, hundone⟩ := assemble_error hadmits hbuild
        refine ⟨.error f, h.kernel.config.grant params, h', ?_, rfl, hundone⟩
        simp only [setUp, hvalid]
        rw [Sys.bind_ok hsetup]
        exact Sys.bind_ok (Sys.tryCatch_error (Sys.bind_error hassemble))
      | none =>
        exact ⟨_, _, _, setUp_built hvalid hfailure hfd hbuild, _, _, rfl, rfl, rfl, rfl,
          RingBody.stands_built hshared hadmits hbuild, rfl⟩

/-- A kernel that maps everything but the completion ring. -/
def unmappableHost : Host := .ofKernel (.ofConfig
  { RingSite.smallConfig with features := 0, mapFailures := { cqRing := some .outOfMemory } })

/-- Two mappings were made and are given back, and then the descriptor is. -/
theorem Ring.setUp_allOrNothing_unmappable :
    0 ≤ unmappableHost.kernel.config.fd ∧
      unmappableHost.kernel.sharedRings = unmappableHost.kernel.config.singleMap ∧
      ∃ left h', Ring.setUp 4 {} unmappableHost =
          .ok ⟨.error (.mapFailed "cq ring" .outOfMemory), left⟩ h' ∧
        Host.Undone 3 (Layout.ofParams (unmappableHost.kernel.config.grant {})).parts
          (unmappableHost.withRing 4 {}) h' := by
  have hvalid : ({} : Params).validate 4 = .ok () := rfl
  have hfailure : unmappableHost.kernel.setupFailure? = none := rfl
  have hbuild : (unmappableHost.withRing 4 {}).kernel.buildFault?
      (unmappableHost.kernel.config.grant {}) = some (.mapFailed "cq ring" .outOfMemory) := rfl
  refine ⟨by decide, rfl, ?_⟩
  obtain ⟨result, left, h', hsetUp, hcame⟩ :=
    setUp_allOrNothing 4 {} unmappableHost (by decide) rfl
  simp only [hvalid, hfailure, hbuild] at hcame
  obtain ⟨rfl, hundone⟩ := hcame
  exact ⟨left, h', hsetUp, hundone⟩

end IoRing
