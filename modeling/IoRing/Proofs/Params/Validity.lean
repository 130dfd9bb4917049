import IoRing.Session.Parameters
import Mathlib.Order.Bounds.Basic

/-!
# Which parameters are valid

Parameters are set up by a chain of requests.  A request to poll with an idle time
that does not fit is refused, and the chain goes on as if it had not been made.

A request that is not refused adds a flag or a feature, and one for a size of the
completion queue also replaces the size asked for before (`Params.advance_eq`).  So
the flags at the end tell which kinds of requests were made, in no order, and the size
is the last one (`Params.hasFlag_after`, `Params.cqEntries_after`).  Validity depends
on nothing else, and `Params.valid_as_requested` says how.

The sizes are compared after both were rounded up to a power of two.  It comes to the
same to round only the size of the completion queue
(`Params.roundedSize_le_roundedSize_iff`).
-/

namespace IoRing

/-! ## Rounded sizes -/

namespace Params

/-- The powers of two that are not below a size. -/
def PowersFrom (n : UInt32) : Set Nat := {k | k.isPowerOfTwo ∧ n.toNat ≤ k}

/-- A size is rounded up to the least power of two that is not below it. -/
theorem isLeast_roundedSize (n : UInt32) : IsLeast (PowersFrom n) (roundedSize n) := by
  unfold roundedSize
  split
  · next hsmall =>
    exact ⟨⟨Nat.isPowerOfTwo_one, hsmall⟩, fun k hk => Nat.pos_of_isPowerOfTwo hk.1⟩
  · next hlarge =>
    rw [Nat.one_shiftLeft]
    constructor
    · have hbits : n.toNat - 1 < 2 ^ ((n.toNat - 1).log2 + 1) := Nat.lt_log2_self
      exact ⟨⟨_, rfl⟩, by omega⟩
    · rintro _ ⟨⟨i, rfl⟩, hle⟩
      have hlog : (n.toNat - 1).log2 < i := (Nat.log2_lt (by omega)).mpr (by omega)
      exact Nat.pow_le_pow_right (by decide) hlog

theorem roundedSize_le_roundedSize_iff (entries size : UInt32) :
    roundedSize entries ≤ roundedSize size ↔ entries.toNat ≤ roundedSize size := by
  constructor
  · exact Nat.le_trans (isLeast_roundedSize entries).1.2
  · intro hle
    exact (isLeast_roundedSize entries).2 ⟨(isLeast_roundedSize size).1.1, hle⟩

/-- A larger size is not rounded to less. -/
theorem roundedSize_mono {size size' : UInt32} (hle : size ≤ size') :
    roundedSize size ≤ roundedSize size' := by
  rw [roundedSize_le_roundedSize_iff]
  exact Nat.le_trans (UInt32.le_iff_toNat_le.mp hle) (isLeast_roundedSize size').1.2

end Params

/-! ## Requests -/

theorem hasBits_or (a b mask : UInt32) :
    hasBits (a ||| b) mask = (hasBits a mask || hasBits b mask) := by
  have hmasked : (a ||| b) &&& mask = a &&& mask ||| b &&& mask :=
    UInt32.toBitVec_inj.mp BitVec.and_or_distrib_right
  rw [Bool.eq_iff_iff, Bool.or_eq_true]
  simp only [hasBits, bne_iff_ne, hmasked, ne_eq, UInt32.or_eq_zero_iff]
  exact Decidable.not_and_iff_or_not

namespace ParamsStep

/-- The step asks for something.  It neither assigns a field nor checks the fields. -/
def isRequest : ParamsStep → Bool
  | .assign .. | .validate _ => false
  | _ => true

/-- The idle time, if there is one, fits its field. -/
def idleFits : Option Int → Bool
  | none => true
  | some idle => decide (0 ≤ idle ∧ idle < UInt32.size)

/-- The request is refused, whatever was asked for before. -/
def isRefused : ParamsStep → Bool
  | .sqPoll idle? => !idleFits idle?
  | _ => false

/-- The fault that comes of a request. -/
def fault? (step : ParamsStep) : Option Fault :=
  if step.isRefused then some .idleOutOfRange else none

/-- The flag that a request adds. -/
def flag : ParamsStep → UInt32
  | .ioPoll => SetupFlag.ioPoll
  | .sqPoll idle? => if idleFits idle? then SetupFlag.sqPoll else 0
  | .sqPollCpu _ => SetupFlag.sqAffinity
  | .cqSize _ => SetupFlag.cqSize
  | .clamp => SetupFlag.clamp
  | _ => 0

/-- The size of the completion queue that a request asks for. -/
def cqSize? : ParamsStep → Option UInt32
  | .cqSize entries => some entries
  | _ => none

/-- The sizes of the completion queue that a chain asks for, in order. -/
def cqSizes (chain : List ParamsStep) : List UInt32 := chain.filterMap cqSize?

/-- The request has no bearing on validity. -/
def isNeutral : ParamsStep → Bool
  | .ioPoll | .request _ => true
  | _ => false

/-- The flags that validity depends on tell which request was made. -/
theorem hasBits_flag_iff (step : ParamsStep) :
    (hasBits step.flag SetupFlag.sqAffinity = true ↔ ∃ cpu, step = .sqPollCpu cpu) ∧
    (hasBits step.flag SetupFlag.sqPoll = true ↔
      ∃ idle?, step = .sqPoll idle? ∧ idleFits idle? = true) ∧
    (hasBits step.flag SetupFlag.cqSize = true ↔ ∃ entries, step = .cqSize entries) ∧
    (hasBits step.flag SetupFlag.clamp = true ↔ step = .clamp) := by
  cases step with
  | sqPoll idle? =>
    cases hfits : idleFits idle? with
    | true =>
      simp only [flag, hfits, if_true, ParamsStep.sqPoll.injEq, exists_eq_left', reduceCtorEq,
        exists_false]
      decide
    | false =>
      simp only [flag, hfits, Bool.false_eq_true, if_false, ParamsStep.sqPoll.injEq,
        exists_eq_left', reduceCtorEq, exists_false]
      decide
  | ioPoll | sqPollCpu | cqSize | clamp | request | assign | validate =>
    simp only [flag, ParamsStep.sqPollCpu.injEq, ParamsStep.cqSize.injEq, exists_eq',
      reduceCtorEq, false_and, exists_false]
    decide

end ParamsStep

namespace Params

open ParamsStep

/-- The parameters after a step.  A refused step leaves them as they were. -/
def advance (p : Params) (step : ParamsStep) : Params :=
  match step.apply p with
  | .ok p => p
  | .error _ => p

/-- The parameters after the last step of a chain. -/
def after (p : Params) (chain : List ParamsStep) : Params :=
  ((p.record chain).map Prod.snd).getLastD p

/-! ### One request -/

/-- Polling is asked for with an idle time that fits, or refused. -/
theorem setSqPoll_cases (p : Params) (idle? : Option Int) :
    (idleFits idle? = true ∧
      ∃ idle, p.setSqPoll idle? = .ok { p.addFlag SetupFlag.sqPoll with threadIdle := idle }) ∨
    (idleFits idle? = false ∧ p.setSqPoll idle? = .error .idleOutOfRange) := by
  cases idle? with
  | none => exact .inl ⟨rfl, p.threadIdle, rfl⟩
  | some idle =>
    by_cases hfits : 0 ≤ idle ∧ idle < 2 ^ 32
    · have hrange : ¬ (idle < 0 ∨ (UInt32.size : Int) ≤ idle) := by
        simp only [UInt32.size]
        omega
      exact .inl ⟨decide_eq_true hfits, _, if_neg hrange⟩
    · have hrange : idle < 0 ∨ (UInt32.size : Int) ≤ idle := by
        simp only [UInt32.size]
        omega
      exact .inr ⟨decide_eq_false hfits, if_pos hrange⟩

/-- A request is refused and does nothing, or is granted and adds its flag and its size.
Which of them does not depend on the parameters. -/
theorem apply_cases (p : Params) {step : ParamsStep} (hstep : step.isRequest = true) :
    (step.isRefused = true ∧ step.apply p = .error .idleOutOfRange ∧ step.flag = 0 ∧
      step.cqSize? = none) ∨
    (step.isRefused = false ∧ ∃ q, step.apply p = .ok q ∧ q.flags = p.flags ||| step.flag ∧
      q.cqEntries = step.cqSize?.getD p.cqEntries) := by
  cases step with
  | sqPoll idle? =>
    rcases p.setSqPoll_cases idle? with ⟨hfits, idle, hset⟩ | ⟨hfits, hset⟩
    · exact .inr ⟨by rw [isRefused, hfits]; rfl, _, hset, by rw [flag, if_pos hfits]; rfl, rfl⟩
    · refine .inl ⟨by rw [isRefused, hfits]; rfl, hset, ?_, rfl⟩
      rw [flag, hfits]
      rfl
  | ioPoll | sqPollCpu | cqSize | clamp => exact .inr ⟨rfl, _, rfl, rfl, rfl⟩
  | request feature => exact .inr ⟨rfl, _, rfl, UInt32.or_zero.symm, rfl⟩
  | assign | validate => cases hstep

/-- A refused request changes nothing. -/
theorem advance_of_refused {p : Params} {step : ParamsStep} (hstep : step.isRequest = true)
    (hrefused : step.isRefused = true) : p.advance step = p := by
  rcases p.apply_cases hstep with ⟨-, happly, -⟩ | ⟨hgranted, -⟩
  · rw [advance, happly]
  · cases hrefused.symm.trans hgranted

/-- What comes of a request for the fields that validity depends on. -/
theorem advance_eq (p : Params) {step : ParamsStep} (hstep : step.isRequest = true) :
    (p.advance step).flags = p.flags ||| step.flag ∧
    (p.advance step).cqEntries = step.cqSize?.getD p.cqEntries := by
  rcases p.apply_cases hstep with ⟨-, happly, hflag, hsize⟩ | ⟨-, q, happly, hflags, hentries⟩
  · rw [advance, happly, hflag, hsize]
    exact ⟨UInt32.or_zero.symm, rfl⟩
  · rw [advance, happly]
    exact ⟨hflags, hentries⟩

/-! ### Chains of requests -/

variable {p : Params} {chain chain' before rest : List ParamsStep} {step : ParamsStep}

theorem after_cons (p : Params) (step : ParamsStep) (rest : List ParamsStep) :
    p.after (step :: rest) = (p.advance step).after rest := by
  cases happly : step.apply p with
  | ok q =>
    simp only [after, record, advance, happly, List.map_cons]
    exact List.getLastD_cons
  | error f =>
    simp only [after, record, advance, happly, List.map_cons]
    exact List.getLastD_cons

theorem after_append (p : Params) (before rest : List ParamsStep) :
    p.after (before ++ rest) = (p.after before).after rest := by
  induction before generalizing p with
  | nil => rfl
  | cons step before ih => rw [List.cons_append, after_cons, after_cons, ih]

/-- A chain goes on from where the requests before led, also after a refusal. -/
theorem record_append_cons (hstep : step.isRequest = true) :
    p.record (before ++ step :: rest) =
      p.record before ++ (step.fault?, (p.after before).advance step) ::
        ((p.after before).advance step).record rest := by
  induction before generalizing p with
  | nil =>
    rcases p.apply_cases hstep with ⟨hrefused, happly, -⟩ | ⟨hgranted, q, happly, -⟩
    · simp [record, after, advance, happly, fault?, hrefused]
    · simp [record, after, advance, happly, fault?, hgranted]
  | cons first before ih =>
    cases happly : first.apply p <;>
      simp [record, after_cons, advance, happly, ih]

/-- The flags tell what was asked for, in no order. -/
theorem hasFlag_after (hchain : ∀ s ∈ chain, s.isRequest = true) (f : UInt32) :
    (p.after chain).hasFlag f = (p.hasFlag f || chain.any fun s => hasBits s.flag f) := by
  induction chain generalizing p with
  | nil => simp [after, record]
  | cons step rest ih =>
    have hstep := (p.advance_eq (hchain step List.mem_cons_self)).1
    rw [after_cons, ih fun s hs => hchain s (List.mem_cons_of_mem _ hs), List.any_cons,
      ← Bool.or_assoc, hasFlag, hstep, hasBits_or]
    rfl

/-- The size is the one that was asked for last. -/
theorem cqEntries_after (hchain : ∀ s ∈ chain, s.isRequest = true) :
    (p.after chain).cqEntries = (cqSizes chain).getLastD p.cqEntries := by
  induction chain generalizing p with
  | nil => rfl
  | cons step rest ih =>
    have hstep := (p.advance_eq (hchain step List.mem_cons_self)).2
    rw [after_cons, ih fun s hs => hchain s (List.mem_cons_of_mem _ hs), hstep, cqSizes, cqSizes,
      List.filterMap_cons]
    cases step.cqSize? with
    | none => rfl
    | some size => exact List.getLastD_cons.symm

/-! ## Validity -/

/-- A check that refuses in one case passes in the others, if the rest does. -/
theorem refuse_eq_ok_iff {c : Prop} [Decidable c] {f : Fault} {rest : Except Fault Unit} :
    (if c then .error f else rest) = .ok () ↔ ¬ c ∧ rest = .ok () := by
  by_cases hc : c
  · simp [hc]
  · simp [hc]

/-- The three conditions of `validate`. -/
theorem validate_eq_ok_iff (p : Params) (entries : UInt32) :
    p.validate entries = .ok () ↔ 0 < entries ∧
      (p.hasFlag SetupFlag.sqAffinity = true → p.hasFlag SetupFlag.sqPoll = true) ∧
      (p.hasFlag SetupFlag.cqSize = true → p.hasFlag SetupFlag.clamp = true ∨
        p.cqEntries ≠ 0 ∧ entries.toNat ≤ roundedSize p.cqEntries) := by
  rw [validate, refuse_eq_ok_iff, refuse_eq_ok_iff, refuse_eq_ok_iff,
    ← roundedSize_le_roundedSize_iff, UInt32.pos_iff_ne_zero]
  simp only [Bool.and_eq_true, Bool.or_eq_true, Bool.not_eq_true', beq_iff_eq, decide_eq_true_eq,
    not_and, not_or, Nat.not_lt, and_true, Bool.not_eq_false]
  refine and_congr_right fun _ => and_congr_right fun _ => ?_
  cases p.hasFlag SetupFlag.clamp with
  | true => simp
  | false => simp

/-- All faults of `validate` are about arguments. -/
theorem kind_of_validate {entries : UInt32} {f : Fault}
    (hvalidate : p.validate entries = .error f) : f.kind = .invalidArgument := by
  unfold validate at hvalidate
  split at hvalidate
  · cases hvalidate
    rfl
  · split at hvalidate
    · cases hvalidate
      rfl
    · split at hvalidate <;> cases hvalidate
      rfl

/-- The flags that validity depends on. -/
def checkedFlags : List UInt32 :=
  [SetupFlag.sqAffinity, SetupFlag.sqPoll, SetupFlag.cqSize, SetupFlag.clamp]

/-- Only the checked flags and the size decide. -/
theorem validate_congr {q : Params} (hflags : ∀ f ∈ checkedFlags, p.hasFlag f = q.hasFlag f)
    (hentries : p.cqEntries = q.cqEntries) : p.validate = q.validate := by
  have haffinity := hflags SetupFlag.sqAffinity (by decide)
  have hpoll := hflags SetupFlag.sqPoll (by decide)
  have hsize := hflags SetupFlag.cqSize (by decide)
  have hclamp := hflags SetupFlag.clamp (by decide)
  funext entries
  simp only [validate, haffinity, hpoll, hsize, hclamp, hentries]

/-- Chains with the same kinds of requests and the same sizes are equally valid. -/
theorem validate_after_congr (hchain : ∀ s ∈ chain, s.isRequest = true)
    (hchain' : ∀ s ∈ chain', s.isRequest = true)
    (hflags : ∀ f ∈ checkedFlags,
      (chain'.any fun s => hasBits s.flag f) = chain.any fun s => hasBits s.flag f)
    (hsizes : cqSizes chain' = cqSizes chain) :
    (p.after chain').validate = (p.after chain).validate := by
  refine validate_congr (fun f hf => ?_) ?_
  · rw [hasFlag_after hchain', hasFlag_after hchain, hflags f hf]
  · rw [cqEntries_after hchain', cqEntries_after hchain, hsizes]

theorem isRequest_of_isNeutral (hstep : step.isNeutral = true) : step.isRequest = true := by
  cases step with
  | ioPoll | request => rfl
  | _ => cases hstep

/-- A neutral request does not matter, wherever it stands. -/
theorem validate_after_insert_neutral (hchain : ∀ s ∈ before ++ rest, s.isRequest = true)
    (hstep : step.isNeutral = true) :
    (p.after (before ++ step :: rest)).validate = (p.after (before ++ rest)).validate := by
  refine validate_after_congr hchain ?_ (fun f hf => ?_) ?_
  · intro s hs
    rcases List.mem_append.mp hs with hbefore | hlater
    · exact hchain s (List.mem_append_left _ hbefore)
    · rcases List.mem_cons.mp hlater with rfl | hrest
      · exact isRequest_of_isNeutral hstep
      · exact hchain s (List.mem_append_right _ hrest)
  · have hflag : hasBits step.flag f = false := by
      have htold := step.hasBits_flag_iff
      simp only [checkedFlags, List.mem_cons, List.not_mem_nil, or_false] at hf
      cases step with
      | ioPoll | request =>
        simp only [reduceCtorEq, exists_false, false_and, iff_false, Bool.not_eq_true] at htold
        obtain ⟨haffinity, hpoll, hsize, hclamp⟩ := htold
        rcases hf with rfl | rfl | rfl | rfl <;> assumption
      | _ => cases hstep
    simp only [List.any_append, List.any_cons, hflag, Bool.false_or]
  · have hsize : step.cqSize? = none := by
      cases step with
      | ioPoll | request => rfl
      | _ => cases hstep
    simp only [cqSizes, List.filterMap_append, List.filterMap_cons, hsize]

/-- The last size asked for counts. -/
theorem cqEntries_after_cqSize (size : UInt32) (hrest : ∀ s ∈ rest, s.isRequest = true) :
    (p.after (before ++ .cqSize size :: rest)).cqEntries = (cqSizes rest).getLastD size := by
  rw [after_append, after_cons, cqEntries_after hrest]
  rfl

/-- To ask for a larger completion queue keeps a chain valid. -/
theorem validate_after_larger_size {size size' entries : UInt32}
    (hbefore : ∀ s ∈ before, s.isRequest = true) (hrest : ∀ s ∈ rest, s.isRequest = true)
    (hle : size ≤ size')
    (hvalid : (p.after (before ++ .cqSize size :: rest)).validate entries = .ok ()) :
    (p.after (before ++ .cqSize size' :: rest)).validate entries = .ok () := by
  have hchain (n : UInt32) : ∀ s ∈ before ++ .cqSize n :: rest, s.isRequest = true := by
    intro s hs
    rcases List.mem_append.mp hs with hs | hs
    · exact hbefore s hs
    · rcases List.mem_cons.mp hs with rfl | hs
      · rfl
      · exact hrest s hs
  have hflags (f : UInt32) : (p.after (before ++ .cqSize size' :: rest)).hasFlag f =
      (p.after (before ++ .cqSize size :: rest)).hasFlag f := by
    rw [hasFlag_after (hchain size'), hasFlag_after (hchain size), List.any_append,
      List.any_append, List.any_cons, List.any_cons]
    rfl
  have hlast : (cqSizes rest).getLastD size ≤ (cqSizes rest).getLastD size' := by
    cases cqSizes rest with
    | nil => exact hle
    | cons n ns =>
      rw [List.getLastD_cons, List.getLastD_cons]
      exact UInt32.le_refl _
  rw [validate_eq_ok_iff, cqEntries_after_cqSize size hrest] at hvalid
  rw [validate_eq_ok_iff, cqEntries_after_cqSize size' hrest, hflags, hflags, hflags, hflags]
  refine ⟨hvalid.1, hvalid.2.1, fun hsized => (hvalid.2.2 hsized).imp_right ?_⟩
  rintro ⟨hpos, hroom⟩
  refine ⟨?_, Nat.le_trans hroom (roundedSize_mono hlast)⟩
  rintro hzero
  rw [hzero] at hlast
  exact hpos (UInt32.le_zero_iff.mp hlast)

/-- To ask for fewer entries keeps parameters valid. -/
theorem validate_of_le {entries entries' : UInt32} (hpos : 0 < entries') (hle : entries' ≤ entries)
    (hvalid : p.validate entries = .ok ()) : p.validate entries' = .ok () := by
  rw [validate_eq_ok_iff] at hvalid ⊢
  refine ⟨hpos, hvalid.2.1, fun hsized => (hvalid.2.2 hsized).imp_right fun hroomy => ?_⟩
  exact ⟨hroomy.1, Nat.le_trans (UInt32.le_iff_toNat_le.mp hle) hroomy.2⟩

/-! ### What was asked for -/

/-- A chain of requests asks for something valid. -/
structure Acceptable (chain : List ParamsStep) (entries : UInt32) : Prop where
  positive : 0 < entries
  polled : (∀ cpu, .sqPollCpu cpu ∉ chain) ∨
    ∃ idle?, .sqPoll idle? ∈ chain ∧ idleFits idle? = true
  roomy : (∀ size, .cqSize size ∉ chain) ∨ .clamp ∈ chain ∨
    ∃ size, (cqSizes chain).getLast? = some size ∧ size ≠ 0 ∧
      ∃ rounded, IsLeast (PowersFrom size) rounded ∧ entries.toNat ≤ rounded

/-- A flag is set exactly if a request of the chain asks for it. -/
theorem hasFlag_after_fresh (hchain : ∀ s ∈ chain, s.isRequest = true) (f : UInt32) :
    (({} : Params).after chain).hasFlag f = true ↔ ∃ s ∈ chain, hasBits s.flag f = true := by
  have hfresh : ({} : Params).hasFlag f = false := by simp [hasFlag, hasBits]
  rw [hasFlag_after hchain, hfresh, Bool.false_or, List.any_eq_true]

/-- What the flags of a chain of requests tell. -/
theorem checkedFlags_after (hchain : ∀ s ∈ chain, s.isRequest = true) :
    let p := ({} : Params).after chain
    (p.hasFlag SetupFlag.sqAffinity = true ↔ ∃ cpu, .sqPollCpu cpu ∈ chain) ∧
    (p.hasFlag SetupFlag.sqPoll = true ↔
      ∃ idle?, .sqPoll idle? ∈ chain ∧ idleFits idle? = true) ∧
    (p.hasFlag SetupFlag.cqSize = true ↔ ∃ size, .cqSize size ∈ chain) ∧
    (p.hasFlag SetupFlag.clamp = true ↔ .clamp ∈ chain) := by
  intro p
  simp only [p, hasFlag_after_fresh hchain, hasBits_flag_iff]
  refine ⟨?_, ?_, ?_, ?_⟩
  · constructor
    · rintro ⟨_, hs, cpu, rfl⟩
      exact ⟨cpu, hs⟩
    · rintro ⟨cpu, hs⟩
      exact ⟨_, hs, cpu, rfl⟩
  · constructor
    · rintro ⟨_, hs, idle?, rfl, hfits⟩
      exact ⟨idle?, hs, hfits⟩
    · rintro ⟨idle?, hs, hfits⟩
      exact ⟨_, hs, idle?, rfl, hfits⟩
  · constructor
    · rintro ⟨_, hs, size, rfl⟩
      exact ⟨size, hs⟩
    · rintro ⟨size, hs⟩
      exact ⟨_, hs, size, rfl⟩
  · constructor
    · rintro ⟨_, hs, rfl⟩
      exact hs
    · exact fun hs => ⟨_, hs, rfl⟩

/-- A chain is valid exactly if it is acceptable. -/
theorem validate_after_iff (hchain : ∀ s ∈ chain, s.isRequest = true) (entries : UInt32) :
    (({} : Params).after chain).validate entries = .ok () ↔ Acceptable chain entries := by
  obtain ⟨haffinity, hpoll, hsized, hclamp⟩ := checkedFlags_after hchain
  have hentries : (({} : Params).after chain).cqEntries = (cqSizes chain).getLast?.getD 0 := by
    rw [cqEntries_after hchain, List.getLastD_eq_getLast?]
  rw [validate_eq_ok_iff, haffinity, hpoll, hsized, hclamp, hentries]
  constructor
  · rintro ⟨hpos, hpolled, hroomy⟩
    refine ⟨hpos, ?_, ?_⟩
    · by_cases hpinned : ∃ cpu, .sqPollCpu cpu ∈ chain
      · exact .inr (hpolled hpinned)
      · exact .inl (not_exists.mp hpinned)
    · by_cases hasked : ∃ size, .cqSize size ∈ chain
      · refine .inr ((hroomy hasked).imp_right ?_)
        rintro ⟨hne, hle⟩
        cases hlast : (cqSizes chain).getLast? with
        | none =>
          rw [hlast] at hne
          exact absurd rfl hne
        | some size =>
          rw [hlast] at hne hle
          exact ⟨size, rfl, hne, _, isLeast_roundedSize size, hle⟩
      · exact .inl (not_exists.mp hasked)
  · rintro ⟨hpos, hpolled, hroomy⟩
    refine ⟨hpos, ?_, ?_⟩
    · rintro ⟨cpu, hpinned⟩
      exact hpolled.resolve_left fun hnever => hnever cpu hpinned
    · rintro ⟨size, hasked⟩
      refine (hroomy.resolve_left fun hnever => hnever size hasked).imp_right ?_
      rintro ⟨last, hlast, hne, rounded, hrounded, hle⟩
      rw [hlast]
      exact ⟨hne, hle.trans (hrounded.2 (isLeast_roundedSize last).1)⟩

/-- **Validity depends on what was requested only.**  Start from fresh parameters and
make any chain of requests.

Each request answers by itself.  One that is refused leaves the parameters as they
were, and the chain goes on.  The parameters are then valid for a size exactly if the
chain asked for something acceptable, and any other size is refused as an invalid
argument.

So the answer stays the same if the requests come in another order, the sizes of the
completion queue apart, and if features or polling for completions are asked for
anywhere.  What is valid stays valid with a larger completion queue and with fewer
entries, as long as there are some. -/
theorem valid_as_requested (chain : List ParamsStep) (hchain : ∀ s ∈ chain, s.isRequest = true) :
    let asked (chain : List ParamsStep) := ({} : Params).after chain
    (∀ before step rest, chain = before ++ step :: rest →
      ∃ q, ({} : Params).record chain =
          ({} : Params).record before ++ (step.fault?, q) :: q.record rest ∧
        (step.isRefused = true → q = asked before)) ∧
    (∀ entries, (asked chain).validate entries = .ok () ↔ Acceptable chain entries) ∧
    (∀ entries, ¬ Acceptable chain entries →
      ∃ f, (asked chain).validate entries = .error f ∧ f.kind = .invalidArgument) ∧
    (∀ chain', chain'.Perm chain → cqSizes chain' = cqSizes chain →
      (asked chain').validate = (asked chain).validate) ∧
    (∀ before step rest, chain = before ++ rest → step.isNeutral = true →
      (asked (before ++ step :: rest)).validate = (asked chain).validate) ∧
    (∀ before size size' rest entries, chain = before ++ .cqSize size :: rest → size ≤ size' →
      (asked chain).validate entries = .ok () →
      (asked (before ++ .cqSize size' :: rest)).validate entries = .ok ()) ∧
    ∀ entries entries', 0 < entries' → entries' ≤ entries →
      (asked chain).validate entries = .ok () → (asked chain).validate entries' = .ok () := by
  intro asked
  refine ⟨?_, validate_after_iff hchain, ?_, ?_, ?_, ?_, fun _ _ => validate_of_le⟩
  · rintro before step rest rfl
    have hstep : step.isRequest = true := hchain step (by simp)
    exact ⟨_, record_append_cons hstep, advance_of_refused hstep⟩
  · intro entries hnot
    cases hvalidate : (asked chain).validate entries with
    | ok _ => exact absurd ((validate_after_iff hchain entries).mp hvalidate) hnot
    | error f => exact ⟨f, rfl, kind_of_validate hvalidate⟩
  · intro chain' hperm hsizes
    exact validate_after_congr hchain (fun s hs => hchain s (hperm.mem_iff.mp hs))
      (fun _ _ => hperm.any_eq) hsizes
  · rintro before step rest rfl hneutral
    exact validate_after_insert_neutral hchain hneutral
  · rintro before size size' rest entries rfl hle hvalid
    exact validate_after_larger_size (fun s hs => hchain s (by simp [hs]))
      (fun s hs => hchain s (by simp [hs])) hle hvalid

/-- A pinned thread, a refused idle time that is corrected, and a size that is too small
at first.  The completion queue of 5 is rounded up to 8. -/
def pinnedRequests : List ParamsStep :=
  [.sqPollCpu 3, .sqPoll (some (-5)), .cqSize 3, .sqPoll (some 250), .cqSize 5]

/-- Eight entries are valid, also if the thread is pinned later, if completions are
polled for, or if the completion queue is larger.  Nine are not. -/
theorem valid_as_requested_pinned :
    (∀ s ∈ pinnedRequests, s.isRequest = true) ∧
    (({} : Params).after pinnedRequests).validate 8 = .ok () ∧
    (({} : Params).after [.sqPoll (some (-5)), .sqPollCpu 3, .cqSize 3, .sqPoll (some 250),
      .cqSize 5]).validate 8 = .ok () ∧
    (({} : Params).after (.ioPoll :: pinnedRequests)).validate 8 = .ok () ∧
    (({} : Params).after [.sqPollCpu 3, .sqPoll (some (-5)), .cqSize 3, .sqPoll (some 250),
      .cqSize 6]).validate 8 = .ok () ∧
    (({} : Params).after pinnedRequests).validate 1 = .ok () ∧
    ∃ f, (({} : Params).after pinnedRequests).validate 9 = .error f ∧
      f.kind = .invalidArgument := by
  have hchain : ∀ s ∈ pinnedRequests, s.isRequest = true := by decide
  obtain ⟨-, hvalid, hinvalid, hreorder, hinsert, hlarger, hfewer⟩ :=
    valid_as_requested pinnedRequests hchain
  have height : (({} : Params).after pinnedRequests).validate 8 = .ok () := by
    refine (hvalid 8).mpr ⟨by decide, .inr ⟨some 250, ?_, rfl⟩, .inr (.inr ⟨5, rfl, by decide, 8,
      isLeast_roundedSize 5, by decide⟩)⟩
    simp [pinnedRequests]
  refine ⟨hchain, height, ?_, ?_, ?_, hfewer 8 1 (by decide) (by decide) height, hinvalid 9 ?_⟩
  · rw [hreorder _ (.swap _ _ _) rfl]
    exact height
  · rw [← height]
    exact congrFun (hinsert [] .ioPoll pinnedRequests rfl rfl) 8
  · exact hlarger [.sqPollCpu 3, .sqPoll (some (-5)), .cqSize 3, .sqPoll (some 250)] 5 6 [] 8 rfl
      (by decide) height
  · rintro ⟨-, -, hnever | hclamp | ⟨size, hlast, -, rounded, hrounded, hroom⟩⟩
    · exact hnever 3 (by simp [pinnedRequests])
    · simp [pinnedRequests] at hclamp
    · obtain rfl : (5 : UInt32) = size := Option.some.inj hlast
      have height : rounded ≤ 8 := hrounded.2 (isLeast_roundedSize 5).1
      exact absurd (hroom.trans height) (by decide)

end Params

end IoRing
