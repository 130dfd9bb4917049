import IoRing.Proofs.SharedRing.Steps
import Mathlib.Logic.Function.Basic

/-!
# Threads that share a ring

Any number of threads push, pop and submit.  A submit is made of three moves.
The thread prepares a request, starts the enter call, and the call returns, and
the other threads may move in between.  So the count in a request may be stale
when the kernel reads it: its entries may be gone already, and others may have
been pushed.

A stale count does no harm, since the kernel takes the oldest entries first.  If
a request was prepared when `n` entries had been pushed and the kernel had taken
`k`, its count is `n - k`.  However many were taken since, with this many more
the kernel has taken at least `n`.  This is `Phase.Owes`, the part of the
invariant that speaks about the threads.
-/

namespace IoRing

/-! ## Runs -/

/-- Where a thread is in submitting. -/
inductive Phase where
  /-- It does not submit. -/
  | idle
  /-- It has a request, prepared when these entries had been pushed. -/
  | prepared (request : EnterRequest) (before : List Entry)
  /-- The kernel runs its enter call. -/
  | entering (running : Sys.RunningEnter) (before : List Entry)

/-- What a thread does in one move. -/
inductive SharedAction where
  /-- Push an entry. -/
  | push (e : Entry)
  /-- Take a completion. -/
  | pop
  /-- Begin to submit. -/
  | prepare (want : UInt32)
  /-- Start the enter call. -/
  | startEnter
  /-- Return from the enter call. -/
  | finishEnter

/-- A move of a thread. -/
structure SharedMove (Thread : Type) where
  thread : Thread
  action : SharedAction

/-- A submit that has returned. -/
structure Submitted (Thread : Type) where
  thread : Thread
  /-- The entries that had been pushed when it was prepared. -/
  before : List Entry
  /-- What the kernel took during its enter call. -/
  taken : Served
  result : Except Fault Int32

/-- A shared ring on a host with its threads, and what happened to it so far. -/
structure SharedTrace (Thread : Type) where
  shared : SharedRing
  host : Host
  phase : Thread → Phase := fun _ => .idle
  /-- The entries of the pushes that succeeded, in order. -/
  pushed : List Entry := []
  /-- The completions that were popped, in order. -/
  popped : List Completion := []
  /-- The submits that have returned, in order. -/
  submitted : List (Submitted Thread) := []

namespace SharedTrace

variable {Thread : Type} [DecidableEq Thread]

/-- What the kernel took, in order. -/
def served (r : SharedTrace Thread) : Served := (r.submitted.map (·.taken)).flatten

/-- Put a thread into a phase. -/
def enterPhase (r : SharedTrace Thread) (thread : Thread) (phase : Phase) (host : Host) :
    SharedTrace Thread :=
  { r with host, phase := Function.update r.phase thread phase }

/-- Let a submit return. -/
def finish (r : SharedTrace Thread) (f : Submitted Thread) (host : Host) : SharedTrace Thread :=
  { r.enterPhase f.thread .idle host with submitted := r.submitted ++ [f] }

/-- Make a move and record what came of it.  A move that does not fit the phase
of its thread does nothing. -/
def move (r : SharedTrace Thread) (move : SharedMove Thread) : SharedTrace Thread :=
  match move.action, r.phase move.thread with
  | .push e, .idle =>
      match r.shared.push e r.host with
      | .ok shared host => { r with shared, host, pushed := r.pushed ++ [e] }
      | .error _ host => { r with host }
  | .pop, .idle =>
      match r.shared.pop r.host with
      | .ok (c?, shared) host => { r with shared, host, popped := r.popped ++ c?.toList }
      | .error _ host => { r with host }
  | .prepare want, .idle =>
      match r.shared.prepare want r.host with
      | .ok request host =>
          if request.needed then r.enterPhase move.thread (.prepared request r.pushed) host
          else r.finish ⟨move.thread, r.pushed, [], .ok request.toSubmit.toInt32⟩ host
      | .error f host => r.finish ⟨move.thread, r.pushed, [], .error f⟩ host
  | .startEnter, .prepared request before =>
      match r.shared.startEnter request r.host with
      | .ok running host => r.enterPhase move.thread (.entering running before) host
      | .error f host => r.finish ⟨move.thread, before, [], .error f⟩ host
  | .finishEnter, .entering running before =>
      let taken (host : Host) := r.host.kernel.postings (r.host.kernel.passed host.kernel)
      match Sys.finishEnter running r.host with
      | .ok n host => r.finish ⟨move.thread, before, taken host, .ok n⟩ host
      | .error f host => r.finish ⟨move.thread, before, taken host, .error f⟩ host
  | _, _ => r

/-- Make moves one after the other. -/
def run (r : SharedTrace Thread) (moves : List (SharedMove Thread)) : SharedTrace Thread :=
  moves.foldl move r

end SharedTrace

/-! ## What a stale count still covers -/

/-- A request for `toSubmit` entries, prepared when `before` had been pushed,
covers all of them. -/
def Owed (before : List Entry) (toSubmit : UInt32) (pushed : List Entry) (served : Nat) : Prop :=
  before <+: pushed ∧ before.length ≤ served + toSubmit.toNat

/-- The request of a thread covers the entries pushed before it. -/
def Phase.Owes (pushed : List Entry) (served : Nat) : Phase → Prop
  | .idle => True
  | .prepared request before => Owed before request.toSubmit pushed served
  | .entering running before => Owed before running.call.toSubmit pushed served

/-- What a thread may still ask for stays bounded while other threads push and are
served. -/
theorem Owed.mono {before pushed pushed' : List Entry} {toSubmit : UInt32} {served served' : Nat}
    (h : Owed before toSubmit pushed served) (hpushed : pushed <+: pushed')
    (hserved : served ≤ served') : Owed before toSubmit pushed' served' :=
  ⟨h.1.trans hpushed, Nat.le_trans h.2 (Nat.add_le_add_right hserved _)⟩

/-- More pushes and more entries taken do no harm. -/
theorem Phase.Owes.mono {phase : Phase} {pushed pushed' : List Entry} {served served' : Nat}
    (h : phase.Owes pushed served) (hpushed : pushed <+: pushed') (hserved : served ≤ served') :
    phase.Owes pushed' served' := by
  cases phase with
  | idle => trivial
  | prepared request before => exact Owed.mono h hpushed hserved
  | entering running before => exact Owed.mono h hpushed hserved

/-- The oldest entries, as many as a covering request asks for, contain all that
it covers. -/
theorem Owed.prefix_take {before served published : List Entry} {toSubmit : UInt32}
    (h : Owed before toSubmit (served ++ published) served.length) :
    before <+: served ++ published.take toSubmit.toNat := by
  obtain ⟨hbefore, hlength⟩ := h
  have hle := hbefore.length_le
  rw [List.length_append] at hle
  refine List.prefix_of_prefix_length_le hbefore ?_ ?_
  · exact (List.prefix_append_right_inj _).mpr (List.take_prefix _ _)
  · rw [List.length_append, List.length_take]
    omega

/-! ## The invariant -/

namespace SharedTrace

variable {Thread : Type} [DecidableEq Thread]

/-- Nothing was lost or duplicated on the open ring that the threads share, whose
overflow word stood at `lost` when the record began. -/
structure Conserves (r : SharedTrace Thread) (b : RingBody) (lost : UInt32) : Prop where
  /-- The entries taken and those waiting are the entries pushed, in the order of the
  pushes. -/
  pushed_eq : r.served.entries ++ b.sq.waiting r.host.kernel = r.pushed
  /-- Each submit that returned gave the number of entries that the kernel took during
  its own enter call, and by then the kernel had taken all that had been pushed when
  the submit was prepared. -/
  submitted_ok : ∀ f ∈ r.submitted, f.result = .ok (Int32.ofNat f.taken.length) ∧
    f.before <+: r.served.entries
  /-- The completions popped and those to be read are those of the entries that found
  room, in order. -/
  posted_eq : r.popped ++ b.cq.readable r.host.kernel.memory = r.served.posted
  /-- The next completion popped is the first of those to be read. -/
  pop_eq : ∃ ring' b' h', r.shared.pop r.host =
      .ok ((b.cq.readable r.host.kernel.memory).head?, ⟨some ring'⟩) h' ∧
    ring'.body? = some b' ∧
    b'.cq.readable h'.kernel.memory = (b.cq.readable r.host.kernel.memory).tail
  /-- Each entry pushed waits, or its completion was popped, or waits, or was refused. -/
  length_eq : r.pushed.length = (b.sq.len r.host.kernel.memory).toNat + r.popped.length +
    (b.cq.len r.host.kernel.memory).toNat + r.served.refused
  /-- The overflow word went up by the number refused. -/
  overflow_eq : b.cq.overflow r.host.kernel.memory = lost + UInt32.ofNat r.served.refused

/-- The record agrees with what the ring carries, and no thread is owed more than
its request covers. -/
structure Follows (r : SharedTrace Thread) (s : RingSite) (lost : UInt32) (ring : Ring)
    (b : RingBody) (published : List Entry) (kept waiting : List Completion) : Prop where
  shared_eq : r.shared = ⟨some ring⟩
  body_eq : ring.body? = some b
  noPoll : hasBits ring.setupFlags SetupFlag.sqPoll = false
  admits : r.host.kernel.admits b.fd = true
  script_eq : r.host.kernel.enterScript = []
  accept_eq : r.host.kernel.accept? = none
  carries : s.Carries b r.host.kernel published [] kept waiting
  pushed_eq : r.pushed = r.served.entries ++ published
  posted_eq : r.served.posted = r.popped ++ waiting
  overflow_eq : s.completion.word r.host.kernel.memory .overflow =
    lost + UInt32.ofNat r.served.refused
  owes : ∀ thread, (r.phase thread).Owes r.pushed r.served.length
  submitted_ok : ∀ f ∈ r.submitted, f.result = .ok (Int32.ofNat f.taken.length) ∧
    f.before <+: r.served.entries

/-- Some ring and contents agree with the record. -/
def Balanced (r : SharedTrace Thread) (s : RingSite) (lost : UInt32) : Prop :=
  ∃ ring b published kept waiting, r.Follows s lost ring b published kept waiting

variable {r : SharedTrace Thread} {s : RingSite} {lost : UInt32} {ring : Ring} {b : RingBody}
  {published : List Entry} {kept waiting : List Completion} {thread : Thread}

/-- A push comes last in the ring, or it fails and changes nothing. -/
theorem Follows.push (hs : s.Sound) (hr : r.Follows s lost ring b published kept waiting)
    (hphase : r.phase thread = .idle) (e : Entry) : (r.move ⟨thread, .push e⟩).Balanced s lost := by
  by_cases hroom : published.length < s.submission.entries.toNat
  · obtain ⟨q, m, hpush, hcarries, hoverflow⟩ :=
      SharedRing.push_ok hs hr.body_eq hr.carries hroom e
    rw [List.append_nil] at hcarries
    simp only [move, hphase, hr.shared_eq, hpush]
    refine ⟨ring.withSubmission q, { b with sq := q }, published ++ [e], kept, waiting, ?_⟩
    exact {
      hr with
      shared_eq := rfl
      body_eq := Ring.body_withSubmission hr.body_eq q
      carries := hcarries
      pushed_eq := by
        change r.pushed ++ [e] = r.served.entries ++ (published ++ [e])
        rw [hr.pushed_eq, List.append_assoc]
      overflow_eq := hoverflow.trans hr.overflow_eq
      owes := fun thread => (hr.owes thread).mono (List.prefix_append _ _) (Nat.le_refl _) }
  · have hpush := SharedRing.push_full hr.body_eq hr.carries (Nat.le_of_not_lt hroom) e
    simp only [move, hphase, hr.shared_eq, hpush]
    exact ⟨ring, b, published, kept, waiting, { hr with shared_eq := rfl }⟩

/-- A pop takes the oldest completion that waits. -/
theorem Follows.pop (hs : s.Sound) (hr : r.Follows s lost ring b published kept waiting)
    (hphase : r.phase thread = .idle) : (r.move ⟨thread, .pop⟩).Balanced s lost := by
  obtain ⟨q, m, hpop, hcarries, hoverflow⟩ := SharedRing.pop_ok hs hr.body_eq hr.carries
  simp only [move, hphase, hr.shared_eq, hpop]
  refine ⟨ring.withCompletion q, { b with cq := q }, published,
    if waiting = [] then kept else [], waiting.tail, ?_⟩
  exact {
    hr with
    shared_eq := rfl
    body_eq := Ring.body_withCompletion hr.body_eq q
    carries := hcarries
    posted_eq := by
      change r.served.posted = r.popped ++ waiting.head?.toList ++ waiting.tail
      rw [hr.posted_eq, List.append_assoc]
      cases waiting with
      | nil => rfl
      | cons c waiting => rfl
    overflow_eq := hoverflow.trans hr.overflow_eq }

/-- A thread that enters a phase with a covered request leaves the others as they are. -/
theorem owes_update {pushed : List Entry} {served : Nat}
    (howes : ∀ thread, (r.phase thread).Owes pushed served) {phase : Phase}
    (hphase : phase.Owes pushed served) (thread other : Thread) :
    (Function.update r.phase thread phase other).Owes pushed served := by
  by_cases heq : other = thread
  · subst heq
    rwa [Function.update_self]
  · rw [Function.update_of_ne heq]
    exact howes other

/-- A request that was just prepared counts all that waits, so it covers all that was
pushed. -/
theorem Follows.prepare (hs : s.Sound) (hr : r.Follows s lost ring b published kept waiting)
    (hphase : r.phase thread = .idle) (want : UInt32) :
    (r.move ⟨thread, .prepare want⟩).Balanced s lost := by
  obtain ⟨request, m, hprepare, hneeded, hcount, hcarries, hoverflow⟩ :=
    SharedRing.prepare_ok hs hr.body_eq hr.noPoll hr.carries want
  have hnew : (Phase.prepared request r.pushed).Owes r.pushed r.served.length := by
    refine ⟨List.prefix_refl _, ?_⟩
    rw [hr.pushed_eq, List.length_append, hcount, Served.length_entries]
  simp only [move, hphase, hr.shared_eq, hprepare, hneeded, if_true]
  refine ⟨ring, b, published, kept, waiting, ?_⟩
  exact {
    hr with
    carries := hcarries
    overflow_eq := hoverflow.trans hr.overflow_eq
    owes := owes_update hr.owes hnew thread }

/-- The call that is started asks for what the request counted. -/
theorem Follows.startEnter (hr : r.Follows s lost ring b published kept waiting)
    {request : EnterRequest} {before : List Entry}
    (hphase : r.phase thread = .prepared request before) :
    (r.move ⟨thread, .startEnter⟩).Balanced s lost := by
  obtain ⟨running, hstart, hcount⟩ := SharedRing.startEnter_ok hr.body_eq hr.admits request
  have hnew : (Phase.entering running before).Owes r.pushed r.served.length := by
    have howes := hr.owes thread
    rw [hphase] at howes
    rw [Phase.Owes, hcount]
    exact howes
  simp only [move, hphase, hr.shared_eq, hstart]
  refine ⟨ring, b, published, kept, waiting, ?_⟩
  exact {
    hr with
    owes := owes_update hr.owes hnew thread }

/-- The entries that a finished call took come behind those served before. -/
theorem served_finish (r : SharedTrace Thread) (f : Submitted Thread) (host : Host) :
    (r.finish f host).served = r.served ++ f.taken := by
  simp [served, finish, enterPhase]

/-- The kernel takes the oldest entries, so those that the request covered are taken
when the call returns. -/
theorem Follows.finishEnter (hs : s.Sound) (hr : r.Follows s lost ring b published kept waiting)
    {running : Sys.RunningEnter} {before : List Entry}
    (hphase : r.phase thread = .entering running before) :
    (r.move ⟨thread, .finishEnter⟩).Balanced s lost := by
  obtain ⟨host, m, hfinish, hkernel, htook⟩ :=
    SharedRing.finishEnter_ok hs hr.carries hr.script_eq hr.accept_eq running
  have howed : Owed before running.call.toSubmit r.pushed r.served.length := by
    have howes := hr.owes thread
    rwa [hphase] at howes
  have hentries := r.host.kernel.entries_postings (published.take running.call.toSubmit.toNat)
  simp only [move, hphase, hfinish, htook.passed_eq hs hr.carries]
  refine ⟨ring, b, published.drop running.call.toSubmit.toNat, kept,
    waiting ++ Served.posted (r.host.kernel.postings (published.take running.call.toSubmit.toNat)),
    ?_⟩
  constructor
  case shared_eq => exact hr.shared_eq
  case body_eq => exact hr.body_eq
  case noPoll => exact hr.noPoll
  case admits =>
    change host.kernel.admits b.fd = true
    rw [hkernel]
    exact hr.admits
  case script_eq =>
    change host.kernel.enterScript = []
    rw [hkernel]
    exact hr.script_eq
  case accept_eq =>
    change host.kernel.accept? = none
    rw [hkernel]
    exact hr.accept_eq
  case carries => exact htook.carries
  case pushed_eq =>
    rw [served_finish, Served.entries_append, hentries, List.append_assoc, List.take_append_drop]
    exact hr.pushed_eq
  case posted_eq =>
    rw [served_finish, Served.posted_append, hr.posted_eq, List.append_assoc]
    rfl
  case overflow_eq =>
    rw [served_finish, Served.refused_append, add_ofNat_add, ← hr.overflow_eq]
    exact htook.overflow_eq
  case owes =>
    -- This call only took more, so what the others were promised still holds.
    rw [served_finish]
    refine owes_update (fun other => (hr.owes other).mono (List.prefix_refl _) ?_) ?_ thread
    · rw [List.length_append]
      exact Nat.le_add_right _ _
    · trivial
  case submitted_ok =>
    intro f hf
    rw [served_finish, Served.entries_append, hentries]
    rcases List.mem_append.mp hf with hf | hf
    · obtain ⟨hresult, hbefore⟩ := hr.submitted_ok f hf
      exact ⟨hresult, hbefore.trans (List.prefix_append _ _)⟩
    · rw [List.mem_singleton.mp hf]
      refine ⟨by rw [Kernel.length_postings], Owed.prefix_take ?_⟩
      rwa [← hr.pushed_eq, Served.length_entries]

/-- A move keeps the record.  One that does not fit the phase of its thread does
nothing. -/
theorem Balanced.move (hs : s.Sound) (hr : r.Balanced s lost) (move : SharedMove Thread) :
    (r.move move).Balanced s lost := by
  obtain ⟨thread, action⟩ := move
  have hskip (heq : r.move ⟨thread, action⟩ = r) : (r.move ⟨thread, action⟩).Balanced s lost :=
    heq.symm ▸ hr
  obtain ⟨ring, b, published, kept, waiting, hr⟩ := hr
  cases action with
  | push e =>
    cases hphase : r.phase thread with
    | idle => exact hr.push hs hphase e
    | _ => exact hskip (by simp only [SharedTrace.move, hphase])
  | pop =>
    cases hphase : r.phase thread with
    | idle => exact hr.pop hs hphase
    | _ => exact hskip (by simp only [SharedTrace.move, hphase])
  | prepare want =>
    cases hphase : r.phase thread with
    | idle => exact hr.prepare hs hphase want
    | _ => exact hskip (by simp only [SharedTrace.move, hphase])
  | startEnter =>
    cases hphase : r.phase thread with
    | prepared request before => exact hr.startEnter hphase
    | _ => exact hskip (by simp only [SharedTrace.move, hphase])
  | finishEnter =>
    cases hphase : r.phase thread with
    | entering running before => exact hr.finishEnter hs hphase
    | _ => exact hskip (by simp only [SharedTrace.move, hphase])

/-- The balance holds after any interleaving of the threads. -/
theorem Balanced.run (hs : s.Sound) (hr : r.Balanced s lost) (moves : List (SharedMove Thread)) :
    (r.run moves).Balanced s lost :=
  List.foldlRecOn (motive := (Balanced · s lost)) moves _ hr fun _ hr move _ => hr.move hs move

omit [DecidableEq Thread] in
/-- What is seen of the ring agrees with the record. -/
theorem Follows.conserves (hs : s.Sound)
    (hr : r.Follows s lost ring b published kept waiting) : r.Conserves b lost := by
  obtain ⟨hwaiting, -, hreadable, hsqLen, hcqLen, hoverflow⟩ := hr.carries.seen hs
  constructor
  case pushed_eq => rw [hwaiting, hr.pushed_eq]
  case submitted_ok => exact hr.submitted_ok
  case posted_eq => rw [hreadable, hr.posted_eq]
  case pop_eq =>
    rw [hr.shared_eq]
    exact SharedRing.pop_readable hs hr.body_eq hr.carries
  case length_eq =>
    have hcount := congrArg List.length hr.pushed_eq
    have hfound := congrArg List.length hr.posted_eq
    have htotal := Served.length_eq r.served
    rw [hsqLen, hcqLen]
    simp only [List.length_append, List.length_nil, Served.length_entries] at hcount hfound ⊢
    omega
  case overflow_eq => exact hoverflow.trans hr.overflow_eq

end SharedTrace

namespace RingSite

variable {Thread : Type} [DecidableEq Thread] {s : RingSite} {ring : Ring} {shared : SharedRing}
  {h : Host}

/-- **Threads that share a ring lose and duplicate nothing.**  Open a ring without
a poll thread, share it, and let any threads move in any order.  Then the
entries taken and those waiting are the entries pushed, in the order of the
pushes.  Each submit that returned gave the number of entries that the kernel
took during its own enter call, and by then the kernel had taken all that had
been pushed when the submit was prepared.  The completions popped and those to
be read are those of the entries that found room, in order, and the next one
popped is the first of those to be read.  Each entry pushed waits, or its
completion was popped, or waits, or was refused and counted. -/
theorem interleaving_conserves (hopen : s.Opened ring h)
    (hshare : SharedRing.ofRing? (some ring) = .ok shared)
    (hpoll : hasBits ring.setupFlags SetupFlag.sqPoll = false)
    (haccept : h.kernel.accept? = none) (hscript : h.kernel.enterScript = [])
    (moves : List (SharedMove Thread)) :
    let r := SharedTrace.run { shared, host := h } moves
    ∃ ring b, r.shared.ring? = some ring ∧ ring.body? = some b ∧
      r.Conserves b (s.completion.word h.kernel.memory .overflow) := by
  intro r
  obtain ⟨b₀, hbody₀, hc₀, hadmits⟩ := Carries.ofOpened hopen
  have hshared : shared = ⟨some ring⟩ :=
    Except.ok.inj (hshare.symm.trans (SharedRing.ofRing?_open hbody₀))
  have hstart : ({ shared, host := h } : SharedTrace Thread).Follows s
      (s.completion.word h.kernel.memory .overflow) ring b₀ [] [] [] := {
    shared_eq := hshared
    body_eq := hbody₀
    noPoll := hpoll
    admits := hadmits
    script_eq := hscript
    accept_eq := haccept
    carries := hc₀
    pushed_eq := rfl
    posted_eq := rfl
    overflow_eq := by simp [SharedTrace.served, Served.refused]
    owes := fun _ => trivial
    submitted_ok := fun f hf => by cases hf }
  have hr : r.Balanced s (s.completion.word h.kernel.memory .overflow) :=
    SharedTrace.Balanced.run hopen.sound ⟨_, _, _, _, _, hstart⟩ moves
  obtain ⟨ring', b, published, kept, waiting, hr⟩ := hr
  exact ⟨ring', b, by rw [hr.shared_eq], hr.body_eq, hr.conserves hopen.sound⟩

/-- Two threads submit on the small ring.  Both prepare before either enters, so
the count of the second one to enter is stale. -/
def staleTrace : SharedTrace Bool :=
  SharedTrace.run { shared := ⟨some smallRing⟩, host := smallHost }
    [⟨true, .push (.make 0 0 7)⟩, ⟨true, .prepare 0⟩, ⟨false, .push (.make 0 0 8)⟩,
      ⟨false, .prepare 1⟩, ⟨false, .startEnter⟩, ⟨true, .startEnter⟩, ⟨false, .finishEnter⟩,
      ⟨true, .finishEnter⟩, ⟨false, .pop⟩]

/-- The first one to enter takes both entries, and the other one takes none. -/
theorem interleaving_conserves_small :
    small.Opened smallRing smallHost ∧
      SharedRing.ofRing? (some smallRing) = .ok ⟨some smallRing⟩ ∧
      hasBits smallRing.setupFlags SetupFlag.sqPoll = false ∧
      smallHost.kernel.accept? = none ∧ smallHost.kernel.enterScript = [] ∧
      (∃ ring b, staleTrace.shared.ring? = some ring ∧ ring.body? = some b ∧
        staleTrace.Conserves b (small.completion.word smallHost.kernel.memory .overflow)) ∧
      staleTrace.submitted.map (fun f => (f.thread, f.before, f.taken.entries, f.result)) =
        [(false, [.make 0 0 7, .make 0 0 8], [.make 0 0 7, .make 0 0 8], .ok 2),
          (true, [.make 0 0 7], [], .ok 0)] ∧
      staleTrace.popped = [⟨7, 0, 0⟩] := by
  have hpoll : hasBits smallRing.setupFlags SetupFlag.sqPoll = false := by decide
  have hrun : ∃ ring b, staleTrace.shared.ring? = some ring ∧ ring.body? = some b ∧
      staleTrace.Conserves b (small.completion.word smallHost.kernel.memory .overflow) := by
    rw [staleTrace]
    exact interleaving_conserves opened_small rfl hpoll rfl rfl _
  exact ⟨opened_small, rfl, hpoll, rfl, rfl, hrun, by decide +kernel, by decide +kernel⟩

end RingSite

end IoRing
