import TxnOpt.Runtime.Run

/-!
# What each helper of the run loop does

`Session.core` is a session without the outside world, the physical stream and the executor. The
lemmas of this module say, helper by helper, how a program of the run loop changes it; the later
modules never unfold these helpers again.
-/

namespace TxnOpt

/-- The part of a session that the theorems about runs speak of. -/
structure Core (C State Obj : Type) where
  cache : C
  cacheTxn : CacheTxn State
  randomTape : RandomTape
  budget : BudgetLedger
  state : State
  stateDigest : String
  objective : Obj
  transaction : Option CandidateTxn
  semanticEvents : List SemanticEvent
  semanticStreams : List (List SemanticEvent)
  log : List (Observation C State)

def Session.core {W C Cand State Obj : Type} (s : Session W C Cand State Obj) : Core C State Obj :=
  ⟨s.cache, s.cacheTxn, s.randomTape, s.budget, s.state, s.stateDigest, s.objective, s.transaction,
    s.semanticEvents, s.semanticStreams, s.log⟩

namespace Core

variable {C State Obj : Type}

def logged (c : Core C State Obj) (observations : List (Observation C State)) : Core C State Obj :=
  { c with log := c.log ++ observations }

def recorded (c : Core C State Obj) (event : SemanticEvent) : Core C State Obj :=
  { c with semanticEvents := c.semanticEvents ++ [event] }

/-- The transaction moves to a phase, and the phase event is recorded. -/
def advanced (c : Core C State Obj) (txn : CandidateTxn) (phase : TxnPhase) (extra : PhaseExtra) :
    Core C State Obj :=
  { c with
    transaction := some (txn.atPhase phase)
    semanticEvents := c.semanticEvents ++ [.candidateTransaction (txn.atPhase phase) extra] }

/-- The sink, if there is one, receives the events so far, closed by `run_terminated`. -/
def sealed (c : Core C State Obj) (sink : Bool) (reason : String) : Core C State Obj :=
  { c with
    semanticStreams := c.semanticStreams ++
      if sink then [c.semanticEvents ++ [.runTerminated reason]] else [] }

def withCache (c : Core C State Obj) (store : C × CacheTxn State) : Core C State Obj :=
  { c with cache := store.1, cacheTxn := store.2 }

def withBudget (c : Core C State Obj) (budget : BudgetLedger) : Core C State Obj :=
  { c with budget }

def installed (c : Core C State Obj) (decision : Decision State Obj) : Core C State Obj :=
  { c with
    state := decision.nextState
    stateDigest := decision.nextDigest
    objective := decision.nextObjective }

def store (c : Core C State Obj) : C × CacheTxn State := (c.cache, c.cacheTxn)

@[simp] theorem logged_nil (c : Core C State Obj) : c.logged [] = c := by simp [logged]

@[simp] theorem logged_logged (c : Core C State Obj) (first second : List (Observation C State)) :
    (c.logged first).logged second = c.logged (first ++ second) := by simp [logged]

@[simp] theorem withCache_store (c : Core C State Obj) : c.withCache c.store = c := rfl

@[simp] theorem store_withCache (c : Core C State Obj) (store : C × CacheTxn State) :
    (c.withCache store).store = store := rfl

end Core

section

variable {W C Cand State Obj α : Type}

/-- Some call of a method, at some point of the outside world, ended with `outcome`. -/
def Called (call : Prog W PyExc α) (outcome : Except PyExc α) : Prop :=
  ∃ w w', call w = (outcome, w')

/-- A call of a store method at some point of the outside world. -/
def CacheCalled (call : Prog (CacheContext C W State) PyExc α) (before : C × CacheTxn State)
    (outcome : Except PyExc α) (after : C × CacheTxn State) : Prop :=
  ∃ w w', call ⟨before.1, w, before.2⟩ = (outcome, ⟨after.1, w', after.2⟩)

/-- A step of the store other than a commit. -/
inductive QuietStep (ops : CacheOps C W State) : C × CacheTxn State → C × CacheTxn State → Prop
  | begun {cache cache' : C} {txn txn' : CacheTxn State} {w w' : W} {outcome} :
      ops.begin (cache, w) = (outcome, (cache', w')) →
      QuietStep ops (cache, txn) (cache', txn')
  | looked {keys : List String} {before after : C × CacheTxn State} {outcome} :
      CacheCalled (ops.lookup keys) before outcome after → QuietStep ops before after
  | stagedEntries {entries : PyDict State} {before after : C × CacheTxn State} {outcome} :
      CacheCalled (ops.stage entries) before outcome after → QuietStep ops before after
  | rolledBack {before after : C × CacheTxn State} {outcome} :
      CacheCalled ops.rollback before outcome after → QuietStep ops before after
  | snapshotTaken {before after : C × CacheTxn State} {outcome} :
      CacheCalled ops.snapshot before outcome after → QuietStep ops before after
  | closed {cache : C} {txn : CacheTxn State} : QuietStep ops (cache, txn) (cache, txn.close)

/-- The store and its transaction over a stretch of a run, with the commits made on the way. -/
inductive CacheRun (ops : CacheOps C W State) (start : C × CacheTxn State) :
    List (CommitCall C State) → C × CacheTxn State → Prop
  | refl : CacheRun ops start [] start
  | quiet {commits middle after} :
      CacheRun ops start commits middle → QuietStep ops middle after →
      CacheRun ops start commits after
  | commit {commits middle after outcome staged} :
      CacheRun ops start commits middle → CacheCalled ops.commit middle outcome after →
      CacheRun ops start
        (commits ++ [⟨middle.1, after.1, middle.2.expectedGeneration, staged, outcome.isOk⟩]) after

theorem CacheRun.trans {ops : CacheOps C W State} {first middle last : C × CacheTxn State}
    {commits commits' : List (CommitCall C State)} (h : CacheRun ops first commits middle)
    (h' : CacheRun ops middle commits' last) : CacheRun ops first (commits ++ commits') last := by
  induction h' with
  | refl => simpa using h
  | quiet _ hstep ih => exact .quiet ih hstep
  | commit _ hcall ih =>
      rw [← List.append_assoc]
      exact .commit ih hcall

/-! ### Primitives -/

variable (s : Session W C Cand State Obj)

theorem onWorld_spec (call : Prog W PyExc α) :
    Prog.wp (onWorld call)
      (fun r (t : Session W C Cand State Obj) => t.core = s.core ∧ Called call r) s :=
  ⟨rfl, s.world, (call s.world).2, rfl⟩

theorem onCache_spec (call : Prog (CacheContext C W State) PyExc α) :
    Prog.wp (onCache call)
      (fun r (t : Session W C Cand State Obj) => ∃ store,
        t.core = s.core.withCache store ∧ CacheCalled call s.core.store r store) s :=
  ⟨((call s.cacheContext).2.store, (call s.cacheContext).2.txn), rfl, s.world,
    (call s.cacheContext).2.world, rfl⟩

theorem readClock_spec (clock : W → Int × W) :
    Prog.wp (readClock clock)
      (fun r (t : Session W C Cand State Obj) => t.core = s.core ∧ ∃ now, r = .ok now) s :=
  ⟨rfl, _, rfl⟩

theorem advance_spec {txn : CandidateTxn} {phase : TxnPhase} (extra : PhaseExtra)
    (htxn : s.transaction = some txn) (hphase : phase ∈ txn.phase.allowedTransitions) :
    Prog.wp (advance phase extra)
      (fun r (t : Session W C Cand State Obj) =>
        r = .ok () ∧ t.core = s.core.advanced txn phase extra) s := by
  refine Prog.wp_of_eq (t := { s with
    transaction := some (txn.atPhase phase)
    semanticEvents := s.semanticEvents ++ [.candidateTransaction (txn.atPhase phase) extra] })
    ?_ ⟨rfl, rfl⟩
  simp only [advance, htxn, CandidateTxn.transition_eq_ok hphase]

variable (job : Job W C Cand State Obj)

theorem deadlineReached_spec (deadlineNs : Option Int) :
    Prog.wp (deadlineReached job deadlineNs)
      (fun r t => t.core = s.core ∧ ∃ expired, r = .ok expired ∧
        (expired = true → deadlineNs ≠ none)) s := by
  cases deadlineNs with
  | none => exact ⟨rfl, false, rfl, by simp⟩
  | some deadline => exact ⟨rfl, _, rfl, by simp⟩

/-! ### Sealing -/

/-- The result that the run loop builds from its current state. -/
def IsResult (c : Core C State Obj) (reason : String) (value : RunResult State Obj) : Prop :=
  ∃ physicalRef, value = ⟨c.state, c.objective, reason,
    job.runtime.sha256 ((c.semanticEvents ++ [SemanticEvent.runTerminated reason]).map
      SemanticEvent.toDict),
    physicalRef⟩

theorem emitSemanticTrace_spec (reason : String) :
    Prog.wp (emitSemanticTrace job reason)
      (fun r t => r = .ok (s.semanticEvents ++ [.runTerminated reason]) ∧
        t.core = s.core.sealed job.runtime.semanticEventSink reason) s := by
  refine ⟨rfl, ?_⟩
  unfold emitSemanticTrace
  cases job.runtime.semanticEventSink <;> simp [Session.core, Core.sealed]

theorem emitPhysicalTrace_spec (reason : String) :
    Prog.wp (emitPhysicalTrace job reason) (fun _ t => t.core = s.core) s := by
  unfold emitPhysicalTrace
  refine Prog.wp_ite (fun _ => ?_) (fun _ => rfl)
  rw [Prog.wp_read_bind]
  split
  · refine Prog.wp_bind_of (onWorld_spec s _) ?_ (fun _ _ h => h.1)
    rintro statistics t ⟨ht, -⟩
    refine Prog.wp_bind_of (readClock_spec t _) ?_ (fun _ _ h => h.1.trans ht)
    rintro endedNs u ⟨hu, -⟩
    exact hu.trans ht
  · rfl

theorem result_spec (reason : String) :
    Prog.wp (result job reason)
      (fun r t => t.core = s.core.sealed job.runtime.semanticEventSink reason ∧
        ∀ value, r = .ok value → IsResult job s.core reason value) s := by
  unfold result
  refine Prog.wp_bind_of (emitSemanticTrace_spec s job reason) ?_ (by rintro e t ⟨⟨⟩, -⟩)
  rintro events t ⟨⟨⟩, ht⟩
  refine Prog.wp_bind_of (emitPhysicalTrace_spec t job reason) ?_ ?_
  · intro physicalRef u hu
    rw [ht] at hu
    refine ⟨hu, ?_⟩
    rintro _ ⟨⟩
    have hstate : u.state = s.state := congrArg Core.state hu
    have hobjective : u.objective = s.objective := congrArg Core.objective hu
    refine ⟨physicalRef, ?_⟩
    dsimp only
    rw [hstate, hobjective]
    rfl
  · intro e u hu
    exact ⟨hu.trans ht, by rintro _ ⟨⟩⟩

theorem emitFailedRun_spec (reason : String) :
    Prog.wp (emitFailedRun job reason)
      (fun _ t => t.core = s.core.sealed job.runtime.semanticEventSink reason) s := by
  unfold emitFailedRun
  refine Prog.wp_bind_of (emitSemanticTrace_spec s job reason) ?_ (by rintro e t ⟨⟨⟩, -⟩)
  rintro events t ⟨-, ht⟩
  refine Prog.wp_bind_of (emitPhysicalTrace_spec t job reason) ?_ ?_
  · intro _ u hu
    exact hu.trans ht
  · intro _ u hu
    exact hu.trans ht

/-! ### Cleaning up -/

theorem rollbackOrRaise_spec :
    Prog.wp (rollbackOrRaise job)
      (fun r t => ∃ store, t.core = s.core.withCache store ∧
        CacheRun job.runtime.cacheOps s.core.store [] store ∧
        (r = .ok () ∨ r = .error (.cacheCommitError "cache rollback failed"))) s := by
  refine Prog.wp_mono (onCache_spec s _) ?_
  rintro r t ⟨⟨cache, txn⟩, ht, w, w', hcall⟩
  refine ⟨(cache, txn), ht, ?_⟩
  dsimp only at hcall
  rcases hrollback : job.runtime.cacheOps.rollback ⟨s.core.store.1, w, s.core.store.2⟩ with
    ⟨_ | _, cache', world', txn'⟩
  · rw [hrollback] at hcall
    obtain ⟨rfl, hafter⟩ := Prod.mk.inj hcall
    obtain ⟨rfl, -, rfl⟩ := CacheContext.mk.inj hafter
    have hstep : QuietStep job.runtime.cacheOps s.core.store (cache', txn') :=
      .rolledBack ⟨w, world', hrollback⟩
    exact ⟨(CacheRun.refl.quiet hstep).quiet .closed, .inr rfl⟩
  · rw [hrollback] at hcall
    obtain ⟨rfl, hafter⟩ := Prod.mk.inj hcall
    obtain ⟨rfl, -, rfl⟩ := CacheContext.mk.inj hafter
    exact ⟨CacheRun.refl.quiet (.rolledBack ⟨w, world', hrollback⟩), .inl rfl⟩

theorem rollbackPreservingError_spec :
    Prog.wp (rollbackPreservingError job)
      (fun r t => ∃ store, t.core = s.core.withCache store ∧
        CacheRun job.runtime.cacheOps s.core.store [] store ∧ ∃ cleanup, r = .ok cleanup) s := by
  refine Prog.wp_attempt_bind (rollbackOrRaise_spec s job) ?_
  rintro (e | _) t ⟨store, ht, hrun, -⟩
  · exact ⟨store, ht, hrun, some e, rfl⟩
  · exact ⟨store, ht, hrun, none, rfl⟩

/-! ### Waste audits -/

/-- What `_record_waste_audit` raises on these arguments, if anything. -/
def auditRefusal (remaining : Option Int) (workUnits : List Nat) (discarded post : Int)
    (capacity : Nat) : Option PyExc :=
  match remaining, workUnits with
  | some remaining, _ :: _ =>
      match auditWaste remaining workUnits.length (workUnits.foldl max 0) capacity discarded post with
      | .ok _ => none
      | .error error => some error
  | _, _ => none

/-- The audit that it logs: none without a work limit or without work. -/
def loggedAudits (remaining : Option Int) (workUnits : List Nat) (discarded post : Int)
    (capacity : Nat) : List AuditCall :=
  match remaining, workUnits with
  | some value, _ :: _ =>
      [⟨value, workUnits, capacity, discarded, post,
        auditRefusal remaining workUnits discarded post capacity⟩]
  | _, _ => []

/-- A program that raises the given error, if there is one. -/
def endingWith : Option PyExc → Except PyExc Unit
  | none => .ok ()
  | some error => .error error

theorem eq_none_of_endingWith {refusal : Option PyExc} {u : Unit}
    (h : Except.ok u = endingWith refusal) : refusal = none := by
  cases refusal with
  | none => rfl
  | some error => cases h

theorem recordWasteAudit_spec (reason : String) (remaining : Option Int) (workUnits : List Nat)
    (discarded post : Int) (capacity : Nat) :
    Prog.wp (recordWasteAudit reason remaining workUnits discarded post capacity)
      (fun r (t : Session W C Cand State Obj) =>
        t.core = s.core.logged ((loggedAudits remaining workUnits discarded post capacity).map
          .audit) ∧
        r = endingWith (auditRefusal remaining workUnits discarded post capacity)) s := by
  rcases remaining with _ | remaining
  · exact ⟨(Core.logged_nil _).symm, rfl⟩
  rcases workUnits with _ | ⟨first, rest⟩
  · exact ⟨(Core.logged_nil _).symm, rfl⟩
  have hmax : (first :: rest).foldl max 0 = rest.foldl max first := by simp
  unfold recordWasteAudit
  dsimp only
  split
  case h_1 error haudit =>
    have hrefusal : auditRefusal (some remaining) (first :: rest) discarded post capacity =
        some error := by
      simp only [auditRefusal, hmax, List.length_cons, haudit]
    rw [loggedAudits, hrefusal]
    exact ⟨rfl, rfl⟩
  case h_2 audit haudit =>
    have hrefusal : auditRefusal (some remaining) (first :: rest) discarded post capacity =
        none := by
      simp only [auditRefusal, hmax, List.length_cons, haudit]
    rw [loggedAudits, hrefusal]
    exact ⟨rfl, rfl⟩

theorem error_of_mem_loggedAudits {remaining : Option Int} {workUnits : List Nat}
    {discarded post : Int} {capacity : Nat} {call : AuditCall}
    (h : call ∈ loggedAudits remaining workUnits discarded post capacity) :
    call.error = auditRefusal remaining workUnits discarded post capacity := by
  unfold loggedAudits at h
  split at h
  · rw [List.mem_singleton] at h
    rw [h]
  · cases h

theorem capacity_of_mem_loggedAudits {remaining : Option Int} {workUnits : List Nat}
    {discarded post : Int} {capacity : Nat} {call : AuditCall}
    (h : call ∈ loggedAudits remaining workUnits discarded post capacity) :
    call.postBoundaryCapacityUnits = capacity := by
  unfold loggedAudits at h
  split at h
  · rw [List.mem_singleton] at h
    rw [h]
  · cases h

/-- An audit that raises is logged. -/
theorem exists_mem_loggedAudits {remaining : Option Int} {workUnits : List Nat}
    {discarded post : Int} {capacity : Nat} {error : PyExc}
    (h : auditRefusal remaining workUnits discarded post capacity = some error) :
    ∃ call ∈ loggedAudits remaining workUnits discarded post capacity, call.error = some error := by
  rcases remaining with _ | remaining
  · cases h
  rcases workUnits with _ | ⟨first, rest⟩
  · cases h
  exact ⟨_, List.mem_singleton_self _, h⟩

end

end TxnOpt
