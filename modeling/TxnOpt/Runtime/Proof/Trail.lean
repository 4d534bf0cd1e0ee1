import TxnOpt.Runtime.Proof.Evaluation

/-!
# What a transaction leaves behind

`At job c txn trail store budget s` says where the transaction that was `PREPARED` at `c` stands in the
session `s`: `trail` holds the phases it has passed and the calls it has logged, and nothing but the cache
and the ledger has changed besides. Each lemma of this module moves it by one helper of the run loop.
-/

namespace TxnOpt

/-- The phases that a transaction passed after `PREPARED`, and the calls it made. -/
structure Trail (C State : Type) where
  path : List TxnPhase
  evals : List EvaluateCall
  commits : List (CommitCall C State)
  verified : List (Option (Nat × PyDict State) × Bool)
  audits : List AuditCall

namespace Trail

variable {C State : Type}

def empty : Trail C State := ⟨[], [], [], [], []⟩

def phase (trail : Trail C State) : TxnPhase := trail.path.getLast?.getD .prepared

def log (trail : Trail C State) : List (Observation C State) :=
  trail.evals.map .evaluate ++ trail.commits.map .commit ++
    trail.verified.map (fun seen => .verify seen.1 seen.2) ++ trail.audits.map .audit

def events (trail : Trail C State) (txn : CandidateTxn) : List SemanticEvent :=
  trail.path.map fun phase => .candidateTransaction (txn.atPhase phase) .plain

def pass (trail : Trail C State) (phase : TxnPhase) : Trail C State :=
  { trail with path := trail.path ++ [phase] }

def audited (trail : Trail C State) (audits : List AuditCall) : Trail C State :=
  { trail with audits := trail.audits ++ audits }

@[simp] theorem phase_empty : (empty : Trail C State).phase = .prepared := rfl

theorem phase_empty_open : (empty : Trail C State).phase ∉ TxnPhase.terminalPhases := by
  rw [phase_empty]
  decide

@[simp] theorem phase_pass (trail : Trail C State) (phase : TxnPhase) :
    (trail.pass phase).phase = phase := by simp [pass, Trail.phase]

@[simp] theorem phase_audited (trail : Trail C State) (audits : List AuditCall) :
    (trail.audited audits).phase = trail.phase := rfl

end Trail

section

variable {W C Cand State Obj : Type}

/-- The core `c` of a prepared transaction, once it has left `trail`. -/
def Core.along (c : Core C State Obj) (txn : CandidateTxn) (trail : Trail C State)
    (store : C × CacheTxn State) (budget : BudgetLedger) : Core C State Obj :=
  { c with
    cache := store.1
    cacheTxn := store.2
    budget
    transaction := some (txn.atPhase trail.phase)
    semanticEvents := c.semanticEvents ++ trail.events txn
    log := c.log ++ trail.log }

theorem Core.along_empty {c : Core C State Obj} {txn : CandidateTxn} (htxn : c.transaction = some txn)
    (hphase : txn.phase = .prepared) : c.along txn .empty c.store c.budget = c := by
  have htxn' : txn.atPhase .prepared = txn := by
    rw [← hphase]
    rfl
  cases c
  cases htxn
  simp [along, Trail.empty, Trail.events, Trail.log, Trail.phase, htxn', Core.store]

structure At (job : Job W C Cand State Obj) (c : Core C State Obj) (txn : CandidateTxn)
    (trail : Trail C State) (store : C × CacheTxn State) (budget : BudgetLedger)
    (s : Session W C Cand State Obj) : Prop where
  core : s.core = c.along txn trail store budget
  cacheRun : CacheRun job.runtime.cacheOps c.store trail.commits store

/-- The reason of a run's end says that the cache outcome is unknown when the transaction does. -/
def Reported (extra : PhaseExtra) (reason : String) : Prop :=
  reason = "cache_outcome_unknown" ↔ extra = .unknownOutcome

/-- The transaction reached the terminal phase `phase` from there, and the run was sealed. -/
structure Ended (job : Job W C Cand State Obj) (c : Core C State Obj) (txn : CandidateTxn)
    (trail : Trail C State) (store : C × CacheTxn State) (budget : BudgetLedger) (phase : TxnPhase)
    (extra : PhaseExtra) (reason : String) (t : Core C State Obj) : Prop where
  core : t = ((c.along txn trail store budget).advanced txn phase extra).sealed
    job.runtime.semanticEventSink reason
  cacheRun : CacheRun job.runtime.cacheOps c.store trail.commits store
  reported : Reported extra reason

variable {job : Job W C Cand State Obj} {c : Core C State Obj} {txn : CandidateTxn}
  {trail : Trail C State} {store : C × CacheTxn State} {budget : BudgetLedger}
  {s : Session W C Cand State Obj}

theorem At.transaction (h : At job c txn trail store budget s) :
    s.transaction = some (txn.atPhase trail.phase) := congrArg Core.transaction h.core

theorem At.budget_eq (h : At job c txn trail store budget s) : s.budget = budget :=
  congrArg Core.budget h.core

theorem At.store_eq (h : At job c txn trail store budget s) : s.core.store = store := by
  rw [h.core]
  rfl

theorem At.of_core {t : Session W C Cand State Obj} (h : At job c txn trail store budget s)
    (ht : t.core = s.core) : At job c txn trail store budget t :=
  ⟨ht.trans h.core, h.cacheRun⟩

theorem At.withCache {t : Session W C Cand State Obj} {store' : C × CacheTxn State}
    (h : At job c txn trail store budget s) (ht : t.core = s.core.withCache store')
    (hrun : CacheRun job.runtime.cacheOps store [] store') :
    At job c txn trail store' budget t := by
  refine ⟨?_, by simpa using h.cacheRun.trans hrun⟩
  rw [ht, h.core]
  rfl

theorem At.quiet {t : Session W C Cand State Obj} {store' : C × CacheTxn State}
    (h : At job c txn trail store budget s) (ht : t.core = s.core.withCache store')
    (hstep : QuietStep job.runtime.cacheOps store store') :
    At job c txn trail store' budget t :=
  h.withCache ht (CacheRun.refl.quiet hstep)

theorem At.withBudget {t : Session W C Cand State Obj} {budget' : BudgetLedger}
    (h : At job c txn trail store budget s) (ht : t.core = s.core.withBudget budget') :
    At job c txn trail store budget' t := by
  refine ⟨?_, h.cacheRun⟩
  rw [ht, h.core]
  rfl

theorem At.audited {t : Session W C Cand State Obj} {audits : List AuditCall}
    (h : At job c txn trail store budget s) (ht : t.core = s.core.logged (audits.map .audit)) :
    At job c txn (trail.audited audits) store budget t := by
  refine ⟨?_, h.cacheRun⟩
  rw [ht, h.core]
  simp [Core.logged, Core.along, Trail.audited, Trail.log, Trail.phase, Trail.events]

theorem At.advance (h : At job c txn trail store budget s) {phase : TxnPhase} (extra : PhaseExtra)
    (hphase : phase ∈ trail.phase.allowedTransitions) :
    Prog.wp (advance phase extra)
      (fun r t => r = .ok () ∧
        t.core = (c.along txn trail store budget).advanced txn phase extra) s := by
  refine Prog.wp_mono (advance_spec s extra h.transaction hphase) ?_
  rintro r t ⟨hr, ht⟩
  refine ⟨hr, ?_⟩
  rw [ht, h.core]
  rfl

/-- A phase event that adds nothing of its own. -/
theorem At.pass (h : At job c txn trail store budget s) {phase : TxnPhase}
    (hphase : phase ∈ trail.phase.allowedTransitions) :
    Prog.wp (TxnOpt.advance phase .plain)
      (fun r t => r = .ok () ∧ At job c txn (trail.pass phase) store budget t) s := by
  refine Prog.wp_mono (h.advance .plain hphase) ?_
  rintro r t ⟨hr, ht⟩
  refine ⟨hr, ?_, h.cacheRun⟩
  rw [ht]
  simp [Core.advanced, Core.along, Trail.pass, Trail.log, Trail.phase, Trail.events]

theorem At.rollbackOrRaise (h : At job c txn trail store budget s) :
    Prog.wp (rollbackOrRaise job)
      (fun r t => (∃ store', At job c txn trail store' budget t) ∧
        (r = .ok () ∨ r = .error (.cacheCommitError "cache rollback failed"))) s := by
  refine Prog.wp_mono (rollbackOrRaise_spec s job) ?_
  rintro r t ⟨store', ht, hrun, hr⟩
  rw [h.store_eq] at hrun
  exact ⟨⟨store', h.withCache ht hrun⟩, hr⟩

theorem At.rollbackPreservingError (h : At job c txn trail store budget s) :
    Prog.wp (rollbackPreservingError job)
      (fun r t => (∃ store', At job c txn trail store' budget t) ∧
        ∃ cleanup, r = .ok cleanup) s := by
  refine Prog.wp_mono (rollbackPreservingError_spec s job) ?_
  rintro r t ⟨store', ht, hrun, hr⟩
  rw [h.store_eq] at hrun
  exact ⟨⟨store', h.withCache ht hrun⟩, hr⟩

theorem At.releaseReserved (h : At job c txn trail store budget s) :
    Prog.wp releaseReserved
      (fun r t => r = .ok () ∧ At job c txn trail store budget.releaseReserved t) s := by
  refine ⟨rfl, h.withBudget ?_⟩
  rw [← h.budget_eq]
  rfl

/-- The ways a run loop's last value relates to the core it was read from. -/
def Finished (job : Job W C Cand State Obj) (t : Core C State Obj) (reason : String)
    (r : Except PyExc (RunResult State Obj)) : Prop :=
  ∀ value, r = .ok value → IsResult job t reason value

/-- Advance to a terminal phase and return the result. -/
theorem At.finish (h : At job c txn trail store budget s) {phase : TxnPhase} (extra : PhaseExtra)
    (reason : String) (hreported : Reported extra reason)
    (hphase : phase ∈ trail.phase.allowedTransitions) :
    Prog.wp (TxnOpt.advance phase extra >>= fun _ => result job reason)
      (fun r t => Ended job c txn trail store budget phase extra reason t.core ∧
        Finished job t.core reason r) s := by
  refine Prog.wp_bind_of (h.advance extra hphase) ?_ (by rintro e t ⟨⟨⟩, -⟩)
  rintro - t ⟨-, ht⟩
  refine Prog.wp_mono (result_spec t job reason) ?_
  rintro r u ⟨hu, hvalue⟩
  refine ⟨⟨by rw [hu, ht], h.cacheRun, hreported⟩, ?_⟩
  intro value hr
  rw [hu]
  exact hvalue value hr

/-- Advance to a terminal phase, seal the run, and raise. -/
theorem At.fail (h : At job c txn trail store budget s) {α : Type} {phase : TxnPhase}
    (extra : PhaseExtra) (reason : String) (error : PyExc) (hreported : Reported extra reason)
    (hphase : phase ∈ trail.phase.allowedTransitions) :
    Prog.wp (TxnOpt.advance phase extra >>= fun _ => emitFailedRun job reason >>= fun _ =>
        (Prog.raise error : RunM W C Cand State Obj α))
      (fun r t => Ended job c txn trail store budget phase extra reason t.core ∧
        ∃ raised, r = .error raised) s := by
  refine Prog.wp_bind_of (h.advance extra hphase) ?_ (by rintro e t ⟨⟨⟩, -⟩)
  rintro - t ⟨-, ht⟩
  refine Prog.wp_bind_of (emitFailedRun_spec t job reason) ?_ ?_
  · intro _ u hu
    rw [Prog.wp_raise]
    exact ⟨⟨by rw [hu, ht], h.cacheRun, hreported⟩, error, rfl⟩
  · intro e u hu
    exact ⟨⟨by rw [hu, ht], h.cacheRun, hreported⟩, e, rfl⟩

theorem reported_of_ne {extra : PhaseExtra} {reason : String}
    (hreason : reason ≠ "cache_outcome_unknown") (hextra : extra ≠ .unknownOutcome) :
    Reported extra reason :=
  ⟨fun h => absurd h hreason, fun h => absurd h hextra⟩

theorem exceptionReason_ne (error : PyExc) : exceptionReason error ≠ "cache_outcome_unknown" := by
  unfold exceptionReason
  split <;> decide

theorem At.abortAndRaise (h : At job c txn trail store budget s) {α : Type} (error : PyExc)
    (hphase : .aborted ∈ trail.phase.allowedTransitions) :
    Prog.wp (abortAndRaise job error : RunM W C Cand State Obj α)
      (fun r t => Ended job c txn trail store budget .aborted .plain (exceptionReason error)
          t.core ∧ ∃ raised, r = .error raised) s :=
  h.fail .plain _ error (reported_of_ne (exceptionReason_ne error) (by rintro ⟨⟩)) hphase

end

end TxnOpt
