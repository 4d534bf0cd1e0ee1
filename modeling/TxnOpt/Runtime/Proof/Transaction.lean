import TxnOpt.Runtime.Proof.Preparation

/-!
# The transaction body

Every end of the part of a round under the outer `try`. `Stopped` covers the ends that stop the run and
`Published` the one that goes on; `Worked` bounds, for all of them, the oracle calls, the ledger and the
waste audits.
-/

namespace TxnOpt

/-- The ledger after a round that started `work` and has nothing reserved. -/
def BudgetLedger.spent (ledger : BudgetLedger) (work : Nat) : BudgetLedger :=
  ⟨ledger.limit, 0, ledger.started + work⟩

theorem BudgetLedger.moved_reserving {ledger : BudgetLedger} (h : ledger.reserved = 0)
    (work : Nat) : (ledger.reserving work).moved work = ledger.spent work := by
  simp [reserving, moved, spent, h]

theorem BudgetLedger.release_moved (ledger : BudgetLedger) (total work : Nat) :
    ((ledger.reserving total).moved work).releaseReserved = ledger.spent work := rfl

@[simp] theorem BudgetLedger.releaseReserved_spent (ledger : BudgetLedger) (work : Nat) :
    (ledger.spent work).releaseReserved = ledger.spent work := rfl

section

variable {W C Cand State Obj : Type} [DecidableEq State]

/-- What a transaction has done to the ledger once its evaluation is over: `work` is started. -/
structure Worked (c : Core C State Obj) (prepared : Prepared Cand State) (work : Nat)
    (trail : Trail C State) : Prop where
  work_le : work ≤ prepared.missingWork.sum
  keys : (trail.evals.flatMap EvaluateCall.keys).Subperm
    (prepared.missing.map fun item => item.2.1)
  ledgers : ∀ call ∈ trail.evals, ∃ moved, moved ≤ prepared.missingWork.sum ∧ ∃ released,
    call.ledger = (c.budget.reserving prepared.missingWork.sum).after released moved
  covered : ∀ first call rest, trail.evals = first ++ call :: rest →
    (∀ earlier ∈ first ++ [call], earlier.counted = true) →
    c.budget.started + handedWork (first ++ [call]) ≤ call.ledger.started
  handed : handedWork trail.evals ≤ work
  audits : ∀ call ∈ trail.audits, ∃ post capacity : Nat, post ≤ capacity ∧
    post ≤ prepared.missingWork.sum ∧
    call ∈ loggedAudits c.budget.remaining prepared.missingWork work post capacity

/-- The entries that the round stages, from the values that its evaluation gathered. -/
def Staged (job : Job W C Cand State Obj) (deadlineNs : Option Int)
    (prepared : Prepared Cand State) (staged : PyDict State) : Prop :=
  (prepared.missing = [] ∧ staged = ∅) ∨
    ∃ evaluated, Gathered (Answers job deadlineNs fun _ => True)
        (prepared.missing.map fun item => item.2.2) (.ok evaluated) ∧
      evaluated.length = prepared.missing.length ∧ staged = stagedOf prepared.missing evaluated

/-- The decision that the round publishes, over its resolved states. -/
structure Decided (job : Job W C Cand State Obj) (roundId : Nat) (c : Core C State Obj)
    (prepared : Prepared Cand State) (staged : PyDict State) (decision : Decision State Obj) :
    Prop where
  resolved : ∃ resolved, resolveValues prepared.values prepared.missing staged =
      resolved.map some ∧
    Called (validateResolved job.oracle resolved) (.ok ()) ∧
    Called (job.kernel.decide c.state prepared.admitted resolved roundId)
      (.ok decision.nextState) ∧
    ∃ digests, Called (Prog.collect (validatedStateDigest job.oracle) resolved) (.ok digests) ∧
      decision.nextDigest ∈ c.stateDigest :: digests
  validated : Called (job.oracle.validate decision.nextState) (.ok ())
  digest : Called (validatedStateDigest job.oracle decision.nextState) (.ok decision.nextDigest)
  objective : Called (job.oracle.objective decision.nextState) (.ok decision.nextObjective)

/-- The commit of a round, from the store after its lookup to the store after the verification, which
found the staged entries in `snapshot`. -/
structure Confirmed (job : Job W C Cand State Obj) (staged : PyDict State)
    (looked stagedStore committed store : C × CacheTxn State) (snapshot : Nat × PyDict State) :
    Prop where
  stage : CacheCalled (job.runtime.cacheOps.stage staged) looked (.ok ()) stagedStore
  commit : ∃ rawReceipt,
    CacheCalled job.runtime.cacheOps.commit stagedStore (.ok rawReceipt) committed
  verify : CacheCalled job.runtime.cacheOps.snapshot committed (.ok snapshot) store
  found : snapshotMatches (committed.2.expectedGeneration + 1) staged snapshot = true

/-- The receipt that a confirmed commit is given. -/
def confirmedReceipt (committed : C × CacheTxn State) (staged : PyDict State) :
    CacheCommitReceipt :=
  ⟨committed.2.expectedGeneration, committed.2.expectedGeneration + 1, staged.size⟩

/-- The call that a commit which returned leaves in the log. -/
def confirmedCall (stagedStore committed : C × CacheTxn State) (staged : PyDict State) :
    CommitCall C State :=
  ⟨stagedStore.1, committed.1, stagedStore.2.expectedGeneration, staged, true⟩

/-- Everything that a round which publishes has been through. -/
structure Published (job : Job W C Cand State Obj) (deadlineNs : Option Int) (roundId : Nat)
    (admission : Admission Cand) (c : Core C State Obj) (prepared : Prepared Cand State)
    (trail : Trail C State) (decision : Decision State Obj) (staged : PyDict State)
    (committed store : C × CacheTxn State) : Prop where
  round : ∃ looked stagedStore snapshot closed evals,
    Reserved job admission c prepared looked ∧
    Confirmed job staged looked stagedStore committed store snapshot ∧
    trail = ⟨[.reserved, .evaluating, .validated], evals,
      [confirmedCall stagedStore committed staged], [(some snapshot, closed)], []⟩
  gathered : Staged job deadlineNs prepared staged
  decided : Decided job roundId c prepared staged decision
  worked : Worked c prepared prepared.missingWork.sum trail

/-- A commit returned, and a snapshot taken after it (`none` if it raised) does not show the staged
entries. -/
def Unverified (job : Job W C Cand State Obj) (call : CommitCall C State)
    (seen : Option (Nat × PyDict State)) : Prop :=
  ∃ staged stagedStore committed, call = confirmedCall stagedStore committed staged ∧
    (∃ rawReceipt,
      CacheCalled job.runtime.cacheOps.commit stagedStore (.ok rawReceipt) committed) ∧
    ∀ snapshot, seen = some snapshot →
      (∃ store, CacheCalled job.runtime.cacheOps.snapshot committed (.ok snapshot) store) ∧
      snapshotMatches (committed.2.expectedGeneration + 1) staged snapshot = false

/-- How far the commit of a transaction that is closed as `ABORTED` or `INTERRUPTED` has got: it was not
tried, it raised, or it returned with its transaction open and could not be verified. -/
inductive Unconfirmed (job : Job W C Cand State Obj) :
    List (CommitCall C State) → List (Option (Nat × PyDict State) × Bool) → Prop
  | untried : Unconfirmed job [] []
  | raised {call} : call.returned = false → Unconfirmed job [call] []
  | unverified {call seen} : Unverified job call seen → Unconfirmed job [call] [(seen, false)]

/-- The commit of a transaction whose outcome stays unknown: it closed its transaction and could not be
verified. -/
def OutcomeUnknown (job : Job W C Cand State Obj) (trail : Trail C State) : Prop :=
  ∃ call seen, Unverified job call seen ∧ trail.commits = [call] ∧ trail.verified = [(seen, true)]

def TrailPath (path : List TxnPhase) : Prop :=
  path = [.reserved, .evaluating] ∨ path = [.reserved, .evaluating, .validated]

/-- The ends of the transaction body that stop the run. A `failed` one left its transaction open: the
outer handler closes it. -/
inductive Stopped (job : Job W C Cand State Obj) (deadlineNs : Option Int) (roundId : Nat)
    (admission : Admission Cand) (c : Core C State Obj) (txn : CandidateTxn)
    (prepared : Prepared Cand State) (t : Session W C Cand State Obj) :
    Except PyExc (RunResult State Obj) → Prop
  | closed {trail store work phase reason outcome} :
      Worked c prepared work trail → TrailPath trail.path →
      Unconfirmed job trail.commits trail.verified → (∀ call ∈ trail.audits, call.error = none) →
      (phase = .aborted ∨ phase = .interrupted) →
      Ended job c txn trail store (c.budget.spent work) phase .plain reason t.core →
      Finished job t.core reason outcome →
      Stopped job deadlineNs roundId admission c txn prepared t outcome
  | unknown {trail store raised} :
      Worked c prepared prepared.missingWork.sum trail → TrailPath trail.path →
      OutcomeUnknown job trail → (∀ call ∈ trail.audits, call.error = none) →
      Ended job c txn trail store (c.budget.spent prepared.missingWork.sum) .interrupted
        .unknownOutcome "cache_outcome_unknown" t.core →
      Stopped job deadlineNs roundId admission c txn prepared t (.error raised)
  | reconstructed {trail decision staged committed store status raised} :
      Published job deadlineNs roundId admission c prepared trail decision staged committed store →
      CacheRun job.runtime.cacheOps c.store trail.commits (store.1, store.2.close) →
      t.core = (((c.along txn trail (store.1, store.2.close)
          (c.budget.spent prepared.missingWork.sum)).installed decision).advanced txn .committed
            (.published (publicationOf decision (c.budget.started + prepared.missingWork.sum)
              (confirmedReceipt committed staged) (some status)))).sealed
            job.runtime.semanticEventSink "runtime_contract_error" →
      Stopped job deadlineNs roundId admission c txn prepared t (.error raised)
  | failed {trail store work error} :
      Worked c prepared work trail → TrailPath trail.path →
      (Unconfirmed job trail.commits trail.verified ∨
        OutcomeUnknown job trail ∧
          auditRefusal c.budget.remaining prepared.missingWork work 0 0 ≠ none) →
      At job c txn trail store (c.budget.spent work) t →
      Stopped job deadlineNs roundId admission c txn prepared t (.error error)

variable {job : Job W C Cand State Obj} {deadlineNs : Option Int} {roundId : Nat}
  {admission : Admission Cand} {c : Core C State Obj} {txn : CandidateTxn}
  {prepared : Prepared Cand State} {store : C × CacheTxn State} {s : Session W C Cand State Obj}

omit [DecidableEq State] in
theorem At.evaluated {path : List TxnPhase} {budget : BudgetLedger} {calls : List EvaluateCall}
    {t : Session W C Cand State Obj} (h : At job c txn ⟨path, [], [], [], []⟩ store budget s)
    (ht : t.core = (s.core.withBudget t.budget).logged (calls.map .evaluate)) :
    At job c txn ⟨path, calls, [], [], []⟩ store t.budget t := by
  refine ⟨?_, h.cacheRun⟩
  rw [ht, h.core]
  simp [Core.logged, Core.withBudget, Core.along, Trail.log, Trail.phase, Trail.events]

omit [DecidableEq State] in
theorem Worked.audited {trail : Trail C State} {work post capacity : Nat}
    (h : Worked c prepared work trail) (hcapacity : post ≤ capacity)
    (hpost : post ≤ prepared.missingWork.sum) :
    Worked c prepared work
      (trail.audited (loggedAudits c.budget.remaining prepared.missingWork work post capacity)) :=
  { h with
    audits := fun call hcall => by
      rcases List.mem_append.mp hcall with hcall | hcall
      · exact h.audits call hcall
      · exact ⟨post, capacity, hcapacity, hpost, hcall⟩ }

omit [DecidableEq State] in
theorem auditRound_spec {trail : Trail C State} {work post capacity : Nat} {looked}
    (h : At job c txn trail store (c.budget.spent work) s)
    (hprepared : Reserved job admission c prepared looked) (reason : String) :
    Prog.wp (auditRound prepared reason post capacity)
      (fun r t => At job c txn
          (trail.audited (loggedAudits c.budget.remaining prepared.missingWork work post capacity))
          store (c.budget.spent work) t ∧
        r = endingWith
          (auditRefusal c.budget.remaining prepared.missingWork work post capacity)) s := by
  have hstarted : (s.budget.started : Int) - prepared.startedBefore = work := by
    rw [h.budget_eq, hprepared.startedBefore]
    simp [BudgetLedger.spent]
  unfold auditRound
  rw [Prog.wp_read_bind, hstarted, hprepared.remainingBefore]
  refine Prog.wp_mono (recordWasteAudit_spec s reason _ _ _ _ _) ?_
  rintro r t ⟨ht, hr⟩
  exact ⟨h.audited ht, hr⟩

omit [DecidableEq State] in
/-- The audit of a transaction that is about to close: it passes, or the transaction stays open. -/
theorem auditRound_closing {trail : Trail C State} {work post capacity : Nat} {looked}
    (h : At job c txn trail store (c.budget.spent work) s)
    (hprepared : Reserved job admission c prepared looked) (reason : String)
    (hworked : Worked c prepared work trail) (hcapacity : post ≤ capacity)
    (hpost : post ≤ prepared.missingWork.sum) (haudits : ∀ call ∈ trail.audits, call.error = none) :
    Prog.wp (auditRound prepared reason post capacity)
      (fun r t => ∃ trail', trail'.path = trail.path ∧ trail'.commits = trail.commits ∧
        trail'.verified = trail.verified ∧ Worked c prepared work trail' ∧
        At job c txn trail' store (c.budget.spent work) t ∧
        match r with
        | .ok _ => ∀ call ∈ trail'.audits, call.error = none
        | .error _ => auditRefusal c.budget.remaining prepared.missingWork work post capacity ≠
            none) s := by
  refine Prog.wp_mono (auditRound_spec h hprepared reason) ?_
  rintro r t ⟨ht, hend⟩
  refine ⟨trail.audited (loggedAudits c.budget.remaining prepared.missingWork work post capacity),
    rfl, rfl, rfl, hworked.audited hcapacity hpost, ht, ?_⟩
  rcases r with error | ⟨⟩
  · intro hnone
    rw [hnone] at hend
    cases hend
  · intro call hcall
    rcases List.mem_append.mp hcall with hcall | hcall
    · exact haudits call hcall
    · rw [error_of_mem_loggedAudits hcall, eq_none_of_endingWith hend]

omit [DecidableEq State] in
theorem Trail.phase_open {trail : Trail C State} (h : TrailPath trail.path) :
    trail.phase ∉ TxnPhase.terminalPhases := by
  unfold Trail.phase
  rcases h with h | h <;> rw [h] <;> decide

theorem closing_mem {phase next : TxnPhase} (hnext : next = .aborted ∨ next = .interrupted)
    (h : phase ∉ TxnPhase.terminalPhases) : next ∈ phase.allowedTransitions := by
  rcases hnext with rfl | rfl
  · exact TxnPhase.aborted_mem h
  · exact TxnPhase.interrupted_mem h

theorem closeRound_spec {trail : Trail C State} {work : Nat} {looked} {phase : TxnPhase}
    (h : At job c txn trail store (c.budget.spent work) s)
    (hprepared : Reserved job admission c prepared looked) (reason : String)
    (hreason : reason ≠ "cache_outcome_unknown")
    (hworked : Worked c prepared work trail) (hpath : TrailPath trail.path)
    (hunconfirmed : Unconfirmed job trail.commits trail.verified)
    (haudits : ∀ call ∈ trail.audits, call.error = none)
    (hphase : phase = .aborted ∨ phase = .interrupted) :
    Prog.wp (closeRound job prepared reason phase)
      (fun r t => Stopped job deadlineNs roundId admission c txn prepared t r) s := by
  unfold closeRound
  refine Prog.wp_bind_of h.rollbackOrRaise ?_ ?_
  · rintro - t ⟨⟨store', ht⟩, -⟩
    refine Prog.wp_bind_of (auditRound_closing ht hprepared reason hworked le_rfl (Nat.zero_le _)
      haudits) ?_ ?_
    · rintro _ u ⟨trail', hpath', hcommits, hverified, hworked', hu, haudits'⟩
      rw [← hpath'] at hpath
      rw [← hcommits, ← hverified] at hunconfirmed
      refine Prog.wp_mono (hu.finish .plain reason (reported_of_ne hreason (by rintro ⟨⟩))
        (closing_mem hphase (Trail.phase_open hpath))) ?_
      rintro r v ⟨hended, hfinished⟩
      exact .closed hworked' hpath hunconfirmed haudits' hphase hended hfinished
    · rintro error u ⟨trail', hpath', hcommits, hverified, hworked', hu, -⟩
      rw [← hpath'] at hpath
      rw [← hcommits, ← hverified] at hunconfirmed
      exact .failed hworked' hpath (.inl hunconfirmed) hu
  · rintro error t ⟨⟨store', ht⟩, -⟩
    exact .failed hworked hpath (.inl hunconfirmed) ht

omit [DecidableEq State] in
theorem Reserved.work_length {looked} (h : Reserved job admission c prepared looked) :
    prepared.missingWork.length = (prepared.missing.map Prod.snd).length := by
  obtain ⟨w, w', hcall⟩ := h.missingWork
  rw [Prog.collect_length hcall, List.length_map]

omit [DecidableEq State] in
theorem collectObservations_spec (retain : Bool) :
    Prog.wp (collectOraclePhysicalObservations job retain) (fun _ t => t.core = s.core) s := by
  unfold collectOraclePhysicalObservations
  refine Prog.wp_bind_of (onWorld_spec s _) ?_ (fun _ _ h => h.1)
  rintro detached t ⟨ht, -⟩
  exact Prog.wp_ite (fun _ => ht) (fun _ => ht)

/-- How the evaluation of a round's misses ends: with their values, with an abort, or with an exception
of the drain that follows it. -/
def EvaluationEnd (job : Job W C Cand State Obj) (deadlineNs : Option Int) (c : Core C State Obj)
    (txn : CandidateTxn) (prepared : Prepared Cand State) (path : List TxnPhase)
    (store : C × CacheTxn State) (r : Except PyExc (Except EvaluationAbort (List State)))
    (t : Session W C Cand State Obj) : Prop :=
  ∃ calls work, Worked c prepared work ⟨path, calls, [], [], []⟩ ∧
    At job c txn ⟨path, calls, [], [], []⟩ store (c.budget.spent work) t ∧
    (∀ values, r = .ok (.ok values) → work = prepared.missingWork.sum ∧
      Gathered (Answers job deadlineNs fun _ => True)
        (prepared.missing.map fun item => item.2.2) (.ok values)) ∧
    ∀ abort, r = .ok (.error abort) →
      abort.postBoundaryWorkUnits ≤ abort.postBoundaryCapacityUnits ∧
      abort.postBoundaryWorkUnits ≤ prepared.missingWork.sum

omit [DecidableEq State] in
/-- The misses are evaluated between drains and clock readings, which leave the core as it is. -/
theorem evaluateObserved_spec {path : List TxnPhase} {looked}
    (h : At job c txn ⟨path, [], [], [], []⟩ store
      (c.budget.reserving prepared.missingWork.sum) s)
    (hprepared : Reserved job admission c prepared looked) (hreserved : c.budget.reserved = 0)
    (hmissing : prepared.missing ≠ []) :
    Prog.wp (evaluateObserved job deadlineNs prepared)
      (EvaluationEnd job deadlineNs c txn prepared path store) s := by
  have hkeeps : OracleKeeps job deadlineNs (fun _ => True) := fun _ _ _ _ => trivial
  have hcount : 0 < (prepared.missing.map Prod.snd).length := by
    rw [List.length_map]
    exact List.length_pos_iff.mpr hmissing
  unfold evaluateObserved
  refine Prog.wp_bind_of (readClock_spec s _) ?_ (by rintro e t ⟨-, _, ⟨⟩⟩)
  rintro startedNs t ⟨ht, -⟩
  have hbudget : t.budget = c.budget.reserving prepared.missingWork.sum :=
    (congrArg Core.budget ht).trans h.budget_eq
  have hfits : prepared.missingWork.sum ≤ t.budget.reserved := by
    rw [hbudget]
    exact Nat.le_add_left _ _
  refine Prog.wp_attempt_bind (evaluateCandidates_spec hkeeps trivial hcount hprepared.work_length
    hfits) ?_
  rintro _ u ⟨outcome, rfl, -, calls, hevaluated, hu⟩
  rw [hbudget] at hevaluated
  have hbefore : (c.budget.reserving prepared.missingWork.sum).started = c.budget.started := rfl
  obtain ⟨work, hle, hafter⟩ : ∃ work, work ≤ prepared.missingWork.sum ∧
      u.budget = c.budget.spent work := by
    cases outcome with
    | ok values =>
        exact ⟨_, le_rfl, (hevaluated.values values rfl).trans
          (BudgetLedger.moved_reserving hreserved _)⟩
    | error abort =>
        obtain ⟨⟨work, hle, hwork⟩, -⟩ := hevaluated.abort abort rfl
        exact ⟨work, hle, hwork.trans (BudgetLedger.release_moved _ _ _)⟩
  have hworked : Worked c prepared work ⟨path, calls, [], [], []⟩ := by
    refine ⟨hle, ?_, hevaluated.ledgers, hevaluated.covered, ?_, by rintro call ⟨⟩⟩
    · simpa [Function.comp_def] using hevaluated.keys
    · have hhanded := hevaluated.handed
      rw [hafter, hbefore, BudgetLedger.spent] at hhanded
      dsimp only at hhanded ⊢
      omega
  have hat : At job c txn ⟨path, calls, [], [], []⟩ store (c.budget.spent work) u := by
    rw [← hafter]
    exact (h.of_core ht).evaluated hu
  refine Prog.wp_attempt_bind (collectObservations_spec _) ?_
  intro collected v hv
  refine Prog.wp_bind_of (readClock_spec v _) ?_ (by rintro e t ⟨-, _, ⟨⟩⟩)
  rintro endedNs x ⟨hx, -⟩
  rw [Prog.wp_modify_bind]
  have hlast : ∀ {r} {y : Session W C Cand State Obj}, y.core = u.core →
      (∀ values, r = .ok (.ok values) → outcome = .ok values) →
      (∀ abort, r = .ok (.error abort) → outcome = .error abort) →
      EvaluationEnd job deadlineNs c txn prepared path store r y := by
    intro r y hy hvalues habort
    refine ⟨calls, work, hworked, hat.of_core hy, ?_, ?_⟩
    · intro values hr
      obtain rfl := hvalues values hr
      have hgathered := hevaluated.gathered
      rw [List.map_map] at hgathered
      refine ⟨?_, hgathered⟩
      have hspent := hafter.symm.trans (hevaluated.values values rfl)
      rw [BudgetLedger.moved_reserving hreserved] at hspent
      exact Nat.add_left_cancel (congrArg BudgetLedger.started hspent)
    · intro abort hr
      obtain rfl := habort abort hr
      exact (hevaluated.abort abort rfl).2
  have hy : x.core = u.core := hx.trans hv
  rcases outcome with abort | values
  · exact hlast hy (by rintro _ ⟨⟩) (by rintro _ ⟨⟩; rfl)
  · rcases collected with error | _
    · exact hlast hy (by rintro _ ⟨⟩) (by rintro _ ⟨⟩)
    · exact hlast hy (by rintro _ ⟨⟩; rfl) (by rintro _ ⟨⟩)

omit [DecidableEq State] in
theorem abortVerdict_reason_ne (deadlineNs : Option Int) (cause : PyExc)
    (cleanupError : Option PyExc) :
    (abortVerdict deadlineNs cause cleanupError).2.2 ≠ "cache_outcome_unknown" := by
  unfold abortVerdict
  dsimp only
  rcases cleanupError with _ | error
  · split_ifs
    · dsimp only
      exact exceptionReason_ne _
    · decide
    · decide
    · exact exceptionReason_ne cause
  · split_ifs
    · dsimp only
      exact exceptionReason_ne _
    · exact exceptionReason_ne error
    · exact exceptionReason_ne error
    · exact exceptionReason_ne cause

/-- The handler of an aborted evaluation: it publishes nothing, and every way out of it is `Stopped`. -/
theorem handleAbort_spec {path : List TxnPhase} {calls : List EvaluateCall} {work : Nat} {looked}
    {abort : EvaluationAbort} (hpath : TrailPath path)
    (h : At job c txn ⟨path, calls, [], [], []⟩ store (c.budget.spent work) s)
    (hprepared : Reserved job admission c prepared looked)
    (hworked : Worked c prepared work ⟨path, calls, [], [], []⟩)
    (hcapacity : abort.postBoundaryWorkUnits ≤ abort.postBoundaryCapacityUnits)
    (hpost : abort.postBoundaryWorkUnits ≤ prepared.missingWork.sum) :
    Prog.wp (handleAbort job deadlineNs prepared abort)
      (fun r t => Stopped job deadlineNs roundId admission c txn prepared t r) s := by
  unfold handleAbort
  refine Prog.wp_bind_of h.rollbackPreservingError ?_ (by rintro e t ⟨-, _, ⟨⟩⟩)
  rintro cleanupError t ⟨⟨store', ht⟩, -⟩
  have hphase : (abortVerdict deadlineNs abort.cause cleanupError).2.1 = .aborted ∨
      (abortVerdict deadlineNs abort.cause cleanupError).2.1 = .interrupted := by
    unfold abortVerdict
    split_ifs <;> cases cleanupError <;> simp
  have hreason := abortVerdict_reason_ne deadlineNs abort.cause cleanupError
  rcases hverdict : abortVerdict deadlineNs abort.cause cleanupError with
    ⟨terminalError, phase, reason⟩
  rw [hverdict] at hphase hreason
  dsimp only at hphase hreason ⊢
  have hreported : Reported .plain reason := reported_of_ne hreason (by rintro ⟨⟩)
  refine Prog.wp_bind_of (auditRound_closing ht hprepared reason hworked hcapacity hpost
    (by rintro call ⟨⟩)) ?_ ?_
  · rintro _ u ⟨trail, htrail, hcommits, hverified, hworked', hu, haudits⟩
    have hpath' : TrailPath trail.path := htrail ▸ hpath
    have hunconfirmed : Unconfirmed job trail.commits trail.verified := by
      rw [hcommits, hverified]
      exact .untried
    have hmem := closing_mem hphase (Trail.phase_open hpath')
    rcases terminalError with _ | error
    · refine Prog.wp_mono (hu.finish .plain reason hreported hmem) ?_
      rintro r v ⟨hended, hfinished⟩
      exact .closed hworked' hpath' hunconfirmed haudits hphase hended hfinished
    · refine Prog.wp_mono (hu.fail .plain reason error hreported hmem) ?_
      rintro r v ⟨hended, raised, rfl⟩
      exact .closed hworked' hpath' hunconfirmed haudits hphase hended (by rintro _ ⟨⟩)
  · rintro error u ⟨trail, htrail, hcommits, hverified, hworked', hu, -⟩
    refine .failed hworked' (htrail ▸ hpath) (.inl ?_) hu
    rw [hcommits, hverified]
    exact .untried

/-- A part of the transaction body that stops the run or hands a value on. -/
def StopsOr {β : Type} (job : Job W C Cand State Obj) (deadlineNs : Option Int) (roundId : Nat)
    (admission : Admission Cand) (c : Core C State Obj) (txn : CandidateTxn)
    (prepared : Prepared Cand State) (goesOn : β → Session W C Cand State Obj → Prop)
    (r : Except PyExc (RunResult State Obj ⊕ β)) (t : Session W C Cand State Obj) : Prop :=
  match r with
  | .ok (.inr value) => goesOn value t
  | .ok (.inl stopped) =>
      Stopped job deadlineNs roundId admission c txn prepared t (.ok stopped)
  | .error error => Stopped job deadlineNs roundId admission c txn prepared t (.error error)

theorem evaluateRound_spec
    (h : At job c txn ⟨[.reserved], [], [], [], []⟩ store
      (c.budget.reserving prepared.missingWork.sum) s)
    (hprepared : Reserved job admission c prepared store) (hreserved : c.budget.reserved = 0) :
    Prog.wp (evaluateRound job deadlineNs prepared)
      (StopsOr job deadlineNs roundId admission c txn prepared fun staged t => ∃ calls,
        Worked c prepared prepared.missingWork.sum
          ⟨[.reserved, .evaluating], calls, [], [], []⟩ ∧
        At job c txn ⟨[.reserved, .evaluating], calls, [], [], []⟩ store
          (c.budget.spent prepared.missingWork.sum) t ∧
        Staged job deadlineNs prepared staged) s := by
  have hpath : TrailPath [.reserved, .evaluating] := .inl rfl
  unfold evaluateRound
  refine Prog.wp_bind_of (h.pass
    (show TxnPhase.evaluating ∈ TxnPhase.reserved.allowedTransitions by decide)) ?_ (by rintro e t ⟨⟨⟩, -⟩)
  rintro - t ⟨-, ht⟩
  refine Prog.wp_ite (fun hnone => ?_) (fun hsome => ?_)
  · rw [List.isEmpty_iff] at hnone
    have hwork : prepared.missingWork = [] := by
      simpa [hnone] using hprepared.work_length
    have hbudget : c.budget.reserving prepared.missingWork.sum =
        c.budget.spent prepared.missingWork.sum := by
      simp [hwork, BudgetLedger.reserving, BudgetLedger.spent, hreserved]
    refine ⟨[], ⟨le_rfl, ?_, ?_, ?_, ?_, ?_⟩, hbudget ▸ ht, .inl ⟨hnone, rfl⟩⟩
    · simp
    · rintro call ⟨⟩
    · rintro first call rest hsplit
      simp at hsplit
    · simp [handedWork]
    · rintro call ⟨⟩
  · have hmissing : prepared.missing ≠ [] := by
      simpa [List.isEmpty_iff] using hsome
    refine Prog.wp_bind_of (evaluateObserved_spec ht hprepared hreserved hmissing) ?_ ?_
    · rintro (abort | evaluated) u ⟨calls, work, hworked, hu, hvalues, habort⟩
      · obtain ⟨hcapacity, hpost⟩ := habort abort rfl
        exact Prog.wp_bind_of (handleAbort_spec hpath hu hprepared hworked hcapacity hpost)
          (fun _ _ hstopped => hstopped) (fun _ _ hstopped => hstopped)
      · obtain ⟨rfl, hgathered⟩ := hvalues evaluated rfl
        refine Prog.wp_ite (fun _ => ?_) (fun hlength => ?_)
        · exact .failed hworked hpath (.inl .untried) hu
        · rw [ne_eq, not_not] at hlength
          exact ⟨calls, hworked, hu, .inr ⟨evaluated, hgathered, hlength, rfl⟩⟩
    · rintro error u ⟨calls, work, hworked, hu, -⟩
      exact .failed hworked hpath (.inl .untried) hu

/-! ### Deciding and publishing -/

omit [DecidableEq State] in
theorem decideRound_spec {admitted : List Cand} {resolved : List State} :
    Prog.wp (decideRound job admitted resolved roundId)
      (fun r t => t.core = s.core ∧ ∀ decision, r = .ok decision →
        (Called (job.kernel.decide s.state admitted resolved roundId) (.ok decision.nextState) ∧
          ∃ digests,
            Called (Prog.collect (validatedStateDigest job.oracle) resolved) (.ok digests) ∧
            decision.nextDigest ∈ s.stateDigest :: digests) ∧
        Called (job.oracle.validate decision.nextState) (.ok ()) ∧
        Called (validatedStateDigest job.oracle decision.nextState) (.ok decision.nextDigest) ∧
        Called (job.oracle.objective decision.nextState) (.ok decision.nextObjective)) s := by
  unfold decideRound
  rw [Prog.wp_read_bind]
  refine Prog.wp_bind_of (onWorld_spec s _) ?_ (fun _ _ h => ⟨h.1, by rintro _ ⟨⟩⟩)
  rintro nextState t ⟨ht, hdecided⟩
  refine Prog.wp_bind_of (onWorld_spec t _) ?_ (fun _ _ h => ⟨h.1.trans ht, by rintro _ ⟨⟩⟩)
  rintro ⟨⟩ u ⟨hu, hvalidated⟩
  refine Prog.wp_bind_of (onWorld_spec u _) ?_
    (fun _ _ h => ⟨h.1.trans (hu.trans ht), by rintro _ ⟨⟩⟩)
  rintro nextDigest v ⟨hv, hdigest⟩
  refine Prog.wp_bind_of (onWorld_spec v _) ?_
    (fun _ _ h => ⟨h.1.trans (hv.trans (hu.trans ht)), by rintro _ ⟨⟩⟩)
  rintro digests x ⟨hx, hdigests⟩
  have hcore : x.core = s.core := hx.trans (hv.trans (hu.trans ht))
  refine Prog.wp_ite (fun hallowed => ?_) (fun _ => ⟨hcore, by rintro _ ⟨⟩⟩)
  refine Prog.wp_bind_of (onWorld_spec x _) ?_ (fun _ _ h => ⟨h.1.trans hcore, by rintro _ ⟨⟩⟩)
  rintro nextObjective y ⟨hy, hobjective⟩
  refine ⟨hy.trans hcore, ?_⟩
  rintro _ ⟨⟩
  exact ⟨⟨hdecided, digests, hdigests, hallowed⟩, hvalidated, hdigest, hobjective⟩

omit [DecidableEq State] in
theorem commitCache_spec {staged : PyDict State} :
    Prog.wp (commitCache job staged)
      (fun r t => ∃ committed,
        CacheCalled job.runtime.cacheOps.commit s.core.store r committed ∧
        t.core = (s.core.withCache committed).logged [.commit
          ⟨s.core.store.1, committed.1, s.core.store.2.expectedGeneration, staged, r.isOk⟩]) s := by
  unfold commitCache
  rw [Prog.wp_read_bind, Prog.wp_read_bind]
  refine Prog.wp_attempt_bind (onCache_spec s _) ?_
  rintro outcome t ⟨committed, ht, hcommit⟩
  have hcache : t.cache = committed.1 := congrArg Core.cache ht
  unfold observe
  rw [Prog.wp_read_bind, Prog.wp_modify_bind]
  have hcore : ∀ observation, ({ t with log := t.log ++ [observation] } :
      Session W C Cand State Obj).core = (s.core.withCache committed).logged [observation] := by
    intro observation
    change t.core.logged _ = _
    rw [ht]
  cases outcome with
  | ok rawReceipt => exact ⟨committed, hcommit, by rw [Prog.resume_ok, Prog.pure_apply, hcore, hcache]; rfl⟩
  | error error => exact ⟨committed, hcommit, by rw [Prog.resume_error, Prog.raise_apply, hcore, hcache]; rfl⟩

/-- What the verification of a commit that returned finds in the snapshot `outcome`. -/
inductive Verdict (staged : PyDict State) (committed store : C × CacheTxn State)
    (outcome : Except PyExc (Nat × PyDict State)) (closed : Bool) (c : Core C State Obj) :
    Except PyExc CommitVerdict → Core C State Obj → Prop
  | confirmed {snapshot} : outcome = .ok snapshot →
      snapshotMatches (committed.2.expectedGeneration + 1) staged snapshot = true →
      Verdict staged committed store outcome closed c
        (.ok (.confirmed (confirmedReceipt committed staged)))
        ((c.withCache store).logged [.verify (some snapshot) closed])
  | reconstructed {snapshot status} : outcome = .ok snapshot →
      snapshotMatches (committed.2.expectedGeneration + 1) staged snapshot = true →
      Verdict staged committed store outcome closed c
        (.ok (.reconstructed (confirmedReceipt committed staged) status))
        ((c.withCache (store.1, store.2.close)).logged [.verify (some snapshot) closed])
  | unknown {message} :
      (∀ snapshot, outcome.toOption = some snapshot →
        snapshotMatches (committed.2.expectedGeneration + 1) staged snapshot = false) →
      closed = true →
      Verdict staged committed store outcome closed c (.ok (.unknown message))
        ((c.withCache store).logged [.verify outcome.toOption closed])
  | refused {message} :
      (∀ snapshot, outcome.toOption = some snapshot →
        snapshotMatches (committed.2.expectedGeneration + 1) staged snapshot = false) →
      closed = false →
      Verdict staged committed store outcome closed c (.error (.contractError message))
        ((c.withCache store).logged [.verify outcome.toOption closed])

theorem validatedCacheCommitReceipt_spec {rawReceipt : Option CacheCommitReceipt}
    {staged : PyDict State} :
    Prog.wp (validatedCacheCommitReceipt job rawReceipt staged)
      (fun r t => ∃ store outcome closed,
        CacheCalled job.runtime.cacheOps.snapshot s.core.store outcome store ∧
        Verdict staged s.core.store store outcome closed s.core r t.core) s := by
  unfold validatedCacheCommitReceipt
  rw [Prog.wp_read_bind]
  dsimp only
  refine Prog.wp_attempt_bind (onCache_spec s _) ?_
  rintro outcome t ⟨store, ht, hsnapshot⟩
  unfold observe
  rw [Prog.wp_read_bind, Prog.wp_modify_bind]
  suffices hverdict : Prog.wp _ (fun r (u : Session W C Cand State Obj) =>
      Verdict staged s.core.store store outcome t.cacheTxn.closed s.core r u.core) _ from
    Prog.wp_mono hverdict fun r u h => ⟨store, outcome, t.cacheTxn.closed, hsnapshot, h⟩
  have hlogged : ({ t with log := t.log ++ [.verify outcome.toOption t.cacheTxn.closed] } :
      Session W C Cand State Obj).core =
      (s.core.withCache store).logged [.verify outcome.toOption t.cacheTxn.closed] := by
    change t.core.logged _ = _
    rw [ht]
  have hunmatched : ∀ {r : Except PyExc CommitVerdict},
      (∀ snapshot, outcome.toOption = some snapshot →
        snapshotMatches (s.core.store.2.expectedGeneration + 1) staged snapshot = false) →
      (t.cacheTxn.closed = true → ∃ message, r = .ok (.unknown message)) →
      (t.cacheTxn.closed = false → ∃ message, r = .error (.contractError message)) →
      Verdict staged s.core.store store outcome t.cacheTxn.closed s.core r
        ((s.core.withCache store).logged [.verify outcome.toOption t.cacheTxn.closed]) := by
    intro r hmiss hclosed hopen
    cases hc : t.cacheTxn.closed with
    | true =>
        obtain ⟨message, rfl⟩ := hclosed hc
        exact .unknown hmiss rfl
    | false =>
        obtain ⟨message, rfl⟩ := hopen hc
        exact .refused hmiss rfl
  rcases outcome with error | snapshot
  · refine Prog.wp_ite (fun hclosed => ?_) (fun hopen => ?_)
    · rw [Prog.wp_pure, hlogged]
      exact hunmatched (by rintro _ ⟨⟩) (fun _ => ⟨_, rfl⟩) (fun h => by simp [h] at hclosed)
    · rw [Prog.wp_raise, hlogged]
      exact hunmatched (by rintro _ ⟨⟩) (fun h => absurd h hopen) (fun _ => ⟨_, rfl⟩)
  · refine Prog.wp_ite (fun hfound => ?_) (fun hmissing => ?_)
    · refine Prog.wp_ite (fun _ => ?_) (fun _ => ?_)
      · rw [Prog.wp_pure, hlogged]
        exact .confirmed rfl hfound
      · rw [Prog.wp_modify_bind, Prog.wp_pure]
        have hclose : ∀ u : Session W C Cand State Obj,
            u.core = (s.core.withCache store).logged [.verify (some snapshot) t.cacheTxn.closed] →
            ({ u with cacheTxn := u.cacheTxn.close } : Session W C Cand State Obj).core =
              (s.core.withCache (store.1, store.2.close)).logged
                [.verify (some snapshot) t.cacheTxn.closed] := by
          intro u hu
          have htxn : u.cacheTxn = store.2 := congrArg Core.cacheTxn hu
          change u.core.withCache (u.core.cache, u.cacheTxn.close) = _
          rw [htxn, hu]
          rfl
        rw [hclose _ hlogged]
        exact .reconstructed rfl hfound
    · rw [Bool.not_eq_true] at hmissing
      have hmiss : ∀ seen, (Except.ok snapshot : Except PyExc _).toOption = some seen →
          snapshotMatches (s.core.store.2.expectedGeneration + 1) staged seen = false := by
        rintro _ ⟨⟩
        exact hmissing
      refine Prog.wp_ite (fun hclosed => ?_) (fun hopen => ?_)
      · rw [Prog.wp_pure, hlogged]
        exact hunmatched hmiss (fun _ => ⟨_, rfl⟩) (fun h => by simp [h] at hclosed)
      · rw [Prog.wp_raise, hlogged]
        exact hunmatched hmiss (fun h => absurd h hopen) (fun _ => ⟨_, rfl⟩)

omit [DecidableEq State] in
theorem At.commit {path : List TxnPhase} {calls : List EvaluateCall} {budget : BudgetLedger}
    {committed : C × CacheTxn State} {staged : PyDict State} {t : Session W C Cand State Obj}
    {outcome : Except PyExc (Option CacheCommitReceipt)}
    (h : At job c txn ⟨path, calls, [], [], []⟩ store budget s)
    (hcommit : CacheCalled job.runtime.cacheOps.commit store outcome committed)
    (ht : t.core = (s.core.withCache committed).logged [.commit
      ⟨store.1, committed.1, store.2.expectedGeneration, staged, outcome.isOk⟩]) :
    At job c txn ⟨path, calls,
      [⟨store.1, committed.1, store.2.expectedGeneration, staged, outcome.isOk⟩], [], []⟩
      committed budget t := by
  refine ⟨?_, h.cacheRun.commit hcommit⟩
  rw [ht, h.core]
  simp [Core.logged, Core.withCache, Core.along, Trail.log, Trail.phase, Trail.events]

omit [DecidableEq State] in
theorem At.verify {path : List TxnPhase} {calls : List EvaluateCall} {budget : BudgetLedger}
    {commits : List (CommitCall C State)} {store' : C × CacheTxn State}
    {seen : Option (Nat × PyDict State)} {closed : Bool} {t : Session W C Cand State Obj}
    (h : At job c txn ⟨path, calls, commits, [], []⟩ store budget s)
    (hrun : CacheRun job.runtime.cacheOps store [] store')
    (ht : t.core = (s.core.withCache store').logged [.verify seen closed]) :
    At job c txn ⟨path, calls, commits, [(seen, closed)], []⟩ store' budget t := by
  refine ⟨?_, by simpa using h.cacheRun.trans hrun⟩
  rw [ht, h.core]
  simp [Core.logged, Core.withCache, Core.along, Trail.log, Trail.phase, Trail.events]

/-- The handler of a commit that is visible although its receipt was malformed. -/
theorem handlePublished_spec {trail : Trail C State} {decision : Decision State Obj}
    {staged : PyDict State} {committed store : C × CacheTxn State} {status : String} {α : Type}
    (hpublished : Published job deadlineNs roundId admission c prepared trail decision staged
      committed store)
    (hpath : trail.path = [.reserved, .evaluating, .validated])
    (h : At job c txn trail (store.1, store.2.close) (c.budget.spent prepared.missingWork.sum) s) :
    Prog.wp (handlePublished job decision (confirmedReceipt committed staged) status :
        RunM W C Cand State Obj α)
      (fun r t => ∃ raised, r = .error raised ∧
        Stopped job deadlineNs roundId admission c txn prepared t (.error raised)) s := by
  have hphase : TxnPhase.committed ∈ trail.phase.allowedTransitions := by
    rw [Trail.phase, hpath]
    decide
  have hinstalled : ({ s with
      state := decision.nextState
      stateDigest := decision.nextDigest
      objective := decision.nextObjective } : Session W C Cand State Obj).core =
      (c.along txn trail (store.1, store.2.close)
        (c.budget.spent prepared.missingWork.sum)).installed decision := by
    rw [← h.core]
    rfl
  have hstarted : s.budget.started = c.budget.started + prepared.missingWork.sum := by
    rw [h.budget_eq]
    rfl
  unfold handlePublished install
  rw [Prog.wp_modify_bind, Prog.wp_read_bind]
  refine Prog.wp_bind_of (advance_spec _ _ h.transaction hphase) ?_ (by rintro e t ⟨⟨⟩, -⟩)
  rintro - t ⟨-, ht⟩
  rw [hinstalled, hstarted] at ht
  refine Prog.wp_bind_of (emitFailedRun_spec t job _) ?_ ?_
  · intro _ u hu
    exact ⟨_, rfl, .reconstructed hpublished h.cacheRun (hu.trans (by rw [ht]; rfl))⟩
  · intro error u hu
    exact ⟨_, rfl, .reconstructed hpublished h.cacheRun (hu.trans (by rw [ht]; rfl))⟩

/-- The handler of a commit whose outcome cannot be verified. -/
theorem handleUnknown_spec (deadlineNs : Option Int) (roundId : Nat) {trail : Trail C State}
    {message : String} {α : Type} {looked}
    (h : At job c txn trail store (c.budget.spent prepared.missingWork.sum) s)
    (hprepared : Reserved job admission c prepared looked)
    (hworked : Worked c prepared prepared.missingWork.sum trail) (hpath : TrailPath trail.path)
    (hunknown : OutcomeUnknown job trail) (haudits : ∀ call ∈ trail.audits, call.error = none) :
    Prog.wp (handleUnknown job prepared message : RunM W C Cand State Obj α)
      (fun r t => ∃ raised, r = .error raised ∧
        Stopped job deadlineNs roundId admission c txn prepared t (.error raised)) s := by
  unfold handleUnknown
  refine Prog.wp_bind_of h.releaseReserved ?_ (by rintro e t ⟨⟨⟩, -⟩)
  rintro - t ⟨-, ht⟩
  rw [BudgetLedger.releaseReserved_spent] at ht
  refine Prog.wp_bind_of (auditRound_closing ht hprepared _ hworked le_rfl (Nat.zero_le _)
    haudits) ?_ ?_
  · rintro _ u ⟨trail', htrail, hcommits, hverified, hworked', hu, haudits'⟩
    rw [← htrail] at hpath
    have hunknown' : OutcomeUnknown job trail' := by
      obtain ⟨call, seen, hunverified, hcall, hseen⟩ := hunknown
      exact ⟨call, seen, hunverified, hcommits.trans hcall, hverified.trans hseen⟩
    refine Prog.wp_mono (hu.fail .unknownOutcome _ _ ⟨fun _ => rfl, fun _ => rfl⟩
      (TxnPhase.interrupted_mem (Trail.phase_open hpath))) ?_
    rintro r v ⟨hended, raised, rfl⟩
    exact ⟨raised, rfl, .unknown hworked' hpath hunknown' haudits' hended⟩
  · rintro error u ⟨trail', htrail, hcommits, hverified, hworked', hu, hrefused⟩
    rw [← htrail] at hpath
    have hunknown' : OutcomeUnknown job trail' := by
      obtain ⟨call, seen, hunverified, hcall, hseen⟩ := hunknown
      exact ⟨call, seen, hunverified, hcommits.trans hcall, hverified.trans hseen⟩
    exact ⟨error, rfl, .failed hworked' hpath (.inr ⟨hunknown', hrefused⟩) hu⟩

/-- The commit and its verification, one after the other under the inner `try`. -/
theorem commitVerified_spec {path : List TxnPhase} {calls : List EvaluateCall}
    {budget : BudgetLedger} {staged : PyDict State}
    (h : At job c txn ⟨path, calls, [], [], []⟩ store budget s) :
    Prog.wp (commitCache job staged >>= fun rawReceipt =>
        validatedCacheCommitReceipt job rawReceipt staged)
      (fun r t =>
        (∃ error call committed, r = .error error ∧ call.returned = false ∧
          At job c txn ⟨path, calls, [call], [], []⟩ committed budget t) ∨
        ∃ committed store' outcome closed u,
          (∃ rawReceipt,
            CacheCalled job.runtime.cacheOps.commit store (.ok rawReceipt) committed) ∧
          CacheCalled job.runtime.cacheOps.snapshot committed outcome store' ∧
          At job c txn ⟨path, calls, [confirmedCall store committed staged], [], []⟩ committed
            budget u ∧
          Verdict staged committed store' outcome closed u.core r t.core) s := by
  refine Prog.wp_bind_of commitCache_spec ?_ ?_
  · rintro rawReceipt t ⟨committed, hcommit, ht⟩
    rw [h.store_eq] at hcommit ht
    have hat := h.commit hcommit ht
    refine Prog.wp_mono validatedCacheCommitReceipt_spec ?_
    rintro r u ⟨store', outcome, closed, hsnapshot, hverdict⟩
    rw [hat.store_eq] at hsnapshot hverdict
    exact .inr ⟨committed, store', outcome, closed, t, ⟨rawReceipt, hcommit⟩, hsnapshot, hat,
      hverdict⟩
  · rintro error t ⟨committed, hcommit, ht⟩
    rw [h.store_eq] at hcommit ht
    exact .inl ⟨error, _, committed, rfl, rfl, h.commit hcommit ht⟩

theorem publishRound_spec {calls : List EvaluateCall} {decision : Decision State Obj}
    {staged : PyDict State}
    (h : At job c txn ⟨[.reserved, .evaluating, .validated], calls, [], [], []⟩ store
      (c.budget.spent prepared.missingWork.sum) s)
    (hprepared : Reserved job admission c prepared store)
    (hworked : ∀ commits verified, Worked c prepared prepared.missingWork.sum
      ⟨[.reserved, .evaluating, .validated], calls, commits, verified, []⟩)
    (hstaged : Staged job deadlineNs prepared staged)
    (hdecided : Decided job roundId c prepared staged decision) :
    Prog.wp (publishRound job prepared decision staged)
      (StopsOr job deadlineNs roundId admission c txn prepared fun receipt t =>
        ∃ trail committed store',
          Published job deadlineNs roundId admission c prepared trail decision staged committed
            store' ∧
          trail.path = [.reserved, .evaluating, .validated] ∧
          receipt = confirmedReceipt committed staged ∧
          At job c txn trail store' (c.budget.spent prepared.missingWork.sum) t) s := by
  have hpath : TrailPath [.reserved, .evaluating, .validated] := .inr rfl
  have hnone : ∀ call ∈ ([] : List AuditCall), call.error = none := by rintro call ⟨⟩
  unfold publishRound
  refine Prog.wp_bind_of (onCache_spec s _) ?_ ?_
  rotate_left
  · rintro error t ⟨stagedStore, ht, hstage⟩
    rw [h.store_eq] at hstage
    exact .failed (hworked [] []) hpath (.inl .untried) (h.quiet ht (.stagedEntries hstage))
  rintro ⟨⟩ t ⟨stagedStore, ht, hstage⟩
  rw [h.store_eq] at hstage
  have hat := h.quiet ht (.stagedEntries hstage)
  refine Prog.wp_attempt_bind (commitVerified_spec hat) ?_
  rintro r u hu
  rcases hu with ⟨error, call, committed, rfl, hraised, hu⟩ |
    ⟨committed, store', outcome, closed, v, hcommit, hsnapshot, hv, hverdict⟩
  · refine Prog.wp_ite (fun _ => ?_) (fun _ => ?_)
    · exact Prog.wp_bind_of (closeRound_spec hu hprepared _ (by decide) (hworked [call] []) hpath
        (.raised hraised) hnone (.inr rfl)) (fun _ _ hstopped => hstopped)
          (fun _ _ hstopped => hstopped)
    refine Prog.wp_ite (fun _ => ?_) (fun _ => ?_)
    · exact Prog.wp_bind_of (closeRound_spec hu hprepared _ (by decide) (hworked [call] []) hpath
        (.raised hraised) hnone (.inl rfl)) (fun _ _ hstopped => hstopped)
          (fun _ _ hstopped => hstopped)
    · exact .failed (hworked [call] []) hpath (.inl (.raised hraised)) hu
  have hrun : CacheRun job.runtime.cacheOps committed [] store' :=
    CacheRun.refl.quiet (.snapshotTaken hsnapshot)
  have hunverified : ∀ {seen : Option (Nat × PyDict State)}, outcome.toOption = seen →
      (∀ snapshot, outcome.toOption = some snapshot →
        snapshotMatches (committed.2.expectedGeneration + 1) staged snapshot = false) →
      Unverified job (confirmedCall stagedStore committed staged) seen := by
    rintro _ rfl hmiss
    refine ⟨staged, stagedStore, committed, rfl, hcommit, fun snapshot hseen => ⟨?_, hmiss _ hseen⟩⟩
    rcases outcome with error | found
    · cases hseen
    · cases hseen
      exact ⟨store', hsnapshot⟩
  generalize hucore : u.core = core at hverdict
  cases hverdict with
  | @confirmed snapshot houtcome hfound =>
      subst houtcome
      refine ⟨_, committed, store', ⟨⟨store, stagedStore, snapshot, closed, calls, hprepared,
        ⟨hstage, hcommit, hsnapshot, hfound⟩, rfl⟩, hstaged, hdecided, hworked _ _⟩, rfl, rfl,
        hv.verify hrun hucore⟩
  | @reconstructed snapshot status houtcome hfound =>
      subst houtcome
      have hclosed : At job c txn ⟨[.reserved, .evaluating, .validated], calls,
          [confirmedCall stagedStore committed staged], [(some snapshot, closed)], []⟩
          (store'.1, store'.2.close) (c.budget.spent prepared.missingWork.sum) u :=
        hv.verify (hrun.quiet .closed) hucore
      have hpublished : Published job deadlineNs roundId admission c prepared
          ⟨[.reserved, .evaluating, .validated], calls,
            [confirmedCall stagedStore committed staged], [(some snapshot, closed)], []⟩ decision
          staged committed store' :=
        ⟨⟨store, stagedStore, snapshot, closed, calls, hprepared,
          ⟨hstage, hcommit, hsnapshot, hfound⟩, rfl⟩, hstaged, hdecided, hworked _ _⟩
      refine Prog.wp_mono (handlePublished_spec hpublished rfl hclosed) ?_
      rintro r x ⟨raised, rfl, hstopped⟩
      exact hstopped
  | @unknown message hmiss hclosed =>
      subst hclosed
      have hat' := hv.verify hrun hucore
      refine Prog.wp_mono (handleUnknown_spec deadlineNs roundId hat' hprepared (hworked _ _) hpath
        ⟨_, _, hunverified rfl hmiss, rfl, rfl⟩ hnone) ?_
      rintro r x ⟨raised, rfl, hstopped⟩
      exact hstopped
  | @refused message hmiss hopen =>
      subst hopen
      have hat' := hv.verify hrun hucore
      have hclasses : ∀ message, (PyExc.contractError message).isInstance
          .staleCacheSnapshotError = false ∧
          (PyExc.contractError message).isInstance .cacheCommitError = false := by
        intro message
        exact ⟨rfl, rfl⟩
      dsimp only
      rw [(hclasses _).1, (hclasses _).2]
      exact .failed (hworked _ _) hpath (.inl (.unverified (hunverified rfl hmiss))) hat'

/-- A transaction that went all the way: its commit is confirmed, and its state is to be installed. -/
def GoesOn (job : Job W C Cand State Obj) (deadlineNs : Option Int) (roundId : Nat)
    (admission : Admission Cand) (c : Core C State Obj) (txn : CandidateTxn)
    (prepared : Prepared Cand State) (value : Decision State Obj × CacheCommitReceipt)
    (t : Session W C Cand State Obj) : Prop :=
  ∃ trail staged committed store,
    Published job deadlineNs roundId admission c prepared trail value.1 staged committed store ∧
    trail.path = [.reserved, .evaluating, .validated] ∧
    value.2 = confirmedReceipt committed staged ∧
    At job c txn trail store (c.budget.spent prepared.missingWork.sum) t

omit [DecidableEq State] in
theorem eq_map_some_of_any {values : List (Option State)} (h : ¬values.any Option.isNone = true) :
    values = (values.filterMap id).map some := by
  induction values with
  | nil => rfl
  | cons value rest ih =>
      cases value with
      | none => simp at h
      | some value =>
          have hcons : (some value :: rest).filterMap id = value :: rest.filterMap id := rfl
          rw [hcons, List.map_cons, ← ih (by simpa using h)]

theorem concludeRound_spec {calls : List EvaluateCall} {staged : PyDict State}
    (h : At job c txn ⟨[.reserved, .evaluating], calls, [], [], []⟩ store
      (c.budget.spent prepared.missingWork.sum) s)
    (hprepared : Reserved job admission c prepared store)
    (hworked : ∀ path commits verified, Worked c prepared prepared.missingWork.sum
      ⟨path, calls, commits, verified, []⟩)
    (hstaged : Staged job deadlineNs prepared staged) :
    Prog.wp (concludeRound job prepared staged roundId)
      (StopsOr job deadlineNs roundId admission c txn prepared
        (GoesOn job deadlineNs roundId admission c txn prepared)) s := by
  have hpath : TrailPath [.reserved, .evaluating] := .inl rfl
  have hpath' : TrailPath [.reserved, .evaluating, .validated] := .inr rfl
  have hnone : ∀ call ∈ ([] : List AuditCall), call.error = none := by rintro call ⟨⟩
  unfold concludeRound
  refine Prog.wp_ite (fun _ => .failed (hworked _ [] []) hpath (.inl .untried) h) (fun hall => ?_)
  have hresolved := eq_map_some_of_any hall
  generalize (resolveValues prepared.values prepared.missing staged).filterMap id = resolved
    at hresolved ⊢
  refine Prog.wp_attempt_bind (onWorld_spec s _) ?_
  rintro (error | ⟨⟩) t ⟨ht, hvalidated⟩
  · have hat := h.of_core ht
    refine Prog.wp_ite (fun _ => ?_) (fun _ => ?_)
    · exact Prog.wp_bind_of (closeRound_spec hat hprepared _ (by decide) (hworked _ [] []) hpath .untried hnone
        (.inl rfl)) (fun _ _ hstopped => hstopped) (fun _ _ hstopped => hstopped)
    · exact .failed (hworked _ [] []) hpath (.inl .untried) hat
  refine Prog.wp_bind_of ((h.of_core ht).pass
    (show TxnPhase.validated ∈ TxnPhase.evaluating.allowedTransitions by decide)) ?_
    (by rintro e u ⟨⟨⟩, -⟩)
  rintro ⟨⟩ u ⟨-, hu⟩
  have hstate : u.state = c.state := congrArg Core.state hu.core
  have hdigest : u.stateDigest = c.stateDigest := congrArg Core.stateDigest hu.core
  refine Prog.wp_bind_of decideRound_spec ?_ ?_
  · rintro decision v ⟨hv, hdecision⟩
    obtain ⟨⟨hdecide, digests, hdigests, hallowed⟩, hvalid, hnextDigest, hobjective⟩ :=
      hdecision decision rfl
    rw [hstate] at hdecide
    rw [hdigest] at hallowed
    have hdecided : Decided job roundId c prepared staged decision :=
      ⟨⟨resolved, hresolved, hvalidated, hdecide, digests, hdigests, hallowed⟩, hvalid,
        hnextDigest, hobjective⟩
    have hpublish := publishRound_spec (hu.of_core hv) hprepared (hworked _) hstaged hdecided
    refine Prog.wp_bind_of hpublish ?_ (fun _ _ hstopped => hstopped)
    rintro (stopped | receipt) x hx
    · exact hx
    · obtain ⟨trail, committed, store', hpublished, htrail, hreceipt, hat⟩ := hx
      exact ⟨trail, staged, committed, store', hpublished, htrail, hreceipt, hat⟩
  · rintro error v ⟨hv, -⟩
    exact .failed (hworked _ [] []) hpath' (.inl .untried) (hu.of_core hv)

theorem transactRound_spec
    (h : At job c txn ⟨[.reserved], [], [], [], []⟩ store
      (c.budget.reserving prepared.missingWork.sum) s)
    (hprepared : Reserved job admission c prepared store) (hreserved : c.budget.reserved = 0) :
    Prog.wp (transactRound job deadlineNs prepared roundId)
      (StopsOr job deadlineNs roundId admission c txn prepared
        (GoesOn job deadlineNs roundId admission c txn prepared)) s := by
  have hpath : TrailPath [.reserved, .evaluating] := .inl rfl
  have hevaluate : Prog.wp (evaluateRound job deadlineNs prepared)
      (StopsOr job deadlineNs roundId admission c txn prepared _) s :=
    evaluateRound_spec h hprepared hreserved
  unfold transactRound
  refine Prog.wp_bind_of hevaluate ?_ (fun _ _ hstopped => hstopped)
  rintro (stopped | staged) t ht
  · exact ht
  obtain ⟨calls, hworked, hat, hstaged⟩ := ht
  refine Prog.wp_bind_of (deadlineReached_spec t job deadlineNs) ?_ (by rintro e u ⟨-, _, ⟨⟩, -⟩)
  rintro expired u ⟨hu, -⟩
  have hat' := hat.of_core hu
  refine Prog.wp_ite (fun _ => ?_) (fun _ => ?_)
  · exact Prog.wp_bind_of (closeRound_spec hat' hprepared _ (by decide) hworked hpath .untried
      (by rintro call ⟨⟩) (.inr rfl)) (fun _ _ hstopped => hstopped) (fun _ _ hstopped => hstopped)
  · exact concludeRound_spec hat' hprepared
      (fun path commits verified => { hworked with }) hstaged

end

end TxnOpt
