import TxnOpt.Runtime.Proof.Run

/-!
# The semantic events of a run

A pass records nothing, a screening that admits nobody, or one `Episode`: a screening, a prepared
transaction, the phases it passes and the one terminal phase it reaches. `RoundEnd.sealing` says so for
every end of a pass, and that the pass seals the run with its events unless it is one of two kinds.
-/

namespace TxnOpt

/-- The events of one transaction, from its screening to its terminal phase. -/
structure Episode where
  screening : Screening
  txn : CandidateTxn
  path : List TxnPhase
  phase : TxnPhase
  extra : PhaseExtra

namespace Episode

/-- The phases before the terminal one. -/
def steps (e : Episode) : List SemanticEvent :=
  .candidateTransaction e.txn .plain ::
    e.path.map fun phase => .candidateTransaction (e.txn.atPhase phase) .plain

def events (e : Episode) : List SemanticEvent :=
  .candidateScreening e.screening ::
    (e.steps ++ [.candidateTransaction (e.txn.atPhase e.phase) e.extra])

/-- The phase that the terminal one follows. -/
def lastPhase (e : Episode) : TxnPhase := e.path.getLast?.getD .prepared

/-- The episode belongs to the round `roundId`, on the snapshot `digest`. -/
structure Of (roundId : Nat) (digest : String) (e : Episode) : Prop where
  opens : OpensTxn roundId digest e.txn.candidateKeys e.txn
  count : e.screening.admittedCount = e.txn.candidateKeys.length
  path : e.path <+: [.reserved, .evaluating, .validated]
  legal : e.phase ∈ e.lastPhase.allowedTransitions
  terminal : e.phase ∈ TxnPhase.terminalPhases

end Episode

section

variable {W C Cand State Obj : Type} [DecidableEq State] {job : Job W C Cand State Obj}
  {deadlineNs : Option Int} {roundId : Nat}

/-- What an episode that closes without a commit publishes: nothing. -/
def Withheld (phase : TxnPhase) (extra : PhaseExtra) : Prop :=
  Closing phase extra ∨ phase = .interrupted ∧ extra = .unknownOutcome

/-- The fields of a `COMMITTED` event, from the round's own ledger, decision and commit. -/
structure Publishes (job : Job W C Cand State Obj) (deadlineNs : Option Int) (roundId : Nat)
    (c t : Core C State Obj) (publication : Publication) : Prop where
  round : ∃ opened txn admission prepared trail decision staged committed store,
    Opened job roundId c opened txn admission ∧
    Published job deadlineNs roundId admission opened prepared trail decision staged committed
      store ∧
    publication.stateDigest = decision.nextDigest ∧
    publication.startedWork = c.budget.started + prepared.missingWork.sum ∧
    publication.stagedCacheWrites = staged.size ∧
    publication.cacheGeneration = committed.2.expectedGeneration + 1 ∧
    t.state = decision.nextState ∧ t.objective = decision.nextObjective ∧
    CacheRun job.runtime.cacheOps opened.store trail.commits t.store ∧ t.cache = store.1
  digest : t.stateDigest = publication.stateDigest
  started : t.budget.started = publication.startedWork

/-- How an episode ends, from the core `c` at the start of its round to the core `t` at its end. -/
inductive EpisodeEnd (job : Job W C Cand State Obj) (deadlineNs : Option Int) (roundId : Nat)
    (c t : Core C State Obj) : TxnPhase → PhaseExtra → Prop
  | withheld {phase extra} : Withheld phase extra → t.state = c.state →
      t.stateDigest = c.stateDigest → t.objective = c.objective →
      EpisodeEnd job deadlineNs roundId c t phase extra
  | published {publication} : Publishes job deadlineNs roundId c t publication →
      EpisodeEnd job deadlineNs roundId c t .committed (.published publication)

theorem EpisodeEnd.extra_ne {c t : Core C State Obj} {phase : TxnPhase} {extra : PhaseExtra}
    (h : EpisodeEnd job deadlineNs roundId c t phase extra) (hphase : phase = .committed) :
    extra ≠ .unknownOutcome := by
  subst hphase
  cases h with
  | withheld hwithheld => obtain (⟨⟨⟩, -⟩ | ⟨⟨⟩, -⟩) | ⟨⟨⟩, -⟩ := hwithheld
  | published => rintro ⟨⟩

/-- The semantic events of one pass, from the core `c` to the core `t`, and whether they say that the
cache outcome is unknown. -/
inductive PassEvents (job : Job W C Cand State Obj) (deadlineNs : Option Int) (roundId : Nat)
    (c t : Core C State Obj) : Bool → Prop
  | none : t.semanticEvents = c.semanticEvents → t.state = c.state →
      t.stateDigest = c.stateDigest → t.objective = c.objective → t.transaction = c.transaction →
      PassEvents job deadlineNs roundId c t false
  | inadmissible {screening} : screening.admittedCount = 0 →
      t.semanticEvents = c.semanticEvents ++
        [.candidateScreening screening, .roundTerminated "no_admissible_candidates"] →
      t.state = c.state → t.stateDigest = c.stateDigest → t.objective = c.objective →
      t.transaction = c.transaction →
      PassEvents job deadlineNs roundId c t false
  | episode (e : Episode) : e.Of roundId c.stateDigest →
      EpisodeEnd job deadlineNs roundId c t e.phase e.extra →
      t.semanticEvents = c.semanticEvents ++ e.events →
      t.transaction = some (e.txn.atPhase e.phase) →
      PassEvents job deadlineNs roundId c t (decide (e.extra = .unknownOutcome))

omit [DecidableEq State] in
/-- The episode of a transaction that was opened at `opened` and passed the phases of `path`. -/
theorem Opened.episode {c opened : Core C State Obj} {txn : CandidateTxn}
    {admission : Admission Cand} (h : Opened job roundId c opened txn admission)
    {path : List TxnPhase} {phase : TxnPhase} (extra : PhaseExtra)
    (hpath : path <+: [.reserved, .evaluating, .validated])
    (hlegal : phase ∈ (path.getLast?.getD .prepared).allowedTransitions)
    (hterminal : phase ∈ TxnPhase.terminalPhases) :
    ∃ screening, (Episode.mk screening txn path phase extra).Of roundId c.stateDigest ∧
      ∀ trail : Trail C State, trail.path = path →
        opened.semanticEvents ++ trail.events txn ++
            [.candidateTransaction (txn.atPhase phase) extra] =
          c.semanticEvents ++ (Episode.mk screening txn path phase extra).events := by
  obtain ⟨candidates, limit, hproposed, rfl⟩ := h.proposed
  have hcount : (screeningOf candidates.length limit admission).admittedCount =
      txn.candidateKeys.length := by
    rw [h.opensTxn.candidateKeys, (admitCandidates_spec hproposed.admitted).length_eq]
    rfl
  refine ⟨screeningOf candidates.length limit admission, ⟨⟨h.opensTxn.txnId, h.opensTxn.snapshotDigest, rfl,
    h.opensTxn.phase⟩, hcount, hpath, hlegal, hterminal⟩, ?_⟩
  rintro trail rfl
  obtain ⟨tape, -, hdrawn⟩ := c.drawn_eq
  rw [hdrawn]
  simp [Core.opened, Episode.events, Episode.steps, Trail.events]

/-- A transaction that published nothing, as the events of its pass. -/
theorem Ended.passEvents {c opened : Core C State Obj} {t : Session W C Cand State Obj}
    {txn : CandidateTxn} {admission : Admission Cand} {trail : Trail C State}
    {store : C × CacheTxn State} {budget : BudgetLedger} {phase : TxnPhase} {extra : PhaseExtra}
    {reason : String} (h : Ended job opened txn trail store budget phase extra reason t.core)
    (hopened : Opened job roundId c opened txn admission)
    (hpath : trail.path <+: [.reserved, .evaluating, .validated])
    (hlegal : phase ∈ trail.phase.allowedTransitions) (hwithheld : Withheld phase extra) :
    PassEvents job deadlineNs roundId c t.core (decide (extra = .unknownOutcome)) := by
  have hterminal : phase ∈ TxnPhase.terminalPhases := by
    rcases hwithheld with (⟨rfl, -⟩ | ⟨rfl, -⟩) | ⟨rfl, -⟩ <;> decide
  obtain ⟨screening, he, hevents⟩ := hopened.episode extra hpath hlegal hterminal
  have hevents' := hevents trail rfl
  obtain ⟨tape, events, rfl⟩ := hopened.exists_eq
  refine .episode ⟨screening, txn, trail.path, phase, extra⟩ he (.withheld hwithheld ?_ ?_ ?_)
    (Eq.trans ?_ hevents') ?_
  all_goals
    rw [h.core]
    rfl

/-- A pass that installs its decision and closes its transaction as `COMMITTED`. -/
theorem Published.passEvents {c opened t : Core C State Obj} {txn : CandidateTxn}
    {admission : Admission Cand} {prepared : Prepared Cand State} {trail : Trail C State}
    {decision : Decision State Obj} {staged : PyDict State}
    {committed store : C × CacheTxn State} (status : Option String)
    (hpublished : Published job deadlineNs roundId admission opened prepared trail decision staged
      committed store)
    (hopened : Opened job roundId c opened txn admission)
    (hrun : CacheRun job.runtime.cacheOps opened.store trail.commits t.store)
    (hcache : t.cache = store.1)
    (hstate : t.state = decision.nextState) (hdigest : t.stateDigest = decision.nextDigest)
    (hobjective : t.objective = decision.nextObjective)
    (hbudget : t.budget = c.budget.spent prepared.missingWork.sum)
    (htransaction : t.transaction = some (txn.atPhase .committed))
    (hevents : t.semanticEvents = opened.semanticEvents ++ trail.events txn ++
      [.candidateTransaction (txn.atPhase .committed) (.published
        (publicationOf decision (c.budget.started + prepared.missingWork.sum)
          (confirmedReceipt committed staged) status))]) :
    ∃ e : Episode, e.Of roundId c.stateDigest ∧ e.phase = .committed ∧
      EpisodeEnd job deadlineNs roundId c t e.phase e.extra ∧
      t.semanticEvents = c.semanticEvents ++ e.events ∧
      t.transaction = some (e.txn.atPhase e.phase) := by
  obtain ⟨looked, stagedStore, snapshot, closed, evals, -, -, htrail⟩ := hpublished.round
  have hpath : trail.path = [.reserved, .evaluating, .validated] := by
    rw [htrail]
  obtain ⟨screening, he, hepisode⟩ := hopened.episode
    (.published (publicationOf decision (c.budget.started + prepared.missingWork.sum)
      (confirmedReceipt committed staged) status)) List.prefix_rfl
    (show TxnPhase.committed ∈ TxnPhase.validated.allowedTransitions by decide) (by decide)
  have hpublication : Publishes job deadlineNs roundId c t
      (publicationOf decision (c.budget.started + prepared.missingWork.sum)
        (confirmedReceipt committed staged) status) := by
    refine ⟨⟨opened, txn, admission, prepared, trail, decision, staged, committed, store, hopened,
      hpublished, rfl, rfl, rfl, rfl, hstate, hobjective, hrun, hcache⟩, hdigest, ?_⟩
    rw [hbudget]
    rfl
  exact ⟨_, he, rfl, .published hpublication, hevents.trans (hepisode trail hpath), htransaction⟩

theorem CommittedRound.episode {c t : Core C State Obj}
    (h : CommittedRound job deadlineNs roundId c t) :
    ∃ e : Episode, e.Of roundId c.stateDigest ∧ e.phase = .committed ∧
      EpisodeEnd job deadlineNs roundId c t e.phase e.extra ∧
      t.semanticEvents = c.semanticEvents ++ e.events ∧
      t.transaction = some (e.txn.atPhase e.phase) := by
  obtain ⟨hopened, hpublished, hrun, rfl⟩ := h
  have hbudget := hopened.budget
  refine hpublished.passEvents none hopened hrun rfl rfl rfl rfl ?_ rfl ?_
  · rw [← hbudget]
    rfl
  · rw [← hbudget]
    rfl

theorem CommittedRound.passEvents {c t : Core C State Obj}
    (h : CommittedRound job deadlineNs roundId c t) :
    PassEvents job deadlineNs roundId c t false := by
  obtain ⟨e, he, hphase, hend, hevents, htransaction⟩ := h.episode
  have hextra : decide (e.extra = .unknownOutcome) = false := by
    exact decide_eq_false (hend.extra_ne hphase)
  rw [← hextra]
  exact .episode e he hend hevents htransaction

/-- The core `t` at the end of a pass from `c` that sealed the run. -/
structure SealedPass (job : Job W C Cand State Obj) (deadlineNs : Option Int) (roundId : Nat)
    (c t : Core C State Obj) (outcome : Except PyExc (RunResult State Obj)) : Prop where
  sealed : ∃ unknown reason, PassEvents job deadlineNs roundId c t unknown ∧
    (unknown = true ↔ reason = "cache_outcome_unknown") ∧
    t.semanticStreams = c.semanticStreams ++
      (if job.runtime.semanticEventSink then [t.semanticEvents ++ [.runTerminated reason]] else []) ∧
    Finished job t reason outcome

/-- A pass that ends the run seals it, unless its proposal raised or its last audit was refused. -/
inductive Sealing (job : Job W C Cand State Obj) (deadlineNs : Option Int) (roundId : Nat)
    (s t : Session W C Cand State Obj) (outcome : Except PyExc (RunResult State Obj)) : Prop
  | sealed : SealedPass job deadlineNs roundId s.core t.core outcome →
      Sealing job deadlineNs roundId s t outcome
  | unproposed {error} : (proposeRound job deadlineNs roundId s).1 = .error error →
      t.core.semanticStreams = s.core.semanticStreams →
      Sealing job deadlineNs roundId s t outcome
  | refused {call error} : .audit call ∈ t.core.log → call.error = some error →
      call.postBoundaryCapacityUnits = 0 → t.core.semanticStreams = s.core.semanticStreams →
      Sealing job deadlineNs roundId s t outcome

omit [DecidableEq State] in
theorem TrailPath.isPrefix {path : List TxnPhase} (h : TrailPath path) :
    path <+: [.reserved, .evaluating, .validated] := by
  rcases h with rfl | rfl
  · exact ⟨[.validated], rfl⟩
  · exact List.prefix_rfl

theorem Concluded.sealing {s t : Session W C Cand State Obj} {opened : Core C State Obj}
    {txn : CandidateTxn} {admission : Admission Cand} {prepared : Prepared Cand State}
    {outcome : Except PyExc (RunResult State Obj)}
    (hopened : Opened job roundId s.core opened txn admission)
    (h : Concluded job deadlineNs roundId admission opened txn prepared t outcome) :
    Sealing job deadlineNs roundId s t outcome := by
  have hbudget := hopened.budget
  cases h with
  | @closed trail store work phase reason _ hworked hpath _ hphase hended hfinished =>
      have hlegal := closing_mem hphase (Trail.phase_open hpath)
      have hwithheld : Withheld phase .plain := by
        rcases hphase with rfl | rfl
        · exact .inl (.inl ⟨rfl, rfl⟩)
        · exact .inl (.inr ⟨rfl, .inl rfl⟩)
      refine .sealed ⟨_, reason, hended.passEvents hopened hpath.isPrefix hlegal hwithheld,
        decide_eq_true_iff.trans hended.reported.symm, ?_, hfinished⟩
      obtain ⟨tape, events, rfl⟩ := hopened.exists_eq
      rw [hended.core]
      rfl
  | @unknown trail store raised hworked hpath _ hended =>
      have hlegal := closing_mem (.inr rfl) (Trail.phase_open hpath)
      refine .sealed ⟨_, "cache_outcome_unknown",
        hended.passEvents hopened hpath.isPrefix hlegal (.inr ⟨rfl, rfl⟩),
        decide_eq_true_iff.trans hended.reported.symm, ?_, by rintro _ ⟨⟩⟩
      obtain ⟨tape, events, rfl⟩ := hopened.exists_eq
      rw [hended.core]
      rfl
  | @reconstructed trail decision staged committed store status raised hpublished hrun ht =>
      have hepisode : ∃ e : Episode, e.Of roundId s.core.stateDigest ∧ e.phase = .committed ∧
          EpisodeEnd job deadlineNs roundId s.core t.core e.phase e.extra ∧
          t.core.semanticEvents = s.core.semanticEvents ++ e.events ∧
          t.core.transaction = some (e.txn.atPhase e.phase) := by
        rw [hbudget] at ht
        refine hpublished.passEvents (some status) hopened ?_ ?_ ?_ ?_ ?_ ?_ ?_ ?_
        · rw [ht]
          exact hrun
        all_goals
          rw [ht]
          rfl
      obtain ⟨e, he, hphase, hend, hevents, htransaction⟩ := hepisode
      have hextra := decide_eq_false (hend.extra_ne hphase)
      refine .sealed ⟨_, "runtime_contract_error", .episode e he hend hevents htransaction, ?_, ?_,
        by rintro _ ⟨⟩⟩
      · rw [hextra]
        decide
      obtain ⟨tape, events, rfl⟩ := hopened.exists_eq
      rw [ht]
      rfl
  | @unsealed trail store work error hworked _ _ hrefused hlogged hat =>
      obtain ⟨call, hcall, herror⟩ := exists_mem_loggedAudits hrefused
      refine .refused ?_ herror (capacity_of_mem_loggedAudits hcall) ?_
      · have hmem : Observation.audit call ∈ trail.log :=
          List.mem_append_right _ (List.mem_map_of_mem (hlogged call hcall))
        rw [hat.core]
        exact List.mem_append_right _ hmem
      · obtain ⟨tape, events, rfl⟩ := hopened.exists_eq
        rw [hat.core]
        rfl

/-- Every pass that ends the run. -/
theorem RoundEnd.sealing {s t : Session W C Cand State Obj}
    {outcome : Except PyExc (RunResult State Obj)}
    (h : RoundEnd job deadlineNs roundId s t (outcome.map .done)) :
    Sealing job deadlineNs roundId s t outcome := by
  generalize hr : outcome.map RoundExit.done = r at h
  have hdone : ∀ {outcome' : Except PyExc (RunResult State Obj)},
      (outcome.map .done : Except PyExc (RoundExit State Obj)) = outcome'.map .done →
      outcome = outcome' := by
    rintro (_ | _) h
    all_goals
      rcases outcome with _ | _ <;> cases h
      rfl
  cases h with
  | unproposed hraised ht =>
      refine .unproposed hraised ?_
      obtain ⟨tape, -, hdrawn⟩ := s.core.drawn_eq
      rw [ht, hdrawn]
  | @stopped last reason outcome' hlast ht hfinished =>
      obtain rfl := hdone hr
      obtain ⟨tape, -, hdrawn⟩ := s.core.drawn_eq
      rw [hdrawn] at hlast
      refine .sealed ⟨false, reason, .none ?_ ?_ ?_ ?_ ?_, ?_, ?_, hfinished⟩
      rotate_left 5
      · rcases hlast with ⟨-, rfl, -⟩ | ⟨-, rfl, -⟩ <;> decide
      all_goals
        rw [ht]
        rcases hlast with ⟨rfl, -, -⟩ | ⟨rfl, -, -⟩ <;> rfl
  | @inadmissible candidates limit admission outcome' hproposed hnone ht hfinished =>
      obtain rfl := hdone hr
      obtain ⟨tape, -, hdrawn⟩ := s.core.drawn_eq
      rw [hdrawn] at ht
      have hcount : (screeningOf candidates.length limit admission).admittedCount = 0 := by
        simp [screeningOf, hnone]
      refine .sealed ⟨false, "no_admissible_candidates", .inadmissible hcount ?_ ?_ ?_ ?_ ?_,
        by decide, ?_, hfinished⟩
      · rw [ht]
        exact List.append_assoc _ _ _
      all_goals
        rw [ht]
        rfl
  | @unprepared opened txn admission phase extra reason store outcome' hopened hclosing hended
      hfinished =>
      obtain rfl := hdone hr
      have hlegal : phase ∈ (Trail.empty : Trail C State).phase.allowedTransitions := by
        rw [Trail.phase_empty]
        rcases hclosing with ⟨rfl, -⟩ | ⟨rfl, -⟩ <;> decide
      refine .sealed ⟨_, reason, hended.passEvents hopened List.nil_prefix hlegal (.inl hclosing),
        decide_eq_true_iff.trans hended.reported.symm, ?_, hfinished⟩
      obtain ⟨tape, events, rfl⟩ := hopened.exists_eq
      rw [hended.core]
      rfl
  | @concluded opened txn admission prepared looked outcome' hopened _ hconcluded =>
      obtain rfl := hdone hr
      exact hconcluded.sealing hopened
  | committed => rcases outcome with _ | _ <;> cases hr

end

end TxnOpt
