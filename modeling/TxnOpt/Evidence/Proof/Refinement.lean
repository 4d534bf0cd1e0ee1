import TxnOpt.Evidence.Proof.Replay
import TxnOpt.Runtime.Proof.Sealing
import TxnOpt.Runtime.Proof.Store

/-!
# The verifier accepts every run

A run over a private store hands the verifier a stream that it accepts, and the receipt states the run's
own facts. The store may raise anywhere and return malformed receipts; `PrivateStore` only asks that its
generations are told truthfully.
-/

namespace TxnOpt

section

variable {W C V : Type}

/-- A store whose calls tell `generation` truthfully: `begin` binds its transaction to it, the later
calls leave that binding alone, and `snapshot` reports it. -/
structure PrivateStore (ops : CacheOps C W V) (generation : C → Nat) : Prop where
  begins : ∀ cache begun, CacheBegun ops cache begun →
    begun.2.expectedGeneration = generation cache
  looks : ∀ keys before after found, CacheCalled (ops.lookup keys) before (.ok found) after →
    after.2.expectedGeneration = before.2.expectedGeneration
  stages : ∀ entries before after, CacheCalled (ops.stage entries) before (.ok ()) after →
    after.2.expectedGeneration = before.2.expectedGeneration
  commits : ∀ before after receipt, CacheCalled ops.commit before (.ok receipt) after →
    after.2.expectedGeneration = before.2.expectedGeneration
  snapshots : ∀ before after seen, CacheCalled ops.snapshot before (.ok seen) after →
    seen.1 = generation after.1

open InMemoryCacheStore in
theorem InMemoryCacheStore.privateStore (onCommit : Option (PyDict V → Prog W PyExc Unit)) :
    PrivateStore (InMemoryCacheStore.ops onCommit) InMemoryCacheStore.generation := by
  refine ⟨?_, ?_, ?_, ?_, ?_⟩
  · rintro cache begun ⟨w, w', hbegin⟩
    have htxn := Except.ok.inj (congrArg Prod.fst hbegin)
    exact congrArg CacheTxn.expectedGeneration htxn.symm
  · rintro keys before after found ⟨w, w', hlookup⟩
    exact congrArg (fun ended => ended.2.txn.expectedGeneration) hlookup.symm
  · rintro entries before after ⟨w, w', hstage⟩
    exact (Prog.wp_of_run (stage_spec entries _) hstage).2.1
  · rintro before after receipt ⟨w, w', hcommit⟩
    exact (Prog.wp_of_run (commit_spec _) hcommit).1
  · rintro before after seen ⟨w, w', hsnapshot⟩
    have hseen := Except.ok.inj (congrArg Prod.fst hsnapshot)
    have hstore := congrArg (fun ended => ended.2.store) hsnapshot
    rw [← hseen]
    exact congrArg InMemoryCacheStore.generation hstore

end

section

variable {W C Cand State Obj : Type} [DecidableEq State]

/-! ### What a run has committed -/

/-- The transaction that the round committed, if its pass left one. -/
def committedTxn (roundId : Nat) (transaction : Option CandidateTxn) : List CandidateTxn :=
  (transaction.filter fun txn => txn.phase = .committed && txn.txnId == txnIdOf roundId).toList

/-- The transactions committed by the rounds of a run, from round `roundId` on. -/
def committedTxns (job : Job W C Cand State Obj) (deadlineNs : Option Int) :
    Nat → Nat → Session W C Cand State Obj → List CandidateTxn
  | 0, _, _ => []
  | rounds + 1, roundId, s =>
      match runRound job deadlineNs roundId s with
      | (.ok .next, t) =>
          committedTxn roundId t.transaction ++ committedTxns job deadlineNs rounds (roundId + 1) t
      | (_, t) => committedTxn roundId t.transaction

/-- The receipt of the verifier states the facts of the run that ended at `final`, whose rounds committed
`commits`. -/
structure StatesFacts (job : Job W C Cand State Obj) (sha256 : String → String)
    (commits : List CandidateTxn) (final : Session W C Cand State Obj)
    (stream : List SemanticEvent) (receipt : RefinementReplayReceipt) : Prop where
  digest : receipt.finalStateDigest = final.stateDigest
  ofState : Called (validatedStateDigest job.oracle final.state) (.ok receipt.finalStateDigest)
  generation : receipt.finalCacheGeneration = commits.length
  committed : receipt.committedTransactions = commits.length
  keyDigests : receipt.committedCandidateKeyDigests =
    commits.map fun txn => candidateKeysDigest sha256 txn.candidateKeys
  proven : receipt.prefixSafetyProven = false ↔
    stream.getLast? = some (.runTerminated "cache_outcome_unknown")

variable {job : Job W C Cand State Obj} {initialState : State} {deadlineNs : Option Int}
  {first : Session W C Cand State Obj} {generation : C → Nat} {sha256 : String → String}

omit [DecidableEq State] in
theorem committedTxn_of_ne {roundId : Nat} {transaction : Option CandidateTxn}
    (h : ∀ txn, transaction = some txn → txn.phase = .committed → txn.txnId ≠ txnIdOf roundId) :
    committedTxn roundId transaction = [] := by
  unfold committedTxn
  rcases transaction with _ | txn
  · rfl
  · by_cases hphase : txn.phase = .committed
    · simp [Option.filter, hphase, h txn rfl hphase]
    · simp [Option.filter, hphase]

omit [DecidableEq State] in
/-- A transaction that an earlier round left is not this round's. -/
theorem Recorded.committedTxn_eq_nil {roundId : Nat} {c : Core C State Obj}
    (h : Recorded roundId c) : committedTxn roundId c.transaction = [] := by
  refine committedTxn_of_ne ?_
  intro txn htxn _ hid
  obtain ⟨extra, hmem⟩ := h.transaction txn htxn
  obtain ⟨⟨earlier, hlt, hearlier⟩, -⟩ := h.events.closed txn extra hmem
  exact absurd (txnIdOf_injective (hearlier.symm.trans hid)) (Nat.ne_of_lt hlt)

omit [DecidableEq State] in
theorem Episode.Of.committedTxn_eq {roundId : Nat} {digest : String} {e : Episode}
    (h : e.Of roundId digest) :
    committedTxn roundId (some (e.txn.atPhase .committed)) = [e.txn.atPhase .committed] := by
  unfold committedTxn
  simp [Option.filter, h.opens.txnId]

/-- A committed round published, and leaves its transaction. -/
theorem CommittedRound.publishes {roundId : Nat} {c t : Core C State Obj}
    (h : CommittedRound job deadlineNs roundId c t) :
    ∃ publication, Publishes job deadlineNs roundId c t publication ∧
      (committedTxn roundId t.transaction).length = 1 := by
  obtain ⟨e, he, hphase, hend, -, htransaction⟩ := h.episode
  rw [hphase] at hend htransaction
  generalize e.extra = extra at hend
  cases hend with
  | withheld hwithheld => obtain (⟨⟨⟩, -⟩ | ⟨⟨⟩, -⟩) | ⟨⟨⟩, -⟩ := hwithheld
  | published hpublishes =>
      refine ⟨_, hpublishes, ?_⟩
      rw [htransaction, he.committedTxn_eq]
      rfl

/-- The generations of a round that published over a private store. -/
theorem Publishes.generation_eq (hops : PrivateStore job.runtime.cacheOps generation) {roundId : Nat}
    {c t : Core C State Obj} {publication : Publication}
    (h : Publishes job deadlineNs roundId c t publication) :
    publication.cacheGeneration = generation c.cache + 1 ∧
      generation t.cache = publication.cacheGeneration := by
  obtain ⟨opened, txn, admission, prepared, trail, decision, staged, committed, store, hopened,
    hpublished, -, -, -, hgeneration, -, -, -, hcache⟩ := h.round
  obtain ⟨looked, stagedStore, snapshot, closed, evals, hreserved, hconfirmed, -⟩ :=
    hpublished.round
  obtain ⟨begun, lookup, hbegun, hlookup, -, -⟩ := hreserved.lookedUp
  obtain ⟨rawReceipt, hcommit⟩ := hconfirmed.commit
  have hexpected : committed.2.expectedGeneration = generation c.cache := by
    have hcore : opened.cache = c.cache := by
      obtain ⟨tape, events, rfl⟩ := hopened.exists_eq
      rfl
    calc committed.2.expectedGeneration
        = stagedStore.2.expectedGeneration := hops.commits _ _ _ hcommit
      _ = looked.2.expectedGeneration := hops.stages _ _ _ hconfirmed.stage
      _ = begun.2.expectedGeneration := hops.looks _ _ _ _ hlookup
      _ = generation opened.cache := hops.begins _ _ hbegun
      _ = generation c.cache := by rw [hcore]
  refine ⟨by rw [hgeneration, hexpected], ?_⟩
  have hfound := hconfirmed.found
  rw [snapshotMatches, Bool.and_eq_true, beq_iff_eq, hops.snapshots _ _ _ hconfirmed.verify] at hfound
  rw [hcache, hfound.1, hgeneration]

theorem Publishes.started_le {roundId : Nat} {c t : Core C State Obj} {publication : Publication}
    (h : Publishes job deadlineNs roundId c t publication) :
    c.budget.started ≤ publication.startedWork := by
  obtain ⟨opened, txn, admission, prepared, trail, decision, staged, committed, store, -, -, -,
    hstarted, -⟩ := h.round
  omega

theorem Publishes.called {roundId : Nat} {c t : Core C State Obj} {publication : Publication}
    (h : Publishes job deadlineNs roundId c t publication) :
    Called (validatedStateDigest job.oracle t.state) (.ok t.stateDigest) := by
  obtain ⟨opened, txn, admission, prepared, trail, decision, staged, committed, store, -, hpublished,
    hdigest, -, -, -, hstate, -⟩ := h.round
  rw [hstate, h.digest, hdigest]
  exact hpublished.decided.digest

/-! ### One pass -/

omit [DecidableEq State] in
theorem Replayed.weaken {roundId : Nat} {commits : List CandidateTxn} {unknown : Bool}
    {digest : String} {started later : Nat} {s : Replaying}
    (h : Replayed sha256 roundId commits unknown digest started s) (hle : started ≤ later) :
    Replayed sha256 roundId commits unknown digest later s := by
  have hstarted := h.started
  exact { h with started := by omega }

/-- The verifier follows one pass of the loop. -/
theorem PassEvents.replayed (hops : PrivateStore job.runtime.cacheOps generation) {roundId : Nat}
    {c t : Core C State Obj} {unknown : Bool} {commits : List CandidateTxn} {s : Replaying}
    (hrecorded : Recorded roundId c) (hgeneration : generation c.cache = commits.length)
    (hdigest : isDigest t.stateDigest = true)
    (hreplayed : Replayed sha256 roundId commits false c.stateDigest c.budget.started s)
    (h : PassEvents job deadlineNs roundId c t unknown) :
    ∃ events after, t.semanticEvents = c.semanticEvents ++ events ∧
      (dicts events).foldlM (replayEvent sha256) s = .ok after ∧
      Replayed sha256 (roundId + 1) (commits ++ committedTxn roundId t.transaction) unknown
        t.stateDigest (max c.budget.started t.budget.started) after := by
  cases h with
  | none hevents _ hstate _ htransaction =>
      refine ⟨[], s, by rw [hevents, List.append_nil], rfl, ?_⟩
      rw [htransaction, hrecorded.committedTxn_eq_nil, List.append_nil, hstate]
      exact hreplayed.mono (Nat.le_max_left _ _)
  | inadmissible hcount hevents _ hstate _ htransaction =>
      obtain ⟨after, hafter, hnext⟩ := hreplayed.inadmissible hcount
      refine ⟨_, after, hevents, hafter, ?_⟩
      rw [htransaction, hrecorded.committedTxn_eq_nil, List.append_nil, hstate]
      exact hnext.weaken (Nat.le_max_left _ _)
  | episode e he hend hevents htransaction =>
      rw [htransaction]
      generalize hphase : e.phase = phase at hend
      generalize hextra : e.extra = extra at hend
      cases hend with
      | withheld hwithheld _ hstate _ =>
          rw [← hphase, ← hextra] at hwithheld
          obtain ⟨after, hafter, hnext⟩ := hreplayed.withheld he hwithheld
          have hopen : committedTxn roundId (some (e.txn.atPhase phase)) = [] := by
            refine committedTxn_of_ne ?_
            rintro _ ⟨⟩ hcommitted
            rw [CandidateTxn.atPhase_phase, ← hphase] at hcommitted
            rw [hcommitted] at hwithheld
            obtain (⟨⟨⟩, -⟩ | ⟨⟨⟩, -⟩) | ⟨⟨⟩, -⟩ := hwithheld
          refine ⟨_, after, hevents, hafter, ?_⟩
          rw [hopen, List.append_nil, hstate, ← hextra]
          exact hnext.weaken (Nat.le_max_left _ _)
      | published hpublishes =>
          obtain ⟨hnumber, -⟩ := hpublishes.generation_eq hops
          rw [hpublishes.digest] at hdigest
          rw [hgeneration] at hnumber
          obtain ⟨after, hafter, hnext⟩ := hreplayed.published he hphase hextra hdigest hnumber
            hpublishes.started_le
          rw [hphase] at hnext
          refine ⟨_, after, hevents, hafter, ?_⟩
          rw [he.committedTxn_eq, hpublishes.digest]
          have hstarted := hpublishes.started
          exact hnext.weaken (by omega)

/-! ### Whole runs -/

/-- The verifier has followed the run to the start of round `roundId`, which comes after the rounds that
committed `commits`. -/
structure Followed (job : Job W C Cand State Obj) (deadlineNs : Option Int)
    (first : Session W C Cand State Obj) (generation : C → Nat) (sha256 : String → String)
    (roundId : Nat) (s : Session W C Cand State Obj) (commits : List CandidateTxn) : Prop where
  split : committedTxns job deadlineNs job.config.maxRounds 0 first =
    commits ++ committedTxns job deadlineNs (job.config.maxRounds - roundId) roundId s
  generation : generation s.cache = commits.length
  digest : Called (validatedStateDigest job.oracle s.state) (.ok s.stateDigest)
  replayed : ∃ seed opening events after,
    s.semanticEvents = .runOpen seed opening :: events ∧ isDigest opening = true ∧
    (dicts events).foldlM (replayEvent sha256) (.start opening) = .ok after ∧
    Replayed sha256 roundId commits false s.stateDigest s.budget.started after

omit [DecidableEq State] in
theorem Replayed.start (sha256 : String → String) (digest : String) :
    Replayed sha256 0 [] false digest 0 (.start digest) := by
  refine ⟨rfl, rfl, rfl, rfl, rfl, le_rfl, rfl, rfl, ?_⟩
  rintro id phase ⟨⟩

theorem OpenedRun.followed (sha256 : String → String)
    (hopened : OpenedRun job initialState deadlineNs first.core)
    (hfresh : generation first.cache = 0) :
    Followed job deadlineNs first generation sha256 0 first [] := by
  have hfirst := hopened.core
  have hstate : first.state = initialState := congrArg Core.state hfirst
  have hevents : first.semanticEvents = [.runOpen job.config.seed first.stateDigest] :=
    congrArg Core.semanticEvents hfirst
  have hbudget : first.budget = .new job.config.fixedWork := congrArg Core.budget hfirst
  refine ⟨rfl, hfresh, ?_, _, _, [], _, hevents, hopened.between.digest, rfl, ?_⟩
  · rw [hstate]
    exact hopened.digest
  · rw [hbudget]
    exact .start sha256 first.stateDigest

/-- What the run commits from a round on, when the round goes on to the next. -/
theorem committedTxns_next {roundId : Nat} {s t : Session W C Cand State Obj}
    (hlt : roundId < job.config.maxRounds)
    (hround : runRound job deadlineNs roundId s = (.ok .next, t)) :
    committedTxns job deadlineNs (job.config.maxRounds - roundId) roundId s =
      committedTxn roundId t.transaction ++
        committedTxns job deadlineNs (job.config.maxRounds - (roundId + 1)) (roundId + 1) t := by
  have hsucc : job.config.maxRounds - roundId = job.config.maxRounds - (roundId + 1) + 1 := by omega
  rw [hsucc, committedTxns, hround]

theorem committedTxns_done {roundId : Nat} {s t : Session W C Cand State Obj}
    {outcome : Except PyExc (RunResult State Obj)} (hlt : roundId < job.config.maxRounds)
    (hround : runRound job deadlineNs roundId s = (outcome.map .done, t)) :
    committedTxns job deadlineNs (job.config.maxRounds - roundId) roundId s =
      committedTxn roundId t.transaction := by
  have hsucc : job.config.maxRounds - roundId = job.config.maxRounds - (roundId + 1) + 1 := by omega
  rw [hsucc, committedTxns, hround]
  cases outcome <;> rfl

/-- Events replayed one after the other. -/
theorem replay_append {before more : List SemanticEvent} {s middle after : Replaying}
    (hbefore : (dicts before).foldlM (replayEvent sha256) s = .ok middle)
    (hmore : (dicts more).foldlM (replayEvent sha256) middle = .ok after) :
    (dicts (before ++ more)).foldlM (replayEvent sha256) s = .ok after := by
  rw [dicts, List.map_append, List.foldlM_append]
  change ((dicts before).foldlM (replayEvent sha256) s >>= _) = _
  rw [hbefore]
  exact hmore

/-- The verifier follows the committed rounds. -/
theorem RoundStart.followed (sha256 : String → String)
    (hops : PrivateStore job.runtime.cacheOps generation)
    (hopened : OpenedRun job initialState deadlineNs first.core)
    (hfresh : generation first.cache = 0) {roundId : Nat} {s : Session W C Cand State Obj}
    (h : RoundStart job deadlineNs first roundId s) (hle : roundId ≤ job.config.maxRounds) :
    ∃ commits, Followed job deadlineNs first generation sha256 roundId s commits := by
  induction h with
  | first => exact ⟨[], hopened.followed sha256 hfresh⟩
  | @next roundId s t hs hround ih =>
      obtain ⟨commits, hfollowed⟩ := ih (by omega)
      have hcommitted := runRound_next (hs.between hopened.between) hround
      have hbetween := (hs.next hround).between hopened.between
      obtain ⟨seed, opening, events, middle, hopening, hvalid, hmiddle, hreplayed⟩ :=
        hfollowed.replayed
      obtain ⟨more, after, hmore, hafter, hnext⟩ := hcommitted.passEvents.replayed hops
        (hs.recorded hopened) hfollowed.generation hbetween.digest hreplayed
      obtain ⟨publication, hpublishes, hown⟩ := hcommitted.publishes
      obtain ⟨hnumber, hkept⟩ := hpublishes.generation_eq hops
      have hgrown : s.budget.started ≤ t.budget.started :=
        hpublishes.started_le.trans_eq hpublishes.started.symm
      refine ⟨commits ++ committedTxn roundId t.transaction, ?_, ?_, hpublishes.called, seed,
        opening, events ++ more, after, ?_, hvalid, replay_append hmiddle hafter, ?_⟩
      · rw [hfollowed.split, committedTxns_next (by omega) hround, List.append_assoc]
      · rw [List.length_append, ← hfollowed.generation]
        exact (hkept.trans hnumber).trans (congrArg _ hown.symm)
      · change t.core.semanticEvents = _
        rw [hmore]
        change s.semanticEvents ++ more = _
        rw [hopening]
        rfl
      · exact hnext.weaken (Nat.max_le.mpr ⟨hgrown, le_rfl⟩)

/-- The checks after the loop accept a run that has gone to its end, and read its facts off. -/
theorem Replayed.receipt {roundId : Nat} {commits : List CandidateTxn} {unknown : Bool}
    {digest : String} {started : Nat} {s : Replaying}
    (h : Replayed sha256 roundId commits unknown digest started s) :
    ∃ receipt, replayReceipt s = .ok receipt ∧ receipt.finalStateDigest = digest ∧
      receipt.finalCacheGeneration = commits.length ∧
      receipt.committedTransactions = commits.length ∧
      receipt.committedCandidateKeyDigests =
        (commits.map fun txn => candidateKeysDigest sha256 txn.candidateKeys) ∧
      receipt.prefixSafetyProven = !unknown := by
  have hterminal : ¬(s.phases.entries.any fun entry => entry.2 ∉ replayTerminal) = true := by
    rw [List.any_eq_true]
    rintro ⟨⟨id, phase⟩, hmem, hopen⟩
    have hlookup : s.phases.lookup id = some phase := AList.mem_lookup_iff.mpr hmem
    exact of_decide_eq_true hopen (h.phases id phase hlookup).1
  refine ⟨⟨s.committed, s.aborted, s.interrupted, s.visibleDigest, s.cacheGeneration, s.stuttering,
    s.committedKeyDigests, s.prefixSafetyProven⟩, ?_, h.visible, h.generation, h.committed, h.digests,
    h.proven⟩
  unfold replayReceipt
  rw [if_neg hterminal, h.active, h.pending]
  rfl

omit [DecidableEq State] in
/-- The verifier on a whole stream. -/
theorem replayAggregateRefinement_eq {seed : Nat} {opening : String} (reason : String)
    {events : List SemanticEvent} {after : Replaying} (hvalid : isDigest opening = true)
    (hafter : (dicts events).foldlM (replayEvent sha256) (.start opening) = .ok after) :
    replayAggregateRefinement sha256
        (dicts (.runOpen seed opening :: events ++ [.runTerminated reason])) =
      replayReceipt after := by
  have hdicts : dicts (.runOpen seed opening :: events ++ [.runTerminated reason]) =
      (SemanticEvent.runOpen seed opening).toDict ::
        (dicts events ++ [(SemanticEvent.runTerminated reason).toDict]) := by
    simp [dicts]
  have hbounds : ¬(EventDict.str? (SemanticEvent.runOpen seed opening).toDict "event" ≠ some "run_open" ∨
      EventDict.str? (SemanticEvent.runTerminated reason).toDict "event" ≠ some "run_terminated") := by
    rintro (h | h) <;> exact h rfl
  have hopening : EventDict.str? (SemanticEvent.runOpen seed opening).toDict "state_digest" =
    some opening := rfl
  unfold replayAggregateRefinement
  rw [hdicts, List.head?_cons, ← List.cons_append, List.getLast?_concat]
  dsimp only
  rw [if_neg hbounds, hopening]
  dsimp only
  rw [if_pos hvalid, List.cons_append, List.drop_one, List.tail_cons, List.dropLast_concat, hafter]
  rfl

/-- A pass keeps the digest that the oracle gave the state. -/
theorem PassEvents.called {roundId : Nat} {c t : Core C State Obj} {unknown : Bool}
    (hc : Called (validatedStateDigest job.oracle c.state) (.ok c.stateDigest))
    (h : PassEvents job deadlineNs roundId c t unknown) :
    Called (validatedStateDigest job.oracle t.state) (.ok t.stateDigest) := by
  cases h with
  | none _ hstate hdigest _ _ => rwa [hstate, hdigest]
  | inadmissible _ _ hstate hdigest _ _ => rwa [hstate, hdigest]
  | episode e _ hend _ _ =>
      generalize e.phase = phase at hend
      generalize e.extra = extra at hend
      cases hend with
      | withheld _ hstate hdigest _ => rwa [hstate, hdigest]
      | published hpublishes => exact hpublishes.called

/-- The verifier has followed the run to its end. -/
theorem Followed.finish (hops : PrivateStore job.runtime.cacheOps generation)
    {roundId : Nat} {s final : Session W C Cand State Obj} {commits : List CandidateTxn}
    {unknown : Bool} {reason : String} (hrecorded : Recorded roundId s.core)
    (h : Followed job deadlineNs first generation sha256 roundId s commits)
    (hpass : PassEvents job deadlineNs roundId s.core final.core unknown)
    (hreason : unknown = true ↔ reason = "cache_outcome_unknown") :
    ∃ receipt, replayAggregateRefinement sha256
        (dicts (final.semanticEvents ++ [.runTerminated reason])) = .ok receipt ∧
      StatesFacts job sha256 (commits ++ committedTxn roundId final.transaction) final
        (final.semanticEvents ++ [.runTerminated reason]) receipt := by
  have hcalled := hpass.called h.digest
  obtain ⟨seed, opening, events, middle, hopening, hvalid, hmiddle, hreplayed⟩ := h.replayed
  obtain ⟨more, after, hmore, hafter, hend⟩ :=
    hpass.replayed hops hrecorded h.generation (isDigest_of_called hcalled) hreplayed
  obtain ⟨receipt, hreceipt, hdigest, hgeneration, hcommitted, hdigests, hproven⟩ := hend.receipt
  have hevents : final.semanticEvents = .runOpen seed opening :: (events ++ more) := by
    change final.core.semanticEvents = _
    rw [hmore]
    change s.semanticEvents ++ more = _
    rw [hopening]
    rfl
  refine ⟨receipt, ?_, hdigest, ?_, hgeneration, hcommitted, hdigests, ?_⟩
  · rw [hevents, replayAggregateRefinement_eq reason hvalid (replay_append hmiddle hafter)]
    exact hreceipt
  · rw [hdigest]
    exact hcalled
  · rw [hproven, List.getLast?_concat, Option.some.injEq, SemanticEvent.runTerminated.injEq,
      ← hreason, Bool.not_eq_false']

end

end TxnOpt
