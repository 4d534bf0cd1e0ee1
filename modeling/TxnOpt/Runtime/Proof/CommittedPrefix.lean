import TxnOpt.Evidence.Proof.Refinement
import TxnOpt.Lib.Frames
import TxnOpt.Runtime.Proof.Evidence
import TxnOpt.Runtime.Proof.Serial
import TxnOpt.Runtime.Proof.WorkOnce

/-!
# The committed prefix

With a store of its own, a run that ends in the middle of a round, whatever the fault, shows what it showed
at the start of that round: the store, the state with its digest and objective, and the `COMMITTED` events.
-/

namespace TxnOpt

/-- What the `COMMITTED` events publish. -/
def publications (events : List SemanticEvent) : List Publication :=
  events.filterMap fun
    | .candidateTransaction _ (.published publication) => some publication
    | _ => none

theorem publications_append (first second : List SemanticEvent) :
    publications (first ++ second) = publications first ++ publications second := List.filterMap_append

theorem publications_plain (txn : CandidateTxn) (path : List TxnPhase) :
    publications (path.map fun phase => .candidateTransaction (txn.atPhase phase) .plain) = [] := by
  unfold publications
  rw [List.filterMap_map]
  exact List.filterMap_none path

/-- What a run shows of its commits. -/
structure Visible (C State Obj : Type) where
  cache : C
  state : State
  stateDigest : String
  objective : Obj
  publications : List Publication

section

variable {W C Cand State Obj α : Type}

def Core.visible (c : Core C State Obj) : Visible C State Obj :=
  ⟨c.cache, c.state, c.stateDigest, c.objective, publications c.semanticEvents⟩

def Session.visible (s : Session W C Cand State Obj) : Visible C State Obj := s.core.visible

theorem Core.visible_sealed (c : Core C State Obj) (sink : Bool) (reason : String) :
    (c.sealed sink reason).visible = c.visible := rfl

theorem Core.visible_withCache (c : Core C State Obj) {store : C × CacheTxn State} (h : store.1 = c.cache) :
    (c.withCache store).visible = c.visible := by
  unfold Core.visible Core.withCache
  rw [h]

/-! ### Helpers that change nothing visible -/

theorem plain_ne (publication : Publication) : PhaseExtra.plain ≠ .published publication := by rintro ⟨⟩

theorem keeps_advance (phase : TxnPhase) {extra : PhaseExtra} (hextra : ∀ publication, extra ≠ .published publication) :
    Prog.Keeps Session.visible (advance phase extra : RunM W C Cand State Obj Unit) := by
  intro s
  have hnone : ∀ txn, publications [.candidateTransaction txn extra] = [] := by
    intro txn
    cases extra with
    | published publication => exact absurd rfl (hextra publication)
    | plain => rfl
    | denied => rfl
    | unknownOutcome => rfl
  unfold Prog.wp advance
  cases s.transaction with
  | none => rfl
  | some txn =>
      dsimp only
      cases txn.transition phase with
      | error error => rfl
      | ok next =>
          unfold Session.visible Core.visible Session.core
          dsimp only
          rw [publications_append, hnone, List.append_nil]

theorem keeps_result (job : Job W C Cand State Obj) (reason : String) :
    Prog.Keeps Session.visible (result job reason) := by
  intro s
  apply Prog.wp_mono (result_spec s job reason)
  intro r t ht
  rw [Session.visible, ht.1]
  rfl

theorem keeps_emitFailedRun (job : Job W C Cand State Obj) (reason : String) :
    Prog.Keeps Session.visible (emitFailedRun job reason) := by
  intro s
  apply Prog.wp_mono (emitFailedRun_spec s job reason)
  intro r t ht
  rw [Session.visible, ht]
  rfl

theorem keeps_releaseReserved : Prog.Keeps Session.visible (releaseReserved : RunM W C Cand State Obj Unit) :=
  fun _ => rfl

theorem keeps_auditRound (prepared : Prepared Cand State) (reason : String) (work capacity : ℕ) :
    Prog.Keeps Session.visible (auditRound prepared reason work capacity : RunM W C Cand State Obj Unit) := by
  apply Prog.keeps_read.bind
  intro budget s
  apply Prog.wp_mono (recordWasteAudit_spec s reason _ _ _ _ _)
  intro r t ht
  rw [Session.visible, ht.1]
  rfl

variable [DecidableEq State] {job : Job W C Cand State Obj} {deadlineNs : Option Int} {roundId : ℕ}
  {s t : Session W C Cand State Obj} {value : RunResult State Obj}

theorem RoundEnd.finished (h : RoundEnd job deadlineNs roundId s t (.ok (.done value))) :
    ∃ reason, IsResult job t.core reason value := by
  generalize hr : Except.ok (RoundExit.done value) = r at h
  have hdone : ∀ {outcome : Except PyExc (RunResult State Obj)},
      Except.ok (RoundExit.done value) = outcome.map .done → outcome = .ok value := by
    intro outcome h
    cases outcome with
    | error error => cases h
    | ok value =>
        cases h
        rfl
  cases h with
  | unproposed => cases hr
  | stopped _ _ hfinished => exact ⟨_, hfinished value (hdone hr)⟩
  | inadmissible _ _ _ hfinished => exact ⟨_, hfinished value (hdone hr)⟩
  | unprepared _ _ _ hfinished => exact ⟨_, hfinished value (hdone hr)⟩
  | concluded _ _ hconcluded =>
      rw [hdone hr] at hconcluded
      cases hconcluded with
      | closed _ _ _ _ _ hfinished => exact ⟨_, hfinished value rfl⟩
  | committed => cases hr

theorem LastRound.finished (h : LastRound job deadlineNs roundId s (.ok value) t) :
    ∃ reason, IsResult job t.core reason value := by
  cases h with
  | limit _ _ hfinished => exact ⟨_, hfinished value rfl⟩
  | round _ _ hend => exact hend.finished

end

section

variable {W Cand State Obj α : Type} {job : Job W (InMemoryCacheStore State) Cand State Obj}
  {onCommit : Option (PyDict State → Prog W PyExc Unit)}

theorem keeps_rollbackOrRaise (hops : job.runtime.cacheOps = InMemoryCacheStore.ops onCommit) :
    Prog.Keeps Session.visible (rollbackOrRaise job) := by
  intro s
  apply Prog.wp_mono (rollbackOrRaise_spec s job)
  intro r t ht
  obtain ⟨store, hcore, hrun, -⟩ := ht
  rw [hops] at hrun
  rw [Session.visible, hcore]
  exact Core.visible_withCache _ (InMemoryCacheStore.store_of_cacheRun hrun (by rintro call ⟨⟩))

theorem keeps_rollbackPreservingError (hops : job.runtime.cacheOps = InMemoryCacheStore.ops onCommit) :
    Prog.Keeps Session.visible (rollbackPreservingError job) := by
  apply (keeps_rollbackOrRaise hops).attempt.bind
  intro outcome
  cases outcome with
  | error error => exact Prog.keeps_pure
  | ok value => exact Prog.keeps_pure

theorem keeps_abortAndRaise (error : PyExc) : Prog.Keeps Session.visible (abortAndRaise job error : RunM _ _ _ _ _ α) :=
  (keeps_advance .aborted plain_ne).bind fun _ =>
    (keeps_emitFailedRun job _).bind fun _ => Prog.keeps_raise

theorem keeps_closeRound (hops : job.runtime.cacheOps = InMemoryCacheStore.ops onCommit)
    (prepared : Prepared Cand State) (reason : String) (phase : TxnPhase) :
    Prog.Keeps Session.visible (closeRound job prepared reason phase) :=
  (keeps_rollbackOrRaise hops).bind fun _ => (keeps_auditRound prepared reason 0 0).bind fun _ =>
    (keeps_advance phase plain_ne).bind fun _ => keeps_result job reason

theorem keeps_handleAbort (hops : job.runtime.cacheOps = InMemoryCacheStore.ops onCommit)
    (deadlineNs : Option Int) (prepared : Prepared Cand State) (abort : EvaluationAbort) :
    Prog.Keeps Session.visible (handleAbort job deadlineNs prepared abort) := by
  apply (keeps_rollbackPreservingError hops).bind
  intro cleanupError
  rcases abortVerdict deadlineNs abort.cause cleanupError with ⟨terminalError, phase, reason⟩
  apply (keeps_auditRound prepared reason _ _).bind
  intro _
  apply (keeps_advance phase plain_ne).bind
  intro _
  cases terminalError with
  | none => exact keeps_result job reason
  | some error => exact (keeps_emitFailedRun job reason).bind fun _ => Prog.keeps_raise

theorem keeps_handleFailure (hops : job.runtime.cacheOps = InMemoryCacheStore.ops onCommit)
    (prepared : Prepared Cand State) (error : PyExc) :
    Prog.Keeps Session.visible (handleFailure job prepared error : RunM _ _ _ _ _ α) :=
  Prog.keeps_read.bind fun _ => Prog.Keeps.ite Prog.keeps_raise <|
    (keeps_rollbackPreservingError hops).bind fun _ => keeps_releaseReserved.bind fun _ =>
      (keeps_auditRound prepared _ 0 0).bind fun _ => keeps_abortAndRaise error

/-! ### Publication -/

variable [DecidableEq State] {s : Session W (InMemoryCacheStore State) Cand State Obj} {staged : PyDict State}

omit [DecidableEq State] in
theorem InMemoryCacheStore.commit_closes (s : CacheContext (InMemoryCacheStore State) W State) :
    Prog.wp (commit onCommit) (fun r t => r.isOk = true → t.txn.closed = true) s := by
  obtain ⟨error, t, hcommit, -⟩ | ⟨receipt, t, hcommit, -, -, -, htxn⟩ := commit_cases onCommit s
  · exact Prog.wp_of_eq hcommit (by rintro ⟨⟩)
  · exact Prog.wp_of_eq hcommit fun _ => by rw [htxn]; rfl

omit [DecidableEq State] in
theorem lookup_update {values : PyDict State} {entry : Sigma fun _ : String => State} (h : entry ∈ staged.entries) :
    (values.update staged).lookup entry.1 = some entry.2 := by
  unfold PyDict.update
  have hlookup : staged.lookup entry.1 = some entry.2 := AList.mem_lookup_iff.mpr h
  rw [AList.lookup_union_left (AList.lookup_isSome.mp (by rw [hlookup]; rfl)), hlookup]

/-- The verification of a commit that did what it should. -/
theorem validatedCacheCommitReceipt_private (hops : job.runtime.cacheOps = InMemoryCacheStore.ops onCommit)
    (hgeneration : s.cache.generation = s.cacheTxn.expectedGeneration + 1)
    (hvalues : ∀ entry ∈ staged.entries, s.cache.values.lookup entry.1 = some entry.2)
    (hclosed : s.cacheTxn.closed = true) :
    Prog.wp (validatedCacheCommitReceipt job
        (some ⟨s.cacheTxn.expectedGeneration, s.cacheTxn.expectedGeneration + 1, staged.size⟩) staged)
      (fun r _ => ∃ receipt, r = .ok (.confirmed receipt)) s := by
  have hfound : snapshotMatches (s.cacheTxn.expectedGeneration + 1) staged (s.cache.generation, s.cache.values) =
      true := by
    unfold snapshotMatches
    rw [Bool.and_eq_true, beq_iff_eq, List.all_eq_true]
    exact ⟨hgeneration, fun entry hentry => decide_eq_true (hvalues entry hentry)⟩
  unfold validatedCacheCommitReceipt
  rw [Prog.wp_read_bind, hops]
  have hsnapshot : Prog.wp (onCache (InMemoryCacheStore.ops onCommit).snapshot)
      (fun r t => r = .ok (s.cache.generation, s.cache.values) ∧ t.cacheTxn = s.cacheTxn) s := ⟨rfl, rfl⟩
  refine Prog.wp_attempt_bind hsnapshot ?_
  intro outcome t ht
  obtain ⟨rfl, htxn⟩ := ht
  unfold observe
  rw [Prog.wp_read_bind, Prog.wp_modify_bind, htxn, hclosed]
  dsimp only
  rw [if_pos hfound, if_pos (by simp)]
  exact ⟨_, rfl⟩

/-- A commit and its verification: it is confirmed, or it raised and the store is as it was. -/
theorem commitVerified_private (hops : job.runtime.cacheOps = InMemoryCacheStore.ops onCommit)
    (hstaged : s.cacheTxn.staged = staged) :
    Prog.wp (commitCache job staged >>= fun rawReceipt => validatedCacheCommitReceipt job rawReceipt staged)
      (fun r t => (∃ receipt, r = .ok (.confirmed receipt)) ∨
        (∃ error, r = .error error) ∧ t.visible = s.visible) s := by
  apply Prog.wp_bind_of commitCache_spec
  · intro rawReceipt t ht
    obtain ⟨committed, ⟨w, w', hcommit⟩, hcore⟩ := ht
    rw [hops] at hcommit
    obtain ⟨hexpected, hfresh, hreceipt, hstore⟩ := Prog.wp_of_run (InMemoryCacheStore.commit_spec _) hcommit
    have hclosed := Prog.wp_of_run (InMemoryCacheStore.commit_closes _) hcommit rfl
    have hcache : t.cache = committed.1 := congrArg Core.cache hcore
    have htxn : t.cacheTxn = committed.2 := congrArg Core.cacheTxn hcore
    have hsame : t.cacheTxn.expectedGeneration = s.cache.generation := by
      rw [htxn]
      exact hexpected.trans hfresh
    have hraw : rawReceipt =
        some ⟨t.cacheTxn.expectedGeneration, t.cacheTxn.expectedGeneration + 1, staged.size⟩ := by
      rw [hsame, ← hstaged]
      exact hreceipt
    rw [hraw]
    apply Prog.wp_mono (validatedCacheCommitReceipt_private hops _ _ _)
    · intro r u hr
      exact .inl hr
    · rw [hcache, hsame]
      exact congrArg InMemoryCacheStore.generation hstore
    · intro entry hentry
      have hvalues : t.cache.values = s.cache.values.update staged := by
        rw [hcache, ← hstaged]
        exact congrArg InMemoryCacheStore.values hstore
      rw [hvalues]
      exact lookup_update hentry
    · rw [htxn]
      exact hclosed
  · intro error t ht
    obtain ⟨committed, ⟨w, w', hcommit⟩, hcore⟩ := ht
    rw [hops] at hcommit
    obtain ⟨-, hstore⟩ := Prog.wp_of_run (InMemoryCacheStore.commit_spec _) hcommit
    refine .inr ⟨⟨error, rfl⟩, ?_⟩
    rw [Session.visible, hcore]
    exact Core.visible_withCache _ hstore

/-- A round that is not confirmed publishes nothing. -/
theorem publishRound_private (hops : job.runtime.cacheOps = InMemoryCacheStore.ops onCommit)
    (prepared : Prepared Cand State) (decision : Decision State Obj) (hempty : s.cacheTxn.staged = ∅) :
    Prog.wp (publishRound job prepared decision staged)
      (fun r t => (∃ receipt, r = .ok (.inr receipt)) ∨ t.visible = s.visible) s := by
  unfold publishRound
  have hstage : Prog.wp (onCache (job.runtime.cacheOps.stage staged))
      (fun r t => t.visible = s.visible ∧ (r = .ok () → t.cacheTxn.staged = staged)) s := by
    apply Prog.wp_mono (onCache_spec s _)
    intro r t ht
    obtain ⟨store, hcore, w, w', hcall⟩ := ht
    rw [hops] at hcall
    obtain ⟨hstore, -, -, hadded⟩ := Prog.wp_of_run (InMemoryCacheStore.stage_spec staged _) hcall
    constructor
    · rw [Session.visible, hcore]
      exact Core.visible_withCache _ hstore
    · intro hr
      have hupdate : s.cacheTxn.staged.update staged = staged := by
        rw [hempty]
        exact AList.union_empty
      have htxn : t.cacheTxn = store.2 := congrArg Core.cacheTxn hcore
      rw [htxn, ← hupdate]
      exact hadded hr
  apply Prog.wp_bind_of hstage
  · intro _ t ht
    obtain ⟨hvisible, hstaged⟩ := ht
    refine Prog.wp_attempt_bind (commitVerified_private hops (hstaged rfl)) ?_
    intro verdict u hu
    obtain ⟨receipt, rfl⟩ | ⟨⟨error, rfl⟩, hsame⟩ := hu
    · exact .inl ⟨receipt, rfl⟩
    · have hfailed : ∀ {x : RunM W (InMemoryCacheStore State) Cand State Obj
          (RunResult State Obj ⊕ CacheCommitReceipt)}, Prog.Keeps Session.visible x →
          Prog.wp x (fun r t => (∃ receipt, r = .ok (.inr receipt)) ∨ t.visible = s.visible) u := by
        intro x hx
        exact Prog.wp_mono (hx.after (hsame.trans hvisible)) fun _ _ h => .inr h
      dsimp only
      split_ifs
      · exact hfailed ((keeps_closeRound hops prepared _ _).bind fun _ => Prog.keeps_pure)
      · exact hfailed ((keeps_closeRound hops prepared _ _).bind fun _ => Prog.keeps_pure)
      · exact hfailed Prog.keeps_raise
  · intro error t ht
    exact .inr ht.1

/-! ### One pass -/

variable {deadlineNs : Option Int} {roundId : ℕ} {admission : Admission Cand}
  {c t : Core (InMemoryCacheStore State) State Obj} {txn : CandidateTxn} {prepared : Prepared Cand State}
  {store : InMemoryCacheStore State × CacheTxn State}

omit [DecidableEq State] in
theorem Core.visible_along {trail : Trail (InMemoryCacheStore State) State} {budget : BudgetLedger}
    (hstore : store.1 = c.cache) : (c.along txn trail store budget).visible = c.visible := by
  unfold Core.visible Core.along
  dsimp only
  rw [hstore, publications_append, Trail.events, publications_plain, List.append_nil]

omit [DecidableEq State] in
theorem At.visible {trail : Trail (InMemoryCacheStore State) State} {budget : BudgetLedger}
    (hops : job.runtime.cacheOps = InMemoryCacheStore.ops onCommit) (h : At job c txn trail store budget s)
    (hnone : trail.commits = []) : s.visible = c.visible := by
  have hrun := h.cacheRun
  rw [hops, hnone] at hrun
  rw [Session.visible, h.core]
  exact Core.visible_along (InMemoryCacheStore.store_of_cacheRun hrun (by rintro call ⟨⟩))

omit [DecidableEq State] in
/-- A transaction that was closed before it was reserved. -/
theorem Ended.visible_closing {budget : BudgetLedger} {phase : TxnPhase} {extra : PhaseExtra} {reason : String}
    (hops : job.runtime.cacheOps = InMemoryCacheStore.ops onCommit)
    (h : Ended job c txn .empty store budget phase extra reason s.core) (hclosing : Closing phase extra) :
    s.visible = c.visible := by
  have hrun := h.cacheRun
  rw [hops] at hrun
  have hextra : publications [.candidateTransaction (txn.atPhase phase) extra] = [] := by
    obtain ⟨-, rfl⟩ | ⟨-, rfl | ⟨requested, started, remaining, rfl⟩⟩ := hclosing
    · rfl
    · rfl
    · rfl
  rw [Session.visible, h.core, Core.visible_sealed,
    ← Core.visible_along (InMemoryCacheStore.store_of_cacheRun hrun (by rintro call ⟨⟩))]
  unfold Core.visible Core.advanced
  dsimp only
  rw [publications_append, hextra, List.append_nil]

/-- A pass of the part of a round either hands on a value or leaves what is visible. -/
def HandsOnOr {β : Type} (c : Core (InMemoryCacheStore State) State Obj)
    (r : Except PyExc (RunResult State Obj ⊕ β)) (t : Session W (InMemoryCacheStore State) Cand State Obj) : Prop :=
  (∃ value, r = .ok (.inr value)) ∨ t.visible = c.visible

theorem concludeRound_private {calls : List EvaluateCall} {budget : BudgetLedger}
    (hops : job.runtime.cacheOps = InMemoryCacheStore.ops onCommit)
    (h : At job c txn ⟨[.reserved, .evaluating], calls, [], [], []⟩ store budget s) (hempty : store.2.staged = ∅) :
    Prog.wp (concludeRound job prepared staged roundId) (HandsOnOr c) s := by
  have hfailed : ∀ {t : Session W (InMemoryCacheStore State) Cand State Obj} {x : RunM W _ Cand State Obj
      (RunResult State Obj ⊕ (Decision State Obj × CacheCommitReceipt))}, t.visible = c.visible →
      Prog.Keeps Session.visible x → Prog.wp x (HandsOnOr c) t := by
    intro t x ht hx
    exact Prog.wp_mono (hx.after ht) fun _ _ hu => .inr hu
  unfold concludeRound
  refine Prog.wp_ite (fun _ => hfailed (h.visible hops rfl) Prog.keeps_raise) (fun _ => ?_)
  refine Prog.wp_attempt_bind (onWorld_spec s _) ?_
  intro validated t ht
  have hat := h.of_core ht.1
  cases validated with
  | error error =>
      dsimp only
      split_ifs
      · exact hfailed (hat.visible hops rfl) ((keeps_closeRound hops prepared _ _).bind fun _ => Prog.keeps_pure)
      · exact hfailed (hat.visible hops rfl) Prog.keeps_raise
  | ok _ =>
      refine Prog.wp_bind_of (hat.pass (show TxnPhase.validated ∈ TxnPhase.evaluating.allowedTransitions by decide)) ?_
        (by rintro e u ⟨⟨⟩, -⟩)
      intro _ u hu
      apply Prog.wp_bind_of decideRound_spec
      · intro decision v hv
        have hlast := hu.2.of_core hv.1
        have htxn : v.cacheTxn = store.2 := congrArg Core.cacheTxn hlast.core
        apply Prog.wp_bind_of (publishRound_private hops prepared decision (htxn ▸ hempty))
        · intro published x hx
          obtain ⟨receipt, hreceipt⟩ | hsame := hx
          · cases hreceipt
            exact .inl ⟨_, rfl⟩
          · cases published with
            | inl refused => exact .inr (hsame.trans (hlast.visible hops rfl))
            | inr receipt => exact .inl ⟨_, rfl⟩
        · intro error x hx
          obtain ⟨receipt, ⟨⟩⟩ | hsame := hx
          exact .inr (hsame.trans (hlast.visible hops rfl))
      · intro error v hv
        exact .inr ((hu.2.of_core hv.1).visible hops rfl)

omit [DecidableEq State] in
theorem evaluateRound_private (hops : job.runtime.cacheOps = InMemoryCacheStore.ops onCommit)
    (h : At job c txn ⟨[.reserved], [], [], [], []⟩ store (c.budget.reserving prepared.missingWork.sum) s)
    (hprepared : Reserved job admission c prepared store) (hreserved : c.budget.reserved = 0) :
    Prog.wp (evaluateRound job deadlineNs prepared) (fun _ t => t.visible = c.visible) s := by
  unfold evaluateRound
  refine Prog.wp_bind_of (h.pass (show TxnPhase.evaluating ∈ TxnPhase.reserved.allowedTransitions by decide)) ?_
    (by rintro e t ⟨⟨⟩, -⟩)
  intro _ t ht
  refine Prog.wp_ite (fun _ => ht.2.visible hops rfl) (fun hsome => ?_)
  have hmissing : prepared.missing ≠ [] := by
    rwa [List.isEmpty_iff] at hsome
  apply Prog.wp_bind_of (evaluateObserved_spec ht.2 hprepared hreserved hmissing)
  · intro outcome u hu
    obtain ⟨calls, work, -, hat, -⟩ := hu
    cases outcome with
    | error abort =>
        exact ((keeps_handleAbort hops deadlineNs prepared abort).bind fun _ => Prog.keeps_pure).after
          (hat.visible hops rfl)
    | ok evaluated => exact (Prog.keeps_raise.ite Prog.keeps_pure).after (hat.visible hops rfl)
  · intro error u hu
    obtain ⟨calls, work, -, hat, -⟩ := hu
    exact hat.visible hops rfl

theorem transactRound_private (hops : job.runtime.cacheOps = InMemoryCacheStore.ops onCommit)
    (h : At job c txn ⟨[.reserved], [], [], [], []⟩ store (c.budget.reserving prepared.missingWork.sum) s)
    (hprepared : Reserved job admission c prepared store) (hreserved : c.budget.reserved = 0) :
    Prog.wp (transactRound job deadlineNs prepared roundId) (HandsOnOr c) s := by
  have hempty : store.2.staged = ∅ := by
    rw [(hprepared.lookedUp_private hops).1]
  have hevaluate : Prog.wp (evaluateRound job deadlineNs prepared)
      (StopsOr job deadlineNs roundId admission c txn prepared _) s :=
    evaluateRound_spec h hprepared hreserved
  unfold transactRound
  apply Prog.wp_bind_of (Prog.wp_and (evaluateRound_private hops h hprepared hreserved) hevaluate)
  · intro evaluated t ht
    obtain ⟨hsame, hstops⟩ := ht
    cases evaluated with
    | inl aborted => exact .inr hsame
    | inr staged =>
        obtain ⟨calls, -, hat, -⟩ := hstops
        refine Prog.wp_bind_of (deadlineReached_spec t job deadlineNs) ?_ (by rintro e u ⟨-, _, ⟨⟩, -⟩)
        intro expired u hu
        have hat' := hat.of_core hu.1
        refine Prog.wp_ite (fun _ => ?_) (fun _ => concludeRound_private hops hat' hempty)
        exact Prog.wp_mono (((keeps_closeRound hops prepared "deadline" .interrupted).bind fun _ =>
          Prog.keeps_pure).after (hat'.visible hops rfl)) fun _ _ hv => .inr hv
  · intro error t ht
    exact .inr ht.1

/-- The part of a pass after the reservation. -/
theorem transactAndInstall_private (hops : job.runtime.cacheOps = InMemoryCacheStore.ops onCommit)
    (hprepared : Reserved job admission c prepared store) (hreserved : c.budget.reserved = 0)
    (h : At job c txn .empty store (c.budget.reserving prepared.missingWork.sum) s) :
    Prog.wp (do
        advance .reserved .plain
        let transacted ← Prog.rescue (transactRound job deadlineNs prepared roundId)
          (handleFailure job prepared)
        match transacted with
        | .inl stopped => pure (.done stopped)
        | .inr (decision, receipt) => do
            install decision
            let budget ← Prog.read Session.budget
            advance .committed (.published (publicationOf decision budget.started receipt none))
            pure .next : RunM W (InMemoryCacheStore State) Cand State Obj (RoundExit State Obj))
      (fun r t => r = .ok .next ∨ t.visible = c.visible) s := by
  refine Prog.wp_bind_of (h.pass (show TxnPhase.reserved ∈ TxnPhase.prepared.allowedTransitions by decide)) ?_
    (by rintro e t ⟨⟨⟩, -⟩)
  intro _ t ht
  have htransact : Prog.wp (transactRound job deadlineNs prepared roundId)
      (StopsOr job deadlineNs roundId admission c txn prepared
        (GoesOn job deadlineNs roundId admission c txn prepared)) t :=
    transactRound_spec ht.2 hprepared hreserved
  refine Prog.wp_bind.mpr (Prog.wp_rescue.mpr (Prog.wp_mono
    (Prog.wp_and (transactRound_private hops ht.2 hprepared hreserved) htransact) ?_))
  intro r u hu
  obtain ⟨hands, hstops⟩ := hu
  cases r with
  | error error =>
      obtain ⟨value, ⟨⟩⟩ | hsame := hands
      refine Prog.wp_mono (Prog.wp_and ((keeps_handleFailure hops prepared error).after hsame)
        (handleFailure_spec hprepared hstops)) ?_
      intro r v hv
      obtain ⟨hlast, raised, rfl, -⟩ := hv
      exact .inr hlast
  | ok transacted =>
      cases transacted with
      | inl stopped =>
          obtain ⟨value, ⟨⟩⟩ | hsame := hands
          exact .inr hsame
      | inr value =>
          obtain ⟨trail, staged, committed, store', -, hpath, -, hat⟩ := hstops
          have htransaction : u.transaction = some (txn.atPhase .validated) := by
            rw [hat.transaction, Trail.phase, hpath]
            rfl
          dsimp only
          rw [Prog.andThen_ok]
          unfold install
          rw [Prog.wp_modify_bind, Prog.wp_read_bind]
          refine Prog.wp_bind_of (advance_spec _ _ htransaction
            (show TxnPhase.committed ∈ TxnPhase.validated.allowedTransitions by decide)) ?_ (by rintro e v ⟨⟨⟩, -⟩)
          intro _ v _
          exact .inl rfl

omit [DecidableEq State] in
/-- A session whose transaction was just prepared. -/
theorem At.opened {t : Session W (InMemoryCacheStore State) Cand State Obj}
    (htxn : txn.phase = .prepared) (ht : t.core = s.core.drawn) (screening : Screening) :
    At job (s.core.drawn.opened screening txn) txn .empty (s.core.drawn.opened screening txn).store
      (s.core.drawn.opened screening txn).budget
      { t with
        semanticEvents := (t.semanticEvents ++ [.candidateScreening screening]) ++ [.candidateTransaction txn .plain]
        transaction := some txn } := by
  refine ⟨?_, .refl⟩
  have hcore : ({ t with
      semanticEvents := (t.semanticEvents ++ [.candidateScreening screening]) ++ [.candidateTransaction txn .plain]
      transaction := some txn } : Session W (InMemoryCacheStore State) Cand State Obj).core =
      t.core.opened screening txn := by
    simp [Session.core, Core.opened]
  rw [hcore, ht]
  exact (Core.along_empty rfl htxn).symm

theorem runRound_private (hops : job.runtime.cacheOps = InMemoryCacheStore.ops onCommit) (hs : Between s.core) :
    Prog.wp (runRound job deadlineNs roundId) (fun r t => r = .ok .next ∨ t.visible = s.visible) s := by
  have hdrawn : s.core.drawn.visible = s.visible := by
    obtain ⟨tape, -, hdrawn⟩ := s.core.drawn_eq
    rw [hdrawn]
    rfl
  unfold runRound
  apply Prog.wp_bind_of proposeRound_spec
  · intro proposal t hend
    cases hend with
    | deadline ht hdeadline =>
        refine Prog.wp_mono (((keeps_result job _).bind fun _ => Prog.keeps_pure).after ?_) fun _ _ hu => .inr hu
        exact congrArg Core.visible ht
    | exhausted ht hcalled =>
        refine Prog.wp_mono (((keeps_result job _).bind fun _ => Prog.keeps_pure).after ?_) fun _ _ hu => .inr hu
        exact (congrArg Core.visible ht).trans hdrawn
    | @proposed candidates limit admission ht hproposed =>
        have hsame : t.visible = s.visible := (congrArg Core.visible ht).trans hdrawn
        have hadded : ∀ events, publications events = [] →
            ({ t with semanticEvents := t.semanticEvents ++ events } : Session W _ Cand State Obj).visible =
              s.visible := by
          intro events hevents
          rw [← hsame]
          unfold Session.visible Core.visible Session.core
          dsimp only
          rw [publications_append, hevents, List.append_nil]
        dsimp only
        unfold record
        rw [Prog.wp_modify_bind]
        refine Prog.wp_ite (fun _ => ?_) (fun hsome => ?_)
        · rw [Prog.wp_modify_bind]
          refine Prog.wp_mono (((keeps_result job _).bind fun _ => Prog.keeps_pure).after ?_) fun _ _ hu => .inr hu
          dsimp only
          rw [List.append_assoc]
          exact hadded _ rfl
        · rw [List.isEmpty_iff] at hsome
          obtain ⟨txn, hnew, hopens⟩ := (admitCandidates_spec hproposed.admitted).opensTxn hsome roundId hs.digest
          have htdigest : t.stateDigest = s.core.stateDigest := congrArg Core.stateDigest ht
          rw [← htdigest] at hnew
          rw [Prog.wp_read_bind]
          dsimp only
          rw [hnew, Prog.resume_ok, Prog.wp_pure_bind, Prog.wp_modify_bind, Prog.wp_modify_bind]
          let opened := s.core.drawn.opened (screeningOf candidates.length limit admission) txn
          have hopened : Opened job roundId s.core opened txn admission :=
            ⟨⟨candidates, limit, hproposed, rfl⟩, hsome, hopens⟩
          have hvisible : opened.visible = s.visible := by
            rw [← hdrawn]
            obtain ⟨tape, -, hdrawn⟩ := s.core.drawn_eq
            unfold opened
            rw [hdrawn]
            unfold Core.opened Core.visible
            dsimp only
            rw [publications_append]
            exact congrArg (Visible.mk _ _ _ _) (List.append_nil _)
          have hreserved : opened.budget.reserved = 0 := by
            rw [hopened.budget]
            exact hs.reserved
          rw [← hvisible]
          have hat : At job opened txn .empty opened.store opened.budget _ := .opened hopens.phase ht _
          apply Prog.wp_bind_of (prepareRound_spec hat hreserved)
          · intro preparation u hend
            generalize hr : Except.ok preparation = r at hend
            cases hend with
            | @closed _ _ _ _ outcome hclosing hended hfinished =>
                cases outcome with
                | error error => cases hr
                | ok stopped =>
                    cases hr
                    exact .inr (hended.visible_closing hops hclosing)
            | ready hprepared hat' =>
                cases hr
                exact transactAndInstall_private hops hprepared hreserved hat'
          · intro error u hend
            generalize hr : Except.error error = r at hend
            cases hend with
            | closed hclosing hended hfinished => exact .inr (hended.visible_closing hops hclosing)
            | ready hprepared hat' => cases hr
  · intro error t hend
    cases hend with
    | raised ht => exact .inr ((congrArg Core.visible ht).trans hdrawn)

/-! ### Runs -/

/-- What a run has committed when it has gone through `rounds` rounds. -/
structure CommitTally (first : Core (InMemoryCacheStore State) State Obj) (rounds : ℕ)
    (c : Core (InMemoryCacheStore State) State Obj) : Prop where
  count : (publications c.semanticEvents).length = rounds
  generation : c.cache.generation = first.cache.generation + rounds
  digest : c.stateDigest = ((publications c.semanticEvents).getLast?.map Publication.stateDigest).getD first.stateDigest
  generations : (publications c.semanticEvents).map Publication.cacheGeneration =
    (List.range rounds).map fun round => first.cache.generation + round + 1

theorem CommittedRound.publications (h : CommittedRound job deadlineNs roundId c t) :
    ∃ publication, TxnOpt.publications t.semanticEvents = TxnOpt.publications c.semanticEvents ++ [publication] ∧
      Publishes job deadlineNs roundId c t publication := by
  obtain ⟨e, -, hphase, hend, hevents, -⟩ := h.episode
  have hsteps : TxnOpt.publications (.candidateScreening e.screening :: e.steps) = [] := by
    unfold Episode.steps
    exact publications_plain e.txn e.path
  have hadded : TxnOpt.publications t.semanticEvents = TxnOpt.publications c.semanticEvents ++
      TxnOpt.publications [.candidateTransaction (e.txn.atPhase e.phase) e.extra] := by
    rw [hevents, Episode.events, ← List.cons_append, publications_append, publications_append, hsteps, List.nil_append]
  rw [hphase] at hend
  generalize e.extra = extra at hend hadded
  cases hend with
  | withheld hwithheld => obtain (⟨⟨⟩, -⟩ | ⟨⟨⟩, -⟩) | ⟨⟨⟩, -⟩ := hwithheld
  | published hpublishes => exact ⟨_, hadded, hpublishes⟩

theorem CommittedRound.tally {first : Core (InMemoryCacheStore State) State Obj}
    (hops : job.runtime.cacheOps = InMemoryCacheStore.ops onCommit) (hc : CommitTally first roundId c)
    (h : CommittedRound job deadlineNs roundId c t) : CommitTally first (roundId + 1) t := by
  obtain ⟨publication, hadded, hpublishes⟩ := h.publications
  have hgeneration := hpublishes.generation_eq (hops ▸ InMemoryCacheStore.privateStore onCommit)
  constructor
  · rw [hadded, List.length_append, hc.count]
    rfl
  · rw [hgeneration.2, hgeneration.1, hc.generation, Nat.add_assoc]
  · rw [hadded, List.getLast?_concat]
    exact hpublishes.digest
  · rw [hadded, List.map_append, hc.generations, List.range_succ, List.map_append, List.map_singleton,
      List.map_singleton, hgeneration.1, hc.generation]

omit [DecidableEq State] in
theorem CommitTally.of_visible {first t : Core (InMemoryCacheStore State) State Obj} {rounds : ℕ}
    (h : CommitTally first rounds c) (ht : t.visible = c.visible) : CommitTally first rounds t := by
  have hcache : t.cache = c.cache := congrArg Visible.cache ht
  have hdigest : t.stateDigest = c.stateDigest := congrArg Visible.stateDigest ht
  have hevents : publications t.semanticEvents = publications c.semanticEvents := congrArg Visible.publications ht
  exact ⟨hevents ▸ h.count, hcache ▸ h.generation, by rw [hdigest, hevents]; exact h.digest, hevents ▸ h.generations⟩

variable {first final : Session W (InMemoryCacheStore State) Cand State Obj} {initialState : State} {world : W}
  {outcome : Except PyExc (RunResult State Obj)}

omit [DecidableEq State] in
theorem OpenedRun.tally {c : Core (InMemoryCacheStore State) State Obj}
    (h : OpenedRun job initialState deadlineNs c) : CommitTally c 0 c := by
  have hevents : publications c.semanticEvents = [] := by
    rw [h.core]
    rfl
  constructor
  · rw [hevents]
    rfl
  · rfl
  · rw [hevents]
    rfl
  · rw [hevents]
    rfl

theorem LastRound.visible_eq (hops : job.runtime.cacheOps = InMemoryCacheStore.ops onCommit) (hs : Between s.core)
    (h : LastRound job deadlineNs roundId s outcome final) : final.visible = s.visible := by
  cases h with
  | limit _ hfinal _ =>
      rw [Session.visible, hfinal]
      rfl
  | round _ hround _ =>
      obtain hnext | hsame := Prog.wp_of_run (runRound_private hops hs) hround
      · cases outcome with
        | error error => cases hnext
        | ok value => cases hnext
      · exact hsame

theorem run_shows (hops : job.runtime.cacheOps = InMemoryCacheStore.ops onCommit)
    (hrun : run job initialState world = .ended outcome final) :
    ∃ deadlineNs first world' rounds s, openRun job initialState world = (.ok (first, deadlineNs), world') ∧
      OpenedRun job initialState deadlineNs first.core ∧ RoundStart job deadlineNs first rounds s ∧
      LastRound job deadlineNs rounds s outcome final ∧ final.visible = s.visible ∧
      CommitTally first.core rounds final.core := by
  obtain ⟨deadlineNs, first, world', roundId, s, hopen, hopened, hs, hlast⟩ := run_ended hrun
  have hvisible := hlast.visible_eq hops (hs.between hopened.between)
  have htally : CommitTally first.core roundId s.core :=
    hs.invariant (CommitTally first.core) hopened.between hopened.tally
      fun _ _ _ _ hc hround => hround.tally hops hc
  exact ⟨deadlineNs, first, world', roundId, s, hopen, hopened, hs, hlast, hvisible, htally.of_visible hvisible⟩

/-- The state and the objective that a run returns are those of its last session. -/
theorem run_returns {value : RunResult State Obj} (hrun : run job initialState world = .ended (.ok value) final) :
    value.lastCommittedState = final.state ∧ value.objective = final.objective := by
  obtain ⟨deadlineNs, first, world', roundId, s, -, -, -, hlast⟩ := run_ended hrun
  obtain ⟨reason, physicalRef, rfl⟩ := hlast.finished
  exact ⟨rfl, rfl⟩

end

/-! ### A commit that is refused -/

theorem refusing_work : 0 < 5 := Nat.succ_pos 4

theorem refusing_rounds : 0 < 3 := Nat.succ_pos 2

/-- The callback of the second commit raises. -/
def refusingJob : Job ℕ (InMemoryCacheStore Int) Int Int Int where
  runtime := IntegerDomain.runtime
    (InMemoryCacheStore.ops (some fun _ commits =>
      if commits = 1 then (.error (.valueError "disk full"), commits) else (.ok (), commits + 1)))
    .new fun _ => []
  kernel := IntegerDomain.kernel [1]
  oracle := IntegerDomain.oracle (fun _ => 1) pure
  config := IntegerDomain.serialConfig 5 3 refusing_work refusing_rounds

end TxnOpt
