import TxnOpt.Runtime.Proof.Transaction
import TxnOpt.Runtime.Proof.Admission

/-!
# One round

`RoundEnd` lists the ways one pass of the loop can end, with everything the theorems about runs need to
know of each; `runRound_spec` is the only place where a pass is taken apart.
-/

namespace TxnOpt

section

variable {W C Cand State Obj : Type} [DecidableEq State]

/-- The ends of a transaction that stop the run, once the outer handler has been through: it is closed
and the run sealed, or an audit was refused twice and both stay open. -/
inductive Concluded (job : Job W C Cand State Obj) (deadlineNs : Option Int) (roundId : Nat)
    (admission : Admission Cand) (c : Core C State Obj) (txn : CandidateTxn)
    (prepared : Prepared Cand State) (t : Session W C Cand State Obj) :
    Except PyExc (RunResult State Obj) → Prop
  | closed {trail store work phase reason outcome} :
      Worked c prepared work trail → TrailPath trail.path →
      Unconfirmed job trail.commits trail.verified →
      (phase = .aborted ∨ phase = .interrupted) →
      Ended job c txn trail store (c.budget.spent work) phase .plain reason t.core →
      Finished job t.core reason outcome →
      Concluded job deadlineNs roundId admission c txn prepared t outcome
  | unknown {trail store raised} :
      Worked c prepared prepared.missingWork.sum trail → TrailPath trail.path →
      OutcomeUnknown job trail →
      Ended job c txn trail store (c.budget.spent prepared.missingWork.sum) .interrupted
        .unknownOutcome "cache_outcome_unknown" t.core →
      Concluded job deadlineNs roundId admission c txn prepared t (.error raised)
  | reconstructed {trail decision staged committed store status raised} :
      Published job deadlineNs roundId admission c prepared trail decision staged committed store →
      CacheRun job.runtime.cacheOps c.store trail.commits (store.1, store.2.close) →
      t.core = (((c.along txn trail (store.1, store.2.close)
          (c.budget.spent prepared.missingWork.sum)).installed decision).advanced txn .committed
            (.published (publicationOf decision (c.budget.started + prepared.missingWork.sum)
              (confirmedReceipt committed staged) (some status)))).sealed
            job.runtime.semanticEventSink "runtime_contract_error" →
      Concluded job deadlineNs roundId admission c txn prepared t (.error raised)
  | unsealed {trail store work error} :
      Worked c prepared work trail → TrailPath trail.path →
      (Unconfirmed job trail.commits trail.verified ∨ OutcomeUnknown job trail) →
      auditRefusal c.budget.remaining prepared.missingWork work 0 0 = some error →
      (∀ call ∈ loggedAudits c.budget.remaining prepared.missingWork work 0 0,
        call ∈ trail.audits) →
      At job c txn trail store (c.budget.spent work) t →
      Concluded job deadlineNs roundId admission c txn prepared t (.error error)

variable {job : Job W C Cand State Obj} {deadlineNs : Option Int} {roundId : Nat}
  {admission : Admission Cand} {c : Core C State Obj} {txn : CandidateTxn}
  {prepared : Prepared Cand State} {store : C × CacheTxn State} {s : Session W C Cand State Obj}

omit [DecidableEq State] in
theorem Ended.terminal {trail : Trail C State} {budget : BudgetLedger} {phase : TxnPhase}
    {extra : PhaseExtra} {reason : String} {t : Session W C Cand State Obj}
    (h : Ended job c txn trail store budget phase extra reason t.core)
    (hphase : phase ∈ TxnPhase.terminalPhases) :
    t.transaction.any CandidateTxn.terminal = true := by
  have htransaction : t.transaction = some (txn.atPhase phase) := congrArg Core.transaction h.core
  rw [htransaction]
  exact decide_eq_true hphase

/-- An end that left its transaction closed is raised on; an open one is closed by the outer handler,
unless its audit is refused. -/
theorem handleFailure_spec {looked} {error : PyExc} {α : Type}
    (hprepared : Reserved job admission c prepared looked)
    (h : Stopped job deadlineNs roundId admission c txn prepared s (.error error)) :
    Prog.wp (handleFailure job prepared error : RunM W C Cand State Obj α)
      (fun r t => ∃ raised, r = .error raised ∧
        Concluded job deadlineNs roundId admission c txn prepared t (.error raised)) s := by
  unfold handleFailure
  rw [Prog.wp_read_bind]
  cases h with
  | @closed trail store work phase reason _ hworked hpath hunconfirmed haudits hphase hended hfin =>
      have hterminal : phase ∈ TxnPhase.terminalPhases := by
        rcases hphase with rfl | rfl <;> decide
      rw [if_pos (hended.terminal hterminal)]
      exact ⟨error, rfl, .closed hworked hpath hunconfirmed hphase hended hfin⟩
  | @unknown trail store _ hworked hpath hunknown haudits hended =>
      rw [if_pos (hended.terminal (by decide))]
      exact ⟨error, rfl, .unknown hworked hpath hunknown hended⟩
  | @reconstructed trail decision staged committed store status _ hpublished hrun hcore =>
      have htransaction : s.transaction = some (txn.atPhase .committed) :=
        congrArg Core.transaction hcore
      rw [htransaction, if_pos (by rfl)]
      exact ⟨error, rfl, .reconstructed hpublished hrun hcore⟩
  | @failed trail store work _ hworked hpath hcommit hat =>
      have hopen : s.transaction.any CandidateTxn.terminal = false := by
        rw [hat.transaction]
        exact decide_eq_false (Trail.phase_open hpath)
      rw [hopen, if_neg Bool.false_ne_true]
      refine Prog.wp_bind_of hat.rollbackPreservingError ?_ (by rintro e t ⟨-, _, ⟨⟩⟩)
      rintro cleanup t ⟨⟨store', ht⟩, -⟩
      refine Prog.wp_bind_of ht.releaseReserved ?_ (by rintro e u ⟨⟨⟩, -⟩)
      rintro ⟨⟩ u ⟨-, hu⟩
      rw [BudgetLedger.releaseReserved_spent] at hu
      have hworked' := hworked.audited (Nat.zero_le 0) (Nat.zero_le _)
      refine Prog.wp_bind_of (auditRound_spec hu hprepared _) ?_ ?_
      · rintro ⟨⟩ v ⟨hv, hend⟩
        have hpassed := eq_none_of_endingWith hend
        have hunconfirmed : Unconfirmed job trail.commits trail.verified :=
          hcommit.resolve_right fun hunknown => hunknown.2 hpassed
        refine Prog.wp_mono (hv.abortAndRaise error
          (TxnPhase.aborted_mem (Trail.phase_open hpath))) ?_
        rintro r x ⟨hended, raised, rfl⟩
        exact ⟨raised, rfl, .closed hworked' hpath hunconfirmed (.inl rfl) hended
          (by rintro _ ⟨⟩)⟩
      · rintro refused v ⟨hv, hend⟩
        have hrefused : auditRefusal c.budget.remaining prepared.missingWork work 0 0 =
            some refused := by
          cases hrefusal : auditRefusal c.budget.remaining prepared.missingWork work 0 0 with
          | none =>
              rw [Nat.cast_zero, hrefusal] at hend
              cases hend
          | some raised =>
              rw [Nat.cast_zero, hrefusal] at hend
              cases hend
              rfl
        exact ⟨refused, rfl, .unsealed hworked' hpath (hcommit.imp id And.left) hrefused
          (fun call hcall => List.mem_append_right _ hcall) hv⟩

/-! ### From the proposal to the end of the pass -/

/-- The core once the random words of a round are drawn. -/
def Core.drawn (c : Core C State Obj) : Core C State Obj :=
  { c with randomTape := (c.randomTape.take tapeWordsPerRound).2 }

omit [DecidableEq State] in
/-- The drawn words by a name: `RandomTape.take` is not to be unfolded when cores are compared. -/
theorem Core.drawn_eq (c : Core C State Obj) :
    ∃ tape, tape = (c.randomTape.take tapeWordsPerRound).2 ∧
      c.drawn = { c with randomTape := tape } := ⟨_, rfl, rfl⟩

def Core.opened (c : Core C State Obj) (screening : Screening) (txn : CandidateTxn) :
    Core C State Obj :=
  { c with
    transaction := some txn
    semanticEvents :=
      c.semanticEvents ++ [.candidateScreening screening, .candidateTransaction txn .plain] }

/-- What a round proposed and admitted. -/
structure Proposed (job : Job W C Cand State Obj) (roundId : Nat) (c : Core C State Obj)
    (candidates : List Cand) (limit : Option Nat) (admission : Admission Cand) : Prop where
  proposal : Called
    (job.kernel.propose c.state roundId (c.randomTape.take tapeWordsPerRound).1) (.ok candidates)
  candidates_ne_nil : candidates ≠ []
  checkedLimit : Called (admissionLimit job.kernel) (.ok limit)
  admitted : Called (admitCandidates job.oracle candidates limit) (.ok admission)

/-- How a proposal ends: with an exception, with a reason to stop, or with candidates. -/
inductive ProposeEnd (job : Job W C Cand State Obj) (deadlineNs : Option Int) (roundId : Nat)
    (c t : Core C State Obj) : Except PyExc (Proposal Cand) → Prop
  | raised {error} : t = c.drawn → ProposeEnd job deadlineNs roundId c t (.error error)
  | deadline : t = c → deadlineNs ≠ none →
      ProposeEnd job deadlineNs roundId c t (.ok (.stop "deadline"))
  | exhausted : t = c.drawn →
      Called (job.kernel.propose c.state roundId (c.randomTape.take tapeWordsPerRound).1) (.ok []) →
      ProposeEnd job deadlineNs roundId c t (.ok (.stop "kernel_exhausted"))
  | proposed {candidates limit admission} : t = c.drawn →
      Proposed job roundId c candidates limit admission →
      ProposeEnd job deadlineNs roundId c t (.ok (.candidates candidates.length limit admission))

omit [DecidableEq State] in
theorem proposeRound_spec :
    Prog.wp (proposeRound job deadlineNs roundId)
      (fun r t => ProposeEnd job deadlineNs roundId s.core t.core r) s := by
  unfold proposeRound
  refine Prog.wp_bind_of (deadlineReached_spec s job deadlineNs) ?_ (by rintro e t ⟨-, _, ⟨⟩, -⟩)
  rintro expired t ⟨ht, _, ⟨⟩, hexpired⟩
  refine Prog.wp_ite (fun hstop => .deadline ht (hexpired hstop)) (fun _ => ?_)
  rw [Prog.wp_read_bind, Prog.wp_modify_bind, Prog.wp_read_bind]
  have htape : t.randomTape = s.core.randomTape := congrArg Core.randomTape ht
  have hdrawn : ({ t with randomTape := (t.randomTape.take tapeWordsPerRound).2 } :
      Session W C Cand State Obj).core = s.core.drawn := congrArg Core.drawn ht
  generalize ({ t with randomTape := (t.randomTape.take tapeWordsPerRound).2 } :
    Session W C Cand State Obj) = d at hdrawn ⊢
  have hstate : d.state = s.core.state := congrArg Core.state hdrawn
  rw [htape, hstate]
  refine Prog.wp_bind_of (onWorld_spec d _) ?_ (fun _ _ hu => .raised (hu.1.trans hdrawn))
  rintro candidates u ⟨hu, hcandidates⟩
  have hu' := hu.trans hdrawn
  refine Prog.wp_ite (fun hnone => ?_) (fun hsome => ?_)
  · rw [List.isEmpty_iff] at hnone
    exact .exhausted hu' (hnone ▸ hcandidates)
  refine Prog.wp_bind_of (onWorld_spec u _) ?_ (fun _ _ hv => .raised (hv.1.trans hu'))
  rintro limit v ⟨hv, hlimit⟩
  refine Prog.wp_bind_of (onWorld_spec v _) ?_
    (fun _ _ hx => .raised (hx.1.trans (hv.trans hu')))
  rintro admission x ⟨hx, hadmission⟩
  exact .proposed (hx.trans (hv.trans hu'))
    ⟨hcandidates, by simpa [List.isEmpty_iff] using hsome, hlimit, hadmission⟩

/-- The transaction `txn` was `PREPARED` at the core `opened`, in the round that started at `c`. -/
structure Opened (job : Job W C Cand State Obj) (roundId : Nat) (c opened : Core C State Obj)
    (txn : CandidateTxn) (admission : Admission Cand) : Prop where
  proposed : ∃ candidates limit, Proposed job roundId c candidates limit admission ∧
    opened = c.drawn.opened (screeningOf candidates.length limit admission) txn
  admitted_ne_nil : admission.admitted ≠ []
  opensTxn : OpensTxn roundId c.stateDigest admission.admittedKeys txn

/-- The core after a round whose commit was confirmed. -/
def Core.committed (opened : Core C State Obj) (txn : CandidateTxn) (trail : Trail C State)
    (store : C × CacheTxn State) (work : Nat) (decision : Decision State Obj)
    (receipt : CacheCommitReceipt) : Core C State Obj :=
  ((opened.along txn trail store (opened.budget.spent work)).installed decision).advanced txn
    .committed (.published (publicationOf decision (opened.budget.started + work) receipt none))

/-- A pass that goes from the core `c` to the core `t` by a confirmed commit. -/
inductive CommittedRound (job : Job W C Cand State Obj) (deadlineNs : Option Int) (roundId : Nat)
    (c t : Core C State Obj) : Prop
  | intro {opened txn admission prepared trail decision staged committed store} :
      Opened job roundId c opened txn admission →
      Published job deadlineNs roundId admission opened prepared trail decision staged committed
        store →
      CacheRun job.runtime.cacheOps opened.store trail.commits store →
      t = opened.committed txn trail store prepared.missingWork.sum decision
        (confirmedReceipt committed staged) →
      CommittedRound job deadlineNs roundId c t

/-- The ends of a pass from the session `s`. -/
inductive RoundEnd (job : Job W C Cand State Obj) (deadlineNs : Option Int) (roundId : Nat)
    (s t : Session W C Cand State Obj) : Except PyExc (RoundExit State Obj) → Prop
  | unproposed {error} :
      (proposeRound job deadlineNs roundId s).1 = .error error → t.core = s.core.drawn →
      RoundEnd job deadlineNs roundId s t (.error error)
  | stopped {last reason outcome} :
      (last = s.core ∧ reason = "deadline" ∧ deadlineNs ≠ none ∨
        last = s.core.drawn ∧ reason = "kernel_exhausted" ∧ Called (job.kernel.propose s.core.state
          roundId (s.core.randomTape.take tapeWordsPerRound).1) (.ok [])) →
      t.core = last.sealed job.runtime.semanticEventSink reason →
      Finished job t.core reason outcome →
      RoundEnd job deadlineNs roundId s t (outcome.map .done)
  | inadmissible {candidates limit admission outcome} :
      Proposed job roundId s.core candidates limit admission → admission.admitted = [] →
      t.core = ((s.core.drawn.recorded
        (.candidateScreening (screeningOf candidates.length limit admission))).recorded
        (.roundTerminated "no_admissible_candidates")).sealed job.runtime.semanticEventSink
          "no_admissible_candidates" →
      Finished job t.core "no_admissible_candidates" outcome →
      RoundEnd job deadlineNs roundId s t (outcome.map .done)
  | unprepared {opened txn admission phase extra reason store outcome} :
      Opened job roundId s.core opened txn admission → Closing phase extra →
      Ended job opened txn .empty store opened.budget phase extra reason t.core →
      Finished job t.core reason outcome →
      RoundEnd job deadlineNs roundId s t (outcome.map .done)
  | concluded {opened txn admission prepared looked outcome} :
      Opened job roundId s.core opened txn admission →
      Reserved job admission opened prepared looked →
      Concluded job deadlineNs roundId admission opened txn prepared t outcome →
      RoundEnd job deadlineNs roundId s t (outcome.map .done)
  | committed : CommittedRound job deadlineNs roundId s.core t.core →
      RoundEnd job deadlineNs roundId s t (.ok .next)

omit [DecidableEq State] in
/-- Opening a transaction changes the random tape, the transaction and the events only. -/
theorem Opened.exists_eq {opened : Core C State Obj}
    (h : Opened job roundId c opened txn admission) :
    ∃ tape events, opened =
      { c with randomTape := tape, transaction := some txn, semanticEvents := events } := by
  obtain ⟨candidates, limit, -, rfl⟩ := h.proposed
  obtain ⟨tape, -, hdrawn⟩ := c.drawn_eq
  rw [hdrawn]
  exact ⟨tape, _, rfl⟩

omit [DecidableEq State] in
theorem Opened.budget {opened : Core C State Obj} (h : Opened job roundId c opened txn admission) :
    opened.budget = c.budget := by
  obtain ⟨tape, events, rfl⟩ := h.exists_eq
  rfl

omit [DecidableEq State] in
/-- The outcome of a result, as the end of a pass. -/
theorem result_done_spec (job : Job W C Cand State Obj) (s : Session W C Cand State Obj)
    (reason : String) :
    Prog.wp (result job reason >>= fun stopped => pure (.done stopped) :
        RunM W C Cand State Obj (RoundExit State Obj))
      (fun r t => ∃ outcome, r = outcome.map .done ∧
        t.core = s.core.sealed job.runtime.semanticEventSink reason ∧
        Finished job t.core reason outcome) s := by
  refine Prog.wp_bind_of (result_spec s job reason) ?_ ?_
  · rintro value t ⟨ht, hvalue⟩
    refine ⟨.ok value, rfl, ht, ?_⟩
    intro value' hvalue'
    change IsResult job t.core reason value'
    rw [ht]
    exact hvalue value' hvalue'
  · rintro error t ⟨ht, -⟩
    exact ⟨.error error, rfl, ht, by rintro _ ⟨⟩⟩

theorem Stopped.concluded {stopped : RunResult State Obj} {t : Session W C Cand State Obj}
    (h : Stopped job deadlineNs roundId admission c txn prepared t (.ok stopped)) :
    Concluded job deadlineNs roundId admission c txn prepared t (.ok stopped) := by
  cases h with
  | closed hworked hpath hunconfirmed _ hphase hended hfinished =>
      exact .closed hworked hpath hunconfirmed hphase hended hfinished

/-- The part of a pass after the reservation. -/
theorem transactAndInstall_spec {first : Session W C Cand State Obj} {opened : Core C State Obj}
    {looked : C × CacheTxn State} (hopened : Opened job roundId first.core opened txn admission)
    (hprepared : Reserved job admission opened prepared looked)
    (hreserved : opened.budget.reserved = 0)
    (h : At job opened txn .empty looked (opened.budget.reserving prepared.missingWork.sum) s) :
    Prog.wp (do
        advance .reserved .plain
        let transacted ← Prog.rescue (transactRound job deadlineNs prepared roundId)
          (handleFailure job prepared)
        match transacted with
        | .inl stopped => pure (.done stopped)
        | .inr (decision, receipt) => do
            install decision
            let budget ← Prog.read Session.budget
            advance .committed (.published (publicationOf decision budget.started receipt none))
            pure .next)
      (fun r t => RoundEnd job deadlineNs roundId first t r) s := by
  refine Prog.wp_bind_of (h.pass
    (show TxnPhase.reserved ∈ TxnPhase.prepared.allowedTransitions by decide)) ?_
    (by rintro e t ⟨⟨⟩, -⟩)
  rintro ⟨⟩ t ⟨-, ht⟩
  refine Prog.wp_bind.mpr (Prog.wp_rescue.mpr
    (Prog.wp_mono (transactRound_spec ht hprepared hreserved) ?_))
  rintro (error | stopped | ⟨decision, receipt⟩) u hu
  · refine Prog.wp_mono (handleFailure_spec hprepared hu) ?_
    rintro r v ⟨raised, rfl, hconcluded⟩
    exact .concluded hopened hprepared hconcluded
  · exact .concluded hopened hprepared hu.concluded
  · obtain ⟨trail, staged, committed, store, hpublished, hpath, hreceipt, hat⟩ := hu
    dsimp only at hpublished hreceipt
    obtain rfl := hreceipt
    dsimp only
    rw [Prog.andThen_ok]
    unfold install
    rw [Prog.wp_modify_bind, Prog.wp_read_bind]
    have htransaction : u.transaction = some (txn.atPhase .validated) := by
      rw [hat.transaction, Trail.phase, hpath]
      rfl
    have hcore : ({ u with
        state := decision.nextState
        stateDigest := decision.nextDigest
        objective := decision.nextObjective } : Session W C Cand State Obj).core =
        (opened.along txn trail store (opened.budget.spent prepared.missingWork.sum)).installed
          decision := by
      rw [← hat.core]
      rfl
    have hbudget : u.budget = opened.budget.spent prepared.missingWork.sum := hat.budget_eq
    refine Prog.wp_bind_of (advance_spec _ _ htransaction
      (show TxnPhase.committed ∈ TxnPhase.validated.allowedTransitions by decide)) ?_
      (by rintro e v ⟨⟨⟩, -⟩)
    rintro ⟨⟩ v ⟨-, hv⟩
    refine .committed (.intro hopened hpublished hat.cacheRun ?_)
    change v.core = _
    rw [hv, hcore]
    dsimp only
    rw [hbudget]
    rfl

theorem runRound_spec (hdigest : isDigest s.core.stateDigest = true)
    (hreserved : s.core.budget.reserved = 0) :
    Prog.wp (runRound job deadlineNs roundId)
      (fun r t => RoundEnd job deadlineNs roundId s t r) s := by
  unfold runRound
  have hpropose : Prog.wp (proposeRound job deadlineNs roundId)
      (fun r t => ProposeEnd job deadlineNs roundId s.core t.core r ∧
        r = (proposeRound job deadlineNs roundId s).1) s := ⟨proposeRound_spec, rfl⟩
  refine Prog.wp_bind_of hpropose ?_ ?_
  rotate_left
  · rintro error t ⟨hend, hraised⟩
    cases hend with
    | raised ht => exact .unproposed hraised.symm ht
  rintro proposal t ⟨hend, -⟩
  have hstop : ∀ {reason : String} {last : Core C State Obj}, t.core = last →
      (last = s.core ∧ reason = "deadline" ∧ deadlineNs ≠ none ∨
        last = s.core.drawn ∧ reason = "kernel_exhausted" ∧ Called (job.kernel.propose s.core.state
          roundId (s.core.randomTape.take tapeWordsPerRound).1) (.ok [])) →
      Prog.wp (result job reason >>= fun stopped => pure (.done stopped))
        (fun r u => RoundEnd job deadlineNs roundId s u r) t := by
    rintro reason last rfl hlast
    refine Prog.wp_mono (result_done_spec job t reason) ?_
    rintro r u ⟨outcome, rfl, hu, hfinished⟩
    exact .stopped hlast hu hfinished
  cases hend with
  | deadline ht hdeadline => exact hstop ht (.inl ⟨rfl, rfl, hdeadline⟩)
  | exhausted ht hcalled => exact hstop ht (.inr ⟨rfl, rfl, hcalled⟩)
  | @proposed candidates limit admission ht hproposed =>
      dsimp only
      unfold record
      rw [Prog.wp_modify_bind]
      refine Prog.wp_ite (fun hnone => ?_) (fun hsome => ?_)
      · rw [List.isEmpty_iff] at hnone
        rw [Prog.wp_modify_bind]
        refine Prog.wp_mono (result_done_spec job _ "no_admissible_candidates") ?_
        rintro r u ⟨outcome, rfl, hu, hfinished⟩
        refine .inadmissible hproposed hnone ?_ hfinished
        rw [hu, ← ht]
        rfl
      rw [List.isEmpty_iff] at hsome
      have hadmits := admitCandidates_spec hproposed.admitted
      have htdigest : t.stateDigest = s.core.stateDigest := congrArg Core.stateDigest ht
      obtain ⟨txn, hnew, hopens⟩ := hadmits.opensTxn hsome roundId hdigest
      rw [← htdigest] at hnew
      rw [Prog.wp_read_bind]
      dsimp only
      rw [hnew, Prog.resume_ok, Prog.wp_pure_bind, Prog.wp_modify_bind,
        Prog.wp_modify_bind]
      let opened : Core C State Obj :=
        s.core.drawn.opened (screeningOf candidates.length limit admission) txn
      have hopened : Opened job roundId s.core opened txn admission :=
        ⟨⟨candidates, limit, hproposed, rfl⟩, hsome, hopens⟩
      have hat : At job opened txn .empty opened.store opened.budget
          { t with
            semanticEvents := (t.semanticEvents ++ [.candidateScreening
              (screeningOf candidates.length limit admission)]) ++ [.candidateTransaction txn .plain]
            transaction := some txn } := by
        refine ⟨?_, .refl⟩
        have hcore : ({ t with
            semanticEvents := (t.semanticEvents ++ [.candidateScreening
              (screeningOf candidates.length limit admission)]) ++ [.candidateTransaction txn .plain]
            transaction := some txn } : Session W C Cand State Obj).core =
          t.core.opened (screeningOf candidates.length limit admission) txn := by
          simp [Session.core, Core.opened]
        rw [hcore, ht]
        exact (Core.along_empty rfl hopens.phase).symm
      have hreserved' : opened.budget.reserved = 0 := by
        rw [hopened.budget]
        exact hreserved
      refine Prog.wp_bind_of (prepareRound_spec hat hreserved') ?_ ?_
      · intro preparation u hend
        generalize hr : Except.ok preparation = r at hend
        cases hend with
        | @closed _ _ _ _ outcome hclosing hended hfinished =>
            rcases outcome with error | stopped
            · cases hr
            · cases hr
              exact .unprepared hopened hclosing hended hfinished
        | ready hprepared hat' =>
            cases hr
            exact transactAndInstall_spec hopened hprepared hreserved' hat'
      · intro error u hend
        generalize hr : Except.error error = r at hend
        cases hend with
        | @closed _ _ _ _ outcome hclosing hended hfinished =>
            rcases outcome with error | stopped
            · cases hr
              exact .unprepared hopened hclosing hended hfinished
            · cases hr
        | ready hprepared hat' => cases hr

end

end TxnOpt
