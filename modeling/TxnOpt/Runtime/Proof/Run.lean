import TxnOpt.Runtime.Proof.Round

/-!
# Runs

A run is a sequence of committed rounds and one last pass. `RoundStart` is the reachability of the run
loop; `RoundStart.invariant` is the one induction over rounds, and `run_ended` the one case analysis of
how a run ends.
-/

namespace TxnOpt

section

variable {W C Cand State Obj : Type} [DecidableEq State]

/-- What a run starts its loop from. -/
structure OpenedRun (job : Job W C Cand State Obj) (initialState : State)
    (deadlineNs : Option Int) (c : Core C State Obj) : Prop where
  validated : Called (job.oracle.validate initialState) (.ok ())
  digest : Called (validatedStateDigest job.oracle initialState) (.ok c.stateDigest)
  objective : Called (job.oracle.objective initialState) (.ok c.objective)
  cache : Called job.runtime.cacheFactory (.ok c.cache)
  deadline : deadlineNs = none ↔ job.config.deadlineNs = none
  core : c = ⟨c.cache, ⟨0, ∅, true⟩, .ofSeed job.config.seed, .new job.config.fixedWork, initialState,
    c.stateDigest, c.objective, none, [.runOpen job.config.seed c.stateDigest], [], []⟩

/-- The sessions at the starts of the rounds of a run that starts its loop from `first`. -/
inductive RoundStart (job : Job W C Cand State Obj) (deadlineNs : Option Int)
    (first : Session W C Cand State Obj) : Nat → Session W C Cand State Obj → Prop
  | first : RoundStart job deadlineNs first 0 first
  | next {roundId s t} : RoundStart job deadlineNs first roundId s →
      runRound job deadlineNs roundId s = (.ok .next, t) →
      RoundStart job deadlineNs first (roundId + 1) t

/-- What holds between rounds. -/
structure Between (c : Core C State Obj) : Prop where
  digest : isDigest c.stateDigest = true
  reserved : c.budget.reserved = 0
  unsealed : c.semanticStreams = []

/-- The last pass of a run: the round limit is reached, or a round ends the run. -/
inductive LastRound (job : Job W C Cand State Obj) (deadlineNs : Option Int) (roundId : Nat)
    (s : Session W C Cand State Obj) (outcome : Except PyExc (RunResult State Obj))
    (final : Session W C Cand State Obj) : Prop
  | limit : roundId = job.config.maxRounds →
      final.core = s.core.sealed job.runtime.semanticEventSink "max_rounds" →
      Finished job final.core "max_rounds" outcome →
      LastRound job deadlineNs roundId s outcome final
  | round : roundId < job.config.maxRounds →
      runRound job deadlineNs roundId s = (outcome.map .done, final) →
      RoundEnd job deadlineNs roundId s final (outcome.map .done) →
      LastRound job deadlineNs roundId s outcome final

variable {job : Job W C Cand State Obj} {initialState : State} {deadlineNs : Option Int}
  {first : Session W C Cand State Obj}

omit [DecidableEq State] in
theorem isDigest_of_called {oracle : Oracle W Cand State Obj} {state : State} {digest : String}
    (h : Called (validatedStateDigest oracle state) (.ok digest)) : isDigest digest = true := by
  obtain ⟨w, w', hcall⟩ := h
  have hspec : Prog.wp (validatedStateDigest oracle state)
      (fun r _ => ∀ digest, r = .ok digest → isDigest digest = true) w := by
    unfold validatedStateDigest
    rcases hdigest : oracle.stateDigest state w with ⟨error | digest, w''⟩
    · refine Prog.wp_bind.mpr (Prog.wp_of_eq hdigest ?_)
      rintro _ ⟨⟩
    · refine Prog.wp_bind.mpr (Prog.wp_of_eq hdigest ?_)
      rw [Prog.andThen_ok]
      refine Prog.wp_ite (fun hvalid => ?_) (fun _ => ?_)
      · rintro _ ⟨⟩
        exact hvalid
      · rintro _ ⟨⟩
  exact Prog.wp_of_run hspec hcall digest rfl

omit [DecidableEq State] in
theorem OpenedRun.between {c : Core C State Obj} (h : OpenedRun job initialState deadlineNs c) :
    Between c := by
  refine ⟨isDigest_of_called h.digest, ?_, ?_⟩
  · rw [h.core, BudgetLedger.new_reserved]
  · rw [h.core]

theorem CommittedRound.between {roundId : Nat} {c t : Core C State Obj}
    (h : CommittedRound job deadlineNs roundId c t) (hc : Between c) : Between t := by
  obtain ⟨hopened, hpublished, -, rfl⟩ := h
  refine ⟨isDigest_of_called hpublished.decided.digest, rfl, ?_⟩
  obtain ⟨tape, events, rfl⟩ := hopened.exists_eq
  exact hc.unsealed

/-- A pass that goes on is a committed round. -/
theorem runRound_next {roundId : Nat} {s t : Session W C Cand State Obj} (hs : Between s.core)
    (h : runRound job deadlineNs roundId s = (.ok .next, t)) :
    CommittedRound job deadlineNs roundId s.core t.core := by
  have hend := Prog.wp_of_run (runRound_spec hs.digest hs.reserved) h
  generalize hr : (Except.ok RoundExit.next : Except PyExc (RoundExit State Obj)) = r at hend
  cases hend with
  | unproposed => cases hr
  | @stopped _ _ outcome => rcases outcome with _ | _ <;> cases hr
  | @inadmissible _ _ _ outcome => rcases outcome with _ | _ <;> cases hr
  | @unprepared _ _ _ _ _ _ _ outcome => rcases outcome with _ | _ <;> cases hr
  | @concluded _ _ _ _ _ outcome => rcases outcome with _ | _ <;> cases hr
  | committed hround => exact hround

theorem RoundStart.between (hfirst : Between first.core) {roundId : Nat}
    {s : Session W C Cand State Obj} (h : RoundStart job deadlineNs first roundId s) :
    Between s.core := by
  induction h with
  | first => exact hfirst
  | next _ hround ih => exact (runRound_next ih hround).between ih

/-- What the committed rounds of a run keep holds at the start of every round. -/
theorem RoundStart.invariant (inv : Nat → Core C State Obj → Prop) (hfirst : Between first.core)
    (hinit : inv 0 first.core)
    (hstep : ∀ roundId c t, Between c → inv roundId c →
      CommittedRound job deadlineNs roundId c t → inv (roundId + 1) t)
    {roundId : Nat} {s : Session W C Cand State Obj}
    (h : RoundStart job deadlineNs first roundId s) : inv roundId s.core := by
  induction h with
  | first => exact hinit
  | next hs hround ih =>
      have hbetween := hs.between hfirst
      exact hstep _ _ _ hbetween ih (runRound_next hbetween hround)

theorem RoundStart.unique {roundId : Nat} {s s' : Session W C Cand State Obj}
    (h : RoundStart job deadlineNs first roundId s)
    (h' : RoundStart job deadlineNs first roundId s') : s = s' := by
  induction h generalizing s' with
  | first =>
      cases h'
      rfl
  | next _ hround ih =>
      cases h' with
      | next hs' hround' =>
          obtain rfl := ih hs'
          exact (Prod.mk.inj (hround.symm.trans hround')).2

/-- A round that is not the last one of those started goes on to the next. -/
theorem RoundStart.goes_on {roundId later : Nat} {s t : Session W C Cand State Obj}
    (hs : RoundStart job deadlineNs first roundId s) (ht : RoundStart job deadlineNs first later t)
    (hlt : roundId < later) : ∃ s', runRound job deadlineNs roundId s = (.ok .next, s') ∧
      RoundStart job deadlineNs first (roundId + 1) s' := by
  induction ht with
  | first => exact absurd hlt (Nat.not_lt_zero _)
  | @next last u v hu hround ih =>
      rcases Nat.lt_succ_iff_lt_or_eq.mp hlt with hlt | rfl
      · exact ih hlt
      · obtain rfl := hs.unique hu
        exact ⟨v, hround, hu.next hround⟩

/-- The loop passes through committed rounds to its last pass. -/
theorem runLoop_spec (hfirst : Between first.core) :
    ∀ (rounds roundId : Nat) (s : Session W C Cand State Obj),
      rounds + roundId = job.config.maxRounds → RoundStart job deadlineNs first roundId s →
      Prog.wp (runLoop job deadlineNs rounds roundId)
        (fun outcome final => ∃ lastId last, RoundStart job deadlineNs first lastId last ∧
          LastRound job deadlineNs lastId last outcome final) s := by
  intro rounds
  induction rounds with
  | zero =>
      intro roundId s hcount hs
      unfold runLoop
      refine Prog.wp_mono (result_spec s job "max_rounds") ?_
      rintro outcome final ⟨hfinal, hvalue⟩
      refine ⟨roundId, s, hs, .limit (by omega) hfinal ?_⟩
      intro value hr
      rw [hfinal]
      exact hvalue value hr
  | succ rounds ih =>
      intro roundId s hcount hs
      have hbetween := hs.between hfirst
      have hround : Prog.wp (runRound job deadlineNs roundId)
          (fun r t => RoundEnd job deadlineNs roundId s t r ∧
            runRound job deadlineNs roundId s = (r, t)) s :=
        ⟨runRound_spec hbetween.digest hbetween.reserved, rfl⟩
      unfold runLoop
      refine Prog.wp_bind_of hround ?_ ?_
      · rintro (_ | value) t ⟨hend, hrun⟩
        · exact ih (roundId + 1) t (by omega) (hs.next hrun)
        · exact ⟨roundId, s, hs, .round (by omega) hrun hend⟩
      · rintro error t ⟨hend, hrun⟩
        exact ⟨roundId, s, hs, .round (by omega) hrun hend⟩

omit [DecidableEq State] in
theorem called_spec {α : Type} (call : Prog W PyExc α) (w : W) :
    Prog.wp call (fun r _ => Called call r) w := ⟨w, (call w).2, rfl⟩

omit [DecidableEq State] in
theorem openDeadline_spec (w : W) :
    Prog.wp (openDeadline job)
      (fun r _ => ∀ deadlineNs, r = .ok deadlineNs →
        (deadlineNs = none ↔ job.config.deadlineNs = none)) w := by
  unfold openDeadline Prog.wp
  rcases hdeadline : job.config.deadlineNs with _ | deadline
  · rintro _ ⟨⟩
    exact ⟨fun _ => rfl, fun _ => rfl⟩
  · rintro _ ⟨⟩
    constructor <;> rintro ⟨⟩

omit [DecidableEq State] in
theorem openRun_spec (w : W) :
    Prog.wp (openRun job initialState)
      (fun r _ => ∀ opened, r = .ok opened →
        OpenedRun job initialState opened.2 opened.1.core) w := by
  have hfailed : ∀ {error : PyExc} {opened : Session W C Cand State Obj × Option Int},
      Except.error error = .ok opened → OpenedRun job initialState opened.2 opened.1.core := by
    rintro error opened ⟨⟩
  unfold openRun
  refine Prog.wp_bind_of (called_spec _ w) ?_ (fun _ _ _ _ => hfailed)
  rintro startedNs w -
  refine Prog.wp_bind_of (called_spec _ w) ?_ (fun _ _ _ _ => hfailed)
  rintro observations w -
  refine Prog.wp_bind_of (called_spec _ w) ?_ (fun _ _ _ _ => hfailed)
  rintro ⟨⟩ w -
  refine Prog.wp_bind_of (called_spec _ w) ?_ (fun _ _ _ _ => hfailed)
  rintro ⟨⟩ w hvalidated
  refine Prog.wp_bind_of (called_spec _ w) ?_ (fun _ _ _ _ => hfailed)
  rintro digest w hdigest
  refine Prog.wp_bind_of (called_spec _ w) ?_ (fun _ _ _ _ => hfailed)
  rintro objective w hobjective
  refine Prog.wp_bind_of (called_spec _ w) ?_ (fun _ _ _ _ => hfailed)
  rintro cache w hcache
  refine Prog.wp_bind_of (openDeadline_spec w) ?_ (fun _ _ _ _ => hfailed)
  rintro deadlineNs w hdeadline
  rw [Prog.wp_read_bind, Prog.wp_pure]
  rintro _ ⟨⟩
  exact ⟨hvalidated, hdigest, hobjective, hcache, hdeadline deadlineNs rfl, rfl⟩

/-- How a run that was opened ends: after some committed rounds, in its last pass. -/
theorem run_ended {world : W} {outcome : Except PyExc (RunResult State Obj)}
    {final : Session W C Cand State Obj}
    (h : run job initialState world = .ended outcome final) :
    ∃ deadlineNs first world' roundId s,
      openRun job initialState world = (.ok (first, deadlineNs), world') ∧
      OpenedRun job initialState deadlineNs first.core ∧
      RoundStart job deadlineNs first roundId s ∧
      LastRound job deadlineNs roundId s outcome final := by
  unfold run at h
  split at h
  case h_1 => cases h
  case h_2 session deadlineNs w' hopen =>
    have hopened : OpenedRun job initialState deadlineNs session.core :=
      Prog.wp_of_run (openRun_spec world) hopen (session, deadlineNs) rfl
    have hstart : RoundStart job deadlineNs session 0 session := .first
    have hloop := runLoop_spec hopened.between job.config.maxRounds 0 session (Nat.add_zero _) hstart
    rcases hrun : runLoop job deadlineNs job.config.maxRounds 0 session with ⟨outcome', final'⟩
    rw [hrun] at h
    cases h
    obtain ⟨lastId, last, hlast, hround⟩ := Prog.wp_of_run hloop hrun
    exact ⟨deadlineNs, session, w', lastId, last, hopen, hopened, hlast, hround⟩

/-! ### What a pass adds to the log -/

/-- Nothing, or the calls of one transaction. -/
def LogGrows (job : Job W C Cand State Obj) (roundId : Nat) (c t : Core C State Obj) : Prop :=
  t.log = c.log ∨ ∃ opened txn admission prepared looked work trail,
    Opened job roundId c opened txn admission ∧ Reserved job admission opened prepared looked ∧
    Worked opened prepared work trail ∧ t.log = c.log ++ trail.log

omit [DecidableEq State] in
theorem Opened.log {roundId : Nat} {c opened : Core C State Obj} {txn : CandidateTxn}
    {admission : Admission Cand} (h : Opened job roundId c opened txn admission) :
    opened.log = c.log := by
  obtain ⟨tape, events, rfl⟩ := h.exists_eq
  rfl

theorem CommittedRound.logGrows {roundId : Nat} {c t : Core C State Obj}
    (h : CommittedRound job deadlineNs roundId c t) : LogGrows job roundId c t := by
  obtain ⟨hopened, hpublished, -, rfl⟩ := h
  obtain ⟨looked, stagedStore, snapshot, closed, evals, hreserved, -, -⟩ := hpublished.round
  refine .inr ⟨_, _, _, _, looked, _, _, hopened, hreserved, hpublished.worked, ?_⟩
  rw [← hopened.log]
  rfl

theorem RoundEnd.logGrows {roundId : Nat} {s t : Session W C Cand State Obj}
    {r : Except PyExc (RoundExit State Obj)} (h : RoundEnd job deadlineNs roundId s t r) :
    LogGrows job roundId s.core t.core := by
  cases h with
  | unproposed _ ht =>
      obtain ⟨tape, -, hdrawn⟩ := s.core.drawn_eq
      rw [ht, hdrawn]
      exact .inl rfl
  | stopped hlast ht _ =>
      obtain ⟨tape, -, hdrawn⟩ := s.core.drawn_eq
      rw [hdrawn] at hlast
      rw [ht]
      rcases hlast with ⟨rfl, -, -⟩ | ⟨rfl, -, -⟩
      · exact .inl rfl
      · exact .inl rfl
  | inadmissible _ _ ht _ =>
      obtain ⟨tape, -, hdrawn⟩ := s.core.drawn_eq
      rw [ht, hdrawn]
      exact .inl rfl
  | unprepared hopened _ hended _ =>
      refine .inl ?_
      rw [hended.core, ← hopened.log]
      exact List.append_nil _
  | concluded hopened hreserved hconcluded =>
      rw [LogGrows, ← hopened.log]
      cases hconcluded with
      | closed hworked _ _ _ hended _ =>
          exact .inr ⟨_, _, _, _, _, _, _, hopened, hreserved, hworked, by rw [hended.core]; rfl⟩
      | unknown hworked _ _ hended =>
          exact .inr ⟨_, _, _, _, _, _, _, hopened, hreserved, hworked, by rw [hended.core]; rfl⟩
      | reconstructed hpublished _ ht =>
          exact .inr ⟨_, _, _, _, _, _, _, hopened, hreserved, hpublished.worked, by rw [ht]; rfl⟩
      | unsealed hworked _ _ _ _ hat =>
          exact .inr ⟨_, _, _, _, _, _, _, hopened, hreserved, hworked, by rw [hat.core]; rfl⟩
  | committed hround => exact hround.logGrows

/-- A property of logged calls holds over a run if it holds of every transaction's calls. -/
theorem log_invariant {P : Observation C State → Prop} {outcome : Except PyExc (RunResult State Obj)}
    {final : Session W C Cand State Obj} {world : W}
    (hrun : run job initialState world = .ended outcome final)
    (htxn : ∀ {admission} {opened : Core C State Obj} {prepared looked work trail},
      opened.budget.reserved = 0 → Reserved job admission opened prepared looked →
      Worked opened prepared work trail → ∀ observation ∈ trail.log, P observation) :
    ∀ observation ∈ final.log, P observation := by
  have hgrows : ∀ {roundId c t}, Between c → (∀ observation ∈ c.log, P observation) →
      LogGrows job roundId c t → ∀ observation ∈ t.log, P observation := by
    rintro roundId c t hbetween hc (ht | ⟨opened, txn, admission, prepared, looked, work, trail,
      hopened, hreserved, hworked, ht⟩) observation hmem
    · rw [ht] at hmem
      exact hc observation hmem
    · rw [ht] at hmem
      rcases List.mem_append.mp hmem with hmem | hmem
      · exact hc observation hmem
      · exact htxn (hopened.budget.symm ▸ hbetween.reserved) hreserved hworked observation hmem
  obtain ⟨deadlineNs, first, -, roundId, s, -, hopened, hs, hlast⟩ := run_ended hrun
  have hstart : ∀ observation ∈ s.core.log, P observation := by
    refine hs.invariant (fun _ c => ∀ observation ∈ c.log, P observation) hopened.between ?_ ?_
    · rw [hopened.core]
      rintro observation ⟨⟩
    · intro roundId c t hbetween hc hround
      exact hgrows hbetween hc hround.logGrows
  cases hlast with
  | limit _ hfinal _ =>
      have hlog : final.core.log = s.core.log := by rw [hfinal]; rfl
      intro observation hmem
      exact hstart observation (hlog ▸ hmem)
  | round _ _ hend => exact hgrows (hs.between hopened.between) hstart hend.logGrows

/-! ### Concrete runs -/

/-- The session at the end of a run that was opened. -/
def RunEnd.final : RunEnd W C Cand State Obj → Option (Session W C Cand State Obj)
  | .notOpened _ _ => none
  | .ended _ final => some final

omit [DecidableEq State] in
/-- A test of the last session of a run, evaluated. -/
theorem RunEnd.exists_final {r : RunEnd W C Cand State Obj} {test : Session W C Cand State Obj → Bool}
    (h : r.final.any test = true) : ∃ outcome final, r = .ended outcome final ∧ test final = true := by
  cases r with
  | notOpened error world => cases h
  | ended outcome final => exact ⟨outcome, final, rfl, h⟩

end

end TxnOpt
