import TxnOpt.Evidence.Refinement
import TxnOpt.Runtime.Proof.Evidence
import Mathlib.Tactic.IntervalCases

/-!
# The verifier follows the producer

The replay of the events that a pass records goes from one state of the verifier to the next, and never
raises: `Replayed` relates the verifier's variables to what the run has committed so far.
-/

namespace TxnOpt

/-! ### What the verifier reads off an event -/

theorem mapM_asStr (keys : List String) :
    (keys.map Value.str).mapM Value.asStr? = some keys := by
  induction keys with
  | nil => rfl
  | cons key rest ih => simp [ih, Value.asStr?]

section

variable (txn : CandidateTxn) (extra : PhaseExtra)

/-- The event of a transaction, as the verifier gets it. -/
def txnDict : EventDict := (SemanticEvent.candidateTransaction txn extra).toDict

@[simp] theorem txnDict_event : (txnDict txn extra).str? "event" = some "candidate_transaction" := rfl

@[simp] theorem txnDict_txnId : (txnDict txn extra).str? "txn_id" = some txn.txnId := rfl

@[simp] theorem txnDict_phase : (txnDict txn extra).str? "phase" = some txn.phase.value := rfl

@[simp] theorem txnDict_snapshotDigest :
    (txnDict txn extra).str? "snapshot_digest" = some txn.snapshotDigest := rfl

@[simp] theorem txnDict_candidateKeys : (txnDict txn extra).candidateKeys? = some txn.candidateKeys := by
  have hget : Value.get (txnDict txn extra) "candidate_keys" =
      some (.list (txn.candidateKeys.map Value.str)) := rfl
  have hempty : "" ∉ txn.candidateKeys := fun hmem => txn.candidateKeys_ne_empty "" hmem rfl
  unfold EventDict.candidateKeys?
  rw [hget]
  dsimp only
  rw [mapM_asStr]
  rcases hkeys : txn.candidateKeys with _ | ⟨key, keys⟩
  · exact absurd hkeys txn.candidateKeys_ne_nil
  · rw [hkeys] at hempty
    simp only [if_neg hempty]

theorem txnDict_exposes :
    (txnDict txn extra).exposes = true ↔ ∃ publication, extra = .published publication := by
  cases extra with
  | published publication => exact ⟨fun _ => ⟨publication, rfl⟩, fun _ => rfl⟩
  | _ => exact ⟨by rintro ⟨⟩, by rintro ⟨_, ⟨⟩⟩⟩

theorem txnDict_has_cacheOutcome :
    (txnDict txn extra).has "cache_outcome" = true ↔ extra = .unknownOutcome := by
  cases extra with
  | unknownOutcome => exact ⟨fun _ => rfl, fun _ => rfl⟩
  | published publication =>
      rcases publication with ⟨_, _, _, _, _ | status⟩ <;> exact ⟨by rintro ⟨⟩, by rintro ⟨⟩⟩
  | _ => exact ⟨by rintro ⟨⟩, by rintro ⟨⟩⟩

theorem txnDict_cacheOutcome :
    (txnDict txn extra).str? "cache_outcome" = some "unknown" ↔ extra = .unknownOutcome := by
  cases extra with
  | unknownOutcome => exact ⟨fun _ => rfl, fun _ => rfl⟩
  | published publication =>
      rcases publication with ⟨_, _, _, _, _ | status⟩ <;> exact ⟨by rintro ⟨⟩, by rintro ⟨⟩⟩
  | _ => exact ⟨by rintro ⟨⟩, by rintro ⟨⟩⟩

end

/-! ### Phases as the verifier names them -/

theorem replayTransitions_lookup (phase : TxnPhase) :
    replayTransitions.lookup phase.value = some (phase.allowedTransitions.map TxnPhase.value) := by
  cases phase <;> rfl

theorem value_injective : Function.Injective TxnPhase.value := by
  intro first second
  cases first <;> cases second <;> decide

theorem value_mem_replayTerminal (phase : TxnPhase) :
    phase.value ∈ replayTerminal ↔ phase ∈ TxnPhase.terminalPhases := by
  cases phase <;> decide

/-! ### One transaction event -/

section

variable {sha256 : String → String} {s : Replaying} {txn : CandidateTxn} {extra : PhaseExtra}

/-- The verifier's variables after a transaction event that passed its identity checks. -/
def Replaying.inPhase (s : Replaying) (txn : CandidateTxn) : Replaying :=
  { s with phases := s.phases.insert txn.txnId txn.phase.value }

/-- The transaction event moves to its phase once its identity is accepted. -/
theorem replayEvent_txn {accepted : Replaying}
    (hidentity : replayIdentity s (txnDict txn extra) txn.txnId txn.phase.value txn.candidateKeys =
      .ok accepted)
    (hkeys : accepted.transactionKeys.lookup txn.txnId = some txn.candidateKeys)
    (houtcome : extra = .unknownOutcome → txn.phase = .interrupted) :
    replayEvent sha256 s (txnDict txn extra) =
      (replayPhase sha256 (accepted.inPhase txn) (txnDict txn extra) txn.phase.value
        txn.candidateKeys).map fun after =>
          if txn.phase ∈ TxnPhase.terminalPhases then { after with activeTxnId := none }
          else after := by
  have hallowed : ¬((txnDict txn extra).has "cache_outcome" = true ∧
      ¬(txn.phase.value = "INTERRUPTED" ∧
        (txnDict txn extra).str? "cache_outcome" = some "unknown")) := by
    rw [txnDict_has_cacheOutcome, txnDict_cacheOutcome]
    rintro ⟨hunknown, hnot⟩
    rw [houtcome hunknown] at hnot
    exact hnot ⟨rfl, hunknown⟩
  unfold replayEvent
  rw [txnDict_event]
  unfold replayTransaction
  simp only [txnDict_txnId, txnDict_phase, txnDict_candidateKeys, replayTransitions_lookup,
    Option.isNone_some, Bool.false_eq_true, if_false, hidentity]
  simp only [bind, Except.bind, if_neg hallowed, hkeys, Option.getD_some, pure, Except.pure,
    value_mem_replayTerminal]
  unfold Replaying.inPhase
  generalize replayPhase sha256
    { accepted with phases := accepted.phases.insert txn.txnId txn.phase.value } (txnDict txn extra)
    txn.phase.value txn.candidateKeys = outcome
  cases outcome <;> rfl

/-- A phase between `PREPARED` and the terminal one publishes nothing. -/
theorem replayPhase_open (hphase : txn.phase ∉ TxnPhase.terminalPhases) (keys : List String) :
    replayPhase sha256 s (txnDict txn .plain) txn.phase.value keys =
      .ok { s with stuttering := s.stuttering + 1 } := by
  have hexposes : (txnDict txn .plain).exposes = false := rfl
  unfold replayPhase
  rw [hexposes]
  revert hphase
  generalize txn.phase = phase
  cases phase <;> first | exact fun h => absurd (by decide) h | exact fun _ => rfl

/-- An accepted event before the terminal one. -/
theorem replayEvent_open (sha256 : String → String) (txn : CandidateTxn) {accepted : Replaying}
    (hidentity : replayIdentity s (txnDict txn .plain) txn.txnId txn.phase.value txn.candidateKeys =
      .ok accepted)
    (hkeys : accepted.transactionKeys.lookup txn.txnId = some txn.candidateKeys)
    (hopen : txn.phase ∉ TxnPhase.terminalPhases) :
    replayEvent sha256 s (txnDict txn .plain) =
      .ok { accepted.inPhase txn with stuttering := accepted.stuttering + 1 } := by
  rw [replayEvent_txn hidentity hkeys (by rintro ⟨⟩), replayPhase_open hopen]
  exact congrArg Except.ok (if_neg hopen)

/-- What the verifier makes of a transaction that published nothing. -/
def Replaying.withheld (s : Replaying) (phase : TxnPhase) (extra : PhaseExtra) : Replaying :=
  { s with
    prefixSafetyProven := if extra = .unknownOutcome then false else s.prefixSafetyProven
    aborted := if phase = .aborted then s.aborted + 1 else s.aborted
    interrupted := if phase = .interrupted then s.interrupted + 1 else s.interrupted }

theorem replayPhase_withheld (h : Withheld txn.phase extra) (keys : List String) :
    replayPhase sha256 s (txnDict txn extra) txn.phase.value keys =
      .ok (s.withheld txn.phase extra) := by
  have hexposes : (txnDict txn extra).exposes = false := by
    rw [← Bool.not_eq_true, txnDict_exposes]
    rintro ⟨publication, rfl⟩
    obtain (⟨-, h⟩ | ⟨-, h | ⟨_, _, _, h⟩⟩) | ⟨-, h⟩ := h <;> cases h
  unfold replayPhase Replaying.withheld
  simp only [hexposes, txnDict_cacheOutcome]
  obtain (⟨hphase, hextra⟩ | ⟨hphase, -⟩) | ⟨hphase, -⟩ := h
  · rw [hphase, hextra]
    rfl
  · rw [hphase]
    rfl
  · rw [hphase]
    rfl

/-- What the verifier makes of a transaction that published. -/
def Replaying.publishing (s : Replaying) (sha256 : String → String) (publication : Publication)
    (keys : List String) : Replaying :=
  { s with
    visibleDigest := publication.stateDigest
    cacheGeneration := publication.cacheGeneration
    lastStartedWork := publication.startedWork
    committedKeyDigests := s.committedKeyDigests ++ [candidateKeysDigest sha256 keys]
    committed := s.committed + 1 }

theorem replayPhase_committed {publication : Publication} (hphase : txn.phase = .committed)
    (hdigest : isDigest publication.stateDigest = true)
    (hgeneration : (publication.cacheGeneration : Int) = s.cacheGeneration + 1)
    (hstarted : s.lastStartedWork ≤ publication.startedWork) (keys : List String) :
    replayPhase sha256 s (txnDict txn (.published publication)) txn.phase.value keys =
      .ok (s.publishing sha256 publication keys) := by
  have hfields : (txnDict txn (.published publication)).str? "state_digest" =
        some publication.stateDigest ∧
      (txnDict txn (.published publication)).int? "cache_generation" =
        some (publication.cacheGeneration : Int) ∧
      (txnDict txn (.published publication)).int? "started_work" =
        some (publication.startedWork : Int) := ⟨rfl, rfl, rfl⟩
  have hpasses : ¬(isDigest publication.stateDigest = false ∨
      (publication.cacheGeneration : Int) ≠ s.cacheGeneration + 1 ∨
      (publication.startedWork : Int) < s.lastStartedWork) := by
    rintro (h | h | h)
    · rw [hdigest] at h
      cases h
    · exact h hgeneration
    · omega
  unfold replayPhase Replaying.publishing
  rw [hphase, if_pos (by rfl), hfields.1, hfields.2.1, hfields.2.2]
  dsimp only
  rw [if_neg hpasses]

/-! ### The transaction of a round -/

/-- The verifier inside the transaction `txn`, which it opened in the state `base`. -/
structure Replaying.Active (base : Replaying) (txn : CandidateTxn) (phase : TxnPhase)
    (s : Replaying) : Prop where
  visible : s.visibleDigest = base.visibleDigest
  generation : s.cacheGeneration = base.cacheGeneration
  committed : s.committed = base.committed
  digests : s.committedKeyDigests = base.committedKeyDigests
  proven : s.prefixSafetyProven = base.prefixSafetyProven
  started : s.lastStartedWork = base.lastStartedWork
  active : s.activeTxnId = some txn.txnId
  pending : s.pendingAdmittedCount = none
  own : s.phases.lookup txn.txnId = some phase.value
  others : ∀ id, id ≠ txn.txnId → s.phases.lookup id = base.phases.lookup id
  keys : s.transactionKeys.lookup txn.txnId = some txn.candidateKeys

/-- A prepared transaction opens on the visible snapshot, with the keys that were admitted. -/
theorem replay_prepared {base : Replaying} (hphase : txn.phase = .prepared)
    (hvisible : txn.snapshotDigest = base.visibleDigest) (hactive : base.activeTxnId = none)
    (hnew : base.phases.lookup txn.txnId = none)
    (hpending : base.pendingAdmittedCount = some (txn.candidateKeys.length : Int)) :
    ∃ after, replayEvent sha256 base (txnDict txn .plain) = .ok after ∧
      base.Active txn .prepared after := by
  have hidentity : replayIdentity base (txnDict txn .plain) txn.txnId txn.phase.value
      txn.candidateKeys = .ok { base with
        transactionKeys := base.transactionKeys.insert txn.txnId txn.candidateKeys
        activeTxnId := some txn.txnId
        pendingAdmittedCount := none } := by
    have hbound : ¬(base.activeTxnId.isSome = true ∨ txn.phase.value ≠ "PREPARED" ∨
        (txnDict txn .plain).str? "snapshot_digest" ≠ some base.visibleDigest) := by
      rw [hactive, hphase, txnDict_snapshotDigest, hvisible]
      simp [TxnPhase.value]
    have hcount : ¬base.pendingAdmittedCount ≠ some (txn.candidateKeys.length : Int) :=
      fun h => h hpending
    have hnodup : ¬¬txn.candidateKeys.Nodup := fun h => h txn.candidateKeys_nodup
    unfold replayIdentity
    rw [hnew]
    simp only [if_neg hbound, if_neg hnodup, if_neg hcount]
  have hopen : txn.phase ∉ TxnPhase.terminalPhases := by
    rw [hphase]
    decide
  refine ⟨_, replayEvent_open sha256 txn hidentity (AList.lookup_insert _) hopen,
    rfl, rfl, rfl, rfl, rfl, rfl, rfl, rfl, ?_, ?_, AList.lookup_insert _⟩
  · rw [← hphase]
    exact AList.lookup_insert _
  · exact fun id hid => AList.lookup_insert_ne hid

variable {base : Replaying} {phase next : TxnPhase}

/-- A legal event of the active transaction is accepted. -/
theorem Replaying.Active.identity (h : base.Active txn phase s)
    (hvisible : txn.snapshotDigest = base.visibleDigest)
    (hlegal : next ∈ phase.allowedTransitions) :
    replayIdentity s (txnDict (txn.atPhase next) extra) txn.txnId next.value txn.candidateKeys =
      .ok s := by
  have hallowed : ¬next.value ∉ (replayTransitions.lookup phase.value).getD [] := by
    rw [replayTransitions_lookup, Option.getD_some, not_not]
    exact List.mem_map_of_mem hlegal
  have hbound : ¬(s.activeTxnId ≠ some txn.txnId ∨
      (txnDict (txn.atPhase next) extra).str? "snapshot_digest" ≠ some s.visibleDigest ∨
      s.transactionKeys.lookup txn.txnId ≠ some txn.candidateKeys) := by
    rw [h.active, h.keys, h.visible, txnDict_snapshotDigest, CandidateTxn.atPhase_snapshotDigest,
      hvisible]
    simp
  unfold replayIdentity
  rw [h.own]
  simp only [if_neg hallowed, if_neg hbound]

theorem Replaying.Active.step (sha256 : String → String) (h : base.Active txn phase s)
    (hvisible : txn.snapshotDigest = base.visibleDigest)
    (hlegal : next ∈ phase.allowedTransitions) (hopen : next ∉ TxnPhase.terminalPhases) :
    ∃ after, replayEvent sha256 s (txnDict (txn.atPhase next) .plain) = .ok after ∧
      base.Active txn next after := by
  refine ⟨_, replayEvent_open sha256 (txn.atPhase next) (h.identity hvisible hlegal) h.keys hopen,
    h.visible, h.generation, h.committed, h.digests, h.proven, h.started, h.active, h.pending,
    AList.lookup_insert _, ?_, h.keys⟩
  intro id hid
  exact (AList.lookup_insert_ne hid).trans (h.others id hid)

/-- Every phase of the path follows from the one before it and is not terminal. -/
def LegalPath : TxnPhase → List TxnPhase → Prop
  | _, [] => True
  | phase, next :: rest =>
      next ∈ phase.allowedTransitions ∧ next ∉ TxnPhase.terminalPhases ∧ LegalPath next rest

theorem legalPath_of_isPrefix {path : List TxnPhase}
    (h : path <+: [.reserved, .evaluating, .validated]) : LegalPath .prepared path := by
  rw [List.prefix_iff_eq_take] at h
  have hlength : path.length ≤ 3 := by
    have := congrArg List.length h
    rw [List.length_take] at this
    simp only [List.length_cons, List.length_nil] at this
    omega
  rw [h]
  interval_cases path.length <;> simp [LegalPath, TxnPhase.allowedTransitions, TxnPhase.terminalPhases]

theorem Replaying.Active.path (hvisible : txn.snapshotDigest = base.visibleDigest) :
    ∀ (path : List TxnPhase) (phase : TxnPhase) (s : Replaying), base.Active txn phase s →
      LegalPath phase path →
      ∃ after, (path.map fun phase => txnDict (txn.atPhase phase) .plain).foldlM
          (replayEvent sha256) s = .ok after ∧
        base.Active txn (path.getLast?.getD phase) after := by
  intro path
  induction path with
  | nil =>
      intro phase s h _
      exact ⟨s, rfl, h⟩
  | cons next rest ih =>
      rintro phase s h ⟨hlegal, hopen, hrest⟩
      obtain ⟨middle, hmiddle, hactive⟩ := h.step sha256 hvisible hlegal hopen
      obtain ⟨after, hafter, hlast⟩ := ih next middle hactive hrest
      refine ⟨after, ?_, ?_⟩
      · rw [List.map_cons, List.foldlM_cons, hmiddle]
        exact hafter
      · rw [List.getLast?_cons]
        exact hlast

/-! ### Between the rounds -/

/-- The verifier after `roundId` rounds which committed `commits`, on the visible digest `digest` and
with `started` work started. -/
structure Replayed (sha256 : String → String) (roundId : Nat) (commits : List CandidateTxn)
    (unknown : Bool) (digest : String) (started : Nat) (s : Replaying) : Prop where
  visible : s.visibleDigest = digest
  generation : s.cacheGeneration = commits.length
  committed : s.committed = commits.length
  digests : s.committedKeyDigests =
    commits.map fun txn => candidateKeysDigest sha256 txn.candidateKeys
  proven : s.prefixSafetyProven = !unknown
  started : s.lastStartedWork ≤ started
  active : s.activeTxnId = none
  pending : s.pendingAdmittedCount = none
  phases : ∀ id phase, s.phases.lookup id = some phase →
    phase ∈ replayTerminal ∧ ∃ earlier < roundId, id = txnIdOf earlier

/-- The events of a stream, as the verifier gets them. -/
def dicts (events : List SemanticEvent) : List EventDict := events.map SemanticEvent.toDict

variable {roundId : Nat} {commits : List CandidateTxn} {digest : String} {started : Nat}

theorem Replayed.mono {unknown : Bool} {later : Nat}
    (h : Replayed sha256 roundId commits unknown digest started s) (hle : started ≤ later) :
    Replayed sha256 (roundId + 1) commits unknown digest later s := by
  have hstarted := h.started
  refine { h with started := by omega, phases := fun id phase hid => ?_ }
  obtain ⟨hterminal, earlier, hlt, hearlier⟩ := h.phases id phase hid
  exact ⟨hterminal, earlier, Nat.lt_succ_of_lt hlt, hearlier⟩

theorem Replayed.screening (h : Replayed sha256 roundId commits false digest started s)
    (screening : Screening) :
    replayEvent sha256 s (SemanticEvent.candidateScreening screening).toDict =
      .ok { s with pendingAdmittedCount := some (screening.admittedCount : Int) } := by
  change replayScreening s (SemanticEvent.candidateScreening screening).toDict = _
  unfold replayScreening
  rw [h.active, h.pending]
  rfl

/-- A screening that admits nobody, and the end of its round. -/
theorem Replayed.inadmissible {screening : Screening} (hcount : screening.admittedCount = 0)
    (h : Replayed sha256 roundId commits false digest started s) :
    ∃ after, (dicts [.candidateScreening screening,
        .roundTerminated "no_admissible_candidates"]).foldlM (replayEvent sha256) s = .ok after ∧
      Replayed sha256 (roundId + 1) commits false digest started after := by
  have hterminated : replayEvent sha256
      { s with pendingAdmittedCount := some (screening.admittedCount : Int) }
      (SemanticEvent.roundTerminated "no_admissible_candidates").toDict =
      .ok { s with pendingAdmittedCount := none } := by
    change replayRoundTerminated _ = _
    unfold replayRoundTerminated
    rw [h.active, hcount]
    rfl
  have hkept : Replayed sha256 roundId commits false digest started
      { s with pendingAdmittedCount := none } := { h with pending := rfl }
  refine ⟨_, ?_, hkept.mono le_rfl⟩
  rw [dicts, List.map_cons, List.foldlM_cons, h.screening]
  change List.foldlM _ _ _ = _
  rw [List.map_cons, List.foldlM_cons, hterminated]
  rfl

/-- The verifier just before the terminal event of a round's transaction. -/
theorem Replayed.opened {e : Episode} (he : e.Of roundId digest)
    (h : Replayed sha256 roundId commits false digest started s) :
    ∃ opened, (dicts (.candidateScreening e.screening :: e.steps)).foldlM (replayEvent sha256) s =
        .ok opened ∧ s.Active e.txn e.lastPhase opened := by
  have hnew : s.phases.lookup e.txn.txnId = none := by
    rcases hlookup : s.phases.lookup e.txn.txnId with _ | phase
    · rfl
    · obtain ⟨-, earlier, hlt, hid⟩ := h.phases _ _ hlookup
      rw [he.opens.txnId] at hid
      exact absurd (txnIdOf_injective hid) (Nat.ne_of_gt hlt)
  have hvisible : e.txn.snapshotDigest = s.visibleDigest :=
    he.opens.snapshotDigest.trans h.visible.symm
  have hprepared : ∃ after, replayEvent sha256
      { s with pendingAdmittedCount := some (e.screening.admittedCount : Int) }
      (txnDict e.txn .plain) = .ok after ∧ Replaying.Active
        { s with pendingAdmittedCount := some (e.screening.admittedCount : Int) } e.txn .prepared
        after :=
    replay_prepared he.opens.phase hvisible h.active hnew (by rw [he.count])
  obtain ⟨prepared, hprepared, hactive⟩ := hprepared
  have hactive' : s.Active e.txn .prepared prepared :=
    ⟨hactive.visible, hactive.generation, hactive.committed, hactive.digests, hactive.proven,
      hactive.started, hactive.active, hactive.pending, hactive.own, hactive.others, hactive.keys⟩
  obtain ⟨opened, hopened, hlast⟩ := Replaying.Active.path hvisible e.path .prepared prepared hactive'
    (legalPath_of_isPrefix he.path)
  refine ⟨opened, ?_, hlast⟩
  rw [dicts, List.map_cons, List.foldlM_cons, h.screening]
  change List.foldlM _ _ _ = _
  rw [Episode.steps, List.map_cons, List.foldlM_cons]
  change (replayEvent sha256 _ (txnDict e.txn .plain) >>= _) = _
  rw [hprepared, List.map_map]
  exact hopened

/-- The terminal event of a round's transaction, after what `opened` has replayed. -/
theorem dicts_events_foldlM {e : Episode} {opened : Replaying}
    (hopened : (dicts (.candidateScreening e.screening :: e.steps)).foldlM (replayEvent sha256) s =
      .ok opened) :
    (dicts e.events).foldlM (replayEvent sha256) s =
      replayEvent sha256 opened (txnDict (e.txn.atPhase e.phase) e.extra) := by
  have hsplit : e.events = (.candidateScreening e.screening :: e.steps) ++
      [.candidateTransaction (e.txn.atPhase e.phase) e.extra] := rfl
  rw [hsplit, dicts, List.map_append, List.foldlM_append]
  change ((dicts (.candidateScreening e.screening :: e.steps)).foldlM (replayEvent sha256) s >>= _) = _
  rw [hopened]
  change (replayEvent sha256 opened (txnDict (e.txn.atPhase e.phase) e.extra) >>= pure) = _
  cases replayEvent sha256 opened (txnDict (e.txn.atPhase e.phase) e.extra) <;> rfl

/-- The phases once the transaction of the round is closed. -/
theorem Replaying.Active.phases_closed {e : Episode} {opened : Replaying}
    (hactive : s.Active e.txn e.lastPhase opened) (he : e.Of roundId digest)
    (hphases : ∀ id phase, s.phases.lookup id = some phase →
      phase ∈ replayTerminal ∧ ∃ earlier < roundId, id = txnIdOf earlier) :
    ∀ id phase, (opened.phases.insert e.txn.txnId e.phase.value).lookup id = some phase →
      phase ∈ replayTerminal ∧ ∃ earlier < roundId + 1, id = txnIdOf earlier := by
  intro id phase hlookup
  by_cases hid : id = e.txn.txnId
  · rw [hid, AList.lookup_insert] at hlookup
    obtain rfl := Option.some.inj hlookup
    exact ⟨(value_mem_replayTerminal _).mpr he.terminal, roundId, Nat.lt_succ_self _,
      hid.trans he.opens.txnId⟩
  · rw [AList.lookup_insert_ne hid, hactive.others id hid] at hlookup
    obtain ⟨hterminal, earlier, hlt, hearlier⟩ := hphases id phase hlookup
    exact ⟨hterminal, earlier, Nat.lt_succ_of_lt hlt, hearlier⟩

/-- A transaction that published nothing. -/
theorem Replayed.withheld {e : Episode} (he : e.Of roundId digest)
    (hwithheld : Withheld e.phase e.extra)
    (h : Replayed sha256 roundId commits false digest started s) :
    ∃ after, (dicts e.events).foldlM (replayEvent sha256) s = .ok after ∧
      Replayed sha256 (roundId + 1) commits (decide (e.extra = .unknownOutcome)) digest started
        after := by
  obtain ⟨opened, hopened, hactive⟩ := h.opened he
  have hvisible : e.txn.snapshotDigest = s.visibleDigest :=
    he.opens.snapshotDigest.trans h.visible.symm
  have hunknown : e.extra = .unknownOutcome → (e.txn.atPhase e.phase).phase = .interrupted := by
    intro hextra
    rcases hwithheld with hclosing | ⟨hphase, -⟩
    · exact absurd hextra hclosing.ne_unknown
    · exact hphase
  have hidentity : replayIdentity opened (txnDict (e.txn.atPhase e.phase) e.extra)
      (e.txn.atPhase e.phase).txnId (e.txn.atPhase e.phase).phase.value
      (e.txn.atPhase e.phase).candidateKeys = .ok opened := hactive.identity hvisible he.legal
  have hphase : Withheld (e.txn.atPhase e.phase).phase e.extra := hwithheld
  refine ⟨{ (opened.inPhase (e.txn.atPhase e.phase)).withheld e.phase e.extra with
    activeTxnId := none }, ?_, ?_⟩
  · rw [dicts_events_foldlM hopened, replayEvent_txn hidentity hactive.keys hunknown,
      replayPhase_withheld hphase]
    exact congrArg Except.ok (if_pos he.terminal)
  · refine ⟨hactive.visible.trans h.visible, hactive.generation.trans h.generation,
      hactive.committed.trans h.committed, hactive.digests.trans h.digests, ?_,
      hactive.started.trans_le h.started, rfl, hactive.pending,
      hactive.phases_closed he h.phases⟩
    have hproven : opened.prefixSafetyProven = true := hactive.proven.trans h.proven
    change (if e.extra = .unknownOutcome then false else opened.prefixSafetyProven) = _
    rw [hproven]
    by_cases hextra : e.extra = .unknownOutcome
    · rw [if_pos hextra, decide_eq_true hextra]
      rfl
    · rw [if_neg hextra, decide_eq_false hextra]
      rfl

/-- A transaction that published. -/
theorem Replayed.published {e : Episode} {publication : Publication} (he : e.Of roundId digest)
    (hphase : e.phase = .committed) (hextra : e.extra = .published publication)
    (hdigest : isDigest publication.stateDigest = true)
    (hgeneration : publication.cacheGeneration = commits.length + 1)
    (hstarted : started ≤ publication.startedWork)
    (h : Replayed sha256 roundId commits false digest started s) :
    ∃ after, (dicts e.events).foldlM (replayEvent sha256) s = .ok after ∧
      Replayed sha256 (roundId + 1) (commits ++ [e.txn.atPhase e.phase]) false
        publication.stateDigest publication.startedWork after := by
  obtain ⟨opened, hopened, hactive⟩ := h.opened he
  have hvisible : e.txn.snapshotDigest = s.visibleDigest :=
    he.opens.snapshotDigest.trans h.visible.symm
  have hidentity : replayIdentity opened (txnDict (e.txn.atPhase e.phase) (.published publication))
      (e.txn.atPhase e.phase).txnId (e.txn.atPhase e.phase).phase.value
      (e.txn.atPhase e.phase).candidateKeys = .ok opened := hactive.identity hvisible he.legal
  have hcount : opened.cacheGeneration = commits.length := hactive.generation.trans h.generation
  have hnext : (publication.cacheGeneration : Int) =
      (opened.inPhase (e.txn.atPhase e.phase)).cacheGeneration + 1 := by
    change _ = opened.cacheGeneration + 1
    rw [hcount, hgeneration]
    rfl
  have hwork : opened.lastStartedWork ≤ publication.startedWork := by
    have hbefore := hactive.started.trans_le h.started
    omega
  have hcommitted : replayPhase sha256 (opened.inPhase (e.txn.atPhase e.phase))
      (txnDict (e.txn.atPhase e.phase) (.published publication)) (e.txn.atPhase e.phase).phase.value
      (e.txn.atPhase e.phase).candidateKeys =
      .ok ((opened.inPhase (e.txn.atPhase e.phase)).publishing sha256 publication
        (e.txn.atPhase e.phase).candidateKeys) :=
    replayPhase_committed hphase hdigest hnext hwork _
  refine ⟨{ (opened.inPhase (e.txn.atPhase e.phase)).publishing sha256 publication
    (e.txn.atPhase e.phase).candidateKeys with activeTxnId := none }, ?_, ?_⟩
  · rw [dicts_events_foldlM hopened, hextra, replayEvent_txn hidentity hactive.keys (by rintro ⟨⟩),
      hcommitted]
    exact congrArg Except.ok (if_pos he.terminal)
  · refine ⟨rfl, ?_, ?_, ?_, hactive.proven.trans h.proven, le_rfl, rfl, hactive.pending,
      hactive.phases_closed he h.phases⟩
    · change (publication.cacheGeneration : Int) = _
      rw [hgeneration, List.length_append]
      rfl
    · change opened.committed + 1 = _
      rw [hactive.committed, h.committed, List.length_append]
      rfl
    · change opened.committedKeyDigests ++ _ = _
      rw [hactive.digests, h.digests, List.map_append]
      rfl

end

end TxnOpt
