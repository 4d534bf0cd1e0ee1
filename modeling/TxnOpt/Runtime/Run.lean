import TxnOpt.Runtime.Admission
import TxnOpt.Runtime.Evaluate
import Mathlib.Data.Nat.Digits.Defs

/-!
# The run loop

`runRound` is one pass of the `for` loop of `PythonTxnRuntime.run`, cut at the points where the source
changes its error handling: proposal and admission, preparation, and the transaction body under the
outer `try`.
-/

namespace TxnOpt

/-- How a pass of the loop ends when it raises nothing. -/
inductive RoundExit (State Obj : Type) where
  | next
  | done (result : RunResult State Obj)

section

variable {W C Cand State Obj : Type}

/-! ### Cache cleanup -/

/-- `_rollback_or_raise`. -/
def rollbackOrRaise (job : Job W C Cand State Obj) : RunM W C Cand State Obj Unit :=
  onCache fun context =>
    match job.runtime.cacheOps.rollback context with
    | (.ok _, after) => (.ok (), after)
    | (.error _, after) =>
        (.error (.cacheCommitError "cache rollback failed"), { after with txn := after.txn.close })

/-- `_rollback_preserving_error`: the cleanup error, if any. -/
def rollbackPreservingError (job : Job W C Cand State Obj) :
    RunM W C Cand State Obj (Option PyExc) := do
  let outcome ← Prog.attempt (rollbackOrRaise job)
  match outcome with
  | .ok _ => pure none
  | .error cleanupError => pure (some cleanupError)

/-- Close the transaction as `ABORTED`, seal the run and raise. -/
def abortAndRaise {α : Type} (job : Job W C Cand State Obj) (error : PyExc) :
    RunM W C Cand State Obj α := do
  advance .aborted .plain
  emitFailedRun job (exceptionReason error)
  Prog.raise error

/-! ### Proposal and admission -/

/-- What a round proposes: nothing, since the deadline passed or the kernel is exhausted, or candidates
with their admission. -/
inductive Proposal (Cand : Type) where
  | stop (reason : String)
  | candidates (proposedCount : Nat) (limit : Option Nat) (admission : Admission Cand)

def tapeWordsPerRound : Nat := 16

/-- The part of a round before its first event: no handler stands around it. -/
def proposeRound (job : Job W C Cand State Obj) (deadlineNs : Option Int) (roundId : Nat) :
    RunM W C Cand State Obj (Proposal Cand) := do
  let expired ← deadlineReached job deadlineNs
  if expired then pure (.stop "deadline")
  else do
    let tape ← Prog.read Session.randomTape
    Prog.modify fun s => { s with randomTape := (tape.take tapeWordsPerRound).2 }
    let state ← Prog.read Session.state
    let candidates ← onWorld
      (job.kernel.propose state roundId (tape.take tapeWordsPerRound).1)
    if candidates.isEmpty then pure (.stop "kernel_exhausted")
    else do
      let limit ← onWorld (admissionLimit job.kernel)
      let admission ← onWorld (admitCandidates job.oracle candidates limit)
      pure (.candidates candidates.length limit admission)

def screeningOf (proposedCount : Nat) (limit : Option Nat) (admission : Admission Cand) : Screening :=
  ⟨proposedCount, admission.screenedCandidateCount, admission.uniqueCount,
    admission.screenedAdmissibleCount, admission.admitted.length,
    limit.getD admission.screenedAdmissibleCount, admission.screeningComplete⟩

/-! ### Preparation -/

/-- The decimal digits of `value`, padded with zeros to eight. -/
def zeroPadded (value : Nat) : String :=
  let digits := (Nat.digits 10 value).reverse.map Nat.digitChar
  String.ofList (List.replicate (8 - digits.length) '0' ++ digits)

/-- `f"round-{round_id:08d}"`. -/
def txnIdOf (roundId : Nat) : String := "round-" ++ zeroPadded roundId

/-- The local variables of a round that its transaction body reads. -/
structure Prepared (Cand State : Type) where
  admitted : List Cand
  values : List (Option State)
  missing : List (Nat × String × Cand)
  missingWork : List Nat
  remainingBefore : Option Int
  startedBefore : Nat

inductive Preparation (Cand State Obj : Type) where
  | exit (result : RunResult State Obj)
  | ready (prepared : Prepared Cand State)

/-- `cache.begin()`; its transaction becomes the cache transaction of the round. -/
def beginCache (job : Job W C Cand State Obj) : RunM W C Cand State Obj Unit := fun s =>
  match job.runtime.cacheOps.begin (s.cache, s.world) with
  | (.ok txn, (cache, world)) => (.ok (), { s with cache, world, cacheTxn := txn })
  | (.error error, (cache, world)) => (.error error, { s with cache, world })

/-- Roll back before evaluation and return; a failed rollback aborts the run instead. -/
def interruptPreparation (job : Job W C Cand State Obj) (reason : String) (extra : PhaseExtra) :
    RunM W C Cand State Obj (RunResult State Obj) := do
  let outcome ← Prog.attempt (rollbackOrRaise job)
  match outcome with
  | .error error => abortAndRaise job error
  | .ok _ => do
      advance .interrupted extra
      result job reason

/-- The misses of a lookup, with their positions: `enumerate(zip(keys, admitted, values, strict=True))`
without the cached entries. -/
def missesOf (keys : List String) (admitted : List Cand) (values : List (Option State)) :
    Except PyExc (List (Nat × String × Cand)) :=
  if keys.length = admitted.length ∧ values.length = admitted.length then
    .ok (((keys.zip (admitted.zip values)).zipIdx.filter fun item => item.1.2.2.isNone).map
      fun item => (item.2, item.1.1, item.1.2.1))
  else .error (.valueError "zip() argument lengths differ")

/-- Find the misses of the round and reserve their work. -/
def reserveMisses (job : Job W C Cand State Obj) (admission : Admission Cand)
    (lookup : CacheLookup State) :
    RunM W C Cand State Obj (Prepared Cand State × BudgetReceipt) := do
  let missing ← Prog.resume (missesOf admission.admittedKeys admission.admitted lookup.values)
  let missingWork ← onWorld
    (Prog.collect (fun item => validatedWorkUnits job.oracle item.2.2) missing)
  let before ← Prog.read Session.budget
  Prog.modify fun s => { s with budget := (s.budget.reserve missingWork.sum).2 }
  pure (⟨admission.admitted, lookup.values, missing, missingWork, before.remaining,
    before.started⟩, (before.reserve missingWork.sum).1)

/-- From `cache.begin()` to the reservation. -/
def prepareRound (job : Job W C Cand State Obj) (admission : Admission Cand) :
    RunM W C Cand State Obj (Preparation Cand State Obj) := do
  let begun ← Prog.attempt (beginCache job)
  match begun with
  | .error error => abortAndRaise job error
  | .ok _ => do
      let looked ← Prog.attempt (onCache (job.runtime.cacheOps.lookup admission.admittedKeys))
      match looked with
      | .error error => do
          let _ ← rollbackPreservingError job
          abortAndRaise job error
      | .ok lookup => do
          let expectedGeneration ← Prog.read fun s => s.cacheTxn.expectedGeneration
          if lookup.generation ≠ expectedGeneration then do
            let stale ← interruptPreparation job "stale_snapshot" .plain
            pure (.exit stale)
          else do
            let reserved ← Prog.attempt (reserveMisses job admission lookup)
            match reserved with
            | .error error => do
                let _ ← rollbackPreservingError job
                releaseReserved
                abortAndRaise job error
            | .ok (prepared, reservation) =>
                if reservation.granted = false then do
                  let exhausted ← interruptPreparation job "fixed_work_exhausted"
                    (.denied reservation.requested reservation.startedAfter
                      reservation.remainingAfter)
                  pure (.exit exhausted)
                else pure (.ready prepared)

/-! ### The transaction body -/

/-- `_record_waste_audit` for the work the round has started so far. -/
def auditRound (prepared : Prepared Cand State) (reason : String)
    (postBoundaryWorkUnits postBoundaryCapacityUnits : Nat) : RunM W C Cand State Obj Unit := do
  let budget ← Prog.read Session.budget
  recordWasteAudit reason prepared.remainingBefore prepared.missingWork
    ((budget.started : Int) - prepared.startedBefore) postBoundaryWorkUnits
    postBoundaryCapacityUnits

/-- Roll back, audit, close the transaction and return the last committed prefix. -/
def closeRound (job : Job W C Cand State Obj) (prepared : Prepared Cand State) (reason : String)
    (phase : TxnPhase) : RunM W C Cand State Obj (RunResult State Obj) := do
  rollbackOrRaise job
  auditRound prepared reason 0 0
  advance phase .plain
  result job reason

/-- Evaluate the misses between two drains of the oracle's observations, and time it. An exception of
the drain after a failed evaluation is only a note on the evaluation's own. -/
def evaluateObserved (job : Job W C Cand State Obj) (deadlineNs : Option Int)
    (prepared : Prepared Cand State) :
    RunM W C Cand State Obj (Except EvaluationAbort (List State)) := do
  let retain := decide (job.config.tracePolicy = .semanticAndPhysical)
  let startedNs ← readClock job.runtime.costClockNs
  let evaluated ← Prog.attempt
    (evaluateCandidates job deadlineNs (prepared.missing.map Prod.snd) prepared.missingWork)
  let collected ← Prog.attempt (collectOraclePhysicalObservations job retain)
  let endedNs ← readClock job.runtime.costClockNs
  Prog.modify fun s =>
    { s with physical :=
      { s.physical with
        observedCmaxUpperNs :=
          max s.physical.observedCmaxUpperNs (max 1 (endedNs - startedNs)) } }
  match evaluated, collected with
  | .ok (.ok values), .ok _ => pure (.ok values)
  | .ok (.ok _), .error error => Prog.raise error
  | .ok (.error abort), _ => pure (.error abort)
  | .error error, _ => Prog.raise error

/-- How an evaluation abort ends the run: the error to raise, if any, the phase and the reason. -/
def abortVerdict (deadlineNs : Option Int) (cause : PyExc) (cleanupError : Option PyExc) :
    Option PyExc × TxnPhase × String :=
  let verdict : Option PyExc × TxnPhase × String :=
    if cause.isInstance .timeoutError = true ∧ deadlineNs = none then
      let error := PyExc.contractError
        "oracle raised TimeoutError without a configured deadline"
      (some error, .aborted, exceptionReason error)
    else if cause.isInstance .oracleWorkerError then (none, .aborted, "worker_failure")
    else if cause.isInstance .timeoutError then (none, .interrupted, "deadline")
    else (some cause, .aborted, exceptionReason cause)
  match verdict.1, cleanupError with
  | none, some error => (some error, .aborted, exceptionReason error)
  | _, _ => verdict

/-- The handler of `_EvaluationAbort`. -/
def handleAbort (job : Job W C Cand State Obj) (deadlineNs : Option Int)
    (prepared : Prepared Cand State) (abort : EvaluationAbort) :
    RunM W C Cand State Obj (RunResult State Obj) := do
  let cleanupError ← rollbackPreservingError job
  let (terminalError, phase, reason) := abortVerdict deadlineNs abort.cause cleanupError
  auditRound prepared reason abort.postBoundaryWorkUnits abort.postBoundaryCapacityUnits
  advance phase .plain
  match terminalError with
  | some error => do
      emitFailedRun job reason
      Prog.raise error
  | none => result job reason

/-- `{key: state for (_, key, _), state in zip(missing, evaluated, strict=True)}`. -/
def stagedOf (missing : List (Nat × String × Cand)) (evaluated : List State) : PyDict State :=
  (missing.zip evaluated).foldl (fun staged item => staged.insert item.1.2.1 item.2) ∅

/-- `resolved_values` with the staged states at the positions of the misses. -/
def resolveValues (values : List (Option State)) (missing : List (Nat × String × Cand))
    (staged : PyDict State) : List (Option State) :=
  missing.foldl (fun values item => values.set item.1 (staged.lookup item.2.1)) values

/-- Evaluate the misses of the round: the staged entries, or the result of an aborted evaluation. -/
def evaluateRound (job : Job W C Cand State Obj) (deadlineNs : Option Int)
    (prepared : Prepared Cand State) :
    RunM W C Cand State Obj (RunResult State Obj ⊕ PyDict State) := do
  advance .evaluating .plain
  if prepared.missing.isEmpty then pure (.inr ∅)
  else do
    let outcome ← evaluateObserved job deadlineNs prepared
    match outcome with
    | .error abort => do
        let aborted ← handleAbort job deadlineNs prepared abort
        pure (.inl aborted)
    | .ok evaluated =>
        if evaluated.length ≠ prepared.missing.length then
          Prog.raise (.contractError "oracle batch results must preserve admitted miss order")
        else pure (.inr (stagedOf prepared.missing evaluated))

/-- `oracle.validate` and the digest of every resolved state. -/
def validateResolved (oracle : Oracle W Cand State Obj) (resolved : List State) :
    Prog W PyExc Unit :=
  Prog.forEach (fun state => do
    oracle.validate state
    let _ ← validatedStateDigest oracle state
    pure ()) resolved

/-- The state a validated round publishes. -/
structure Decision (State Obj : Type) where
  nextState : State
  nextDigest : String
  nextObjective : Obj

/-- The kernel's decision over the resolved states, checked against the snapshot and them. -/
def decideRound (job : Job W C Cand State Obj) (admitted : List Cand) (resolved : List State)
    (roundId : Nat) : RunM W C Cand State Obj (Decision State Obj) := do
  let snapshot ← Prog.read fun s => (s.state, s.stateDigest)
  let nextState ← onWorld (job.kernel.decide snapshot.1 admitted resolved roundId)
  onWorld (job.oracle.validate nextState)
  let nextDigest ← onWorld (validatedStateDigest job.oracle nextState)
  let resolvedDigests ← onWorld (Prog.collect (validatedStateDigest job.oracle) resolved)
  if nextDigest ∈ snapshot.2 :: resolvedDigests then do
    let nextObjective ← onWorld (job.oracle.objective nextState)
    pure ⟨nextState, nextDigest, nextObjective⟩
  else
    Prog.raise (.contractError "kernel decision is neither the snapshot nor an evaluated state")

/-! ### Publication -/

/-- What `_validated_cache_commit_receipt` finds when it does not raise `RuntimeContractError`:
the receipt, `_PublishedCacheReceiptError`, or `_UnknownCacheOutcomeError`. -/
inductive CommitVerdict where
  | confirmed (receipt : CacheCommitReceipt)
  | reconstructed (receipt : CacheCommitReceipt) (status : String)
  | unknown (message : String)

/-- `generation == expected_after and all(values.get(key) == value for ...)`. -/
def snapshotMatches [DecidableEq State] (expectedAfter : Nat) (staged : PyDict State)
    (snapshot : Nat × PyDict State) : Bool :=
  snapshot.1 == expectedAfter &&
    staged.entries.all fun entry => decide (snapshot.2.lookup entry.1 = some entry.2)

/-- `_validated_cache_commit_receipt`. -/
def validatedCacheCommitReceipt [DecidableEq State] (job : Job W C Cand State Obj)
    (rawReceipt : Option CacheCommitReceipt) (staged : PyDict State) :
    RunM W C Cand State Obj CommitVerdict := do
  let expectedBefore ← Prog.read fun s => s.cacheTxn.expectedGeneration
  let reconstructed : CacheCommitReceipt := ⟨expectedBefore, expectedBefore + 1, staged.size⟩
  let rawReceiptValid := decide (rawReceipt = some reconstructed)
  let snapshot ← Prog.attempt (onCache job.runtime.cacheOps.snapshot)
  let closed ← Prog.read fun s => s.cacheTxn.closed
  observe (.verify snapshot.toOption closed)
  match snapshot with
  | .error _ =>
      if closed then
        pure (.unknown "cache commit outcome cannot be verified after snapshot failure")
      else
        Prog.raise (.contractError "cache commit returned a malformed receipt with an unknown outcome")
  | .ok snapshot =>
      if snapshotMatches (expectedBefore + 1) staged snapshot then
        if rawReceiptValid && closed then pure (.confirmed reconstructed)
        else do
          Prog.modify fun s => { s with cacheTxn := s.cacheTxn.close }
          pure (.reconstructed reconstructed "reconstructed_after_contract_failure")
      else if closed then
        pure (.unknown "cache commit acknowledgement differs from the published snapshot")
      else
        Prog.raise (.contractError "cache commit returned a malformed receipt with an unverified outcome")

/-- `cache.commit(cache_transaction)`, logged. -/
def commitCache (job : Job W C Cand State Obj) (staged : PyDict State) :
    RunM W C Cand State Obj (Option CacheCommitReceipt) := do
  let before ← Prog.read Session.cache
  let expectedGeneration ← Prog.read fun s => s.cacheTxn.expectedGeneration
  let outcome ← Prog.attempt (onCache job.runtime.cacheOps.commit)
  let after ← Prog.read Session.cache
  observe (.commit ⟨before, after, expectedGeneration, staged, outcome.isOk⟩)
  Prog.resume outcome

/-- The committed state becomes visible. -/
def install (decision : Decision State Obj) : RunM W C Cand State Obj Unit :=
  Prog.modify fun s =>
    { s with
      state := decision.nextState
      stateDigest := decision.nextDigest
      objective := decision.nextObjective }

def publicationOf (decision : Decision State Obj) (startedWork : Nat)
    (receipt : CacheCommitReceipt) (receiptStatus : Option String) : Publication :=
  ⟨decision.nextDigest, startedWork, receipt.writes, receipt.generationAfter, receiptStatus⟩

/-- The handler of `_PublishedCacheReceiptError`: the commit is visible, the receipt was malformed. -/
def handlePublished {α : Type} (job : Job W C Cand State Obj) (decision : Decision State Obj)
    (receipt : CacheCommitReceipt) (status : String) : RunM W C Cand State Obj α := do
  install decision
  let budget ← Prog.read Session.budget
  advance .committed (.published (publicationOf decision budget.started receipt (some status)))
  emitFailedRun job "runtime_contract_error"
  Prog.raise ⟨[.runtimeContractError, .other "_PublishedCacheReceiptError"],
    "cache commit published with a malformed receipt"⟩

/-- The handler of `_UnknownCacheOutcomeError`. -/
def handleUnknown {α : Type} (job : Job W C Cand State Obj) (prepared : Prepared Cand State)
    (message : String) : RunM W C Cand State Obj α := do
  releaseReserved
  auditRound prepared "cache_outcome_unknown" 0 0
  advance .interrupted .unknownOutcome
  emitFailedRun job "cache_outcome_unknown"
  Prog.raise ⟨[.runtimeContractError, .other "_UnknownCacheOutcomeError"], message⟩

/-- Stage and commit the round: the receipt, or the result of a commit the store refused. -/
def publishRound [DecidableEq State] (job : Job W C Cand State Obj)
    (prepared : Prepared Cand State) (decision : Decision State Obj) (staged : PyDict State) :
    RunM W C Cand State Obj (RunResult State Obj ⊕ CacheCommitReceipt) := do
  onCache (job.runtime.cacheOps.stage staged)
  let verdict ← Prog.attempt do
    let rawReceipt ← commitCache job staged
    validatedCacheCommitReceipt job rawReceipt staged
  match verdict with
  | .ok (.confirmed receipt) => pure (.inr receipt)
  | .ok (.reconstructed receipt status) => handlePublished job decision receipt status
  | .ok (.unknown message) => handleUnknown job prepared message
  | .error error =>
      if error.isInstance .staleCacheSnapshotError then do
        let stale ← closeRound job prepared "stale_snapshot" .interrupted
        pure (.inl stale)
      else if error.isInstance .cacheCommitError then do
        let refused ← closeRound job prepared "cache_write_failure" .aborted
        pure (.inl refused)
      else Prog.raise error

/-- Validate the resolved states, decide and publish. -/
def concludeRound [DecidableEq State] (job : Job W C Cand State Obj)
    (prepared : Prepared Cand State) (staged : PyDict State) (roundId : Nat) :
    RunM W C Cand State Obj
      (RunResult State Obj ⊕ (Decision State Obj × CacheCommitReceipt)) := do
  let resolvedValues := resolveValues prepared.values prepared.missing staged
  if resolvedValues.any Option.isNone then
    Prog.raise (.contractError "cache lookup could not resolve admitted order")
  else do
    let resolved := resolvedValues.filterMap id
    let validated ← Prog.attempt (onWorld (validateResolved job.oracle resolved))
    match validated with
    | .error error =>
        if error.isInstance .valueError then do
          let rejected ← closeRound job prepared "validation_failure" .aborted
          pure (.inl rejected)
        else Prog.raise error
    | .ok _ => do
        advance .validated .plain
        let decision ← decideRound job prepared.admitted resolved roundId
        let published ← publishRound job prepared decision staged
        match published with
        | .inl refused => pure (.inl refused)
        | .inr receipt => pure (.inr (decision, receipt))

/-- The transaction body under the outer `try`. -/
def transactRound [DecidableEq State] (job : Job W C Cand State Obj) (deadlineNs : Option Int)
    (prepared : Prepared Cand State) (roundId : Nat) :
    RunM W C Cand State Obj
      (RunResult State Obj ⊕ (Decision State Obj × CacheCommitReceipt)) := do
  let evaluated ← evaluateRound job deadlineNs prepared
  match evaluated with
  | .inl aborted => pure (.inl aborted)
  | .inr staged => do
      let expired ← deadlineReached job deadlineNs
      if expired then do
        let interrupted ← closeRound job prepared "deadline" .interrupted
        pure (.inl interrupted)
      else concludeRound job prepared staged roundId

/-- The outer handler: clean up, close the transaction as `ABORTED`, seal the run and re-raise. -/
def handleFailure {α : Type} (job : Job W C Cand State Obj) (prepared : Prepared Cand State)
    (error : PyExc) : RunM W C Cand State Obj α := do
  let transaction ← Prog.read Session.transaction
  if transaction.any CandidateTxn.terminal then Prog.raise error
  else do
    let _ ← rollbackPreservingError job
    releaseReserved
    auditRound prepared (exceptionReason error) 0 0
    abortAndRaise job error

/-- One pass of the `for` loop. -/
def runRound [DecidableEq State] (job : Job W C Cand State Obj) (deadlineNs : Option Int)
    (roundId : Nat) : RunM W C Cand State Obj (RoundExit State Obj) := do
  let proposal ← proposeRound job deadlineNs roundId
  match proposal with
  | .stop reason => do
      let stopped ← result job reason
      pure (.done stopped)
  | .candidates proposedCount limit admission => do
      record (.candidateScreening (screeningOf proposedCount limit admission))
      if admission.admitted.isEmpty then do
        record (.roundTerminated "no_admissible_candidates")
        let stopped ← result job "no_admissible_candidates"
        pure (.done stopped)
      else do
        let snapshotDigest ← Prog.read Session.stateDigest
        let txn ← Prog.resume
          (CandidateTxn.new (txnIdOf roundId) snapshotDigest admission.admittedKeys)
        Prog.modify fun s => { s with transaction := some txn }
        record (.candidateTransaction txn .plain)
        let preparation ← prepareRound job admission
        match preparation with
        | .exit stopped => pure (.done stopped)
        | .ready prepared => do
            advance .reserved .plain
            let transacted ← Prog.rescue (transactRound job deadlineNs prepared roundId)
              (handleFailure job prepared)
            match transacted with
            | .inl stopped => pure (.done stopped)
            | .inr (decision, receipt) => do
                install decision
                let budget ← Prog.read Session.budget
                advance .committed
                  (.published (publicationOf decision budget.started receipt none))
                pure .next

/-- The `for` loop with `rounds` passes left, from round `roundId` on. -/
def runLoop [DecidableEq State] (job : Job W C Cand State Obj) (deadlineNs : Option Int) :
    Nat → Nat → RunM W C Cand State Obj (RunResult State Obj)
  | 0, _ => result job "max_rounds"
  | rounds + 1, roundId => do
      let exit ← runRound job deadlineNs roundId
      match exit with
      | .next => runLoop job deadlineNs rounds (roundId + 1)
      | .done result => pure result

/-! ### Opening a run -/

/-- The checks that `run` makes before it looks at the initial state. -/
def checkOracle (job : Job W C Cand State Obj) : Except PyExc Unit :=
  if job.oracle.deterministic = false then
    .error (.contractError "oracle did not declare deterministic semantics")
  else if job.config.executionMode ≠ .serial ∧ job.oracle.parallelSafe = false then
    .error (.contractError "oracle did not declare parallel-safe evaluation")
  else if job.oracle.internalParallelism = true ∧
      job.oracle.workerCount.getD job.config.workers ≠ job.config.workers then
    .error (.contractError "internally parallel oracle worker count differs from RunConfig")
  else .ok ()

/-- `self._physical_started_ns`, read when the trace policy asks for physical events. -/
def openPhysical (job : Job W C Cand State Obj) : Prog W PyExc (Option Int) := fun w =>
  if job.config.tracePolicy = .semanticAndPhysical then
    if job.runtime.physicalEventSink then
      (.ok (some (job.runtime.clockNs w).1), (job.runtime.clockNs w).2)
    else (.error (.contractError "semantic_and_physical tracing requires a physical event sink"), w)
  else (.ok none, w)

/-- `None`, or the clock plus the configured nanoseconds. -/
def openDeadline (job : Job W C Cand State Obj) : Prog W PyExc (Option Int) := fun w =>
  match job.config.deadlineNs with
  | none => (.ok none, w)
  | some deadlineNs =>
      (.ok (some ((job.runtime.clockNs w).1 + deadlineNs)), (job.runtime.clockNs w).2)

/-- The part of `run` before its loop: the opened session and the deadline. -/
def openRun (job : Job W C Cand State Obj) (initialState : State) :
    Prog W PyExc (Session W C Cand State Obj × Option Int) := do
  let startedNs ← openPhysical job
  let _ ← drainObservations job.oracle
  Prog.resume (checkOracle job)
  job.oracle.validate initialState
  let stateDigest ← validatedStateDigest job.oracle initialState
  let objective ← job.oracle.objective initialState
  let cache ← job.runtime.cacheFactory
  let deadlineNs ← openDeadline job
  let world ← Prog.read id
  pure
    ({ world
       cache
       cacheTxn := ⟨0, ∅, true⟩
       randomTape := .ofSeed job.config.seed
       budget := .new job.config.fixedWork
       state := initialState
       stateDigest
       objective
       transaction := none
       semanticEvents := [.runOpen job.config.seed stateDigest]
       semanticStreams := []
       physical := ⟨startedNs, [], [], 0, []⟩
       executor := ⟨[], [], 0, 0⟩
       log := [] }, deadlineNs)

/-- The end of a call of `run`: it failed before it opened the run, or it ended with a result or an
exception and the session as it then was. -/
inductive RunEnd (W C Cand State Obj : Type) where
  | notOpened (error : PyExc) (world : W)
  | ended (outcome : Except PyExc (RunResult State Obj)) (session : Session W C Cand State Obj)

/-- `PythonTxnRuntime.run`. -/
def run [DecidableEq State] (job : Job W C Cand State Obj) (initialState : State) (world : W) :
    RunEnd W C Cand State Obj :=
  match openRun job initialState world with
  | (.error error, world) => .notOpened error world
  | (.ok (session, deadlineNs), _) =>
      let (outcome, final) := runLoop job deadlineNs job.config.maxRounds 0 session
      .ended outcome final

end

end TxnOpt
