import TxnOpt.Runtime.Budget
import TxnOpt.Runtime.Cache
import TxnOpt.Runtime.Contracts
import TxnOpt.Runtime.Events
import TxnOpt.Runtime.RandomTape

/-!
# The state of a run

`Session` holds the variables of `PythonTxnRuntime.run` and of the runtime object. Its `log` is not in
the source: it records the calls that the theorems talk about, and nothing in the runtime reads it.
-/

namespace TxnOpt

/-! ### The executor -/

/-- A future of the executor. The outcome of a running evaluation is decided when it enters the oracle
and becomes visible to the owner when it leaves. -/
inductive FutureStatus (State : Type) where
  | queued
  | running (outcome : Except PyExc (List State))
  | finished (outcome : Except PyExc (List State))
  | cancelled

/-- A submitted evaluation. `keys` and `counted` (the owner has started its work in the ledger) are only
for the log. -/
structure Future (Cand State : Type) where
  keys : List String
  candidates : List Cand
  workBudget : Nat
  counted : Bool
  status : FutureStatus State

/-- `future.done()`. -/
def Future.done {Cand State : Type} (future : Future Cand State) : Bool :=
  match future.status with
  | .finished _ | .cancelled => true
  | _ => false

/-- A step of a worker thread: it enters `evaluate_batch` for a queued future, or leaves it. -/
inductive WorkerStep where
  | enter (future : Nat)
  | leave (future : Nat)
  deriving DecidableEq, Repr

/-- The executor of the current evaluation, with the ordered evaluator's window. `tick` counts the points
at which the worker threads were given time so far. -/
structure Executor (Cand State : Type) where
  futures : List (Future Cand State)
  pending : List Nat
  nextToSubmit : Nat
  tick : Nat

/-! ### The log -/

/-- One call of `evaluate_batch`: the stable keys of its batch, its work budget, the ledger at that
moment, and whether the owner had started this work in the ledger before. -/
structure EvaluateCall where
  keys : List String
  workBudget : Nat
  ledger : BudgetLedger
  counted : Bool

/-- One call of `audit_waste`, with the arguments the runtime passes, and its error. -/
structure AuditCall where
  remainingBudgetBefore : Int
  workUnits : List Nat
  postBoundaryCapacityUnits : Nat
  observedDiscardedWorkUnits : Int
  observedPostBoundaryWorkUnits : Int
  error : Option PyExc

/-- One call of `cache.commit`: the store before and after it, the generation the transaction expects,
the staged entries, and whether the call returned. -/
structure CommitCall (C State : Type) where
  before : C
  after : C
  expectedGeneration : Nat
  staged : PyDict State
  returned : Bool

/-- What the log holds. `verify` is the snapshot taken after a commit that returned (`none` if it
raised), and whether the transaction object is closed then. -/
inductive Observation (C State : Type) where
  | evaluate (call : EvaluateCall)
  | audit (call : AuditCall)
  | commit (call : CommitCall C State)
  | verify (snapshot : Option (Nat × PyDict State)) (closed : Bool)
  | illegalTransition (source target : TxnPhase)

/-! ### The session -/

structure Physical where
  startedNs : Option Int
  wasteAudits : List WasteObservation
  oracleObservations : List (List (String × Value))
  observedCmaxUpperNs : Int
  streams : List (List PhysicalEvent)

structure Session (W C Cand State Obj : Type) where
  world : W
  cache : C
  cacheTxn : CacheTxn State
  randomTape : RandomTape
  budget : BudgetLedger
  state : State
  stateDigest : String
  objective : Obj
  transaction : Option CandidateTxn
  semanticEvents : List SemanticEvent
  semanticStreams : List (List SemanticEvent)
  physical : Physical
  executor : Executor Cand State
  log : List (Observation C State)

/-- The parameters of `PythonTxnRuntime`. `schedule` is the operating system: what the worker threads do
each time they are given time. `sha256` is the digest of a list of JSON objects. -/
structure PythonTxnRuntime (W C State : Type) where
  clockNs : W → Int × W
  costClockNs : W → Int × W
  cacheOps : CacheOps C W State
  cacheFactory : Prog W PyExc C
  semanticEventSink : Bool
  physicalEventSink : Bool
  schedule : Nat → List WorkerStep
  sha256 : List (List (String × Value)) → String

/-- A runtime with the arguments of one call of `run`. -/
structure Job (W C Cand State Obj : Type) where
  runtime : PythonTxnRuntime W C State
  kernel : SearchKernel W Cand State
  oracle : Oracle W Cand State Obj
  config : RunConfig

abbrev RunM (W C Cand State Obj α : Type) : Type := Prog (Session W C Cand State Obj) PyExc α

section Primitives

variable {W C Cand State Obj α : Type}

/-- A call into the outside world. -/
def onWorld (call : Prog W PyExc α) : RunM W C Cand State Obj α :=
  Prog.zoom Session.world (fun world s => { s with world }) call

def Session.cacheContext (s : Session W C Cand State Obj) : CacheContext C W State :=
  ⟨s.cache, s.world, s.cacheTxn⟩

def Session.withCacheContext (s : Session W C Cand State Obj) (context : CacheContext C W State) :
    Session W C Cand State Obj :=
  { s with cache := context.store, world := context.world, cacheTxn := context.txn }

/-- A call of a cache store method. -/
def onCache (call : Prog (CacheContext C W State) PyExc α) : RunM W C Cand State Obj α :=
  Prog.zoom Session.cacheContext (fun context s => s.withCacheContext context) call

def readClock (clock : W → Int × W) : RunM W C Cand State Obj Int := fun s =>
  (.ok (clock s.world).1, { s with world := (clock s.world).2 })

def observe (observation : Observation C State) : RunM W C Cand State Obj Unit :=
  Prog.modify fun s => { s with log := s.log ++ [observation] }

/-- `semantic_events.append(event)`. -/
def record (event : SemanticEvent) : RunM W C Cand State Obj Unit :=
  Prog.modify fun s => { s with semanticEvents := s.semanticEvents ++ [event] }

/-- `transaction = transaction.transition(phase)`, then the phase event with its extra fields. -/
def advance (phase : TxnPhase) (extra : PhaseExtra) : RunM W C Cand State Obj Unit := fun s =>
  match s.transaction with
  | none => (.error ⟨[.other "UnboundLocalError"], "transaction"⟩, s)
  | some txn =>
      match txn.transition phase with
      | .error error =>
          (.error error, { s with log := s.log ++ [.illegalTransition txn.phase phase] })
      | .ok next =>
          (.ok (), { s with
            transaction := some next
            semanticEvents := s.semanticEvents ++ [.candidateTransaction next extra] })

/-- `deadline_ns is not None and self._clock_ns() >= deadline_ns`. -/
def deadlineReached (job : Job W C Cand State Obj) :
    Option Int → RunM W C Cand State Obj Bool
  | none => pure false
  | some deadlineNs => do
      let now ← readClock job.runtime.clockNs
      pure (decide (deadlineNs ≤ now))

/-- `_validated_state_digest`. -/
def validatedStateDigest (oracle : Oracle W Cand State Obj) (state : State) :
    Prog W PyExc String := do
  let digest ← oracle.stateDigest state
  if isDigest digest then pure digest
  else Prog.raise (.contractError "oracle state_digest must be a lowercase SHA-256")

/-- `_validated_work_units`. -/
def validatedWorkUnits (oracle : Oracle W Cand State Obj) (candidate : Cand) :
    Prog W PyExc Nat := do
  let work ← oracle.workUnits candidate
  match work.asInt? with
  | some (.ofNat (n + 1)) => pure (n + 1)
  | _ => Prog.raise (.contractError "oracle work_units must be a positive integer")

/-- `_exception_reason`. -/
def exceptionReason (error : PyExc) : String :=
  if error.isInstance .runtimeContractError || error.isInstance .valueError ||
      error.isInstance .typeError then
    "runtime_contract_error"
  else
    "runtime_exception"

end Primitives

/-! ### Sealing the evidence -/

section Emission

variable {W C Cand State Obj : Type}

/-- `_emit_semantic_trace`. -/
def emitSemanticTrace (job : Job W C Cand State Obj) (reason : String) :
    RunM W C Cand State Obj (List SemanticEvent) := fun s =>
  let finalEvents := s.semanticEvents ++ [.runTerminated reason]
  (.ok finalEvents,
    if job.runtime.semanticEventSink then
      { s with semanticStreams := s.semanticStreams ++ [finalEvents] }
    else s)

/-- One oracle observation, detached from the oracle. -/
def detachObservation : Value → Except PyExc (List (String × Value))
  | .dict items =>
      if (Value.dict items).isJson then
        match (Value.get items "event").bind Value.asStr?, Value.get items "trace" with
        | some name, some (.str trace) =>
            if name ≠ "" ∧ name ≠ "run_observation" ∧ name ≠ "t4_waste_observation" ∧
                trace = physicalTraceVersion then
              .ok items
            else .error (.contractError
              "oracle physical observation uses a reserved or invalid identity")
        | _, _ => .error (.contractError
            "oracle physical observation uses a reserved or invalid identity")
      else .error (.contractError "oracle physical observation is not canonical JSON")
  | _ => .error (.contractError "oracle physical observation must be a mapping")

/-- What the drain returned, as detached events. -/
def detachObservations : Value → Except PyExc (List (List (String × Value)))
  | .list items => items.mapM detachObservation
  | _ => .error (.contractError "oracle physical observations must be an ordered sequence")

/-- The drain of `_collect_oracle_physical_observations`. -/
def drainObservations (oracle : Oracle W Cand State Obj) :
    Prog W PyExc (List (List (String × Value))) :=
  match oracle.drainPhysicalObservations with
  | .absent => pure []
  | .notCallable =>
      Prog.raise (.contractError "oracle drain_physical_observations must be callable")
  | .call drain => do
      let raw ← drain
      Prog.resume (detachObservations raw)

/-- `_collect_oracle_physical_observations(oracle, retain=...)`. -/
def collectOraclePhysicalObservations (job : Job W C Cand State Obj) (retain : Bool) :
    RunM W C Cand State Obj Unit := do
  let detached ← onWorld (drainObservations job.oracle)
  if retain then
    Prog.modify fun s =>
      { s with physical :=
        { s.physical with oracleObservations := s.physical.oracleObservations ++ detached } }
  else pure ()

/-- The entries of `oracle.screening_statistics`, all non-negative integers. -/
def checkedStatistics : Value → Except PyExc (List (String × Int))
  | .dict items => items.mapM fun (key, value) =>
      match value.asInt? with
      | some (.ofNat n) => .ok (key, (n : Int))
      | _ => .error (.contractError
          "oracle screening_statistics must contain non-negative integers")
  | _ => .error (.contractError
      "oracle screening_statistics must contain non-negative integers")

def screeningStatistics (oracle : Oracle W Cand State Obj) :
    Prog W PyExc (List (String × Int)) :=
  match oracle.screeningStatistics with
  | none => pure []
  | some statistics => do
      let raw ← statistics
      Prog.resume (checkedStatistics raw)

def ExecutionMode.value : ExecutionMode → String
  | .serial => "serial"
  | .barrier => "barrier"
  | .ordered => "ordered"

/-- `_emit_physical_trace`. -/
def emitPhysicalTrace (job : Job W C Cand State Obj) (reason : String) :
    RunM W C Cand State Obj (Option String) := do
  if job.config.tracePolicy = .semanticAndPhysical then
    let physical ← Prog.read Session.physical
    match physical.startedNs, job.runtime.physicalEventSink with
    | some startedNs, true => do
        let statistics ← onWorld (screeningStatistics job.oracle)
        let endedNs ← readClock job.runtime.clockNs
        let observation : RunObservation :=
          ⟨job.config.executionMode.value, job.config.workers, startedNs, endedNs, reason,
            physical.observedCmaxUpperNs, statistics⟩
        let stream := .runObservation observation ::
          (physical.oracleObservations.map .oracleObservation ++
            physical.wasteAudits.map fun audit =>
              .wasteObservation (audit.withCost physical.observedCmaxUpperNs))
        Prog.modify fun s =>
          { s with physical := { s.physical with streams := s.physical.streams ++ [stream] } }
        pure (some "txnopt-physical-trace-v1:external")
    | _, _ => Prog.raise (.contractError "physical trace owner is not initialized")
  else pure none

/-- `_result`. -/
def result (job : Job W C Cand State Obj) (reason : String) :
    RunM W C Cand State Obj (RunResult State Obj) := do
  let finalEvents ← emitSemanticTrace job reason
  let semanticDigest := job.runtime.sha256 (finalEvents.map SemanticEvent.toDict)
  let physicalRef ← emitPhysicalTrace job reason
  Prog.read fun s => ⟨s.state, s.objective, reason, semanticDigest, physicalRef⟩

/-- `_emit_failed_run`: seal trace evidence for a fail-fast contract or runtime exception. -/
def emitFailedRun (job : Job W C Cand State Obj) (reason : String) :
    RunM W C Cand State Obj Unit := do
  let _ ← emitSemanticTrace job reason
  let _ ← emitPhysicalTrace job reason
  pure ()

/-- `_record_waste_audit`. -/
def recordWasteAudit (reason : String) (remainingBudgetBefore : Option Int) (workUnits : List Nat)
    (observedDiscardedWorkUnits observedPostBoundaryWorkUnits : Int)
    (postBoundaryCapacityUnits : Nat) : RunM W C Cand State Obj Unit :=
  match remainingBudgetBefore, workUnits with
  | none, _ => pure ()
  | some _, [] => pure ()
  | some remaining, first :: rest =>
      let call := AuditCall.mk remaining (first :: rest) postBoundaryCapacityUnits
        observedDiscardedWorkUnits observedPostBoundaryWorkUnits
      match auditWaste remaining (rest.length + 1) (rest.foldl max first) postBoundaryCapacityUnits
          observedDiscardedWorkUnits observedPostBoundaryWorkUnits with
      | .error error => do
          observe (.audit (call (some error)))
          Prog.raise error
      | .ok audit => do
          observe (.audit (call none))
          Prog.modify fun s =>
            { s with physical :=
              { s.physical with wasteAudits := s.physical.wasteAudits ++ [⟨reason, audit, none⟩] } }

end Emission

end TxnOpt
