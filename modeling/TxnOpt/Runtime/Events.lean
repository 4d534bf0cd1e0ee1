import TxnOpt.Runtime.CandidateTxn
import TxnOpt.Runtime.WasteBounds

/-!
# Trace events

Semantic events are typed; `SemanticEvent.toDict` is the JSON object that the sink receives. Physical
events are the second stream, which never enters the semantic digest.
-/

namespace TxnOpt

structure Screening where
  proposedCount : Nat
  screenedCandidateCount : Nat
  uniqueCount : Nat
  screenedAdmissibleCount : Nat
  admittedCount : Nat
  admissionLimit : Nat
  screeningComplete : Bool
  deriving DecidableEq, Repr

/-- What a `COMMITTED` event publishes. `receiptStatus` is set when the receipt was reconstructed. -/
structure Publication where
  stateDigest : String
  startedWork : Nat
  stagedCacheWrites : Nat
  cacheGeneration : Nat
  receiptStatus : Option String
  deriving DecidableEq, Repr

/-- The fields a transaction event adds to its phase event. -/
inductive PhaseExtra where
  | plain
  | denied (requestedWork startedWork : Nat) (remainingWork : Option Int)
  | published (publication : Publication)
  | unknownOutcome
  deriving DecidableEq, Repr

inductive SemanticEvent where
  | runOpen (seed : Nat) (stateDigest : String)
  | candidateScreening (screening : Screening)
  | roundTerminated (reason : String)
  | candidateTransaction (txn : CandidateTxn) (extra : PhaseExtra)
  | runTerminated (reason : String)

def optionalInt : Option Int → Value
  | none => .null
  | some value => .int value

def Screening.toDict (screening : Screening) : List (String × Value) :=
  [("proposed_count", .int screening.proposedCount),
    ("screened_candidate_count", .int screening.screenedCandidateCount),
    ("unique_count", .int screening.uniqueCount),
    ("screened_admissible_count", .int screening.screenedAdmissibleCount),
    ("admitted_count", .int screening.admittedCount),
    ("admission_limit", .int screening.admissionLimit),
    ("screening_complete", .bool screening.screeningComplete)]

/-- `_phase_event(transaction)`. -/
def phaseEvent (txn : CandidateTxn) : List (String × Value) :=
  [("event", .str "candidate_transaction"),
    ("txn_id", .str txn.txnId),
    ("phase", .str txn.phase.value),
    ("snapshot_digest", .str txn.snapshotDigest),
    ("candidate_keys", .list (txn.candidateKeys.map Value.str))]

def PhaseExtra.toDict : PhaseExtra → List (String × Value)
  | .plain => []
  | .denied requestedWork startedWork remainingWork =>
      [("requested_work", .int requestedWork),
        ("started_work", .int startedWork),
        ("remaining_work", optionalInt remainingWork)]
  | .published publication =>
      [("state_digest", .str publication.stateDigest),
        ("started_work", .int publication.startedWork),
        ("staged_cache_writes", .int publication.stagedCacheWrites),
        ("cache_generation", .int publication.cacheGeneration)] ++
        (match publication.receiptStatus with
          | none => []
          | some status => [("cache_receipt_status", .str status)])
  | .unknownOutcome => [("cache_outcome", .str "unknown")]

/-- The event as the JSON object of the detached stream. -/
def SemanticEvent.toDict : SemanticEvent → List (String × Value)
  | .runOpen seed stateDigest =>
      [("event", .str "run_open"), ("contract", .str contractVersion), ("seed", .int seed),
        ("state_digest", .str stateDigest)]
  | .candidateScreening screening =>
      ("event", .str "candidate_screening") :: screening.toDict
  | .roundTerminated reason => [("event", .str "round_terminated"), ("reason", .str reason)]
  | .candidateTransaction txn extra => phaseEvent txn ++ extra.toDict
  | .runTerminated reason => [("event", .str "run_terminated"), ("reason", .str reason)]

/-! ### Physical events -/

structure RunObservation where
  executionMode : String
  workers : Nat
  startedNs : Int
  endedNs : Int
  terminationReason : String
  observedCmaxUpperNs : Int
  screeningStatistics : List (String × Int)

/-- The costs that a waste observation gains once an evaluation has been timed. -/
structure MeasuredCost where
  measuredCmaxNs : Int
  observedDiscardedCostUpperNs : Int
  discardedCostBoundNs : Int
  observedPostBoundaryCostUpperNs : Int
  postBoundaryCostBoundNs : Int

structure WasteObservation where
  reason : String
  audit : WasteAudit
  cost : Option MeasuredCost

inductive PhysicalEvent where
  | runObservation (observation : RunObservation)
  | oracleObservation (event : List (String × Value))
  | wasteObservation (observation : WasteObservation)

/-- `_waste_audit_with_cost`. -/
def WasteObservation.withCost (cmax : Int) (observation : WasteObservation) : WasteObservation :=
  let audit := observation.audit
  if cmax ≤ 0 ∨ audit.observedDiscardedWorkUnits < 0 ∨ audit.observedPostBoundaryWorkUnits < 0 then
    observation
  else
    { observation with
      cost := some
        ⟨cmax, audit.observedDiscardedWorkUnits * cmax, audit.bound.discardedWorkUnits * cmax,
          audit.observedPostBoundaryWorkUnits * cmax, audit.bound.postBoundaryWorkUnits * cmax⟩ }

end TxnOpt
