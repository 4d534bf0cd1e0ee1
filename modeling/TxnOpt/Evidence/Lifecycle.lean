import TxnOpt.Evidence.EventStream
import TxnOpt.Evidence.TencentCos

/-!
# The lifecycle of an evidence bundle

A lifecycle is a hash-chained history of states. It starts planned, and each further state is a legal
successor of the one before.
-/

namespace TxnOpt.Lifecycle

open Cos (HasFields strField)
open EventStream (genesis isEventId)

def lifecycleSchemaVersion : String := "txnopt-evidence-lifecycle-v1"

/-! ### States -/

inductive EvidenceState where
  | planned
  | running
  | sealed
  | reviewed
  | classified
  | blockedRetention
  | retained
  | closed
  deriving DecidableEq, Repr

namespace EvidenceState

def value : EvidenceState → String
  | planned => "PLANNED"
  | running => "RUNNING"
  | sealed => "SEALED"
  | reviewed => "REVIEWED"
  | classified => "CLASSIFIED"
  | blockedRetention => "BLOCKED_RETENTION"
  | retained => "RETAINED"
  | closed => "CLOSED"

def all : List EvidenceState :=
  [planned, running, sealed, reviewed, classified, blockedRetention, retained, closed]

/-- `EvidenceState(value)`. -/
def ofValue (text : String) : Option EvidenceState := all.find? fun state => state.value = text

/-- `_TRANSITIONS`. -/
def transitions : EvidenceState → List EvidenceState
  | planned => [running]
  | running => [sealed]
  | sealed => [reviewed]
  | reviewed => [classified, blockedRetention]
  | blockedRetention => [classified]
  | classified => [retained]
  | retained => [closed]
  | closed => []

end EvidenceState

/-! ### Events -/

structure LifecycleEvent where
  ordinal : ℕ
  state : EvidenceState
  evidenceSha256 : String
  previousEventSha256 : String
  eventSha256 : String
  deriving DecidableEq

/-- The payload of the event with another ordinal. -/
def LifecycleEvent.payloadWith (event : LifecycleEvent) (ordinal : Json) : Json :=
  .obj [("ordinal", ordinal), ("state", .str event.state.value), ("evidence_sha256", .str event.evidenceSha256),
    ("previous_event_sha256", .str event.previousEventSha256), ("event_sha256", .str event.eventSha256)]

def LifecycleEvent.toPayload (event : LifecycleEvent) : Json := event.payloadWith (.int event.ordinal)

/-- The condition of `_validate_run_label`, `re.fullmatch(r"[a-z0-9][a-z0-9._-]{2,127}", run_label)`. -/
def IsRunLabel (value : String) : Prop :=
  match value.toList with
  | [] => False
  | first :: rest =>
      (first.isLower = true ∨ first.isDigit = true) ∧ 2 ≤ rest.length ∧ rest.length ≤ 127 ∧
        ∀ character ∈ rest, character.isLower = true ∨ character.isDigit = true ∨ character ∈ ['.', '_', '-']

instance (value : String) : Decidable (IsRunLabel value) :=
  match hvalue : value.toList with
  | [] => .isFalse (by rw [IsRunLabel, hvalue]; exact not_false)
  | first :: rest =>
      @decidable_of_iff _
        ((first.isLower = true ∨ first.isDigit = true) ∧ 2 ≤ rest.length ∧ rest.length ≤ 127 ∧
          ∀ character ∈ rest, character.isLower = true ∨ character.isDigit = true ∨ character ∈ ['.', '_', '-'])
        (by rw [IsRunLabel, hvalue])
        (@instDecidableAnd _ _ _ (@instDecidableAnd _ _ _ (@instDecidableAnd _ _ _ (List.decidableBAll _ _))))

def validateRunLabel (runLabel : String) : Except PyExc Unit :=
  if IsRunLabel runLabel then .ok ()
  else .error (.valueError "evidence lifecycle run label is not canonical")

def validateDigest (value name : String) : Except PyExc Unit :=
  if IsSha256 value then .ok () else .error (.valueError (name ++ " must be a lowercase SHA-256"))

variable (sha : Sha256)

def unsignedEvent (runLabel : String) (ordinal : ℕ) (state : EvidenceState)
    (evidenceSha256 previousEventSha256 : String) : Json :=
  .obj [("schema_version", .str lifecycleSchemaVersion), ("run_label", .str runLabel), ("ordinal", .int ordinal),
    ("state", .str state.value), ("evidence_sha256", .str evidenceSha256),
    ("previous_event_sha256", .str previousEventSha256)]

/-- `_event`. -/
def event (runLabel : String) (ordinal : ℕ) (state : EvidenceState) (evidenceSha256 previousEventSha256 : String) :
    LifecycleEvent where
  ordinal := ordinal
  state := state
  evidenceSha256 := evidenceSha256
  previousEventSha256 := previousEventSha256
  eventSha256 := sha.hexdigest
    (canonicalJsonBytes (unsignedEvent runLabel ordinal state evidenceSha256 previousEventSha256) false)

/-! ### Lifecycles -/

structure EvidenceLifecycle where
  runLabel : String
  events : List LifecycleEvent
  deriving DecidableEq

namespace EvidenceLifecycle

def start (runLabel evidenceSha256 : String) : Except PyExc EvidenceLifecycle := do
  validateRunLabel runLabel
  validateDigest evidenceSha256 "evidence_sha256"
  pure ⟨runLabel, [event sha runLabel 0 .planned evidenceSha256 genesis]⟩

def state (lifecycle : EvidenceLifecycle) : Except PyExc EvidenceState :=
  match lifecycle.events.getLast? with
  | none => .error (.valueError "evidence lifecycle cannot be empty")
  | some last => .ok last.state

def advance (lifecycle : EvidenceLifecycle) (state : EvidenceState) (evidenceSha256 : String) :
    Except PyExc EvidenceLifecycle := do
  validateDigest evidenceSha256 "evidence_sha256"
  match lifecycle.events.getLast? with
  | none => .error (.valueError "evidence lifecycle cannot be empty")
  | some prior =>
      if state ∈ prior.state.transitions then
        pure ⟨lifecycle.runLabel, lifecycle.events ++
          [event sha lifecycle.runLabel lifecycle.events.length state evidenceSha256 prior.eventSha256]⟩
      else
        .error (.valueError ("illegal evidence lifecycle transition " ++ prior.state.value ++ "->" ++ state.value))

def toPayload (lifecycle : EvidenceLifecycle) : Except PyExc Json := do
  let state ← lifecycle.state
  pure (.obj [("schema_version", .str lifecycleSchemaVersion), ("run_label", .str lifecycle.runLabel),
    ("state", .str state.value), ("events", .arr (lifecycle.events.map LifecycleEvent.toPayload))])

end EvidenceLifecycle

/-! ### Reading -/

variable (floats : FloatConversion)

def eventFields : List String := ["ordinal", "state", "evidence_sha256", "previous_event_sha256", "event_sha256"]

def checkTransition (ordinal : ℕ) (previousState : Option EvidenceState) (state : EvidenceState) :
    Except PyExc Unit :=
  if ordinal = 0 then
    if state = .planned then .ok () else .error (.valueError "evidence lifecycle must start PLANNED")
  else if previousState.any fun previous => state ∈ previous.transitions then .ok ()
  else .error (.valueError "evidence lifecycle contains an illegal transition")

/-- One pass of the loop of `from_payload`. -/
def readEvent (runLabel : String) (ordinal : ℕ) (previous : String) (previousState : Option EvidenceState) :
    Json → Except PyExc LifecycleEvent
  | .obj members =>
      if HasFields members eventFields then
        match (strField members "state").bind EvidenceState.ofValue with
        | none => .error (.valueError "evidence lifecycle state is invalid")
        | some state =>
            if (members.lookup "ordinal").any (isEventId floats ordinal) = false ∨
                strField members "previous_event_sha256" ≠ some previous then
              .error (.valueError "evidence lifecycle ordinal or chain differs")
            else
              match strField members "evidence_sha256", strField members "event_sha256" with
              | some evidenceSha256, some claimedDigest => do
                  validateDigest evidenceSha256 "evidence_sha256"
                  validateDigest claimedDigest "event_sha256"
                  checkTransition ordinal previousState state
                  let expected := event sha runLabel ordinal state evidenceSha256 previous
                  if claimedDigest ≠ expected.eventSha256 then
                    .error (.valueError "evidence lifecycle event digest differs")
                  else pure expected
              | _, _ => .error (.valueError "evidence lifecycle digest is invalid")
      else .error (.valueError "evidence lifecycle event field set differs")
  | _ => .error (.valueError "evidence lifecycle event field set differs")

def readEvents (runLabel : String) :
    ℕ → String → Option EvidenceState → List Json → Except PyExc (List LifecycleEvent)
  | _, _, _, [] => .ok []
  | ordinal, previous, previousState, raw :: rawEvents => do
      let expected ← readEvent sha floats runLabel ordinal previous previousState raw
      let events ← readEvents runLabel (ordinal + 1) expected.eventSha256 (some expected.state) rawEvents
      pure (expected :: events)

def lifecycleFields : List String := ["schema_version", "run_label", "state", "events"]

def EvidenceLifecycle.fromPayload : Json → Except PyExc EvidenceLifecycle
  | .obj members =>
      if HasFields members lifecycleFields then
        if strField members "schema_version" ≠ some lifecycleSchemaVersion then
          .error (.valueError "unsupported evidence lifecycle schema")
        else
          match strField members "run_label", (members.lookup "events").bind Json.asArr? with
          | some runLabel, some (raw :: rawEvents) => do
              validateRunLabel runLabel
              let events ← readEvents sha floats runLabel 0 genesis none (raw :: rawEvents)
              let state ← EvidenceLifecycle.state ⟨runLabel, events⟩
              if strField members "state" ≠ some state.value then
                .error (.valueError "evidence lifecycle terminal state differs")
              else pure ⟨runLabel, events⟩
          | _, _ => .error (.valueError "evidence lifecycle identity or events are invalid")
      else .error (.valueError "evidence lifecycle field set differs")
  | _ => .error (.valueError "evidence lifecycle must be an object")

end TxnOpt.Lifecycle
