import TxnOpt.Runtime.Values

/-!
# The candidate transaction state machine

`CandidateTxn` carries the checks of its constructor as fields, so that a transaction with no
candidate, a repeated key or a malformed snapshot digest cannot be built.
-/

namespace TxnOpt

inductive TxnPhase where
  | prepared
  | reserved
  | evaluating
  | validated
  | committed
  | aborted
  | interrupted
  deriving DecidableEq, Repr

namespace TxnPhase

def value : TxnPhase → String
  | prepared => "PREPARED"
  | reserved => "RESERVED"
  | evaluating => "EVALUATING"
  | validated => "VALIDATED"
  | committed => "COMMITTED"
  | aborted => "ABORTED"
  | interrupted => "INTERRUPTED"

def terminalPhases : List TxnPhase := [committed, aborted, interrupted]

def allowedTransitions : TxnPhase → List TxnPhase
  | prepared => [reserved, aborted, interrupted]
  | reserved => [evaluating, aborted, interrupted]
  | evaluating => [validated, aborted, interrupted]
  | validated => [committed, aborted, interrupted]
  | committed => []
  | aborted => []
  | interrupted => []

theorem aborted_mem {phase : TxnPhase} (h : phase ∉ terminalPhases) :
    aborted ∈ phase.allowedTransitions := by
  revert h
  cases phase <;> decide

theorem interrupted_mem {phase : TxnPhase} (h : phase ∉ terminalPhases) :
    interrupted ∈ phase.allowedTransitions := by
  revert h
  cases phase <;> decide

end TxnPhase

/-- `re.fullmatch(r"[a-z0-9][a-z0-9._-]*", text)`. -/
def isIdentity (text : String) : Bool :=
  let alphanumeric := fun c : Char => ('a' ≤ c && c ≤ 'z') || ('0' ≤ c && c ≤ '9')
  match text.toList with
  | [] => false
  | first :: rest =>
      alphanumeric first &&
        rest.all fun c => alphanumeric c || c == '.' || c == '_' || c == '-'

/-- One ordered candidate transaction bound to an immutable snapshot. -/
structure CandidateTxn where
  txnId : String
  snapshotDigest : String
  candidateKeys : List String
  phase : TxnPhase
  txnId_canonical : isIdentity txnId = true
  snapshotDigest_valid : isDigest snapshotDigest = true
  candidateKeys_ne_nil : candidateKeys ≠ []
  candidateKeys_ne_empty : ∀ key ∈ candidateKeys, key ≠ ""
  candidateKeys_nodup : candidateKeys.Nodup

namespace CandidateTxn

/-- `CandidateTxn(txn_id=..., snapshot_digest=..., candidate_keys=...)`. -/
def new (txnId snapshotDigest : String) (candidateKeys : List String) :
    Except PyExc CandidateTxn :=
  if hid : isIdentity txnId = true then
    if hdigest : isDigest snapshotDigest = true then
      if hkeys : candidateKeys ≠ [] ∧ ∀ key ∈ candidateKeys, key ≠ "" then
        if hnodup : candidateKeys.Nodup then
          .ok ⟨txnId, snapshotDigest, candidateKeys, .prepared, hid, hdigest, hkeys.1, hkeys.2,
            hnodup⟩
        else .error (.valueError "candidate_keys must already be deduplicated")
      else .error (.valueError "candidate_keys must be non-empty")
    else .error (.valueError "snapshot_digest must be a lowercase SHA-256")
  else .error (.valueError "txn_id must be canonical")

def terminal (txn : CandidateTxn) : Bool := decide (txn.phase ∈ TxnPhase.terminalPhases)

/-- Return the next immutable state or reject an illegal transition. -/
def transition (txn : CandidateTxn) (nextPhase : TxnPhase) : Except PyExc CandidateTxn :=
  if nextPhase ∈ txn.phase.allowedTransitions then .ok { txn with phase := nextPhase }
  else .error (.valueError ("illegal candidate transaction transition: " ++ txn.phase.value))

/-- The transaction moved to a phase, whatever its phase was. -/
def atPhase (txn : CandidateTxn) (phase : TxnPhase) : CandidateTxn := { txn with phase := phase }

@[simp] theorem atPhase_phase (txn : CandidateTxn) (phase : TxnPhase) :
    (txn.atPhase phase).phase = phase := rfl

@[simp] theorem atPhase_txnId (txn : CandidateTxn) (phase : TxnPhase) :
    (txn.atPhase phase).txnId = txn.txnId := rfl

@[simp] theorem atPhase_candidateKeys (txn : CandidateTxn) (phase : TxnPhase) :
    (txn.atPhase phase).candidateKeys = txn.candidateKeys := rfl

@[simp] theorem atPhase_snapshotDigest (txn : CandidateTxn) (phase : TxnPhase) :
    (txn.atPhase phase).snapshotDigest = txn.snapshotDigest := rfl

@[simp] theorem atPhase_atPhase (txn : CandidateTxn) (first second : TxnPhase) :
    (txn.atPhase first).atPhase second = txn.atPhase second := rfl

theorem transition_eq_ok {txn : CandidateTxn} {nextPhase : TxnPhase}
    (h : nextPhase ∈ txn.phase.allowedTransitions) :
    txn.transition nextPhase = .ok (txn.atPhase nextPhase) :=
  if_pos h

theorem new_eq_ok {txnId snapshotDigest : String} {candidateKeys : List String}
    (hid : isIdentity txnId = true) (hdigest : isDigest snapshotDigest = true)
    (hne : candidateKeys ≠ []) (hempty : ∀ key ∈ candidateKeys, key ≠ "")
    (hnodup : candidateKeys.Nodup) :
    new txnId snapshotDigest candidateKeys =
      .ok ⟨txnId, snapshotDigest, candidateKeys, .prepared, hid, hdigest, hne, hempty, hnodup⟩ := by
  unfold new
  rw [dif_pos hid, dif_pos hdigest, dif_pos ⟨hne, hempty⟩, dif_pos hnodup]

end CandidateTxn

end TxnOpt
