import TxnOpt.Runtime.Cache

/-!
# The replay verifier

`replayAggregateRefinement` is the reviewer's side of the semantic stream: it reads the detached events
and checks that they refine the aggregate model, without sharing code with the runtime.
-/

namespace TxnOpt

/-- An event as the verifier gets it: a mapping with distinct keys. -/
abbrev EventDict : Type := List (String × Value)

/-- `RefinementReplayError`. -/
def refinementReplayError (message : String) : PyExc :=
  ⟨[.other "RefinementReplayError", .valueError], message⟩

/-- `_TRANSITIONS`. -/
def replayTransitions : List (String × List String) :=
  [("PREPARED", ["RESERVED", "ABORTED", "INTERRUPTED"]),
    ("RESERVED", ["EVALUATING", "ABORTED", "INTERRUPTED"]),
    ("EVALUATING", ["VALIDATED", "ABORTED", "INTERRUPTED"]),
    ("VALIDATED", ["COMMITTED", "ABORTED", "INTERRUPTED"]),
    ("COMMITTED", []),
    ("ABORTED", []),
    ("INTERRUPTED", [])]

/-- `_TERMINAL`. -/
def replayTerminal : List String := ["COMMITTED", "ABORTED", "INTERRUPTED"]

structure RefinementReplayReceipt where
  committedTransactions : Nat
  abortedTransactions : Nat
  interruptedTransactions : Nat
  finalStateDigest : String
  finalCacheGeneration : Int
  privateStutteringSteps : Nat
  committedCandidateKeyDigests : List String
  prefixSafetyProven : Bool
  deriving DecidableEq, Repr

/-- The local variables of `replay_aggregate_refinement`. -/
structure Replaying where
  visibleDigest : String
  cacheGeneration : Int
  phases : PyDict String
  transactionKeys : PyDict (List String)
  activeTxnId : Option String
  pendingAdmittedCount : Option Int
  committed : Nat
  aborted : Nat
  interrupted : Nat
  stuttering : Nat
  committedKeyDigests : List String
  prefixSafetyProven : Bool
  lastStartedWork : Int

namespace EventDict

/-- `event.get(key)`, if it is a `str`. -/
def str? (event : EventDict) (key : String) : Option String :=
  (Value.get event key).bind Value.asStr?

/-- `event.get(key)`, if it is an `int` and not a `bool`. -/
def int? (event : EventDict) (key : String) : Option Int :=
  (Value.get event key).bind Value.asInt?

/-- `key in event`. -/
def has (event : EventDict) (key : String) : Bool := (Value.get event key).isSome

/-- `"state_digest" in event or "cache_generation" in event`. -/
def exposes (event : EventDict) : Bool := event.has "state_digest" || event.has "cache_generation"

/-- `candidate_keys`, if it is a non-empty sequence of non-empty strings. -/
def candidateKeys? (event : EventDict) : Option (List String) :=
  match Value.get event "candidate_keys" with
  | some (.list items) =>
      match items.mapM Value.asStr? with
      | some (key :: keys) => if "" ∈ key :: keys then none else some (key :: keys)
      | _ => none
  | _ => none

end EventDict

/-- `_candidate_keys_digest`; `sha256` is the hexadecimal digest of a UTF-8 text. -/
def candidateKeysDigest (sha256 : String → String) (keys : List String) : String :=
  sha256 ("txnopt-refinement-candidate-keys-v1\x00" ++ "\x00".intercalate keys)

/-- The branch of `candidate_screening`. -/
def replayScreening (s : Replaying) (event : EventDict) : Except PyExc Replaying :=
  if s.activeTxnId.isSome then
    .error (refinementReplayError "screening interleaved an active transaction")
  else if s.pendingAdmittedCount.isSome then
    .error (refinementReplayError "screening did not resolve its admitted set")
  else
    match event.int? "admitted_count" with
    | some (.ofNat count) => .ok { s with pendingAdmittedCount := some count }
    | _ => .error (refinementReplayError "screening admission count is invalid")

/-- The branch of `round_terminated`. -/
def replayRoundTerminated (s : Replaying) : Except PyExc Replaying :=
  if s.activeTxnId.isSome ∨ (s.pendingAdmittedCount ≠ none ∧ s.pendingAdmittedCount ≠ some 0) then
    .error (refinementReplayError "round termination crossed an unresolved transaction boundary")
  else .ok { s with pendingAdmittedCount := none }

/-- The checks of a transaction event against the transaction that it continues or opens. -/
def replayIdentity (s : Replaying) (event : EventDict) (txnId phase : String)
    (keys : List String) : Except PyExc Replaying :=
  match s.phases.lookup txnId with
  | none =>
      if s.activeTxnId.isSome ∨ phase ≠ "PREPARED" ∨
          event.str? "snapshot_digest" ≠ some s.visibleDigest then
        .error (refinementReplayError "transaction is not bound to the visible snapshot")
      else if ¬keys.Nodup then
        .error (refinementReplayError "transaction candidate keys are not unique")
      else if s.pendingAdmittedCount ≠ some (keys.length : Int) then
        .error (refinementReplayError "transaction differs from the admitted candidate set")
      else
        .ok { s with
          transactionKeys := s.transactionKeys.insert txnId keys
          activeTxnId := some txnId
          pendingAdmittedCount := none }
  | some previous =>
      if phase ∉ (replayTransitions.lookup previous).getD [] then
        .error (refinementReplayError
          ("illegal aggregate transition " ++ previous ++ "->" ++ phase))
      else if s.activeTxnId ≠ some txnId ∨
          event.str? "snapshot_digest" ≠ some s.visibleDigest ∨
          s.transactionKeys.lookup txnId ≠ some keys then
        .error (refinementReplayError "active transaction identity or candidate set changed")
      else .ok s

/-- What the phase of a transaction event does to the visible state. -/
def replayPhase (sha256 : String → String) (s : Replaying) (event : EventDict)
    (phase : String) (keys : List String) : Except PyExc Replaying :=
  if phase = "COMMITTED" then
    match event.str? "state_digest", event.int? "cache_generation", event.int? "started_work" with
    | some nextDigest, some nextGeneration, some startedWork =>
        if isDigest nextDigest = false ∨ nextGeneration ≠ s.cacheGeneration + 1 ∨
            startedWork < s.lastStartedWork then
          .error (refinementReplayError
            "commit did not publish state, cache, and work ledger atomically")
        else
          .ok { s with
            visibleDigest := nextDigest
            cacheGeneration := nextGeneration
            lastStartedWork := startedWork
            committedKeyDigests := s.committedKeyDigests ++ [candidateKeysDigest sha256 keys]
            committed := s.committed + 1 }
    | _, _, _ => .error (refinementReplayError
        "commit did not publish state, cache, and work ledger atomically")
  else if phase = "ABORTED" then
    if event.exposes then
      .error (refinementReplayError "aborted transaction exposed private state or cache")
    else .ok { s with aborted := s.aborted + 1 }
  else if phase = "INTERRUPTED" then
    if event.exposes then
      .error (refinementReplayError "interrupted transaction exposed private state or cache")
    else
      .ok { s with
        prefixSafetyProven :=
          if event.str? "cache_outcome" = some "unknown" then false else s.prefixSafetyProven
        interrupted := s.interrupted + 1 }
  else if event.exposes then
    .error (refinementReplayError "private transaction step changed visible state")
  else .ok { s with stuttering := s.stuttering + 1 }

/-- The branch of `candidate_transaction`. -/
def replayTransaction (sha256 : String → String) (s : Replaying) (event : EventDict) :
    Except PyExc Replaying :=
  match event.str? "txn_id", event.str? "phase" with
  | some txnId, some phase =>
      if (replayTransitions.lookup phase).isNone then
        .error (refinementReplayError "candidate transaction identity or phase is invalid")
      else
        match event.candidateKeys? with
        | none => .error (refinementReplayError "transaction candidate keys are invalid")
        | some keys => do
            let s ← replayIdentity s event txnId phase keys
            let s := { s with phases := s.phases.insert txnId phase }
            if event.has "cache_outcome" = true ∧
                ¬(phase = "INTERRUPTED" ∧ event.str? "cache_outcome" = some "unknown") then
              throw (refinementReplayError
                "cache outcome is allowed only on an interrupted transaction")
            let keys := (s.transactionKeys.lookup txnId).getD []
            let s ← replayPhase sha256 s event phase keys
            pure (if phase ∈ replayTerminal then { s with activeTxnId := none } else s)
  | _, _ => .error (refinementReplayError "candidate transaction identity or phase is invalid")

/-- One pass of the loop over `events[1:-1]`. -/
def replayEvent (sha256 : String → String) (s : Replaying) (event : EventDict) :
    Except PyExc Replaying :=
  match event.str? "event" with
  | some "candidate_screening" =>
      if event.exposes then
        .error (refinementReplayError "non-transaction event changed visible state")
      else replayScreening s event
  | some "round_terminated" =>
      if event.exposes then
        .error (refinementReplayError "non-transaction event changed visible state")
      else replayRoundTerminated s
  | some "candidate_transaction" => replayTransaction sha256 s event
  | _ => .error (refinementReplayError "semantic trace contains an unknown event")

/-- The checks after the loop. -/
def replayReceipt (s : Replaying) : Except PyExc RefinementReplayReceipt :=
  if s.phases.entries.any fun entry => entry.2 ∉ replayTerminal then
    .error (refinementReplayError "semantic trace ended with a non-terminal transaction")
  else if s.activeTxnId.isSome then
    .error (refinementReplayError "semantic trace ended with an active transaction owner")
  else if s.pendingAdmittedCount ≠ none ∧ s.pendingAdmittedCount ≠ some 0 then
    .error (refinementReplayError "semantic trace omitted an admitted transaction")
  else
    .ok ⟨s.committed, s.aborted, s.interrupted, s.visibleDigest, s.cacheGeneration, s.stuttering,
      s.committedKeyDigests, s.prefixSafetyProven⟩

/-- The local variables before the loop. -/
def Replaying.start (initialDigest : String) : Replaying :=
  ⟨initialDigest, 0, ∅, ∅, none, none, 0, 0, 0, 0, [], true, 0⟩

/-- `replay_aggregate_refinement`. -/
def replayAggregateRefinement (sha256 : String → String) (events : List EventDict) :
    Except PyExc RefinementReplayReceipt :=
  match events.head?, events.getLast? with
  | some opening, some closing =>
      if opening.str? "event" ≠ some "run_open" ∨ closing.str? "event" ≠ some "run_terminated" then
        .error (refinementReplayError "semantic trace lacks canonical run boundaries")
      else
        match opening.str? "state_digest" with
        | some initialDigest =>
            if isDigest initialDigest then do
              let final ← (events.drop 1).dropLast.foldlM (replayEvent sha256) (.start initialDigest)
              replayReceipt final
            else .error (refinementReplayError "run_open state digest is invalid")
        | none => .error (refinementReplayError "run_open state digest is invalid")
  | _, _ => .error (refinementReplayError "semantic trace lacks canonical run boundaries")

end TxnOpt
