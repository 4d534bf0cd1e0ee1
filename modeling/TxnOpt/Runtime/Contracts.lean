import TxnOpt.Runtime.Values

/-!
# The root contracts

A kernel, an oracle and the clocks are arbitrary code over an outside world `W`: each method is a
program of that world, so an answer may depend on everything that happened before and any call may
raise.
-/

namespace TxnOpt

inductive ExecutionMode where
  | serial
  | barrier
  | ordered
  deriving DecidableEq, Repr

inductive TracePolicy where
  | none
  | semantic
  | semanticAndPhysical
  deriving DecidableEq, Repr

/-- Immutable runtime policy; the fields after `maxRounds` are the checks of the constructor.
`deadlineNs` is `int(deadline_seconds * 1_000_000_000)`. -/
structure RunConfig where
  seed : Nat
  workers : Nat
  executionMode : ExecutionMode
  fixedWork : Option Nat
  deadlineNs : Option Nat
  speculationWindow : Nat
  tracePolicy : TracePolicy
  maxRounds : Nat
  workers_pos : 0 < workers
  serial_workers : executionMode = .serial → workers = 1
  serial_window : executionMode = .serial → speculationWindow = 0
  ordered_window : executionMode = .ordered → 0 < speculationWindow
  one_limit : fixedWork.isSome = true ↔ deadlineNs = none
  fixedWork_pos : ∀ work, fixedWork = some work → 0 < work
  maxRounds_pos : 0 < maxRounds

/-- Pure proposal and decision logic over immutable runtime snapshots. `admissionLimit` is `none` for a
kernel without that attribute. -/
structure SearchKernel (W Cand State : Type) where
  propose : State → Nat → List Nat → Prog W PyExc (List Cand)
  decide : State → List Cand → List State → Nat → Prog W PyExc State
  admissionLimit : Option (Prog W PyExc Value)

/-- The optional `drain_physical_observations` attribute of an oracle. -/
inductive Drain (W : Type) where
  | absent
  | notCallable
  | call (drain : Prog W PyExc Value)

/-- Domain adapter for safe screening and deterministic expensive work. `workerCount` is `none` for an
oracle without that attribute. -/
structure Oracle (W Cand State Obj : Type) where
  deterministic : Bool
  parallelSafe : Bool
  internalParallelism : Bool
  workerCount : Option Nat
  stableKey : Cand → Prog W PyExc String
  workUnits : Cand → Prog W PyExc Value
  stateDigest : State → Prog W PyExc String
  screen : List Cand → Prog W PyExc (List Value)
  evaluateBatch : List Cand → Nat → Option Int → Prog W PyExc (List State)
  validate : State → Prog W PyExc Unit
  objective : State → Prog W PyExc Obj
  drainPhysicalObservations : Drain W
  screeningStatistics : Option (Prog W PyExc Value)

/-- The last complete commit of a run. -/
structure RunResult (State Obj : Type) where
  lastCommittedState : State
  objective : Obj
  terminationReason : String
  semanticDigest : String
  physicalArtifactRef : Option String
  deriving DecidableEq, Repr

end TxnOpt
