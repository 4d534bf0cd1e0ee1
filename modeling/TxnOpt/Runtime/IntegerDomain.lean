import TxnOpt.Runtime.Run

/-!
# The integer domain of the test suite

States and candidates are integers, and evaluating a candidate gives the candidate itself. The work and
the evaluation are parameters, since the tests override them.
-/

namespace TxnOpt

namespace IntegerDomain

variable {W C : Type}

/-- Stands for `sha256(str(state))`: the hexadecimal digits of the state, padded to 64. -/
def digest (state : Int) : String :=
  let digits := (Nat.digits 16 state.toNat).reverse.map Nat.digitChar
  String.ofList (List.replicate (64 - digits.length) '0' ++ digits)

/-- `IntegerOracle`. -/
def oracle (workUnits : Int → Nat) (evaluate : List Int → Prog W PyExc (List Int)) :
    Oracle W Int Int Int where
  deterministic := true
  parallelSafe := true
  internalParallelism := false
  workerCount := none
  stableKey := fun candidate => pure ("integer:" ++ toString candidate)
  workUnits := fun candidate => pure (.int (workUnits candidate))
  stateDigest := fun state => pure (digest state)
  screen := fun candidates => pure (candidates.map fun _ => .bool true)
  evaluateBatch := fun candidates _ _ => evaluate candidates
  validate := fun state =>
    if state < 0 then Prog.raise (.valueError "negative state") else pure ()
  objective := fun state => pure state
  drainPhysicalObservations := .absent
  screeningStatistics := none

/-- `CandidateKernel`, with the offsets of its candidates; `IncrementKernel` has the offset 1 only. -/
def kernel (offsets : List Int) : SearchKernel W Int Int where
  propose := fun snapshot _ _ => pure (offsets.map fun offset => snapshot + offset)
  decide := fun snapshot _ resolved _ => pure (resolved.headD snapshot)
  admissionLimit := none

/-- A runtime with a semantic sink over the given store; its clocks stand still. -/
def runtime (cacheOps : CacheOps C W Int) (cache : C) (schedule : Nat → List WorkerStep) :
    PythonTxnRuntime W C Int where
  clockNs := fun w => (0, w)
  costClockNs := fun w => (0, w)
  cacheOps
  cacheFactory := pure cache
  semanticEventSink := true
  physicalEventSink := false
  schedule
  sha256 := fun events => toString events.length

/-- `RunConfig(execution_mode="serial", ...)`. -/
def serialConfig (fixedWork maxRounds : Nat) (hwork : 0 < fixedWork) (hrounds : 0 < maxRounds) :
    RunConfig where
  seed := 0
  workers := 1
  executionMode := .serial
  fixedWork := some fixedWork
  deadlineNs := none
  speculationWindow := 0
  tracePolicy := .semantic
  maxRounds
  workers_pos := Nat.one_pos
  serial_workers := fun _ => rfl
  serial_window := fun _ => rfl
  ordered_window := by rintro ⟨⟩
  one_limit := ⟨fun _ => rfl, fun _ => rfl⟩
  fixedWork_pos := by
    rintro _ ⟨⟩
    exact hwork
  maxRounds_pos := hrounds

/-- `OracleWorkerError("simulated worker crash")`. -/
def workerCrash : PyExc := ⟨[.oracleWorkerError], "simulated worker crash"⟩

end IntegerDomain

end TxnOpt
