import TxnOpt.Evidence.Codec
import TxnOpt.Rcpsp.Kernel
import TxnOpt.Rcpsp.Oracle
import TxnOpt.Runtime.Contracts
import Mathlib.Data.List.Lex
import Mathlib.Data.List.MinMax
import Mathlib.Data.Prod.Lex

/-!
# The RCPSP case as the runtime runs it

The decision of the kernel, the digests and the batches of the oracle, and the two of them as the runtime
reaches them. The machine under the oracle, its clock and its solver, is a parameter.
-/

namespace TxnOpt.Rcpsp

deriving instance DecidableEq for RCPSPSchedule

/-! ### The decision -/

/-- The key of `min`. -/
def decisionKey (state : RCPSPSchedule) : ℕ ×ₗ List Int ×ₗ List ℕ :=
  toLex (state.makespan, toLex (state.state.activityOrder, state.state.modeVector))

namespace RCPSPSearchKernel

/-- `decide`. -/
def decideBest (snapshot : RCPSPSchedule) (candidates : List RCPSPState) (evaluatedStates : List RCPSPSchedule) :
    Except PyExc RCPSPSchedule :=
  if candidates.length ≠ evaluatedStates.length then
    .error (.valueError "RCPSP decision inputs must preserve candidate order")
  else
    let best := (evaluatedStates.argmin decisionKey).getD snapshot
    .ok (if best.makespan < snapshot.makespan then best else snapshot)

def searchKernel {W : Type} (kernel : RCPSPSearchKernel) : SearchKernel W RCPSPState RCPSPSchedule where
  propose := fun snapshot roundId randomTape =>
    Prog.resume (kernel.propose snapshot roundId (randomTape.map Int.ofNat))
  decide := fun snapshot candidates evaluatedStates _ =>
    Prog.resume (decideBest snapshot candidates evaluatedStates)
  admissionLimit := some (pure (.int kernel.maxCandidates))

end RCPSPSearchKernel

/-! ### Digests -/

def jsonInts (values : List Int) : Json := .arr (values.map Json.int)

def jsonNats (values : List ℕ) : Json := jsonInts (values.map Int.ofNat)

def modeJson (mode : ActivityMode) : Json :=
  .obj [("duration", .int mode.duration), ("renewable_demands", jsonNats mode.renewableDemands)]

def activityJson (activity : Activity) : Json :=
  .obj [("id", .int activity.activityId), ("predecessors", jsonInts activity.predecessors),
    ("modes", .arr (activity.modes.map modeJson))]

def RCPSPInstance.digest (sha : Sha256) (inst : RCPSPInstance) : String :=
  sha.hexdigest (canonicalJsonBytes (.obj [("name", .str inst.name),
    ("capacities", jsonNats inst.renewableCapacities),
    ("activities", .arr ((sortedBy Activity.activityId inst.activities).map activityJson))]) false)

/-! ### The oracle on a machine -/

/-- What the oracle reaches outside of itself: `time.monotonic_ns`, and the solver as the machine runs it next. -/
structure Machine (W : Type) where
  monotonicNs : W → Int × W
  solver : W → CpSolver × W

namespace RCPSPOracle

variable {W : Type} (oracle : RCPSPOracle) (sha : Sha256) (machine : Machine W)

def stableKey (candidate : RCPSPState) : String :=
  sha.hexdigest (canonicalJsonBytes (.obj [("instance", .str (oracle.inst.digest sha)),
    ("activity_order", jsonInts candidate.activityOrder), ("mode_vector", jsonNats candidate.modeVector)]) false)

def stateDigest (state : RCPSPSchedule) : String :=
  sha.hexdigest (canonicalJsonBytes (.obj [("instance", .str (oracle.inst.digest sha)),
    ("state", .obj [("activity_order", jsonInts state.state.activityOrder),
      ("mode_vector", jsonNats state.state.modeVector)]),
    ("activities", .arr (state.activities.map fun item =>
      jsonInts [item.activityId, item.modeIndex, item.start, item.finish])),
    ("makespan", .int state.makespan)]) false)

def objective (state : RCPSPSchedule) : Except PyExc ℕ := do
  oracle.validate state
  pure state.makespan

/-- `_solve`. The clock is read once a candidate with a deadline has passed the screening. -/
def solveOn (deadlineNs : Option Int) (candidate : RCPSPState) : Prog W PyExc RCPSPSchedule := fun w =>
  if oracle.screenOne candidate = false then (oracle.solve (machine.solver w).1 0 candidate deadlineNs, w)
  else
    let (now, v) := if deadlineNs.isSome then machine.monotonicNs w else (0, w)
    (oracle.solve (machine.solver v).1 now candidate deadlineNs, (machine.solver v).2)

/-- The body of the loop of `evaluate_batch`. -/
def evaluateNext (deadlineNs : Option Int) (candidate : RCPSPState) : Prog W PyExc RCPSPSchedule := fun w =>
  match deadlineNs with
  | none => oracle.solveOn machine none candidate w
  | some deadline =>
      let (now, v) := machine.monotonicNs w
      if now ≥ deadline then (.error (timeoutError "RCPSP exact batch crossed its deadline"), v)
      else oracle.solveOn machine (some deadline) candidate v

def evaluateBatch (candidates : List RCPSPState) (workBudget : ℕ) (deadlineNs : Option Int) :
    Prog W PyExc (List RCPSPSchedule) :=
  if workBudget ≠ candidates.length then
    Prog.raise (.valueError "RCPSP work budget must cover the complete ordered batch")
  else Prog.collect (oracle.evaluateNext machine deadlineNs) candidates

/-- The oracle as the runtime reaches it; `work_units` is 1 for every candidate. -/
def searchOracle : Oracle W RCPSPState RCPSPSchedule ℕ where
  deterministic := true
  parallelSafe := true
  internalParallelism := false
  workerCount := none
  stableKey := fun candidate => pure (oracle.stableKey sha candidate)
  workUnits := fun _ => pure (.int 1)
  stateDigest := fun state => pure (oracle.stateDigest sha state)
  screen := fun candidates => pure (candidates.map fun candidate => .bool (oracle.screenOne candidate))
  evaluateBatch := oracle.evaluateBatch machine
  validate := fun state => Prog.resume (oracle.validate state)
  objective := fun state => Prog.resume (oracle.objective state)
  drainPhysicalObservations := .absent
  screeningStatistics := none

end RCPSPOracle

end TxnOpt.Rcpsp
