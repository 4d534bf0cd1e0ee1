import TxnOpt.Lib.Constraints
import TxnOpt.Rcpsp.Validation

/-!
# The exact scheduling oracle

`RCPSPOracle`: screening, the constraint model of a fixed order and mode vector, and the repair of a
candidate with a solver. The solver and the clock are parameters.
-/

namespace TxnOpt.Rcpsp

/-- The variables of the model. `finish` is an `end` variable. -/
inductive ModelVar where
  | start (activityId : Int)
  | finish (activityId : Int)
  | makespan
  deriving DecidableEq, Repr

/-- `cp_model.CpSolver` with one worker: a seed, a time limit in nanoseconds, and a model give a status and
the values of the variables. -/
structure CpSolver where
  solve : ℕ → Option Int → CpModel ModelVar → CpStatus × (ModelVar → Int)

def statusName : CpStatus → String
  | .unknown => "UNKNOWN"
  | .modelInvalid => "MODEL_INVALID"
  | .feasible => "FEASIBLE"
  | .infeasible => "INFEASIBLE"
  | .optimal => "OPTIMAL"

/-- The text of a tuple of strings without quotes in them. -/
def tupleText : List String → String
  | [] => "()"
  | [item] => "(\x27" ++ item ++ "\x27,)"
  | items => "(" ++ ", ".intercalate (items.map fun item => "\x27" ++ item ++ "\x27") ++ ")"

def timeoutError (message : String) : PyExc := ⟨[.timeoutError], message⟩

structure RCPSPOracle where
  inst : RCPSPInstance
  seed : ℕ

namespace RCPSPOracle

variable (oracle : RCPSPOracle)

/-- The mode that the candidate chooses for an activity. -/
def chosenMode (candidate : RCPSPState) (activityId : Int) : Option ActivityMode :=
  (oracle.inst.byId activityId).bind fun activity =>
    (candidate.modeByActivity activityId).bind fun index => activity.modes[index]?

/-- `_screen_one`. -/
def screenOne (candidate : RCPSPState) : Bool :=
  decide (candidate.activityOrder.toFinset = oracle.inst.ids.toFinset) &&
    oracle.inst.activities.all fun activity =>
      match (candidate.modeByActivity activity.activityId).bind fun index => activity.modes[index]? with
      | none => false
      | some mode =>
          (activity.predecessors.all fun predecessor =>
            decide (candidate.activityOrder.idxOf predecessor <
              candidate.activityOrder.idxOf activity.activityId)) &&
          (mode.renewableDemands.zip oracle.inst.renewableCapacities).all fun pair =>
            decide (pair.1 ≤ pair.2)

/-- One round of the loop of `lower_bound`. An order repeats no activity, so an assignment adds a key. -/
def recordEnd (candidate : RCPSPState) (earliestEnd : List (Int × ℕ)) (activityId : Int) :
    Except PyExc (List (Int × ℕ)) := do
  let activity ← foundOr (keyError activityId) (oracle.inst.byId activityId)
  let ends ← activity.predecessors.mapM fun predecessor =>
    foundOr (keyError predecessor) (earliestEnd.lookup predecessor)
  let modeIndex ← foundOr (keyError activityId) (candidate.modeByActivity activityId)
  let mode ← foundOr ⟨[.other "IndexError"], "tuple index out of range"⟩ (activity.modes[modeIndex]?)
  pure (earliestEnd ++ [(activityId, (ends.max?).getD 0 + mode.duration)])

/-- `lower_bound`. -/
def lowerBound (candidate : RCPSPState) : Except PyExc ℕ :=
  if oracle.screenOne candidate = false then
    .error (.valueError "cannot compute a lower bound for an invalid candidate")
  else do
    let earliestEnd ← candidate.activityOrder.foldlM (oracle.recordEnd candidate) []
    pure ((earliestEnd.map Prod.snd).max?.getD 0)

/-- `by_id[activity_id].modes[modes[activity_id]]`; a screened candidate has one. -/
def modeOf (candidate : RCPSPState) (activityId : Int) : ActivityMode :=
  (oracle.chosenMode candidate activityId).getD ⟨0, []⟩

def duration (candidate : RCPSPState) (activityId : Int) : ℕ := (oracle.modeOf candidate activityId).duration

def horizon (candidate : RCPSPState) : ℕ :=
  (candidate.activityOrder.map (oracle.duration candidate)).sum

def intervalOf (candidate : RCPSPState) (activityId : Int) : IntervalVar ModelVar :=
  ⟨.start activityId, oracle.duration candidate activityId, .finish activityId⟩

/-- The constraint model that `_solve` builds. -/
def model (candidate : RCPSPState) : CpModel ModelVar where
  bounds := (candidate.activityOrder.flatMap fun activityId =>
      [(.start activityId, 0, (oracle.horizon candidate : Int)),
        (.finish activityId, 0, (oracle.horizon candidate : Int))]) ++
    [(.makespan, 0, (oracle.horizon candidate : Int))]
  constraints :=
    (candidate.activityOrder.map fun activityId => .interval (oracle.intervalOf candidate activityId)) ++
    (oracle.inst.activities.flatMap fun activity =>
      activity.predecessors.map fun predecessor => .le (.finish predecessor) (.start activity.activityId)) ++
    ((candidate.activityOrder.zip (candidate.activityOrder.drop 1)).map fun pair =>
      .le (.start pair.1) (.start pair.2)) ++
    (oracle.inst.renewableCapacities.zipIdx.map fun (capacity, resource) =>
      .cumulative (candidate.activityOrder.map fun activityId =>
        (oracle.intervalOf candidate activityId,
          ((oracle.modeOf candidate activityId).renewableDemands[resource]?).getD 0)) capacity) ++
    [.maxEquality .makespan (candidate.activityOrder.map .finish)]
  objective := .makespan

/-- The schedule that `_solve` reads off the solver. -/
def scheduleOf (candidate : RCPSPState) (value : ModelVar → Int) : Except PyExc RCPSPSchedule :=
  RCPSPSchedule.new candidate
    (candidate.activityOrder.map fun activityId =>
      ⟨activityId, ((candidate.modeByActivity activityId).getD 0 : ℕ), value (.start activityId),
        value (.finish activityId)⟩)
    (value .makespan)

def validate (state : RCPSPSchedule) : Except PyExc Unit :=
  let report := validateSchedule oracle.inst state
  if report.feasible then .ok ()
  else .error (.valueError ("invalid RCPSP schedule: " ++ tupleText report.violations))

/-- `_solve`, at the monotonic time `now`. -/
def solve (solver : CpSolver) (now : Int) (candidate : RCPSPState) (deadlineNs : Option Int) :
    Except PyExc RCPSPSchedule :=
  if oracle.screenOne candidate = false then
    .error (.valueError "RCPSP candidate failed safe screening")
  else
    let remaining := deadlineNs.map (· - now)
    if remaining.any (fun remaining => decide (remaining ≤ 0)) then
      .error (timeoutError "RCPSP exact repair has no remaining time")
    else
      let (status, value) := solver.solve oracle.seed remaining (oracle.model candidate)
      if status ≠ .optimal then
        if deadlineNs.isSome ∧ (status = .unknown ∨ status = .feasible) then
          .error (timeoutError "RCPSP exact repair did not prove optimal before deadline")
        else
          .error ⟨[.other "RuntimeError"], "RCPSP exact repair was not optimal: " ++ statusName status⟩
      else do
        let schedule ← scheduleOf candidate value
        oracle.validate schedule
        pure schedule

end RCPSPOracle

end TxnOpt.Rcpsp
