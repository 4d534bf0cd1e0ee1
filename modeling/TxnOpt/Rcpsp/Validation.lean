import TxnOpt.Lib.Intervals
import TxnOpt.Rcpsp.Model
import Mathlib.Data.String.Basic

/-!
# The independent schedule validator

`validate_schedule`, check by check. It samples resource use at the starts and ends of the scheduled
activities only.
-/

namespace TxnOpt.Rcpsp

structure RCPSPValidationReport where
  feasible : Bool
  makespan : Int
  violations : List String
  deriving DecidableEq, Repr

variable (inst : RCPSPInstance) (schedule : RCPSPSchedule)

def setViolations : List String :=
  (if schedule.state.activityOrder.toFinset ≠ inst.ids.toFinset then
    ["state activity set differs from instance"] else []) ++
  (if (schedule.activities.map ScheduledActivity.activityId).toFinset ≠ inst.ids.toFinset then
    ["scheduled activity set differs from instance"] else [])

/-- `position.get(predecessor, len(position)) >= position.get(activity_id, -1)`. -/
def orderViolated (order : List Int) (predecessor activityId : Int) : Bool :=
  let position := fun id => if id ∈ order then some (order.idxOf id) else none
  decide (((position activityId).elim (-1) Int.ofNat) ≤ ((position predecessor).elim (order.length : Int) Int.ofNat))

/-- The two checks of one precedence. -/
def precedenceViolations (activityId : Int) (item : ScheduledActivity) (predecessor : Int) : List String :=
  (if orderViolated schedule.state.activityOrder predecessor activityId then
    [s!"activity order violates precedence {predecessor}->{activityId}"] else []) ++
  match schedule.scheduled predecessor with
  | some predecessorItem =>
      if predecessorItem.finish > item.start then
        [s!"schedule violates precedence {predecessor}->{activityId}"] else []
  | none => []

/-- The body of the loop over `by_id.items()`. -/
def activityViolations (activity : Activity) : List String :=
  match (schedule.state.modeByActivity activity.activityId).bind fun index =>
      (activity.modes[index]?).map fun mode => (index, mode) with
  | none => [s!"activity {activity.activityId} has an invalid mode"]
  | some (modeIndex, mode) =>
      match schedule.scheduled activity.activityId with
      | none => []
      | some item =>
          (if item.modeIndex ≠ modeIndex then
            [s!"activity {activity.activityId} mode differs from state"] else []) ++
          (if item.start < 0 ∨ item.finish ≠ item.start + mode.duration then
            [s!"activity {activity.activityId} has invalid start/end"] else []) ++
          activity.predecessors.flatMap (precedenceViolations schedule activity.activityId item)

/-- The scheduled activities in the declared order. -/
def orderedItems : List ScheduledActivity :=
  schedule.state.activityOrder.filterMap schedule.scheduled

def startViolations : List String :=
  let items := orderedItems schedule
  if (items.zip (items.drop 1)).any (fun pair => decide (pair.1.start > pair.2.start)) then
    ["scheduled starts violate the declared activity order"] else []

/-- The demand of a scheduled activity in the mode of the state; `0` where the code skips it. -/
def demandOf (resource : ℕ) (item : ScheduledActivity) : ℕ :=
  ((inst.byId item.activityId).bind fun activity =>
    (schedule.state.modeByActivity item.activityId).bind fun index =>
      (activity.modes[index]?).bind fun mode => mode.renewableDemands[resource]?).getD 0

/-- `demand`, after the loop over the scheduled activities that are active at `time`. -/
def demandAt (resource : ℕ) (time : Int) : ℕ :=
  load ScheduledActivity.start ScheduledActivity.finish (demandOf inst schedule resource)
    schedule.activities time

def boundaries : List Int :=
  (schedule.activities.flatMap fun item => [item.start, item.finish]).dedup.mergeSort (· ≤ ·)

def resourceViolations : List String :=
  (boundaries schedule).flatMap fun time =>
    inst.renewableCapacities.zipIdx.flatMap fun (capacity, resource) =>
      if demandAt inst schedule resource time > capacity then
        [s!"resource {resource} exceeds capacity at time {time}"] else []

def recomputedMakespan : Int := ((schedule.activities.map ScheduledActivity.finish).max?).getD 0

def makespanViolations : List String :=
  if (schedule.makespan : Int) ≠ recomputedMakespan schedule then
    ["declared makespan differs from scheduled activities"] else []

def validateSchedule : RCPSPValidationReport :=
  let violations := setViolations inst schedule ++
    inst.activities.flatMap (activityViolations schedule) ++ startViolations schedule ++
    resourceViolations inst schedule ++ makespanViolations schedule
  ⟨violations.isEmpty, recomputedMakespan schedule, violations⟩

end TxnOpt.Rcpsp
