import TxnOpt.Runtime.Values
import Mathlib.Data.List.Nodup
import Mathlib.Data.Nat.Notation

/-!
# RCPSP instances and schedules

The domain values of the RCPSP case. A value carries what its `__post_init__` checks; a number that the
constructor leaves unchecked is an `Int`.
-/

namespace TxnOpt.Rcpsp

structure ActivityMode where
  duration : ℕ
  renewableDemands : List ℕ
  deriving DecidableEq, Repr

structure Activity where
  activityId : Int
  predecessors : List Int
  modes : List ActivityMode
  idNonneg : 0 ≤ activityId
  predecessorsNodup : predecessors.Nodup
  predecessorsNonneg : ∀ predecessor ∈ predecessors, 0 ≤ predecessor
  notOwnPredecessor : activityId ∉ predecessors
  modesNonempty : modes ≠ []
  sharedWidth : ∀ mode ∈ modes, ∀ other ∈ modes,
    mode.renewableDemands.length = other.renewableDemands.length

structure RCPSPInstance where
  name : String
  activities : List Activity
  renewableCapacities : List ℕ
  nameNonempty : name ≠ ""
  activitiesNonempty : activities ≠ []
  idsNodup : (activities.map Activity.activityId).Nodup
  predecessorsKnown : ∀ activity ∈ activities, ∀ predecessor ∈ activity.predecessors,
    predecessor ∈ activities.map Activity.activityId
  capacitiesNonempty : renewableCapacities ≠ []
  width : ∀ activity ∈ activities, ∀ mode ∈ activity.modes,
    mode.renewableDemands.length = renewableCapacities.length

/-- The constructor of `Activity`, of modes whose numbers are none of them negative. -/
def Activity.new (activityId : Int) (predecessors : List Int) (modes : List ActivityMode) : Except PyExc Activity :=
  if hid : 0 ≤ activityId then
    if hpredecessors : predecessors.Nodup ∧ ∀ predecessor ∈ predecessors, 0 ≤ predecessor then
      if hown : activityId ∉ predecessors then
        if hmodes : modes ≠ [] then
          if hwidth : ∀ mode ∈ modes, ∀ other ∈ modes,
              mode.renewableDemands.length = other.renewableDemands.length then
            .ok ⟨activityId, predecessors, modes, hid, hpredecessors.1, hpredecessors.2, hown, hmodes, hwidth⟩
          else .error (.valueError "all modes of one activity must share a resource width")
        else .error (.valueError "every activity requires at least one mode")
      else .error (.valueError "an activity cannot precede itself")
    else .error (.valueError "predecessors must be unique non-negative integers")
  else .error (.valueError "activity_id must be a non-negative integer")

/-- The constructor of `RCPSPInstance`. -/
def RCPSPInstance.new (name : String) (activities : List Activity) (renewableCapacities : List ℕ) :
    Except PyExc RCPSPInstance :=
  if hname : name ≠ "" then
    if hactivities : activities ≠ [] then
      if hids : (activities.map Activity.activityId).Nodup then
        if hknown : ∀ activity ∈ activities, ∀ predecessor ∈ activity.predecessors,
            predecessor ∈ activities.map Activity.activityId then
          if hcapacities : renewableCapacities ≠ [] then
            if hwidth : ∀ activity ∈ activities, ∀ mode ∈ activity.modes,
                mode.renewableDemands.length = renewableCapacities.length then
              .ok ⟨name, activities, renewableCapacities, hname, hactivities, hids, hknown, hcapacities, hwidth⟩
            else .error (.valueError "mode resource width differs from instance capacities")
          else .error (.valueError "renewable capacities must be non-negative integers")
        else .error (.valueError "predecessor references an unknown activity")
      else .error (.valueError "activity identifiers must be unique")
    else .error (.valueError "instance requires activities")
  else .error (.valueError "instance name cannot be empty")

/-- `by_id.get(activity_id)`. -/
def RCPSPInstance.byId (inst : RCPSPInstance) (activityId : Int) : Option Activity :=
  inst.activities.find? fun activity => activity.activityId = activityId

def RCPSPInstance.ids (inst : RCPSPInstance) : List Int := inst.activities.map Activity.activityId

/-- A precedence-feasible order paired positionally with one mode index. -/
structure RCPSPState where
  activityOrder : List Int
  modeVector : List ℕ
  orderNonempty : activityOrder ≠ []
  orderNodup : activityOrder.Nodup
  orderNonneg : ∀ activityId ∈ activityOrder, 0 ≤ activityId
  aligned : modeVector.length = activityOrder.length
  deriving DecidableEq, Repr

/-- The constructor of `RCPSPState`. -/
def RCPSPState.new (activityOrder : List Int) (modeVector : List ℕ) : Except PyExc RCPSPState :=
  if hnonempty : activityOrder ≠ [] then
    if hnodup : activityOrder.Nodup then
      if hnonneg : ∀ activityId ∈ activityOrder, 0 ≤ activityId then
        if haligned : modeVector.length = activityOrder.length then
          .ok ⟨activityOrder, modeVector, hnonempty, hnodup, hnonneg, haligned⟩
        else .error (.valueError "mode_vector must align with activity_order")
      else .error (.valueError "activity identifiers must be non-negative integers")
    else .error (.valueError "activity_order must contain each activity once")
  else .error (.valueError "activity_order cannot be empty")

def keyError (key : Int) : PyExc := ⟨[.other "KeyError"], toString key⟩

/-- What a lookup finds, or the error it raises. -/
def foundOr {α : Type} (error : PyExc) : Option α → Except PyExc α
  | some item => .ok item
  | none => .error error

/-- `mode_by_activity.get(activity_id)`. -/
def RCPSPState.modeByActivity (state : RCPSPState) (activityId : Int) : Option ℕ :=
  (state.activityOrder.zip state.modeVector).lookup activityId

/-- `finish` is the field `end`. -/
structure ScheduledActivity where
  activityId : Int
  modeIndex : Int
  start : Int
  finish : Int
  deriving DecidableEq, Repr

structure RCPSPSchedule where
  state : RCPSPState
  activities : List ScheduledActivity
  makespan : ℕ
  activitiesNodup : (activities.map ScheduledActivity.activityId).Nodup

/-- The constructor of `RCPSPSchedule`. -/
def RCPSPSchedule.new (state : RCPSPState) (activities : List ScheduledActivity) (makespan : Int) :
    Except PyExc RCPSPSchedule :=
  if h : (activities.map ScheduledActivity.activityId).Nodup then
    if makespan < 0 then .error (.valueError "makespan must be a non-negative integer")
    else .ok ⟨state, activities, makespan.toNat, h⟩
  else .error (.valueError "scheduled activities must be unique")

/-- `scheduled.get(activity_id)`. -/
def RCPSPSchedule.scheduled (schedule : RCPSPSchedule) (activityId : Int) : Option ScheduledActivity :=
  schedule.activities.find? fun item => item.activityId = activityId

/-! ### Small instances -/

/-- An activity with no predecessor. -/
def Activity.free (activityId : ℕ) (mode : ActivityMode) : Activity where
  activityId := activityId
  predecessors := []
  modes := [mode]
  idNonneg := Int.natCast_nonneg activityId
  predecessorsNodup := List.nodup_nil
  predecessorsNonneg := by simp
  notOwnPredecessor := by simp
  modesNonempty := by simp
  sharedWidth := by simp

/-- The activity after `predecessor`. -/
def Activity.next (predecessor : ℕ) (mode : ActivityMode) : Activity where
  activityId := predecessor + 1
  predecessors := [(predecessor : Int)]
  modes := [mode]
  idNonneg := by omega
  predecessorsNodup := List.nodup_singleton _
  predecessorsNonneg := by simp
  notOwnPredecessor := by
    rw [List.mem_singleton]
    omega
  modesNonempty := by simp
  sharedWidth := by simp

/-- One resource, of capacity 1. -/
def RCPSPInstance.oneResource (name : String) (activities : List Activity) (hname : name ≠ "")
    (hactivities : activities ≠ []) (hids : (activities.map Activity.activityId).Nodup)
    (hknown : ∀ activity ∈ activities, ∀ predecessor ∈ activity.predecessors,
      predecessor ∈ activities.map Activity.activityId)
    (hwidth : ∀ activity ∈ activities, ∀ mode ∈ activity.modes, mode.renewableDemands.length = 1) :
    RCPSPInstance :=
  ⟨name, activities, [1], hname, hactivities, hids, hknown, List.cons_ne_nil 1 [], hwidth⟩

end TxnOpt.Rcpsp
