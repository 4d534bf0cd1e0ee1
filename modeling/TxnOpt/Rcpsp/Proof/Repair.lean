import TxnOpt.Rcpsp.Oracle
import TxnOpt.Rcpsp.Proof.Validation
import Mathlib.Algebra.Order.BigOperators.Group.List
import Mathlib.Data.Int.LeastGreatest

/-!
# What the exact repair computes

For a screened candidate the constraint model and the schedule validator speak about the same schedules:
every solution is a valid schedule, every valid schedule within the horizon is a solution, and running the
activities one after the other always fits the horizon. So the model has an optimum, and it is the least
makespan of all valid schedules.
-/

namespace TxnOpt.Rcpsp

namespace RCPSPOracle

variable {oracle : RCPSPOracle} {candidate : RCPSPState}

/-- What `_screen_one` accepts. -/
structure Screened (oracle : RCPSPOracle) (candidate : RCPSPState) : Prop where
  ordered : ∀ id, id ∈ candidate.activityOrder ↔ id ∈ oracle.inst.ids
  chosen : ∀ activity ∈ oracle.inst.activities, ∃ index mode,
    candidate.modeByActivity activity.activityId = some index ∧ activity.modes[index]? = some mode ∧
      ∀ (resource capacity : ℕ), oracle.inst.renewableCapacities[resource]? = some capacity →
        (mode.renewableDemands[resource]?).getD 0 ≤ capacity
  respects : ∀ activity ∈ oracle.inst.activities, ∀ predecessor ∈ activity.predecessors,
    candidate.activityOrder.idxOf predecessor < candidate.activityOrder.idxOf activity.activityId

/-- What makes sense of a candidate: the activities of the instance in a topological order, each in one of
its modes. -/
structure Arranged (oracle : RCPSPOracle) (candidate : RCPSPState) : Prop where
  ordered : ∀ id, id ∈ candidate.activityOrder ↔ id ∈ oracle.inst.ids
  chosen : ∀ activity ∈ oracle.inst.activities, ∃ index mode,
    candidate.modeByActivity activity.activityId = some index ∧ activity.modes[index]? = some mode
  respects : ∀ activity ∈ oracle.inst.activities, ∀ predecessor ∈ activity.predecessors,
    candidate.activityOrder.idxOf predecessor < candidate.activityOrder.idxOf activity.activityId

/-- No demand of the mode exceeds its capacity. -/
def Fits (inst : RCPSPInstance) (mode : ActivityMode) : Prop :=
  ∀ (resource capacity : ℕ), inst.renewableCapacities[resource]? = some capacity →
    (mode.renewableDemands[resource]?).getD 0 ≤ capacity

theorem byId_eq_some_iff {inst : RCPSPInstance} {activityId : Int} {activity : Activity} :
    inst.byId activityId = some activity ↔ activity ∈ inst.activities ∧ activity.activityId = activityId :=
  find?_key_eq_some_iff inst.idsNodup

theorem zip_all_le {demands capacities : List ℕ} :
    (demands.zip capacities).all (fun pair => decide (pair.1 ≤ pair.2)) = true ↔
      ∀ (resource capacity : ℕ), capacities[resource]? = some capacity →
        (demands[resource]?).getD 0 ≤ capacity := by
  rw [List.all_eq_true]
  constructor
  · intro h resource capacity hcapacity
    cases hdemand : demands[resource]? with
    | none => exact Nat.zero_le _
    | some demand =>
        have hpair : (demand, capacity) ∈ demands.zip capacities := by
          apply List.mem_of_getElem? (i := resource)
          rw [List.getElem?_zip_eq_some]
          exact ⟨hdemand, hcapacity⟩
        simpa using h _ hpair
  · intro h pair hpair
    obtain ⟨resource, hfound⟩ := List.mem_iff_getElem?.mp hpair
    obtain ⟨hdemand, hcapacity⟩ := List.getElem?_zip_eq_some.mp hfound
    have hle := h resource pair.2 hcapacity
    rw [hdemand] at hle
    simpa using hle

theorem screened_activity (oracle : RCPSPOracle) (candidate : RCPSPState) (activity : Activity) :
    (match (candidate.modeByActivity activity.activityId).bind fun index => activity.modes[index]? with
    | none => false
    | some mode =>
        (activity.predecessors.all fun predecessor =>
          decide (candidate.activityOrder.idxOf predecessor <
            candidate.activityOrder.idxOf activity.activityId)) &&
        (mode.renewableDemands.zip oracle.inst.renewableCapacities).all fun pair =>
          decide (pair.1 ≤ pair.2)) = true ↔
    (∃ index mode, candidate.modeByActivity activity.activityId = some index ∧
      activity.modes[index]? = some mode ∧
      ∀ (resource capacity : ℕ), oracle.inst.renewableCapacities[resource]? = some capacity →
        (mode.renewableDemands[resource]?).getD 0 ≤ capacity) ∧
    ∀ predecessor ∈ activity.predecessors,
      candidate.activityOrder.idxOf predecessor < candidate.activityOrder.idxOf activity.activityId := by
  cases hindex : candidate.modeByActivity activity.activityId with
  | none => simp
  | some index =>
      cases hmode : activity.modes[index]? with
      | none => simp [hmode]
      | some mode =>
          simp only [Option.bind_some, hmode, Bool.and_eq_true, zip_all_le]
          simp [hmode, and_comm]

theorem screenOne_iff : oracle.screenOne candidate = true ↔ Screened oracle candidate := by
  unfold screenOne
  rw [Bool.and_eq_true, decide_eq_true_eq, Finset.ext_iff, List.all_eq_true]
  simp only [List.mem_toFinset]
  constructor
  · intro h
    have hall := fun activity hactivity =>
      (screened_activity oracle candidate activity).mp (h.2 activity hactivity)
    exact ⟨h.1, fun activity hactivity => (hall activity hactivity).1,
      fun activity hactivity => (hall activity hactivity).2⟩
  · intro h
    exact ⟨h.ordered, fun activity hactivity =>
      (screened_activity oracle candidate activity).mpr
        ⟨h.chosen activity hactivity, h.respects activity hactivity⟩⟩

theorem Screened.arranged (h : Screened oracle candidate) : Arranged oracle candidate := by
  refine ⟨h.ordered, ?_, h.respects⟩
  intro activity hactivity
  obtain ⟨index, mode, hindex, hmode, -⟩ := h.chosen activity hactivity
  exact ⟨index, mode, hindex, hmode⟩

theorem modeOf_eq {activity : Activity} {index : ℕ} {mode : ActivityMode}
    (hactivity : activity ∈ oracle.inst.activities)
    (hindex : candidate.modeByActivity activity.activityId = some index)
    (hmode : activity.modes[index]? = some mode) :
    oracle.modeOf candidate activity.activityId = mode := by
  have hfound : oracle.inst.byId activity.activityId = some activity := byId_eq_some_iff.mpr ⟨hactivity, rfl⟩
  simp [modeOf, chosenMode, hfound, hindex, hmode]

theorem Screened.fits (h : Screened oracle candidate) {id : Int} (hid : id ∈ candidate.activityOrder) :
    Fits oracle.inst (oracle.modeOf candidate id) := by
  obtain ⟨activity, hactivity, hactivityId⟩ := List.mem_map.mp ((h.ordered id).mp hid)
  obtain ⟨index, mode, hindex, hmode, hfits⟩ := h.chosen activity hactivity
  rw [← hactivityId, modeOf_eq hactivity hindex hmode]
  exact hfits

/-! ### The solutions of the model -/

def demand (oracle : RCPSPOracle) (candidate : RCPSPState) (resource : ℕ) (activityId : Int) : ℕ :=
  ((oracle.modeOf candidate activityId).renewableDemands[resource]?).getD 0

/-- A solution, read as a timetable of the activities. -/
structure Timetable (oracle : RCPSPOracle) (candidate : RCPSPState) (value : ModelVar → Int) : Prop where
  bounds : ∀ id ∈ candidate.activityOrder,
    (0 ≤ value (.start id) ∧ value (.start id) ≤ oracle.horizon candidate) ∧
      (0 ≤ value (.finish id) ∧ value (.finish id) ≤ oracle.horizon candidate)
  makespanBounds : 0 ≤ value .makespan ∧ value .makespan ≤ oracle.horizon candidate
  timed : ∀ id ∈ candidate.activityOrder,
    value (.start id) + oracle.duration candidate id = value (.finish id)
  separated : ∀ activity ∈ oracle.inst.activities, ∀ predecessor ∈ activity.predecessors,
    value (.finish predecessor) ≤ value (.start activity.activityId)
  sorted : candidate.activityOrder.Pairwise fun left right => value (.start left) ≤ value (.start right)
  capacity : ∀ (resource capacity : ℕ), oracle.inst.renewableCapacities[resource]? = some capacity →
    ∀ time : Int, load (fun id => value (.start id)) (fun id => value (.finish id))
      (demand oracle candidate resource) candidate.activityOrder time ≤ capacity
  makespan : IsGreatest {bound | ∃ id ∈ candidate.activityOrder, value (.finish id) = bound} (value .makespan)

theorem solution_iff {value : ModelVar → Int} :
    (oracle.model candidate).Solution value ↔ Timetable oracle candidate value := by
  have hbounds : (∀ bounded ∈ (oracle.model candidate).bounds,
      bounded.2.1 ≤ value bounded.1 ∧ value bounded.1 ≤ bounded.2.2) ↔
      (∀ id ∈ candidate.activityOrder,
        (0 ≤ value (.start id) ∧ value (.start id) ≤ oracle.horizon candidate) ∧
          (0 ≤ value (.finish id) ∧ value (.finish id) ≤ oracle.horizon candidate)) ∧
      (0 ≤ value .makespan ∧ value .makespan ≤ oracle.horizon candidate) := by
    simp only [model, List.forall_mem_append, List.forall_mem_flatMap, List.forall_mem_cons,
      List.not_mem_nil, false_implies, implies_true, and_true]
  have hholds : (∀ constraint ∈ (oracle.model candidate).constraints, constraint.Holds value) ↔
      (∀ id ∈ candidate.activityOrder,
        value (.start id) + oracle.duration candidate id = value (.finish id)) ∧
      (∀ activity ∈ oracle.inst.activities, ∀ predecessor ∈ activity.predecessors,
        value (.finish predecessor) ≤ value (.start activity.activityId)) ∧
      (candidate.activityOrder.Pairwise fun left right => value (.start left) ≤ value (.start right)) ∧
      (∀ (resource capacity : ℕ), oracle.inst.renewableCapacities[resource]? = some capacity →
        ∀ time : Int, load (fun id => value (.start id)) (fun id => value (.finish id))
          (demand oracle candidate resource) candidate.activityOrder time ≤ capacity) ∧
      IsGreatest {bound | ∃ id ∈ candidate.activityOrder, value (.finish id) = bound} (value .makespan) := by
    rw [← zip_drop_forall]
    simp only [model, List.forall_mem_append, List.forall_mem_flatMap, List.forall_mem_map,
      List.forall_mem_cons, List.not_mem_nil, false_implies, implies_true, and_true, Constraint.Holds,
      load_map, Prod.forall, List.mem_zipIdx_iff_getElem?, and_assoc]
    refine and_congr_right fun _ => and_congr_right fun _ => and_congr_right fun _ => and_congr ?_ ?_
    · exact forall_comm
    · simp only [List.mem_map, exists_exists_and_eq_and]
  constructor
  · intro h
    obtain ⟨htimed, hseparated, hsorted, hcapacity, hmakespan⟩ := hholds.mp h.holds
    exact ⟨(hbounds.mp h.bounds).1, (hbounds.mp h.bounds).2, htimed, hseparated, hsorted, hcapacity, hmakespan⟩
  · intro h
    exact ⟨hbounds.mpr ⟨h.bounds, h.makespanBounds⟩,
      hholds.mpr ⟨h.timed, h.separated, h.sorted, h.capacity, h.makespan⟩⟩

/-! ### Solutions and valid schedules -/

/-- The scheduled activity that `_solve` reads off the values. -/
def itemOf (candidate : RCPSPState) (value : ModelVar → Int) (activityId : Int) : ScheduledActivity :=
  ⟨activityId, ((candidate.modeByActivity activityId).getD 0 : ℕ), value (.start activityId),
    value (.finish activityId)⟩

theorem itemOf_ids (value : ModelVar → Int) :
    (candidate.activityOrder.map (itemOf candidate value)).map ScheduledActivity.activityId =
      candidate.activityOrder := by
  rw [List.map_map]
  exact List.map_id _

variable (candidate) in
theorem scheduleOf_eq {value : ModelVar → Int} (hmakespan : 0 ≤ value .makespan) :
    ∃ schedule, scheduleOf candidate value = .ok schedule ∧ schedule.state = candidate ∧
      schedule.activities = candidate.activityOrder.map (itemOf candidate value) ∧
      (schedule.makespan : Int) = value .makespan := by
  have hnodup : ((candidate.activityOrder.map (itemOf candidate value)).map
      ScheduledActivity.activityId).Nodup := by
    rw [itemOf_ids]
    exact candidate.orderNodup
  refine ⟨⟨candidate, candidate.activityOrder.map (itemOf candidate value), (value .makespan).toNat, hnodup⟩,
    ?_, rfl, rfl, Int.toNat_of_nonneg hmakespan⟩
  change RCPSPSchedule.new candidate (candidate.activityOrder.map (itemOf candidate value)) _ = _
  rw [RCPSPSchedule.new, dif_pos hnodup, if_neg (not_lt.mpr hmakespan)]

/-- The validator and the model count the same demands. -/
theorem demandOf_eq {schedule : RCPSPSchedule} (hstate : schedule.state = candidate) (resource : ℕ)
    (item : ScheduledActivity) :
    demandOf oracle.inst schedule resource item = demand oracle candidate resource item.activityId := by
  unfold demandOf demand modeOf chosenMode
  rw [hstate]
  cases oracle.inst.byId item.activityId with
  | none => rfl
  | some activity =>
      cases hindex : candidate.modeByActivity item.activityId with
      | none => rfl
      | some index =>
          cases hmode : activity.modes[index]? with
          | none => simp [hmode]
          | some mode => simp [hmode]

/-- A timetable makes a valid schedule. -/
theorem Timetable.valid {value : ModelVar → Int} (h : Timetable oracle candidate value)
    (harranged : Arranged oracle candidate) {schedule : RCPSPSchedule} (hstate : schedule.state = candidate)
    (hactivities : schedule.activities = candidate.activityOrder.map (itemOf candidate value))
    (hmakespan : (schedule.makespan : Int) = value .makespan) : Valid oracle.inst schedule := by
  have hitem : ∀ {item : ScheduledActivity}, item ∈ schedule.activities →
      item.activityId ∈ candidate.activityOrder ∧ item = itemOf candidate value item.activityId := by
    intro item hmem
    rw [hactivities] at hmem
    obtain ⟨id, hid, hsame⟩ := List.mem_map.mp hmem
    rw [← hsame]
    exact ⟨hid, rfl⟩
  constructor
  · rw [hstate]
    exact harranged.ordered
  · intro id
    rw [hactivities, itemOf_ids]
    exact harranged.ordered id
  · intro activity hactivity item hplaces
    obtain ⟨index, mode, hindex, hmode⟩ := harranged.chosen activity hactivity
    obtain ⟨hid, hsame⟩ := hitem hplaces.1
    rw [hplaces.2] at hid hsame
    have htimed := h.timed _ hid
    rw [duration, modeOf_eq hactivity hindex hmode] at htimed
    rw [hsame, hstate]
    refine ⟨index, mode, hindex, hmode, ?_, (h.bounds _ hid).1.1, htimed.symm⟩
    rw [itemOf, hindex]
    rfl
  · rw [hstate]
    exact harranged.respects
  · intro activity hactivity item hplaces predecessorItem hpredecessor hmem
    obtain ⟨-, hsame⟩ := hitem hplaces.1
    obtain ⟨-, hpredecessorSame⟩ := hitem hpredecessor
    rw [hsame, hpredecessorSame, hplaces.2]
    exact h.separated activity hactivity _ hmem
  · rw [hstate]
    apply h.sorted.imp
    intro left right hle leftItem hleft rightItem hright hleftId hrightId
    rw [(hitem hleft).2, (hitem hright).2, hleftId, hrightId]
    exact hle
  · rw [hmakespan, hactivities]
    obtain ⟨⟨id, hid, hvalue⟩, hle⟩ := h.makespan
    refine ⟨⟨_, List.mem_map_of_mem hid, hvalue⟩, ?_⟩
    intro item hmem
    obtain ⟨other, hother, hsame⟩ := List.mem_map.mp hmem
    rw [← hsame]
    exact hle ⟨other, hother, rfl⟩
  · intro time resource capacity hcapacity
    have hload := h.capacity resource capacity hcapacity time
    rw [demandAt, hactivities, load_map]
    simp only [demandOf_eq hstate]
    exact hload

/-- The values of a schedule's starts, ends and makespan. -/
def valuesOf (schedule : RCPSPSchedule) : ModelVar → Int
  | .start id => ((schedule.scheduled id).map ScheduledActivity.start).getD 0
  | .finish id => ((schedule.scheduled id).map ScheduledActivity.finish).getD 0
  | .makespan => schedule.makespan

theorem valuesOf_item {schedule : RCPSPSchedule} {item : ScheduledActivity} (hitem : item ∈ schedule.activities) :
    valuesOf schedule (.start item.activityId) = item.start ∧
      valuesOf schedule (.finish item.activityId) = item.finish := by
  have hfound : schedule.scheduled item.activityId = some item := scheduled_eq_some_iff.mpr ⟨hitem, rfl⟩
  simp [valuesOf, hfound]

/-- A valid schedule within the horizon is a solution. -/
theorem timetable_of_valid {schedule : RCPSPSchedule} (h : Valid oracle.inst schedule)
    (hstate : schedule.state = candidate) (hhorizon : schedule.makespan ≤ oracle.horizon candidate) :
    Timetable oracle candidate (valuesOf schedule) := by
  have hplaced : ∀ id ∈ candidate.activityOrder, ∃ activity ∈ oracle.inst.activities, ∃ item,
      activity.activityId = id ∧ Places schedule activity item := by
    intro id hid
    rw [← hstate] at hid
    obtain ⟨activity, hactivity, hactivityId⟩ := List.mem_map.mp ((h.ordered id).mp hid)
    obtain ⟨item, hitem⟩ := exists_places h.complete hactivity
    exact ⟨activity, hactivity, item, hactivityId, hitem⟩
  have hmem : ∀ item ∈ schedule.activities, item.activityId ∈ candidate.activityOrder := by
    intro item hitem
    rw [← hstate]
    exact (h.ordered _).mpr ((h.complete _).mp (List.mem_map_of_mem hitem))
  have hperm : (schedule.activities.map ScheduledActivity.activityId).Perm candidate.activityOrder := by
    rw [List.perm_ext_iff_of_nodup schedule.activitiesNodup candidate.orderNodup]
    intro id
    rw [h.complete, ← h.ordered, hstate]
  have htimed : ∀ id ∈ candidate.activityOrder,
      0 ≤ valuesOf schedule (.start id) ∧ valuesOf schedule (.finish id) ≤ schedule.makespan ∧
        valuesOf schedule (.start id) + oracle.duration candidate id = valuesOf schedule (.finish id) := by
    intro id hid
    obtain ⟨activity, hactivity, item, hactivityId, hitem⟩ := hplaced id hid
    obtain ⟨index, mode, hindex, hmode, -, hstart, hfinish⟩ := h.timed activity hactivity item hitem
    obtain ⟨hstartValue, hfinishValue⟩ := valuesOf_item hitem.1
    rw [hstate] at hindex
    rw [← hactivityId, ← hitem.2, hstartValue, hfinishValue, hitem.2, duration,
      modeOf_eq hactivity hindex hmode]
    exact ⟨hstart, h.makespan.2 item hitem.1, hfinish.symm⟩
  constructor
  · intro id hid
    obtain ⟨hstart, hfinish, hsum⟩ := htimed id hid
    omega
  · exact ⟨Int.natCast_nonneg _, Int.ofNat_le.mpr hhorizon⟩
  · intro id hid
    exact (htimed id hid).2.2
  · intro activity hactivity predecessor hpredecessor
    obtain ⟨item, hitem⟩ := exists_places h.complete hactivity
    obtain ⟨predecessorItem, hpredecessorItem, hid⟩ := List.mem_map.mp ((h.complete predecessor).mpr
      (oracle.inst.predecessorsKnown activity hactivity predecessor hpredecessor))
    rw [← hid, ← hitem.2, (valuesOf_item hitem.1).1, (valuesOf_item hpredecessorItem).2]
    exact h.separated activity hactivity item hitem predecessorItem hpredecessorItem (by rw [hid]; exact hpredecessor)
  · have hsorted := h.sorted
    rw [hstate] at hsorted
    apply hsorted.imp_of_mem
    intro left right hleft hright hle
    obtain ⟨_, _, leftItem, hleftId, hleftItem⟩ := hplaced left hleft
    obtain ⟨_, _, rightItem, hrightId, hrightItem⟩ := hplaced right hright
    rw [← hleftId, ← hrightId, ← hleftItem.2, ← hrightItem.2, (valuesOf_item hleftItem.1).1,
      (valuesOf_item hrightItem.1).1]
    exact hle leftItem hleftItem.1 rightItem hrightItem.1 (hleftItem.2.trans hleftId)
      (hrightItem.2.trans hrightId)
  · intro resource capacity hcapacity time
    have hsame : load ScheduledActivity.start ScheduledActivity.finish (demandOf oracle.inst schedule resource)
        schedule.activities time = load (fun id => valuesOf schedule (.start id))
          (fun id => valuesOf schedule (.finish id)) (demand oracle candidate resource)
          candidate.activityOrder time := by
      rw [← load_perm _ _ _ hperm, load_map]
      apply load_congr
      intro item hitem
      exact ⟨(valuesOf_item hitem).1.symm, (valuesOf_item hitem).2.symm, demandOf_eq hstate resource item⟩
    rw [← hsame]
    exact h.capacity time resource capacity hcapacity
  · obtain ⟨last, hlast, hfinish⟩ := h.makespan.1
    refine ⟨⟨last.activityId, hmem last hlast, (valuesOf_item hlast).2.trans hfinish⟩, ?_⟩
    intro bound hbound
    obtain ⟨id, hid, hvalue⟩ := hbound
    rw [← hvalue]
    exact (htimed id hid).2.1

/-! ### One activity after the other -/

/-- When an activity starts if the activities run one after the other. -/
def serialStart (oracle : RCPSPOracle) (candidate : RCPSPState) (activityId : Int) : ℕ :=
  ((candidate.activityOrder.take (candidate.activityOrder.idxOf activityId)).map
    (oracle.duration candidate)).sum

def serialValues (oracle : RCPSPOracle) (candidate : RCPSPState) : ModelVar → Int
  | .start id => serialStart oracle candidate id
  | .finish id => serialStart oracle candidate id + oracle.duration candidate id
  | .makespan => oracle.horizon candidate

theorem serialStart_add {activityId : Int} (h : activityId ∈ candidate.activityOrder) :
    serialStart oracle candidate activityId + oracle.duration candidate activityId =
      ((candidate.activityOrder.take (candidate.activityOrder.idxOf activityId + 1)).map
        (oracle.duration candidate)).sum := by
  have hlt := List.idxOf_lt_length_iff.mpr h
  rw [List.take_succ_eq_append_getElem hlt, List.map_append, List.sum_append, List.getElem_idxOf]
  simp [serialStart]

theorem sum_take_mono (durations : Int → ℕ) (order : List Int) {m n : ℕ} (h : m ≤ n) :
    ((order.take m).map durations).sum ≤ ((order.take n).map durations).sum := by
  apply List.Sublist.sum_le_sum
  · exact (List.take_sublist_take_left h).map durations
  · intro duration _
    exact Nat.zero_le duration

theorem serialStart_le_horizon {activityId : Int} (h : activityId ∈ candidate.activityOrder) :
    serialStart oracle candidate activityId + oracle.duration candidate activityId ≤
      oracle.horizon candidate := by
  rw [serialStart_add h]
  have hle := sum_take_mono (oracle.duration candidate) candidate.activityOrder
    (List.idxOf_lt_length_iff.mpr h)
  rwa [List.take_length] at hle

/-- An activity ends before every later one starts. -/
theorem serial_separated {first second : Int} (hfirst : first ∈ candidate.activityOrder)
    (hbefore : candidate.activityOrder.idxOf first < candidate.activityOrder.idxOf second) :
    serialStart oracle candidate first + oracle.duration candidate first ≤ serialStart oracle candidate second := by
  rw [serialStart_add hfirst]
  exact sum_take_mono _ _ hbefore

theorem pairwise_idxOf {order : List Int} (h : order.Nodup) :
    order.Pairwise fun first second => order.idxOf first < order.idxOf second := by
  rw [List.pairwise_iff_getElem]
  intro i j hi hj hlt
  rw [h.idxOf_getElem, h.idxOf_getElem]
  exact hlt

variable (oracle candidate) in
theorem exists_finish_horizon :
    ∃ id ∈ candidate.activityOrder,
      serialStart oracle candidate id + oracle.duration candidate id = oracle.horizon candidate := by
  have hlength : 0 < candidate.activityOrder.length := List.length_pos_iff.mpr candidate.orderNonempty
  have hlast : candidate.activityOrder.length - 1 < candidate.activityOrder.length := by omega
  refine ⟨candidate.activityOrder[candidate.activityOrder.length - 1], List.getElem_mem hlast, ?_⟩
  rw [serialStart_add (List.getElem_mem hlast), candidate.orderNodup.idxOf_getElem,
    Nat.sub_add_cancel hlength, List.take_length]
  rfl

/-- Running the activities one after the other is a solution, so the model is satisfiable. -/
theorem serial_timetable (h : Arranged oracle candidate)
    (hfits : ∀ id ∈ candidate.activityOrder, 0 < oracle.duration candidate id →
      Fits oracle.inst (oracle.modeOf candidate id)) :
    Timetable oracle candidate (serialValues oracle candidate) := by
  have hpairwise : candidate.activityOrder.Pairwise fun first second =>
      serialValues oracle candidate (.finish first) ≤ serialValues oracle candidate (.start second) := by
    apply (pairwise_idxOf candidate.orderNodup).imp_of_mem
    intro first second hfirst _ hbefore
    exact Int.ofNat_le.mpr (serial_separated hfirst hbefore)
  have hwithin : ∀ id ∈ candidate.activityOrder,
      serialStart oracle candidate id + oracle.duration candidate id ≤ oracle.horizon candidate :=
    fun id hid => serialStart_le_horizon hid
  constructor
  · intro id hid
    have hle := hwithin id hid
    simp only [serialValues]
    omega
  · exact ⟨Int.natCast_nonneg _, le_refl _⟩
  · intro id _
    rfl
  · intro activity hactivity predecessor hpredecessor
    have hmem : predecessor ∈ candidate.activityOrder :=
      (h.ordered _).mpr (oracle.inst.predecessorsKnown activity hactivity predecessor hpredecessor)
    exact Int.ofNat_le.mpr (serial_separated hmem (h.respects activity hactivity predecessor hpredecessor))
  · apply hpairwise.imp
    intro first second hle
    simp only [serialValues] at hle ⊢
    omega
  · intro resource capacity hcapacity time
    apply load_le_of_disjoint _ _ _ hpairwise
    intro id hid hbusy
    simp only [serialValues] at hbusy
    exact hfits id hid (by omega) resource capacity hcapacity
  · obtain ⟨last, hlast, hfinish⟩ := exists_finish_horizon oracle candidate
    refine ⟨⟨last, hlast, congrArg Nat.cast hfinish⟩, ?_⟩
    intro bound hbound
    obtain ⟨id, hid, hvalue⟩ := hbound
    rw [← hvalue]
    exact Int.ofNat_le.mpr (hwithin id hid)

theorem Screened.serial_timetable (h : Screened oracle candidate) :
    Timetable oracle candidate (serialValues oracle candidate) :=
  RCPSPOracle.serial_timetable h.arranged fun _ hid _ => h.fits hid

/-! ### The optimum -/

/-- The makespans of the valid schedules with the candidate's order and modes. -/
def validMakespans (oracle : RCPSPOracle) (candidate : RCPSPState) : Set Int :=
  {bound | ∃ schedule : RCPSPSchedule, schedule.state = candidate ∧
    (validateSchedule oracle.inst schedule).feasible = true ∧ (schedule.makespan : Int) = bound}

/-- Every solution is read off as a schedule that the validator accepts. -/
theorem exists_schedule_of_solution (h : Arranged oracle candidate) {value : ModelVar → Int}
    (hsolution : (oracle.model candidate).Solution value) :
    ∃ schedule, scheduleOf candidate value = .ok schedule ∧ schedule.state = candidate ∧
      (validateSchedule oracle.inst schedule).feasible = true ∧
      (schedule.makespan : Int) = value .makespan := by
  have htimetable := solution_iff.mp hsolution
  obtain ⟨schedule, hschedule, hstate, hactivities, hmakespan⟩ :=
    scheduleOf_eq candidate htimetable.makespanBounds.1
  refine ⟨schedule, hschedule, hstate, ?_, hmakespan⟩
  exact (htimetable.valid h hstate hactivities hmakespan).feasible

theorem objectives_subset (h : Arranged oracle candidate) :
    (oracle.model candidate).objectives ⊆ validMakespans oracle candidate := by
  intro bound hbound
  obtain ⟨value, hsolution, hvalue⟩ := hbound
  obtain ⟨schedule, -, hstate, hfeasible, hmakespan⟩ := exists_schedule_of_solution h hsolution
  exact ⟨schedule, hstate, hfeasible, hmakespan.trans hvalue⟩

theorem mem_objectives_of_le {schedule : RCPSPSchedule} (hstate : schedule.state = candidate)
    (hfeasible : (validateSchedule oracle.inst schedule).feasible = true)
    (hhorizon : schedule.makespan ≤ oracle.horizon candidate) :
    (schedule.makespan : Int) ∈ (oracle.model candidate).objectives := by
  have htimetable := timetable_of_valid (valid_of_feasible hfeasible) hstate hhorizon
  exact ⟨valuesOf schedule, solution_iff.mpr htimetable, rfl⟩

theorem horizon_mem_objectives (h : Screened oracle candidate) :
    (oracle.horizon candidate : Int) ∈ (oracle.model candidate).objectives :=
  ⟨serialValues oracle candidate, solution_iff.mpr h.serial_timetable, rfl⟩

/-- The horizon loses no optimum. -/
theorem isLeast_validMakespans (h : Screened oracle candidate) {bound : Int}
    (hleast : IsLeast (oracle.model candidate).objectives bound) :
    IsLeast (validMakespans oracle candidate) bound := by
  refine ⟨objectives_subset h.arranged hleast.1, ?_⟩
  intro other hother
  obtain ⟨schedule, hstate, hfeasible, hmakespan⟩ := hother
  rw [← hmakespan]
  by_cases hhorizon : schedule.makespan ≤ oracle.horizon candidate
  · exact hleast.2 (mem_objectives_of_le hstate hfeasible hhorizon)
  · have hle := hleast.2 (horizon_mem_objectives h)
    omega

theorem exists_isLeast_objectives (h : Screened oracle candidate) :
    ∃ bound, IsLeast (oracle.model candidate).objectives bound := by
  have hnonneg : ∀ bound ∈ (oracle.model candidate).objectives, 0 ≤ bound := by
    intro bound hbound
    obtain ⟨value, hsolution, hvalue⟩ := hbound
    rw [← hvalue]
    exact (solution_iff.mp hsolution).makespanBounds.1
  obtain ⟨bound, hbound, hle⟩ := Int.exists_least_of_bdd ⟨0, hnonneg⟩ ⟨_, horizon_mem_objectives h⟩
  exact ⟨bound, hbound, hle⟩

/-- What the documentation of CP-SAT promises of the status `OPTIMAL`. -/
def CpSolver.Documented (solver : CpSolver) : Prop :=
  ∀ seed limit (model : CpModel ModelVar) value, solver.solve seed limit model = (.optimal, value) →
    model.Optimum value

/-- The repair of a screened candidate: its model is satisfiable, its solutions are valid schedules, its
optimum is the least makespan of the valid schedules, and an optimal answer of the solver is returned. -/
theorem repair_exact (oracle : RCPSPOracle) (candidate : RCPSPState) (solver : CpSolver) (now : Int)
    (hscreened : oracle.screenOne candidate = true) (hsolver : CpSolver.Documented solver) :
    (∃ value, (oracle.model candidate).Solution value) ∧
    (∀ value, (oracle.model candidate).Solution value → ∃ schedule,
      scheduleOf candidate value = .ok schedule ∧ (validateSchedule oracle.inst schedule).feasible = true) ∧
    (∃ bound, IsLeast (oracle.model candidate).objectives bound ∧
      IsLeast (validMakespans oracle candidate) bound) ∧
    ((solver.solve oracle.seed none (oracle.model candidate)).1 = .optimal → ∃ schedule,
      oracle.solve solver now candidate none = .ok schedule ∧
        IsLeast (validMakespans oracle candidate) schedule.makespan) := by
  have h := screenOne_iff.mp hscreened
  refine ⟨⟨_, solution_iff.mpr h.serial_timetable⟩, ?_, ?_, ?_⟩
  · intro value hsolution
    obtain ⟨schedule, hschedule, -, hfeasible, -⟩ := exists_schedule_of_solution h.arranged hsolution
    exact ⟨schedule, hschedule, hfeasible⟩
  · obtain ⟨bound, hbound⟩ := exists_isLeast_objectives h
    exact ⟨bound, hbound, isLeast_validMakespans h hbound⟩
  · intro hoptimal
    cases hanswer : solver.solve oracle.seed none (oracle.model candidate) with
    | mk status value =>
        rw [hanswer] at hoptimal
        have hstatus : status = .optimal := hoptimal
        rw [hstatus] at hanswer
        have hoptimum := hsolver _ _ _ _ hanswer
        obtain ⟨schedule, hschedule, -, hfeasible, hmakespan⟩ :=
          exists_schedule_of_solution h.arranged hoptimum.solution
        refine ⟨schedule, ?_, ?_⟩
        · have hvalid : oracle.validate schedule = .ok () := if_pos hfeasible
          simp only [solve, hscreened, Bool.true_eq_false, if_false, Option.map_none, Option.any_none,
            Bool.false_eq_true, hanswer, ne_eq, not_true, hschedule]
          change (oracle.validate schedule).bind (fun _ => .ok schedule) = .ok schedule
          rw [hvalid]
          rfl
        · rw [hmakespan]
          exact isLeast_validMakespans h hoptimum.isLeast

/-! ### One activity -/

def oneActivity : RCPSPOracle where
  inst := .oneResource "one" [.free 0 ⟨2, [1]⟩] (by decide) (by simp) (by decide) (by decide) (by decide)
  seed := 0

def onlyOrder : RCPSPState := ⟨[0], [0], by decide, by decide, by decide, by decide⟩

/-- A solver that knows the optimum of one model. -/
def oneSolver : CpSolver where
  solve := fun _ _ model =>
    if model = oneActivity.model onlyOrder then (.optimal, serialValues oneActivity onlyOrder)
    else (.unknown, fun _ => 0)

theorem oneSolver_documented : CpSolver.Documented oneSolver := by
  intro seed limit model value hanswer
  by_cases hmodel : model = oneActivity.model onlyOrder
  · have hvalue : value = serialValues oneActivity onlyOrder := by
      simp only [oneSolver, if_pos hmodel] at hanswer
      exact (Prod.mk.inj hanswer).2.symm
    rw [hvalue, hmodel]
    refine ⟨solution_iff.mpr (screenOne_iff.mp (by decide)).serial_timetable, ?_⟩
    intro other hother
    have htimetable := solution_iff.mp hother
    have hmem : (0 : Int) ∈ onlyOrder.activityOrder := by decide
    have hstart := (htimetable.bounds 0 hmem).1.1
    have hfinish : other (.finish 0) ≤ other .makespan := htimetable.makespan.2 ⟨0, hmem, rfl⟩
    have htimed : other (.start 0) + 2 = other (.finish 0) := htimetable.timed 0 hmem
    change (2 : Int) ≤ other .makespan
    omega
  · simp only [oneSolver, if_neg hmodel] at hanswer
    cases (Prod.mk.inj hanswer).1

theorem repair_exact_one : ∃ schedule,
    oneActivity.solve oneSolver 0 onlyOrder none = .ok schedule ∧
      IsLeast (validMakespans oneActivity onlyOrder) schedule.makespan :=
  (repair_exact oneActivity onlyOrder oneSolver 0 (by decide) oneSolver_documented).2.2.2
    (by simp [oneSolver, oneActivity])

end RCPSPOracle

end TxnOpt.Rcpsp
