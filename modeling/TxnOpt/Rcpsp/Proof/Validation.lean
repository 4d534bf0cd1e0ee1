import TxnOpt.Lib.Keys
import TxnOpt.Rcpsp.Validation
import Mathlib.Tactic.Common

/-!
# What the schedule validator decides

`validate_schedule` accepts exactly the valid schedules. Validity speaks about every instant, although the
code samples starts and ends only.
-/

namespace TxnOpt.Rcpsp

variable {inst : RCPSPInstance} {schedule : RCPSPSchedule}

/-- The scheduled activity of `activity`. -/
def Places (schedule : RCPSPSchedule) (activity : Activity) (item : ScheduledActivity) : Prop :=
  item ∈ schedule.activities ∧ item.activityId = activity.activityId

/-- A schedule of the whole instance in its own order and modes, within the capacities at every instant. -/
structure Valid (inst : RCPSPInstance) (schedule : RCPSPSchedule) : Prop where
  ordered : ∀ id, id ∈ schedule.state.activityOrder ↔ id ∈ inst.ids
  complete : ∀ id, id ∈ schedule.activities.map ScheduledActivity.activityId ↔ id ∈ inst.ids
  timed : ∀ activity ∈ inst.activities, ∀ item, Places schedule activity item →
    ∃ index mode, schedule.state.modeByActivity activity.activityId = some index ∧
      activity.modes[index]? = some mode ∧ item.modeIndex = index ∧ 0 ≤ item.start ∧
      item.finish = item.start + mode.duration
  respects : ∀ activity ∈ inst.activities, ∀ predecessor ∈ activity.predecessors,
    schedule.state.activityOrder.idxOf predecessor <
      schedule.state.activityOrder.idxOf activity.activityId
  separated : ∀ activity ∈ inst.activities, ∀ item, Places schedule activity item →
    ∀ predecessorItem ∈ schedule.activities, predecessorItem.activityId ∈ activity.predecessors →
      predecessorItem.finish ≤ item.start
  sorted : schedule.state.activityOrder.Pairwise fun left right =>
    ∀ leftItem ∈ schedule.activities, ∀ rightItem ∈ schedule.activities,
      leftItem.activityId = left → rightItem.activityId = right → leftItem.start ≤ rightItem.start
  makespan : (∃ item ∈ schedule.activities, item.finish = schedule.makespan) ∧
    ∀ item ∈ schedule.activities, item.finish ≤ schedule.makespan
  capacity : ∀ (time : Int) (resource capacity : ℕ), inst.renewableCapacities[resource]? = some capacity →
    demandAt inst schedule resource time ≤ capacity

theorem scheduled_eq_some_iff {activityId : Int} {item : ScheduledActivity} :
    schedule.scheduled activityId = some item ↔
      item ∈ schedule.activities ∧ item.activityId = activityId :=
  find?_key_eq_some_iff schedule.activitiesNodup

/-- A check reports nothing when its condition fails. -/
theorem report_eq_nil {p : Prop} [Decidable p] {message : String} :
    (if p then [message] else []) = [] ↔ ¬ p := by
  by_cases h : p
  · simp [h]
  · simp [h]

theorem setViolations_eq_nil : setViolations inst schedule = [] ↔
    (∀ id, id ∈ schedule.state.activityOrder ↔ id ∈ inst.ids) ∧
    ∀ id, id ∈ schedule.activities.map ScheduledActivity.activityId ↔ id ∈ inst.ids := by
  unfold setViolations
  rw [List.append_eq_nil_iff, report_eq_nil, report_eq_nil, not_not, not_not, Finset.ext_iff, Finset.ext_iff]
  simp only [List.mem_toFinset]

theorem orderViolated_eq_false {order : List Int} {predecessor activityId : Int}
    (hpredecessor : predecessor ∈ order) (hactivity : activityId ∈ order) :
    orderViolated order predecessor activityId = false ↔ order.idxOf predecessor < order.idxOf activityId := by
  simp [orderViolated, hpredecessor, hactivity]

/-- A list is sorted when its neighbours are. -/
theorem zip_drop_forall {α : Type} {key : α → Int} (items : List α) :
    (∀ pair ∈ items.zip (items.drop 1), key pair.1 ≤ key pair.2) ↔
      items.Pairwise fun left right => key left ≤ key right := by
  have htrans : IsTrans α fun left right => key left ≤ key right := ⟨fun _ _ _ => le_trans⟩
  rw [← List.isChain_iff_pairwise]
  induction items with
  | nil => simp
  | cons first rest ih =>
      cases rest with
      | nil => simp
      | cons second rest =>
          rw [List.isChain_cons_cons]
          refine Iff.trans ?_ (and_congr_right fun _ => ih)
          simp

theorem zip_drop_any {α : Type} {key : α → Int} (items : List α) :
    (items.zip (items.drop 1)).any (fun pair => decide (key pair.1 > key pair.2)) = false ↔
      items.Pairwise fun left right => key left ≤ key right := by
  rw [← zip_drop_forall, List.any_eq_false]
  simp only [decide_eq_true_eq, not_lt]

theorem startViolations_eq_nil : startViolations schedule = [] ↔
    schedule.state.activityOrder.Pairwise fun left right =>
      ∀ leftItem ∈ schedule.activities, ∀ rightItem ∈ schedule.activities,
        leftItem.activityId = left → rightItem.activityId = right → leftItem.start ≤ rightItem.start := by
  unfold startViolations orderedItems
  rw [report_eq_nil, Bool.not_eq_true, zip_drop_any, List.pairwise_filterMap]
  apply List.Pairwise.iff
  intro left right
  simp only [scheduled_eq_some_iff]
  constructor
  · intro h leftItem hleft rightItem hright hleftId hrightId
    exact h leftItem ⟨hleft, hleftId⟩ rightItem ⟨hright, hrightId⟩
  · intro h leftItem hleft rightItem hright
    exact h leftItem hleft.1 rightItem hright.1 hleft.2 hright.2

theorem makespanViolations_eq_nil (h : schedule.activities ≠ []) : makespanViolations schedule = [] ↔
    (∃ item ∈ schedule.activities, item.finish = schedule.makespan) ∧
      ∀ item ∈ schedule.activities, item.finish ≤ schedule.makespan := by
  unfold makespanViolations recomputedMakespan
  rw [report_eq_nil, not_not]
  cases hmax : (schedule.activities.map ScheduledActivity.finish).max? with
  | none => exact absurd (List.map_eq_nil_iff.mp (List.max?_eq_none_iff.mp hmax)) h
  | some latest =>
      have hspec := List.max?_eq_some_iff.mp hmax
      rw [List.mem_map] at hspec
      obtain ⟨⟨last, hlast, hfinish⟩, hle⟩ := hspec
      rw [Option.getD_some]
      constructor
      · intro hmakespan
        rw [hmakespan]
        exact ⟨⟨last, hlast, hfinish⟩, fun item hitem => hle _ (List.mem_map_of_mem hitem)⟩
      · intro hspec
        obtain ⟨⟨item, hitem, hitemFinish⟩, hall⟩ := hspec
        apply le_antisymm
        · rw [← hitemFinish]
          exact hle _ (List.mem_map_of_mem hitem)
        · rw [← hfinish]
          exact hall last hlast

theorem mem_boundaries {time : Int} : time ∈ boundaries schedule ↔
    ∃ item ∈ schedule.activities, time = item.start ∨ time = item.finish := by
  simp [boundaries]

theorem resourceViolations_eq_nil : resourceViolations inst schedule = [] ↔
    ∀ (time : Int) (resource capacity : ℕ), inst.renewableCapacities[resource]? = some capacity →
      demandAt inst schedule resource time ≤ capacity := by
  have hsampled : resourceViolations inst schedule = [] ↔
      ∀ time ∈ boundaries schedule, ∀ resource capacity, inst.renewableCapacities[resource]? = some capacity →
        demandAt inst schedule resource time ≤ capacity := by
    simp only [resourceViolations, List.flatMap_eq_nil_iff, Prod.forall, List.mem_zipIdx_iff_getElem?,
      report_eq_nil, not_lt]
    constructor
    · intro h time htime resource capacity hcapacity
      exact h time htime capacity resource hcapacity
    · intro h time htime capacity resource hcapacity
      exact h time htime resource capacity hcapacity
  rw [hsampled]
  constructor
  · intro h time resource capacity hcapacity
    apply load_le_of_starts
    intro item hitem
    exact h item.start (mem_boundaries.mpr ⟨item, hitem, .inl rfl⟩) resource capacity hcapacity
  · intro h time _ resource capacity hcapacity
    exact h time resource capacity hcapacity

theorem precedenceViolations_eq_nil {activityId predecessor : Int} {item : ScheduledActivity}
    (hpredecessor : predecessor ∈ schedule.state.activityOrder)
    (hactivity : activityId ∈ schedule.state.activityOrder) :
    precedenceViolations schedule activityId item predecessor = [] ↔
      schedule.state.activityOrder.idxOf predecessor < schedule.state.activityOrder.idxOf activityId ∧
        ∀ predecessorItem ∈ schedule.activities, predecessorItem.activityId = predecessor →
          predecessorItem.finish ≤ item.start := by
  unfold precedenceViolations
  rw [List.append_eq_nil_iff, report_eq_nil, Bool.not_eq_true, orderViolated_eq_false hpredecessor hactivity]
  apply and_congr_right
  intro _
  cases hfound : schedule.scheduled predecessor with
  | none =>
      have hnone := find?_key_eq_none_iff.mp hfound
      constructor
      · intro _ other hother hid
        exact absurd (List.mem_map.mpr ⟨other, hother, hid⟩) hnone
      · intro _
        rfl
  | some found =>
      have hspec := scheduled_eq_some_iff.mp hfound
      rw [report_eq_nil, not_lt]
      constructor
      · intro hle other hother hid
        have hsame := scheduled_eq_some_iff.mpr ⟨hother, hid⟩
        rw [hfound] at hsame
        rw [← Option.some.inj hsame]
        exact hle
      · intro hall
        exact hall found hspec.1 hspec.2

/-- The checks of one activity whose item is scheduled. -/
theorem activityViolations_eq_nil {activity : Activity} {item : ScheduledActivity}
    (hitem : Places schedule activity item) (hactivity : activity.activityId ∈ schedule.state.activityOrder)
    (hpredecessors : ∀ predecessor ∈ activity.predecessors, predecessor ∈ schedule.state.activityOrder) :
    activityViolations schedule activity = [] ↔
      (∃ index mode, schedule.state.modeByActivity activity.activityId = some index ∧
        activity.modes[index]? = some mode ∧ item.modeIndex = index ∧ 0 ≤ item.start ∧
        item.finish = item.start + mode.duration) ∧
      ∀ predecessor ∈ activity.predecessors,
        schedule.state.activityOrder.idxOf predecessor <
          schedule.state.activityOrder.idxOf activity.activityId ∧
        ∀ predecessorItem ∈ schedule.activities, predecessorItem.activityId = predecessor →
          predecessorItem.finish ≤ item.start := by
  have hfound : schedule.scheduled activity.activityId = some item := scheduled_eq_some_iff.mpr hitem
  unfold activityViolations
  cases hindex : schedule.state.modeByActivity activity.activityId with
  | none => simp
  | some index =>
      cases hmode : activity.modes[index]? with
      | none => simp [hmode]
      | some mode =>
          simp only [Option.bind_some, hmode, Option.map_some, hfound]
          rw [List.append_eq_nil_iff, List.append_eq_nil_iff, report_eq_nil, report_eq_nil,
            List.flatMap_eq_nil_iff]
          apply and_congr
          · simp [hmode]
          · apply forall₂_congr
            intro predecessor hpredecessor
            exact precedenceViolations_eq_nil (hpredecessors predecessor hpredecessor) hactivity

theorem exists_places (hcomplete : ∀ id, id ∈ schedule.activities.map ScheduledActivity.activityId ↔ id ∈ inst.ids)
    {activity : Activity} (hactivity : activity ∈ inst.activities) :
    ∃ item, Places schedule activity item := by
  obtain ⟨item, hitem, hid⟩ := List.mem_map.mp
    ((hcomplete activity.activityId).mpr (List.mem_map_of_mem hactivity))
  exact ⟨item, hitem, hid⟩

theorem Places.unique {activity : Activity} {first second : ScheduledActivity}
    (hfirst : Places schedule activity first) (hsecond : Places schedule activity second) : first = second :=
  eq_of_key_eq schedule.activitiesNodup hfirst.1 hsecond.1 (hfirst.2.trans hsecond.2.symm)

theorem validateSchedule_feasible : (validateSchedule inst schedule).feasible = true ↔
    setViolations inst schedule = [] ∧
      (∀ activity ∈ inst.activities, activityViolations schedule activity = []) ∧
      startViolations schedule = [] ∧ resourceViolations inst schedule = [] ∧
      makespanViolations schedule = [] := by
  simp only [validateSchedule, List.isEmpty_iff, List.append_eq_nil_iff, List.flatMap_eq_nil_iff, and_assoc]

/-- A schedule without violations is valid. -/
theorem valid_of_feasible (hfeasible : (validateSchedule inst schedule).feasible = true) :
    Valid inst schedule := by
  rw [validateSchedule_feasible, setViolations_eq_nil, startViolations_eq_nil,
    resourceViolations_eq_nil] at hfeasible
  obtain ⟨⟨hordered, hcomplete⟩, hactivities, hsorted, hcapacity, hmakespan⟩ := hfeasible
  have hchecked : ∀ activity ∈ inst.activities, ∀ item, Places schedule activity item → _ :=
    fun activity hactivity item hitem => (activityViolations_eq_nil hitem
      ((hordered _).mpr (List.mem_map_of_mem hactivity))
      (fun predecessor hpredecessor =>
        (hordered _).mpr (inst.predecessorsKnown activity hactivity predecessor hpredecessor))).mp
      (hactivities activity hactivity)
  obtain ⟨some, hsome⟩ := List.exists_mem_of_ne_nil _ inst.activitiesNonempty
  obtain ⟨someItem, hsomeItem⟩ := exists_places hcomplete hsome
  refine ⟨hordered, hcomplete, ?_, ?_, ?_, hsorted, ?_, hcapacity⟩
  · intro activity hactivity item hitem
    exact (hchecked activity hactivity item hitem).1
  · intro activity hactivity predecessor hpredecessor
    obtain ⟨item, hitem⟩ := exists_places hcomplete hactivity
    exact ((hchecked activity hactivity item hitem).2 predecessor hpredecessor).1
  · intro activity hactivity item hitem predecessorItem hmem hpredecessor
    exact ((hchecked activity hactivity item hitem).2 _ hpredecessor).2 predecessorItem hmem rfl
  · exact (makespanViolations_eq_nil (List.ne_nil_of_mem hsomeItem.1)).mp hmakespan

theorem Valid.feasible (h : Valid inst schedule) : (validateSchedule inst schedule).feasible = true := by
  rw [validateSchedule_feasible, setViolations_eq_nil, startViolations_eq_nil, resourceViolations_eq_nil]
  obtain ⟨last, hlast, -⟩ := h.makespan.1
  refine ⟨⟨h.ordered, h.complete⟩, ?_, h.sorted, h.capacity,
    (makespanViolations_eq_nil (List.ne_nil_of_mem hlast)).mpr h.makespan⟩
  intro activity hactivity
  obtain ⟨item, hitem⟩ := exists_places h.complete hactivity
  rw [activityViolations_eq_nil hitem ((h.ordered _).mpr (List.mem_map_of_mem hactivity))
    (fun predecessor hpredecessor =>
      (h.ordered _).mpr (inst.predecessorsKnown activity hactivity predecessor hpredecessor))]
  refine ⟨h.timed activity hactivity item hitem, ?_⟩
  intro predecessor hpredecessor
  refine ⟨h.respects activity hactivity predecessor hpredecessor, ?_⟩
  intro predecessorItem hmem hid
  exact h.separated activity hactivity item hitem predecessorItem hmem (by rw [hid]; exact hpredecessor)

/-- The validator accepts exactly the valid schedules. -/
theorem validateSchedule_feasible_iff (inst : RCPSPInstance) (schedule : RCPSPSchedule) :
    (validateSchedule inst schedule).feasible = true ↔ Valid inst schedule :=
  ⟨valid_of_feasible, Valid.feasible⟩

end TxnOpt.Rcpsp
