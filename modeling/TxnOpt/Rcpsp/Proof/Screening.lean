import TxnOpt.Rcpsp.Proof.Repair

/-!
# What screening rejects

Some schedule of a candidate passes the validator exactly when the candidate is arranged and its modes of
positive duration fit the capacities. `_screen_one` asks the same of the modes that take no time, although
their demands are never active.
-/

namespace TxnOpt.Rcpsp.RCPSPOracle

variable {oracle : RCPSPOracle} {candidate : RCPSPState}

/-- The validator accepts a schedule with the candidate's order and modes. -/
def Schedulable (oracle : RCPSPOracle) (candidate : RCPSPState) : Prop :=
  ∃ schedule : RCPSPSchedule, schedule.state = candidate ∧
    (validateSchedule oracle.inst schedule).feasible = true

/-- The modes in which an activity takes time fit. -/
def BusyModesFit (oracle : RCPSPOracle) (candidate : RCPSPState) : Prop :=
  ∀ id ∈ candidate.activityOrder, 0 < oracle.duration candidate id → Fits oracle.inst (oracle.modeOf candidate id)

/-- The modes in which an activity takes no time fit. -/
def IdleModesFit (oracle : RCPSPOracle) (candidate : RCPSPState) : Prop :=
  ∀ id ∈ candidate.activityOrder, oracle.duration candidate id = 0 → Fits oracle.inst (oracle.modeOf candidate id)

theorem screened_iff : Screened oracle candidate ↔
    Arranged oracle candidate ∧ BusyModesFit oracle candidate ∧ IdleModesFit oracle candidate := by
  constructor
  · intro h
    exact ⟨h.arranged, fun _ hid _ => h.fits hid, fun _ hid _ => h.fits hid⟩
  · intro h
    obtain ⟨harranged, hbusy, hidle⟩ := h
    refine ⟨harranged.ordered, ?_, harranged.respects⟩
    intro activity hactivity
    obtain ⟨index, mode, hindex, hmode⟩ := harranged.chosen activity hactivity
    have hid := (harranged.ordered _).mpr (List.mem_map_of_mem hactivity)
    have hfits : Fits oracle.inst (oracle.modeOf candidate activity.activityId) := by
      by_cases hduration : oracle.duration candidate activity.activityId = 0
      · exact hidle _ hid hduration
      · exact hbusy _ hid (Nat.pos_of_ne_zero hduration)
    rw [modeOf_eq hactivity hindex hmode] at hfits
    exact ⟨index, mode, hindex, hmode, hfits⟩

/-! ### The schedules of a candidate -/

theorem arranged_of_valid {schedule : RCPSPSchedule} (h : Valid oracle.inst schedule) :
    Arranged oracle schedule.state := by
  refine ⟨h.ordered, ?_, h.respects⟩
  intro activity hactivity
  obtain ⟨item, hitem⟩ := exists_places h.complete hactivity
  obtain ⟨index, mode, hindex, hmode, -⟩ := h.timed activity hactivity item hitem
  exact ⟨index, mode, hindex, hmode⟩

/-- The item of an activity lasts as long as its mode. -/
theorem duration_of_valid {schedule : RCPSPSchedule} (h : Valid oracle.inst schedule) {activity : Activity}
    (hactivity : activity ∈ oracle.inst.activities) {item : ScheduledActivity}
    (hitem : Places schedule activity item) :
    0 ≤ item.start ∧ item.finish = item.start + oracle.duration schedule.state activity.activityId := by
  obtain ⟨index, mode, hindex, hmode, -, hstart, hfinish⟩ := h.timed activity hactivity item hitem
  rw [duration, modeOf_eq hactivity hindex hmode]
  exact ⟨hstart, hfinish⟩

/-- An activity that takes time is active at its own start. -/
theorem busyModesFit_of_valid {schedule : RCPSPSchedule} (h : Valid oracle.inst schedule) :
    BusyModesFit oracle schedule.state := by
  intro id hid hduration resource capacity hcapacity
  obtain ⟨activity, hactivity, hactivityId⟩ := List.mem_map.mp ((h.ordered id).mp hid)
  obtain ⟨item, hitem⟩ := exists_places h.complete hactivity
  obtain ⟨-, hfinish⟩ := duration_of_valid h hactivity hitem
  rw [hactivityId] at hfinish
  have hcovers : Covers ScheduledActivity.start ScheduledActivity.finish item.start item :=
    ⟨le_refl _, by omega⟩
  calc demand oracle schedule.state resource id
      = demandOf oracle.inst schedule resource item := by
        rw [demandOf_eq rfl, hitem.2, hactivityId]
    _ ≤ demandAt oracle.inst schedule resource item.start := weight_le_load _ _ _ hitem.1 hcovers
    _ ≤ capacity := h.capacity item.start resource capacity hcapacity

/-- Running the activities one after the other is a valid schedule. -/
theorem schedulable_of_arranged (harranged : Arranged oracle candidate) (hbusy : BusyModesFit oracle candidate) :
    Schedulable oracle candidate := by
  have hsolution := solution_iff.mpr (serial_timetable harranged hbusy)
  obtain ⟨schedule, -, hstate, hfeasible, -⟩ := exists_schedule_of_solution harranged hsolution
  exact ⟨schedule, hstate, hfeasible⟩

theorem schedulable_iff : Schedulable oracle candidate ↔
    Arranged oracle candidate ∧ BusyModesFit oracle candidate := by
  constructor
  · intro h
    obtain ⟨schedule, hstate, hfeasible⟩ := h
    have hvalid := valid_of_feasible hfeasible
    rw [← hstate]
    exact ⟨arranged_of_valid hvalid, busyModesFit_of_valid hvalid⟩
  · intro h
    exact schedulable_of_arranged h.1 h.2

/-- Screening decides whether the candidate has a schedule exactly when an arranged candidate whose busy
modes fit never chooses an idle mode that does not fit. -/
theorem screenOne_exact_iff (oracle : RCPSPOracle) (candidate : RCPSPState) :
    (oracle.screenOne candidate = true ↔ Schedulable oracle candidate) ↔
      (Arranged oracle candidate → BusyModesFit oracle candidate → IdleModesFit oracle candidate) := by
  rw [screenOne_iff, screened_iff, schedulable_iff]
  constructor
  · intro h harranged hbusy
    exact (h.mpr ⟨harranged, hbusy⟩).2.2
  · intro h
    constructor
    · intro hscreened
      exact ⟨hscreened.1, hscreened.2.1⟩
    · intro hschedulable
      exact ⟨hschedulable.1, hschedulable.2, h hschedulable.1 hschedulable.2⟩

/-! ### A milestone with a demand -/

def milestone : RCPSPOracle where
  inst := .oneResource "milestone" [.free 0 ⟨0, [2]⟩] (by decide) (by simp) (by decide) (by decide) (by decide)
  seed := 0

/-- Screening rejects the milestone, and the validator accepts its schedule at time 0. -/
theorem screenOne_milestone :
    milestone.screenOne onlyOrder = false ∧ Schedulable milestone onlyOrder :=
  ⟨by decide, ⟨onlyOrder, [⟨0, 0, 0, 0⟩], 0, by decide⟩, rfl, by decide +kernel⟩

end TxnOpt.Rcpsp.RCPSPOracle
