import TxnOpt.Evrptw.Proof.Extend

/-!
# What the validator accepts

One leg of `_validate_route` in the terms of time and battery of `Walks`, and the shape of a route it
reports no violation for.
-/

namespace TxnOpt.Evrptw

namespace Problem

variable {K : Type} [CommRing K] [LinearOrder K] (problem : Problem K)

/-! ### One leg -/

theorem validateLeg_violations (tour : Tour K) (index : ℕ) (origin destination : Node K) :
    (problem.validateLeg tour index origin destination).violations = tour.violations ++
      ((if tour.battery - (problem.leg origin destination).energy < -problem.epsilon then
        [.batteryDepleted index origin.name destination.name] else []) ++
      (if arrival tour.currentTime (problem.leg origin destination) destination >
          destination.dueDate + problem.epsilon then
        [.lateArrival destination.name
          (arrival tour.currentTime (problem.leg origin destination) destination)
          destination.dueDate] else [])) := by
  rw [← List.append_assoc]
  unfold validateLeg
  cases destination.kind <;> rfl

theorem validateLeg_accepts_iff {tour : Tour K} {index : ℕ} {origin destination : Node K} :
    (problem.validateLeg tour index origin destination).violations = [] ↔
      tour.violations = [] ∧
        -problem.epsilon ≤ tour.battery - (problem.leg origin destination).energy ∧
        arrival tour.currentTime (problem.leg origin destination) destination ≤
          destination.dueDate + problem.epsilon := by
  rw [validateLeg_violations]
  simp

theorem validateLeg_battery (tour : Tour K) (index : ℕ) (origin destination : Node K) :
    (problem.validateLeg tour index origin destination).battery =
      if destination.kind = .station then problem.vehicle.batteryCapacity
      else tour.battery - (problem.leg origin destination).energy := by
  unfold validateLeg
  cases destination.kind <;> rfl

theorem validateLeg_currentTime (tour : Tour K) (index : ℕ) (origin destination : Node K) :
    (problem.validateLeg tour index origin destination).currentTime =
      arrival tour.currentTime (problem.leg origin destination) destination +
        match destination.kind with
        | .customer => destination.serviceTime
        | .station =>
            max 0 (problem.vehicle.batteryCapacity -
              (tour.battery - (problem.leg origin destination).energy)) *
                problem.vehicle.inverseRefuelingRate
        | .depot => 0 := by
  unfold validateLeg
  cases destination.kind with
  | depot => exact (add_zero _).symm
  | station => rfl
  | customer => rfl

/-- Violations are never withdrawn. -/
theorem violations_of_validateLegs {walk : List (Node K)} :
    ∀ {tour : Tour K} {index : ℕ} {origin : Node K},
      (problem.validateLegs tour index origin walk).violations = [] → tour.violations = [] := by
  induction walk with
  | nil =>
      intro tour index origin h
      exact h
  | cons destination rest ih =>
      intro tour index origin h
      exact (problem.validateLeg_accepts_iff.mp (ih h)).1

/-! ### The route -/

theorem mapM_byName_eq_some {route : List String} {nodes : List (Node K)} :
    route.mapM problem.byName = some nodes ↔
      (∀ node ∈ nodes, node ∈ problem.nodes) ∧ nodes.map Node.name = route := by
  induction route generalizing nodes with
  | nil =>
      constructor
      · intro h
        obtain rfl : [] = nodes := by simpa using h
        simp
      · intro h
        obtain rfl := List.map_eq_nil_iff.mp h.2
        rfl
  | cons name rest ih =>
      rw [List.mapM_cons]
      constructor
      · intro h
        obtain ⟨node, hnode, h⟩ := Option.bind_eq_some_iff.mp h
        obtain ⟨others, hothers, h⟩ := Option.bind_eq_some_iff.mp h
        obtain rfl := Option.some.inj h
        obtain ⟨hmem, hname⟩ := problem.byName_eq_some.mp hnode
        obtain ⟨hall, hnames⟩ := ih.mp hothers
        refine ⟨?_, by rw [List.map_cons, hname, hnames]⟩
        intro other hother
        rcases List.mem_cons.mp hother with rfl | hother
        · exact hmem
        · exact hall other hother
      · rintro ⟨hall, hnames⟩
        cases nodes with
        | nil => simp at hnames
        | cons node others =>
            simp only [List.map_cons, List.cons.injEq] at hnames
            have hnode := problem.byName_eq_some.mpr ⟨hall node (by simp), hnames.1⟩
            have hothers := ih.mpr ⟨fun other hmem => hall other (by simp [hmem]), hnames.2⟩
            rw [hnode, hothers]
            rfl

/-- A route without violations: known nodes, the depot at both ends only, a load that fits, and no
violation on any leg. -/
structure Accepted (route : List String) (walk : List (Node K)) : Prop where
  names : route = problem.depot.name :: walk.map Node.name
  known : ∀ node ∈ walk, node ∈ problem.nodes
  returns : walk.getLast? = some problem.depot
  inner : problem.depot ∉ walk.dropLast
  load : customerDemand walk ≤ problem.vehicle.loadCapacity + problem.epsilon
  legs : (problem.validateLegs (problem.startTour []) 1 problem.depot walk).violations = []

theorem customerDemand_cons_depot (walk : List (Node K)) :
    customerDemand (problem.depot :: walk) = customerDemand walk := by
  simp [customerDemand, problem.depot_mem.2]

theorem startTour_violations (violations : List (Violation K)) :
    (problem.startTour violations).violations = violations :=
  rfl

/-- What the validator reports of a route without violations. -/
theorem Accepted.validateRoute {route : List String} {walk : List (Node K)} (h : problem.Accepted route walk) :
    problem.validateRoute route =
      let tour := problem.validateLegs (problem.startTour []) 1 problem.depot walk
      ⟨route, tour.distance, tour.currentTime, tour.totalEnergy, tour.chargedEnergy, tour.chargingTime,
        tour.violations⟩ := by
  have hwalk : walk ≠ [] := by
    rintro rfl
    simpa using h.returns
  have hnodes : route.mapM problem.byName = some (problem.depot :: walk) := by
    apply problem.mapM_byName_eq_some.mpr
    refine ⟨?_, h.names.symm⟩
    intro node hmem
    rcases List.mem_cons.mp hmem with rfl | hmem
    · exact problem.depot_mem.1
    · exact h.known node hmem
  have hends : problem.endpointViolations route = [] := by
    have hlength : 0 < walk.length := List.length_pos_iff.mpr hwalk
    have hlast : route.getLast? = some problem.depot.name := by
      rw [h.names, ← List.map_cons, List.getLast?_map, List.getLast?_cons_of_ne_nil hwalk, h.returns]
      rfl
    have hhead : route.head? = some problem.depot.name := by
      rw [h.names]
      rfl
    have htwo : ¬ route.length < 2 := by
      rw [h.names]
      simp only [List.length_cons, List.length_map]
      omega
    simp [endpointViolations, hhead, hlast, htwo]
  have hinner : problem.depotViolations route = [] := by
    have hnot : problem.depot.name ∉ route.tail.dropLast := by
      intro hmem
      rw [h.names, List.tail_cons, ← List.map_dropLast] at hmem
      obtain ⟨node, hnode, hname⟩ := List.mem_map.mp hmem
      apply h.inner
      rw [← problem.eq_of_name_eq (h.known node (List.dropLast_subset _ hnode))
        problem.depot_mem.1 hname]
      exact hnode
    simp [depotViolations, hnot]
  have hload : problem.loadViolations (problem.depot :: walk) = [] := by
    simp [loadViolations, customerDemand_cons_depot, h.load]
  simp only [Problem.validateRoute, hnodes, hends, hinner, hload, tourOf, List.append_nil]

theorem validateRoute_accepts_iff {route : List String} :
    (problem.validateRoute route).violations = [] ↔ ∃ walk, problem.Accepted route walk := by
  constructor
  · intro h
    cases hnodes : route.mapM problem.byName with
    | none => simp [validateRoute, hnodes] at h
    | some nodes =>
        obtain ⟨hall, hnames⟩ := problem.mapM_byName_eq_some.mp hnodes
        simp only [validateRoute, hnodes] at h
        cases nodes with
        | nil =>
            obtain rfl : [] = route := hnames
            simp [tourOf, startTour, endpointViolations] at h
        | cons origin walk =>
            simp only [tourOf] at h
            have hstart := problem.violations_of_validateLegs h
            rw [startTour_violations, List.append_eq_nil_iff, List.append_eq_nil_iff] at hstart
            obtain ⟨⟨hends, hinner⟩, hload⟩ := hstart
            rw [hends, hinner, hload] at h
            simp only [endpointViolations, ite_eq_right_iff, List.cons_ne_nil, imp_false, not_or,
              not_not, not_lt] at hends
            simp only [depotViolations, ite_eq_right_iff, List.cons_ne_nil, imp_false] at hinner
            simp only [loadViolations, ite_eq_right_iff, List.cons_ne_nil, imp_false, not_lt] at hload
            obtain ⟨hlength, hhead, hlast⟩ := hends
            have horigin : origin = problem.depot := by
              apply problem.eq_of_name_eq (hall origin (by simp)) problem.depot_mem.1
              rw [← hnames] at hhead
              simpa using hhead
            subst horigin
            have hwalk : walk ≠ [] := by
              rintro rfl
              rw [← hnames] at hlength
              simp at hlength
            refine ⟨walk, hnames.symm, fun node hmem => hall node (by simp [hmem]), ?_, ?_, ?_, h⟩
            · rw [List.getLast?_eq_some_getLast hwalk, Option.some.injEq]
              apply problem.eq_of_name_eq (hall _ (by simp)) problem.depot_mem.1
              rw [← hnames, List.getLast?_map, List.getLast?_cons_of_ne_nil hwalk,
                List.getLast?_eq_some_getLast hwalk] at hlast
              simpa using hlast
            · intro hmem
              apply hinner
              rw [← hnames, List.map_cons, List.tail_cons, ← List.map_dropLast]
              exact List.mem_map_of_mem hmem
            · rw [← problem.customerDemand_cons_depot]
              exact hload
  · intro h
    obtain ⟨walk, h⟩ := h
    rw [h.validateRoute]
    exact h.legs

end Problem

end TxnOpt.Evrptw
