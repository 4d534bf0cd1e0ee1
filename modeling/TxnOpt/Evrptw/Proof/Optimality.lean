import TxnOpt.Evrptw.Proof.Agreement
import TxnOpt.Evrptw.Proof.Plans

/-!
# The shortest routes of a plan

With exact comparisons the charging searches lose nothing: what `_evaluate_one` returns for a plan is as short as
any routes that serve the plan in its order, and it is feasible as soon as there are such routes. The recharges of
these routes have to end by the due dates of their stations, which the search checks and the validator does not.
-/

namespace TxnOpt.Evrptw

namespace Problem

variable {K : Type} [Field K] [LinearOrder K] {problem : Problem K}

/-- Every recharge of a route is over by the due date of its station. -/
def Timely (problem : Problem K) (route : List String) : Prop :=
  ∃ walk, route.tail.mapM problem.byName = some walk ∧
    problem.RechargesInTime (max 0 problem.depot.readyTime) problem.vehicle.batteryCapacity problem.depot walk

/-- A route that serves these customers in this order. -/
structure Serves (problem : Problem K) (names route : List String) : Prop where
  order : problem.routedCustomers route = names
  accepted : (problem.validateRoute route).violations = []
  timely : problem.Timely route

/-! ### Followed walks -/

theorem validateLegs_distance {walk : List (Node K)} : ∀ {label final : ChargingLabel K} {tour : Tour K} {index : ℕ},
    problem.follow label walk = some final → tour.distance = label.distance →
      (problem.validateLegs tour index label.node walk).distance = final.distance := by
  induction walk with
  | nil =>
      intro label final tour index h hdistance
      obtain rfl := Option.some.inj h
      exact hdistance
  | cons destination rest ih =>
      intro label final tour index h hdistance
      obtain ⟨next, hnext, hrest⟩ := Option.bind_eq_some_iff.mp h
      obtain ⟨-, hreached⟩ := problem.extend_eq_some.mp hnext
      have hnode : next.node = destination := (problem.extend_progress hnext).2
      rw [validateLegs, ← hnode]
      apply ih hrest
      rw [validateLeg_distance, hdistance, hnode, hreached]
      rfl

/-- The distance that the validator reports is that of the label. -/
theorem Accepted.distance {route : List String} {walk : List (Node K)} (h : problem.Accepted route walk)
    {final : ChargingLabel K} (hfinal : problem.follow problem.initialLabel walk = some final) :
    (problem.validateRoute route).distance = final.distance := by
  rw [h.validateRoute]
  exact validateLegs_distance hfinal rfl

theorem Accepted.routedCustomers {route : List String} {walk : List (Node K)} (h : problem.Accepted route walk) :
    problem.routedCustomers route = (served walk).map Node.name := by
  have hknown : ∀ node ∈ problem.depot :: walk, node ∈ problem.nodes :=
    List.forall_mem_cons.mpr ⟨problem.depot_mem.1, h.known⟩
  rw [h.names, ← List.map_cons, routedCustomers_map hknown, List.filter_cons_of_neg]
  · rfl
  · rw [problem.depot_mem.2]
    decide

variable [IsStrictOrderedRing K]

/-- What serves an order is a walk of which every leg is accepted by `extend`. -/
theorem Serves.walk (hrecharge : 0 ≤ problem.vehicle.inverseRefuelingRate) {names route : List String}
    (h : problem.Serves names route) (hdistinct : names.Nodup) : problem.validateOrder names = "" ∧
      ∃ walk final, problem.Insertion (names.filterMap problem.byName) walk ∧
        problem.follow problem.initialLabel walk = some final ∧
        final.distance = (problem.validateRoute route).distance := by
  obtain ⟨walk, haccepted⟩ := problem.validateRoute_accepts_iff.mp h.accepted
  obtain ⟨other, hother, htimely⟩ := h.timely
  obtain rfl := haccepted.walk_eq hother
  obtain ⟨final, hfinal⟩ := (follow_iff_rechargesInTime hrecharge haccepted).mpr htimely
  have horder : (served other).map Node.name = names := haccepted.routedCustomers.symm.trans h.order
  obtain ⟨hvalid, hresolve⟩ := haccepted.validateOrder (horder ▸ hdistinct)
  rw [← horder]
  refine ⟨hvalid, other, final, ?_, hfinal, (haccepted.distance hfinal).symm⟩
  rw [hresolve]
  exact insertion_of_shape haccepted.known haccepted.returns haccepted.inner

omit [IsStrictOrderedRing K] in
theorem Exact.forward (h : problem.Exact) : problem.Forward :=
  ⟨h.distance, h.recharge⟩

/-- What the search of an order returns is a shortest route that serves it, if there is one. -/
theorem Exact.solved (hexact : problem.Exact) {names : List String} (hdistinct : names.Nodup) {fuel : ℕ}
    {result : ChargingSubproblemResult K} (h : problem.solveExactCharging fuel names = some (.ok result)) :
    (∀ route, problem.Serves names route →
        result.feasible = true ∧ result.distance ≤ (problem.validateRoute route).distance) ∧
      (result.feasible = true → problem.Serves names result.route ∧
        result.distance = (problem.validateRoute result.route).distance) := by
  have hchecked := solved_feasible h
  by_cases hvalid : problem.validateOrder names = ""
  · obtain ⟨-, horder, -, -⟩ := validateOrder_eq_empty hvalid
    rw [solveExactCharging, if_neg (not_not.mpr hvalid), Option.map_eq_some_iff] at h
    obtain ⟨final, hloop, hreport⟩ := h
    obtain ⟨hnone, hleast⟩ := hexact.isLeast_best horder hloop
    obtain ⟨hreachable, -⟩ := problem.queueLoop_reachable _ (.init rfl) hloop
    cases hbest : final.best with
    | none =>
        have hresult : result.feasible = false := by
          unfold report at hreport
          rw [hbest] at hreport
          rw [← Except.ok.inj hreport]
        constructor
        · intro route hserves
          obtain ⟨-, walk, label, hinsertion, hlabel, -⟩ := hserves.walk hexact.recharge hdistinct
          rw [hnone hbest walk hinsertion] at hlabel
          cases hlabel
        · intro hfeasible
          rw [hresult] at hfeasible
          cases hfeasible
    | some best =>
        rw [hexact.report_of_best hvalid hreachable hbest] at hreport
        obtain rfl := Except.ok.inj hreport
        constructor
        · intro route hserves
          obtain ⟨-, walk, label, hinsertion, hlabel, hdistance⟩ := hserves.walk hexact.recharge hdistinct
          refine ⟨rfl, ?_⟩
          rw [← hdistance]
          exact WithTop.coe_le_coe.mpr ((hleast best hbest).2 ⟨walk, label, hinsertion, hlabel, rfl⟩)
        · intro hfeasible
          obtain ⟨hviolations, hrouted⟩ := hchecked hfeasible
          obtain ⟨walk, hinsertion, hfollow⟩ := best_attained horder hreachable hbest
          have hwalk : (best.path.map Node.name).tail.mapM problem.byName = some walk := by
            rw [mapM_byName_eq_some, follow_path hfollow]
            exact ⟨(hinsertion.shape horder).1, rfl⟩
          obtain ⟨other, haccepted⟩ := problem.validateRoute_accepts_iff.mp hviolations
          obtain rfl := haccepted.walk_eq hwalk
          refine ⟨⟨hrouted, hviolations, walk, hwalk, rechargesInTime_of_follow hfollow⟩, ?_⟩
          exact congrArg _ (haccepted.distance hfollow).symm
  · rw [solveExactCharging, if_pos hvalid] at h
    obtain rfl := Except.ok.inj (Option.some.inj h)
    constructor
    · intro route hserves
      exact absurd (hserves.walk hexact.recharge hdistinct).1 hvalid
    · intro hfeasible
      cases hfeasible

end Problem

namespace PlanOracle

variable {K : Type} [Field K] [LinearOrder K] {oracle : PlanOracle K}

/-- Routes that serve the routes of a plan, each in its order. -/
def Realizes (oracle : PlanOracle K) (candidate : EVRPTWPlan) (routes : List (List String)) : Prop :=
  List.Forall₂ oracle.problem.Serves candidate.customerRoutes routes

/-- The distances of the routes that serve a plan. -/
def distances (oracle : PlanOracle K) (candidate : EVRPTWPlan) : Set K :=
  {distance | ∃ routes, oracle.Realizes candidate routes ∧
    (oracle.problem.validateRoutes routes).totalDistance = distance}

theorem nodup_of_screened {candidate : EVRPTWPlan} (h : oracle.screenOne candidate = .ok true) :
    ∀ route ∈ candidate.customerRoutes, route.Nodup := by
  intro route hroute
  have hnodup := (screenOne_iff.mp h).1.nodup_iff.mpr oracle.customers_nodup
  exact (List.nodup_flatten.mp hnodup).1 route hroute

variable [IsStrictOrderedRing K]

theorem solved_realizes (hexact : oracle.problem.Exact) {customerRoutes : List (List String)}
    {exactResults : List (ChargingSubproblemResult K)} (hdistinct : ∀ route ∈ customerRoutes, route.Nodup)
    (h : List.Forall₂ (fun route result => oracle.solveRoute route = .ok result) customerRoutes exactResults)
    (hall : ∀ result ∈ exactResults, result.feasible = true) :
    List.Forall₂ oracle.problem.Serves customerRoutes (exactResults.map ChargingSubproblemResult.route) := by
  induction h with
  | nil => exact .nil
  | cons hresult _ ih =>
      obtain ⟨hfirst, hrest⟩ := List.forall_mem_cons.mp hdistinct
      obtain ⟨hfeasible, hall⟩ := List.forall_mem_cons.mp hall
      exact .cons ((hexact.solved hfirst (solveRoute_eq_ok.mp hresult)).2 hfeasible).1 (ih hrest hall)

/-- The results of the searches are no longer than any routes that serve the plan. -/
theorem solved_le (hexact : oracle.problem.Exact) {customerRoutes : List (List String)}
    {exactResults : List (ChargingSubproblemResult K)} (hdistinct : ∀ route ∈ customerRoutes, route.Nodup)
    (h : List.Forall₂ (fun route result => oracle.solveRoute route = .ok result) customerRoutes exactResults) :
    ∀ {routes : List (List String)}, List.Forall₂ oracle.problem.Serves customerRoutes routes →
      (∀ result ∈ exactResults, result.feasible = true) ∧
        (oracle.problem.validateRoutes (exactResults.map ChargingSubproblemResult.route)).totalDistance ≤
          (oracle.problem.validateRoutes routes).totalDistance := by
  induction h with
  | nil =>
      intro routes hserves
      cases hserves
      refine ⟨?_, le_refl _⟩
      intro result hresult
      cases hresult
  | @cons names result customerRoutes exactResults hresult _ ih =>
      intro routes hserves
      obtain ⟨hfirst, hrest⟩ := List.forall_mem_cons.mp hdistinct
      cases hserves with
      | @cons _ route _ routes hserves hothers =>
          obtain ⟨hleast, hattained⟩ := hexact.solved hfirst (solveRoute_eq_ok.mp hresult)
          obtain ⟨hfeasible, hle⟩ := hleast route hserves
          obtain ⟨hall, hles⟩ := ih hrest hothers
          rw [(hattained hfeasible).2, WithTop.coe_le_coe] at hle
          refine ⟨List.forall_mem_cons.mpr ⟨hfeasible, hall⟩, ?_⟩
          exact add_le_add hle hles

section

variable {candidate : EVRPTWPlan} {solution : EVRPTWSolution K} (hexact : oracle.problem.Exact)
  (h : oracle.evaluateOne candidate = .ok solution)

include hexact h

theorem realizes_of_evaluateOne (hfeasible : solution.feasible = true) :
    oracle.Realizes candidate solution.routes := by
  obtain ⟨hscreened, exactResults, hresults, hsolution⟩ := exactSolution_of_evaluateOne hexact.forward h
  rw [hsolution.routes, hfeasible, if_pos rfl]
  exact solved_realizes hexact (nodup_of_screened hscreened) (mapM_eq_ok_iff.mp hresults)
    (hsolution.feasible.mp hfeasible)

theorem le_of_realizes {routes : List (List String)} (hroutes : oracle.Realizes candidate routes) :
    solution.feasible = true ∧ (oracle.problem.validateRoutes solution.routes).totalDistance ≤
      (oracle.problem.validateRoutes routes).totalDistance := by
  obtain ⟨hscreened, exactResults, hresults, hsolution⟩ := exactSolution_of_evaluateOne hexact.forward h
  obtain ⟨hall, hle⟩ := solved_le hexact (nodup_of_screened hscreened) (mapM_eq_ok_iff.mp hresults) hroutes
  have hfeasible := hsolution.feasible.mpr hall
  refine ⟨hfeasible, ?_⟩
  rw [hsolution.routes, hfeasible, if_pos rfl]
  exact hle

theorem objective_of_evaluateOne {value : SolutionObjective K} (hvalue : solution.objectiveValue = some value) :
    value.vehicleCount = solution.routes.length ∧
      value.totalDistance = (oracle.problem.validateRoutes solution.routes).totalDistance := by
  obtain ⟨-, exactResults, -, hsolution⟩ := exactSolution_of_evaluateOne hexact.forward h
  obtain ⟨-, hcount, hdistance, -, -⟩ := Problem.objectiveOf_eq_ok (hsolution.objective value hvalue)
  exact ⟨hcount, hdistance⟩

/-- The solution of a plan is a shortest one, and it is infeasible only if nothing serves the plan. -/
theorem evaluateOne_optimal : (solution.feasible = true ↔ ∃ routes, oracle.Realizes candidate routes) ∧
    (solution.feasible = true → oracle.Realizes candidate solution.routes) ∧
    ∀ value, solution.objectiveValue = some value →
      IsLeast (oracle.distances candidate) value.totalDistance := by
  refine ⟨⟨?_, ?_⟩, realizes_of_evaluateOne hexact h, ?_⟩
  · intro hfeasible
    exact ⟨_, realizes_of_evaluateOne hexact h hfeasible⟩
  · intro hserved
    obtain ⟨routes, hserved⟩ := hserved
    exact (le_of_realizes hexact h hserved).1
  · intro value hvalue
    have hfeasible := EVRPTWSolution.isSome_objectiveValue.mp (Option.isSome_iff_exists.mpr ⟨value, hvalue⟩)
    rw [(objective_of_evaluateOne hexact h hvalue).2]
    refine ⟨⟨_, realizes_of_evaluateOne hexact h hfeasible, rfl⟩, ?_⟩
    intro distance hserved
    obtain ⟨routes, hserved, rfl⟩ := hserved
    exact (le_of_realizes hexact h hserved).2

end

/-- On the line the plan is served within a distance of 16, and by nothing shorter. -/
theorem evaluateOne_optimal_line : ∃ solution value, (lineOracle 0).evaluateOne linePlan = .ok solution ∧
    solution.objectiveValue = some value ∧ IsLeast ((lineOracle 0).distances linePlan) value.totalDistance := by
  have hexact : (lineOracle 0).problem.Exact := Problem.exact_problem (Problem.lineInstance ℚ 8)
    (Problem.axisHypot_nonneg ℚ) (by decide +kernel) (by decide +kernel) (by decide +kernel)
  have hsolved : ((linePlan.customerRoutes.mapM (lineOracle 0).solveRoute).toOption.any fun results =>
      results.all ChargingSubproblemResult.feasible) = true := by
    decide +kernel
  cases hresults : linePlan.customerRoutes.mapM (lineOracle 0).solveRoute with
  | error error =>
      rw [hresults] at hsolved
      cases hsolved
  | ok results =>
      rw [hresults] at hsolved
      obtain ⟨solution, hsolution, hexactSolution⟩ :=
        exists_evaluateOne (lineOracle_forward 0) (by decide +kernel) hresults
      have hserved := hexactSolution.served (hexactSolution.feasible.mpr (List.all_eq_true.mp hsolved))
      obtain ⟨value, -, hvalue, -⟩ := hserved.objective
      exact ⟨solution, value, hsolution, hvalue, (evaluateOne_optimal hexact hsolution).2.2 value hvalue⟩

end PlanOracle

end TxnOpt.Evrptw
