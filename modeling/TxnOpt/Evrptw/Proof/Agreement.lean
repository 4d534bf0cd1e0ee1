import TxnOpt.Evrptw.Proof.Exactness
import TxnOpt.Evrptw.Proof.Validator

/-!
# The search against the validator

The two state the same physics: a leg the validator accepts is accepted by `extend`, whose battery is never
lower and whose clock is never later, unless the recharge at a station ends after its due date. The
validator checks the arrival only.
-/

namespace TxnOpt.Evrptw

namespace Problem

section Walks

variable {K : Type} [CommRing K] [LinearOrder K] {problem : Problem K}

/-- The customers of a walk, in its order. -/
def served (walk : List (Node K)) : List (Node K) :=
  walk.filter (fun node => node.kind = .customer)

/-- A walk that ends at the depot and does not pass it before is an insertion into its customers. -/
theorem insertion_of_shape {walk : List (Node K)} (hknown : ∀ node ∈ walk, node ∈ problem.nodes)
    (hreturns : walk.getLast? = some problem.depot) (hinner : problem.depot ∉ walk.dropLast) :
    problem.Insertion (served walk) walk := by
  induction walk with
  | nil => simp at hreturns
  | cons destination rest ih =>
      by_cases hrest : rest = []
      · subst hrest
        obtain rfl : destination = problem.depot := by simpa using hreturns
        simp only [served, problem.depot_mem.2, List.filter_cons, reduceCtorEq, decide_false,
          Bool.false_eq_true, if_false, List.filter_nil]
        exact .close
      · have hmember := hknown destination (by simp)
        rw [List.dropLast_cons_of_ne_nil hrest, List.mem_cons, not_or] at hinner
        rw [List.getLast?_cons_of_ne_nil hrest] at hreturns
        have htail := ih (fun node hmem => hknown node (by simp [hmem])) hreturns hinner.2
        cases hkind : destination.kind with
        | depot => exact absurd (problem.eq_depot hmember hkind).symm hinner.1
        | station =>
            simp only [served, hkind, List.filter_cons, reduceCtorEq, decide_false,
              Bool.false_eq_true, if_false]
            exact .station (problem.mem_stations.mpr ⟨hmember, hkind⟩) htail
        | customer =>
            simp only [served, hkind, List.filter_cons, decide_true, if_true]
            exact .customer htail

theorem Insertion.shape {order walk : List (Node K)} (h : problem.Insertion order walk)
    (horder : ∀ customer ∈ order, customer ∈ problem.nodes ∧ customer.kind = .customer) :
    (∀ node ∈ walk, node ∈ problem.nodes) ∧ walk.getLast? = some problem.depot ∧
      problem.depot ∉ walk.dropLast ∧ served walk = order := by
  have hdepot := problem.depot_mem
  induction h with
  | close => simp [served, hdepot]
  | @station order walk station hstation hwalk ih =>
      obtain ⟨hknown, hreturns, hinner, hserved⟩ := ih horder
      obtain ⟨hmember, hkind⟩ := problem.mem_stations.mp hstation
      have hne : walk ≠ [] := by
        rintro rfl
        simp at hreturns
      refine ⟨?_, ?_, ?_, ?_⟩
      · intro node hmem
        rcases List.mem_cons.mp hmem with rfl | hmem
        · exact hmember
        · exact hknown node hmem
      · rw [List.getLast?_cons_of_ne_nil hne, hreturns]
      · rw [List.dropLast_cons_of_ne_nil hne, List.mem_cons, not_or]
        refine ⟨?_, hinner⟩
        rintro rfl
        simp [hdepot.2] at hkind
      · simpa [served, hkind] using hserved
  | @customer order walk customer hwalk ih =>
      obtain ⟨hmember, hkind⟩ := horder customer (by simp)
      obtain ⟨hknown, hreturns, hinner, hserved⟩ := ih (fun node hmem => horder node (by simp [hmem]))
      have hne : walk ≠ [] := by
        rintro rfl
        simp at hreturns
      refine ⟨?_, ?_, ?_, ?_⟩
      · intro node hmem
        rcases List.mem_cons.mp hmem with rfl | hmem
        · exact hmember
        · exact hknown node hmem
      · rw [List.getLast?_cons_of_ne_nil hne, hreturns]
      · rw [List.dropLast_cons_of_ne_nil hne, List.mem_cons, not_or]
        refine ⟨?_, hinner⟩
        rintro rfl
        simp [hdepot.2] at hkind
      · simpa [served, hkind] using hserved

/-- What `extend` checks at a station, along a walk it accepts. -/
theorem rechargesInTime_of_follow {walk : List (Node K)} :
    ∀ {label final : ChargingLabel K}, problem.follow label walk = some final →
      problem.RechargesInTime label.elapsedTime label.battery label.node walk := by
  induction walk with
  | nil =>
      intro label final _
      trivial
  | cons destination rest ih =>
      intro label final h
      obtain ⟨next, hnext, hrest⟩ := Option.bind_eq_some_iff.mp h
      obtain ⟨haccepts, rfl⟩ := problem.extend_eq_some.mp hnext
      exact ⟨haccepts.recharges, ih hrest⟩

variable [IsStrictOrderedRing K]

/-- The simulation step: where the validator accepts a leg and the recharge is over in time, `extend`
accepts it, and again has no less charge and no later clock. -/
theorem accepts_of_validateLeg (hrate : 0 ≤ problem.vehicle.inverseRefuelingRate) {tour : Tour K}
    {label : ChargingLabel K} {index : ℕ} {destination : Node K} (progress : ℕ)
    (haccepted : (problem.validateLeg tour index label.node destination).violations = [])
    (hbattery : tour.battery ≤ label.battery) (hclock : label.elapsedTime ≤ tour.currentTime)
    (hrecharge : destination.kind = .station →
      arrival label.elapsedTime (problem.leg label.node destination) destination +
        problem.stay destination (remaining label.battery (problem.leg label.node destination)) ≤
          destination.dueDate + problem.epsilon) :
    let next := problem.reached label destination progress (problem.leg label.node destination)
    let moved := problem.validateLeg tour index label.node destination
    problem.extend label destination progress = some next ∧ moved.battery ≤ next.battery ∧
      next.elapsedTime ≤ moved.currentTime := by
  intro next moved
  obtain ⟨-, henergy, harrives⟩ := problem.validateLeg_accepts_iff.mp haccepted
  have harrival : arrival label.elapsedTime (problem.leg label.node destination) destination ≤
      arrival tour.currentTime (problem.leg label.node destination) destination :=
    max_le_max (by linarith) (le_refl _)
  have hlevel : tour.battery - (problem.leg label.node destination).energy ≤
      remaining label.battery (problem.leg label.node destination) :=
    le_max_of_le_right (by linarith)
  have haccepts : problem.Accepts label.elapsedTime label.battery
      (problem.leg label.node destination) destination :=
    ⟨by linarith, harrival.trans harrives, hrecharge⟩
  refine ⟨problem.extend_eq_some.mpr ⟨haccepts, rfl⟩, ?_, ?_⟩
  · change (problem.validateLeg tour index label.node destination).battery ≤
      remaining label.battery _ + problem.charge destination _
    rw [validateLeg_battery]
    by_cases hkind : destination.kind = .station
    · simp [hkind]
    · simpa [hkind] using hlevel
  · change arrival label.elapsedTime _ destination + problem.stay destination _ ≤
      (problem.validateLeg tour index label.node destination).currentTime
    rw [validateLeg_currentTime]
    apply add_le_add harrival
    cases hkind : destination.kind with
    | depot => simp [stay, chargeTime, hkind]
    | customer => simp [stay, hkind]
    | station =>
        simp only [stay, chargeTime, hkind, charge_station, reduceCtorEq, if_false]
        apply mul_le_mul_of_nonneg_right _ hrate
        apply le_max_of_le_right
        linarith

theorem follow_of_validateLegs (hrate : 0 ≤ problem.vehicle.inverseRefuelingRate)
    {walk : List (Node K)} :
    ∀ (label : ChargingLabel K) {tour : Tour K} {index : ℕ},
      (problem.validateLegs tour index label.node walk).violations = [] →
      tour.battery ≤ label.battery → label.elapsedTime ≤ tour.currentTime →
      problem.RechargesInTime label.elapsedTime label.battery label.node walk →
      ∃ final, problem.follow label walk = some final := by
  induction walk with
  | nil =>
      intro label tour index _ _ _ _
      exact ⟨label, rfl⟩
  | cons destination rest ih =>
      intro label tour index haccepted hbattery hclock hrecharges
      have hleg : (problem.validateLeg tour index label.node destination).violations = [] :=
        problem.violations_of_validateLegs haccepted
      obtain ⟨hextend, hbattery', hclock'⟩ :=
        accepts_of_validateLeg hrate (nextProgress label destination) hleg hbattery hclock hrecharges.1
      obtain ⟨final, hfinal⟩ := ih _ haccepted hbattery' hclock' hrecharges.2
      refine ⟨final, ?_⟩
      rw [follow, hextend]
      exact hfinal

/-- Along an accepted route `extend` accepts every leg exactly when every recharge is over by the due date
of its station. -/
theorem follow_iff_rechargesInTime (hrate : 0 ≤ problem.vehicle.inverseRefuelingRate)
    {route : List String} {walk : List (Node K)} (h : problem.Accepted route walk) :
    (∃ final, problem.follow problem.initialLabel walk = some final) ↔
      problem.RechargesInTime (max 0 problem.depot.readyTime) problem.vehicle.batteryCapacity
        problem.depot walk := by
  constructor
  · rintro ⟨final, hfinal⟩
    exact rechargesInTime_of_follow hfinal
  · intro hrecharges
    exact follow_of_validateLegs hrate problem.initialLabel h.legs (le_refl _) (le_refl _) hrecharges

omit [IsStrictOrderedRing K] in
theorem follow_path {walk : List (Node K)} :
    ∀ {label final : ChargingLabel K}, problem.follow label walk = some final →
      final.path = label.path ++ walk := by
  induction walk with
  | nil =>
      intro label final h
      obtain rfl := Option.some.inj h
      exact (List.append_nil _).symm
  | cons destination rest ih =>
      intro label final h
      obtain ⟨next, hnext, hrest⟩ := Option.bind_eq_some_iff.mp h
      obtain ⟨-, rfl⟩ := problem.extend_eq_some.mp hnext
      rw [ih hrest]
      exact List.append_assoc _ _ _

/-- With exact comparisons the validator's clock and battery are those of the label. -/
theorem Exact.validateLegs_of_follow (hexact : problem.Exact) {walk : List (Node K)} :
    ∀ {label final : ChargingLabel K} {tour : Tour K} {index : ℕ},
      problem.follow label walk = some final → tour.violations = [] → tour.battery = label.battery →
      tour.currentTime = label.elapsedTime → label.battery ≤ problem.vehicle.batteryCapacity →
      (problem.validateLegs tour index label.node walk).violations = [] := by
  induction walk with
  | nil =>
      intro label final tour index _ hviolations _ _ _
      exact hviolations
  | cons destination rest ih =>
      intro label final tour index h hviolations hbattery hclock hfull
      obtain ⟨next, hnext, hrest⟩ := Option.bind_eq_some_iff.mp h
      obtain ⟨haccepts, hreached⟩ := problem.extend_eq_some.mp hnext
      have henergy : (problem.leg label.node destination).energy ≤ label.battery := by
        have := haccepts.energy
        rwa [hexact.tolerance, add_zero] at this
      have hused := hexact.energy label.node destination
      have hlevel : remaining label.battery (problem.leg label.node destination) =
          label.battery - (problem.leg label.node destination).energy :=
        max_eq_right (by linarith)
      have hnode : next.node = destination := (problem.extend_progress hnext).2
      have hleg : (problem.validateLeg tour index label.node destination).violations = [] := by
        rw [validateLeg_accepts_iff, hbattery, hclock, hexact.tolerance]
        refine ⟨hviolations, by linarith, ?_⟩
        have := haccepts.arrives
        rwa [hexact.tolerance] at this
      rw [validateLegs, ← hnode]
      apply ih hrest
      · rw [hnode]
        exact hleg
      · rw [validateLeg_battery, hbattery, hnode, hreached]
        by_cases hkind : destination.kind = .station <;> simp [reached, moved, hkind, hlevel]
      · rw [validateLeg_currentTime, hbattery, hclock, hnode, hreached]
        have hcharge : 0 ≤ problem.vehicle.batteryCapacity -
            (label.battery - (problem.leg label.node destination).energy) := by
          linarith
        cases hkind : destination.kind with
        | depot => simp [reached, moved, stay, chargeTime, hkind]
        | customer => simp [reached, moved, stay, hkind]
        | station => simp [reached, moved, stay, chargeTime, hkind, hlevel, max_eq_right hcharge]
      · rw [hreached]
        by_cases hkind : destination.kind = .station
        · simp [reached, moved, hkind]
        · simp only [reached, moved, charge_of_ne _ hkind, add_zero, hlevel]
          linarith

end Walks

section Orders

variable {K : Type} [CommRing K] [LinearOrder K] {problem : Problem K}

/-- A valid order: distinct customers whose demand fits, each name resolved to its node. -/
theorem validateOrder_eq_empty {names : List String} (h : problem.validateOrder names = "") :
    names.Nodup ∧
      (∀ customer ∈ names.filterMap problem.byName,
        customer ∈ problem.nodes ∧ customer.kind = .customer) ∧
      (names.filterMap problem.byName).map Node.name = names ∧
      ((names.filterMap problem.byName).map Node.demand).sum ≤
        problem.vehicle.loadCapacity + problem.epsilon := by
  simp only [validateOrder] at h
  by_cases hdistinct : names.Nodup
  · rw [if_neg (not_not.mpr hdistinct)] at h
    by_cases hunknown :
        names.filter (fun name => name ∉ problem.customers.map Node.name) = []
    · rw [if_neg (not_not.mpr hunknown)] at h
      by_cases hdemand : ((names.filterMap problem.byName).map Node.demand).sum >
          problem.vehicle.loadCapacity + problem.epsilon
      · rw [if_pos hdemand] at h
        exact absurd h (by decide)
      · have hcustomer : ∀ name ∈ names, ∃ node ∈ problem.customers, node.name = name := by
          intro name hmem
          have hnot := List.filter_eq_nil_iff.mp hunknown name hmem
          simpa [and_assoc] using hnot
        have hresolve : ∀ name ∈ names, ∃ node ∈ problem.customers, problem.byName name = some node := by
          intro name hmem
          obtain ⟨node, hnode, hname⟩ := hcustomer name hmem
          exact ⟨node, hnode, problem.byName_eq_some.mpr ⟨(problem.mem_customers.mp hnode).1, hname⟩⟩
        refine ⟨hdistinct, ?_, ?_, not_lt.mp hdemand⟩
        · intro customer hmem
          obtain ⟨name, hname, hfound⟩ := List.mem_filterMap.mp hmem
          obtain ⟨node, hnode, hresolved⟩ := hresolve name hname
          obtain rfl := Option.some.inj (hfound.symm.trans hresolved)
          exact problem.mem_customers.mp hnode
        · rw [List.map_filterMap]
          have hsame : ∀ name ∈ names,
              (problem.byName name).map Node.name = some name := by
            intro name hmem
            obtain ⟨node, -, hresolved⟩ := hresolve name hmem
            rw [hresolved]
            exact congrArg some (problem.byName_eq_some.mp hresolved).2
          rw [List.filterMap_congr hsame, List.filterMap_some]
    · rw [if_pos hunknown] at h
      have hlength := congrArg String.length h
      simp at hlength
  · rw [if_pos hdistinct] at h
    exact absurd h (by decide)

variable [IsStrictOrderedRing K]

/-- With exact comparisons the re-validation of the incumbent never fails. -/
theorem Exact.report_of_best (hexact : problem.Exact) {names : List String}
    (hvalid : problem.validateOrder names = "") {state : SearchState K}
    (h : (problem.search (names.filterMap problem.byName)).Reachable state) {best : ChargingLabel K}
    (hbest : state.best = some best) :
    problem.report names state =
      .ok ⟨true, best.path.map Node.name, best.distance, best.totalEnergy, best.chargedEnergy,
        best.chargingTime, state.generated, state.expanded, state.pruned, ""⟩ := by
  obtain ⟨-, horder, hnames, hdemand⟩ := validateOrder_eq_empty hvalid
  obtain ⟨walk, hwalk, hfollow⟩ := best_attained horder h hbest
  obtain ⟨hknown, hreturns, hinner, hserved⟩ := hwalk.shape horder
  have hpath : best.path = problem.depot :: walk := follow_path hfollow
  have haccepted : problem.Accepted (best.path.map Node.name) walk := by
    refine ⟨by rw [hpath, List.map_cons], hknown, hreturns, hinner, ?_, ?_⟩
    · have hload : customerDemand walk =
          ((names.filterMap problem.byName).map Node.demand).sum := by
        rw [← hserved]
        rfl
      rw [hload]
      exact hdemand
    · exact hexact.validateLegs_of_follow hfollow rfl rfl rfl (le_refl _)
  have hviolations : (problem.validateRoute (best.path.map Node.name)).violations = [] :=
    problem.validateRoute_accepts_iff.mpr ⟨walk, haccepted⟩
  have hrouted : (best.path.filter (fun node => node.kind = .customer)).map Node.name = names := by
    have hdepot : best.path.filter (fun node => node.kind = .customer) = served walk := by
      simp [hpath, served, problem.depot_mem.2]
    rw [hdepot, hserved, hnames]
  simp [report, hbest, hviolations, hrouted]

end Orders

/-- Whenever the queue loop ends on non-negative integer data, the solver reports infeasible only if no
insertion is accepted leg by leg, and otherwise the distance of a shortest one. -/
theorem solve_exact {problem : Problem ℤ} (hexact : problem.Exact) {names : List String}
    (hvalid : problem.validateOrder names = "") {fuel : ℕ} {final : SearchState ℤ}
    (h : problem.queueLoop (names.filterMap problem.byName) fuel problem.initialState = some final) :
    ∃ result, problem.report names final = .ok result ∧
      (result.feasible = false → ∀ walk, problem.Insertion (names.filterMap problem.byName) walk →
        problem.follow problem.initialLabel walk = none) ∧
      (result.feasible = true → ∃ distance : ℤ, result.distance = distance ∧
        IsLeast {distance | ∃ walk label,
          problem.Insertion (names.filterMap problem.byName) walk ∧
          problem.follow problem.initialLabel walk = some label ∧ label.distance = distance}
          distance) := by
  obtain ⟨-, horder, -, -⟩ := validateOrder_eq_empty hvalid
  obtain ⟨hinfeasible, hleast⟩ := hexact.isLeast_best horder h
  obtain ⟨hreachable, -⟩ := problem.queueLoop_reachable _ (.init rfl) h
  cases hbest : final.best with
  | none =>
      refine ⟨_, by simp only [report, hbest]; rfl, ?_, ?_⟩
      · intro _
        exact hinfeasible hbest
      · intro hfeasible
        simp at hfeasible
  | some best =>
      refine ⟨_, hexact.report_of_best hvalid hreachable hbest, ?_, ?_⟩
      · intro hfeasible
        simp at hfeasible
      · intro _
        exact ⟨best.distance, rfl, hleast best hbest⟩

/-! ### Nodes on a line -/

section Line

variable (K : Type) [CommRing K] [LinearOrder K] [IsStrictOrderedRing K]

theorem lineNames_nodup : ["D", "S", "C"].Nodup := by decide

/-- The depot at 0, a station at 4 open until `due`, a customer at 8; a charge lasts for 12. -/
def lineInstance (due : K) : Instance K where
  nodes :=
    [⟨"D", .depot, 0, 0, 0, 0, 100, 0⟩, ⟨"S", .station, 4, 0, 0, 0, due, 0⟩,
      ⟨"C", .customer, 8, 0, 1, 0, 100, 0⟩]
  vehicle := ⟨12, 1, 1, 1, 1⟩
  depot := ⟨"D", .depot, 0, 0, 0, 0, 100, 0⟩
  oneDepot := rfl
  uniqueNames := lineNames_nodup
  positiveVelocity := one_pos

/-- Out over the station, and back. -/
def lineWalk (due : K) : List (Node K) :=
  [⟨"S", .station, 4, 0, 0, 0, due, 0⟩, ⟨"C", .customer, 8, 0, 1, 0, 100, 0⟩,
    ⟨"D", .depot, 0, 0, 0, 0, 100, 0⟩]

/-- The planar norm on the two axes. -/
def axisHypot (x y : K) : K :=
  |x| + |y|

theorem axisHypot_nonneg (x y : K) : 0 ≤ axisHypot K x y :=
  add_nonneg (abs_nonneg x) (abs_nonneg y)

end Line

def lineProblem : Problem ℤ :=
  { lineInstance ℤ 8 with
    leg := fun origin destination =>
      let distance := |origin.x - destination.x|
      ⟨distance, distance, distance⟩
    epsilon := 0 }

theorem lineProblem_exact : lineProblem.Exact :=
  ⟨rfl, fun _ _ => abs_nonneg _, fun _ _ => abs_nonneg _, fun _ _ => abs_nonneg _, by decide, by decide⟩

/-- On the line the search ends, and what it reports is a shortest insertion. -/
theorem solve_exact_line : ∃ final result,
    lineProblem.queueLoop (["C"].filterMap lineProblem.byName) 8 lineProblem.initialState = some final ∧
      lineProblem.report ["C"] final = .ok result ∧
      (result.feasible = true → ∃ distance : ℤ, result.distance = distance ∧
        IsLeast {distance | ∃ walk label,
          lineProblem.Insertion (["C"].filterMap lineProblem.byName) walk ∧
          lineProblem.follow lineProblem.initialLabel walk = some label ∧ label.distance = distance}
          distance) := by
  have hends : (lineProblem.queueLoop (["C"].filterMap lineProblem.byName) 8
      lineProblem.initialState).isSome = true := by
    decide +kernel
  obtain ⟨final, hfinal⟩ := Option.isSome_iff_exists.mp hends
  obtain ⟨result, hresult, -, hleast⟩ :=
    solve_exact lineProblem_exact (by decide +kernel) hfinal
  exact ⟨final, result, hfinal, hresult, hleast⟩

/-! ### Completeness for the validator -/

section Completeness

variable {K : Type} [Field K] [LinearOrder K]

theorem Accepted.walk_eq {problem : Problem K} {route : List String} {walk nodes : List (Node K)}
    (h : problem.Accepted route walk) (hnodes : route.tail.mapM problem.byName = some nodes) :
    nodes = walk := by
  have hwalk : route.tail.mapM problem.byName = some walk := by
    apply problem.mapM_byName_eq_some.mpr
    exact ⟨h.known, by rw [h.names, List.tail_cons]⟩
  exact Option.some.inj (hnodes.symm.trans hwalk)

/-- The customers of an accepted route, if they are distinct, are a valid order. -/
theorem Accepted.validateOrder {problem : Problem K} {route : List String} {walk : List (Node K)}
    (h : problem.Accepted route walk) (hdistinct : ((served walk).map Node.name).Nodup) :
    problem.validateOrder ((served walk).map Node.name) = "" ∧
      ((served walk).map Node.name).filterMap problem.byName = served walk := by
  have hcustomers : ∀ node ∈ served walk, node ∈ problem.nodes ∧ node.kind = .customer := by
    intro node hmem
    simp only [served, List.mem_filter, decide_eq_true_eq] at hmem
    exact ⟨h.known node hmem.1, hmem.2⟩
  have hresolve : ((served walk).map Node.name).filterMap problem.byName = served walk := by
    rw [List.filterMap_map]
    have hsame : ∀ node ∈ served walk, (problem.byName ∘ Node.name) node = some node := by
      intro node hmem
      exact problem.byName_eq_some.mpr ⟨(hcustomers node hmem).1, rfl⟩
    rw [List.filterMap_congr hsame, List.filterMap_some]
  have hknown : ((served walk).map Node.name).filter
      (fun name => name ∉ problem.customers.map Node.name) = [] := by
    apply List.filter_eq_nil_iff.mpr
    intro name hmem
    obtain ⟨node, hnode, rfl⟩ := List.mem_map.mp hmem
    have hcustomer : node ∈ problem.customers := problem.mem_customers.mpr (hcustomers node hnode)
    simp only [decide_eq_true_eq, not_not]
    exact List.mem_map_of_mem hcustomer
  refine ⟨?_, hresolve⟩
  have hload := h.load
  simp only [Problem.validateOrder, hdistinct, hknown, hresolve, not_true_eq_false, if_false, ne_eq]
  exact if_neg (not_lt.mpr hload)

variable [IsStrictOrderedRing K]

/-- The legs of an instance with non-negative rates, compared exactly. -/
theorem exact_problem (inst : Instance K) {hypot : K → K → K} (hhypot : ∀ x y, 0 ≤ hypot x y)
    (hcapacity : 0 ≤ inst.vehicle.batteryCapacity)
    (hconsumption : 0 ≤ inst.vehicle.consumptionRate)
    (hrecharge : 0 ≤ inst.vehicle.inverseRefuelingRate) : (inst.problem hypot 0).Exact :=
  ⟨rfl, fun _ _ => hhypot _ _, fun _ _ => mul_nonneg (hhypot _ _) hconsumption,
    fun _ _ => div_nonneg (hhypot _ _) (le_of_lt inst.positiveVelocity), hcapacity, hrecharge⟩

end Completeness

end Problem

end TxnOpt.Evrptw
