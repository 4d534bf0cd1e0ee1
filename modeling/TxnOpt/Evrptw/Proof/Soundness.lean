import TxnOpt.Evrptw.Proof.Agreement

/-!
# What the charging search returns is valid

`extend` lets a leg take a little more than the charge of its label, and goes on with an empty battery,
while the validator keeps the deficit. A search that only drives legs its labels have the charge for agrees
with the validator.
-/

namespace TxnOpt.Evrptw

namespace Problem

variable {K : Type} [CommRing K] [LinearOrder K] {problem : Problem K} {order : List (Node K)}

/-! ### Covered passes -/

/-- Every leg to a customer or a station that the pass from this state drives takes no more than the charge
of its label. -/
def CoveredPass (problem : Problem K) (order : List (Node K)) (state : SearchState K) : Prop :=
  ∀ label, problem.Expands state label → ∀ successor ∈ problem.successors order label,
    successor.1.kind ≠ .depot → problem.extend label successor.1 successor.2 ≠ none →
    (problem.leg label.node successor.1).energy ≤ label.battery

/-- The queue loop of one order, as long as its passes are covered. -/
def coveredSearch (problem : Problem K) (order : List (Node K)) : System (SearchState K) :=
  { init := fun state => state = problem.initialState
    next := fun state next => problem.CoveredPass order state ∧ problem.step order state = some next }

theorem reachable_of_covered (hcovered : ∀ state, (problem.search order).Reachable state →
    problem.CoveredPass order state) {state : SearchState K} (h : (problem.search order).Reachable state) :
    (problem.coveredSearch order).Reachable state := by
  induction h with
  | init hinit => exact .init hinit
  | step hbefore hnext ih => exact .step ih ⟨hcovered _ hbefore, hnext⟩

theorem coveredPass_iff {state : SearchState K} :
    problem.CoveredPass order state ↔ ∀ entry ∈ state.queue.head?, entry.label ∈ state.labels entry.label.key →
      (∀ incumbent ∈ state.best, ¬ entry.label.distance ≥ incumbent.distance - problem.epsilon) →
      ∀ successor ∈ problem.successors order entry.label, successor.1.kind ≠ .depot →
        problem.extend entry.label successor.1 successor.2 ≠ none →
        (problem.leg entry.label.node successor.1).energy ≤ entry.label.battery := by
  constructor
  · intro h entry hentry hlive hbest
    obtain ⟨rest, hqueue⟩ := List.head?_eq_some_iff.mp hentry
    exact h entry.label ⟨entry, rest, hqueue, rfl, hlive, hbest⟩
  · intro h label hexpands
    obtain ⟨entry, rest, hqueue, hlabel, hlive, hbest⟩ := hexpands
    rw [← hlabel] at hlive hbest ⊢
    exact h entry (by simp [hqueue]) hlive hbest

instance (state : SearchState K) : Decidable (problem.CoveredPass order state) :=
  decidable_of_iff' _ coveredPass_iff

/-! ### The validator's state along the path of a label -/

/-- The validator has no violation so far, and the values of the label. -/
structure Tracked (problem : Problem K) (label : ChargingLabel K) (tour : Tour K) : Prop where
  violations : tour.violations = []
  battery : tour.battery = label.battery
  currentTime : tour.currentTime = label.elapsedTime
  distance : tour.distance = label.distance
  totalEnergy : tour.totalEnergy = label.totalEnergy
  full : label.battery ≤ problem.vehicle.batteryCapacity

theorem tracked_initial : problem.Tracked problem.initialLabel (problem.startTour []) :=
  ⟨rfl, rfl, rfl, rfl, rfl, le_rfl⟩

theorem validateLeg_distance (tour : Tour K) (index : ℕ) (origin destination : Node K) :
    (problem.validateLeg tour index origin destination).distance =
      tour.distance + (problem.leg origin destination).distance := by
  unfold validateLeg
  cases destination.kind <;> rfl

theorem validateLeg_totalEnergy (tour : Tour K) (index : ℕ) (origin destination : Node K) :
    (problem.validateLeg tour index origin destination).totalEnergy =
      tour.totalEnergy + (problem.leg origin destination).energy := by
  unfold validateLeg
  cases destination.kind <;> rfl

variable [IsStrictOrderedRing K]

/-- The validator accepts a leg that the label has the charge for, up to the tolerance. -/
theorem Tracked.accepts {label next : ChargingLabel K} {tour : Tour K} (h : problem.Tracked label tour)
    {destination : Node K} {progress : ℕ} (hextend : problem.extend label destination progress = some next)
    (index : ℕ) : (problem.validateLeg tour index label.node destination).violations = [] := by
  obtain ⟨haccepts, -⟩ := problem.extend_eq_some.mp hextend
  rw [validateLeg_accepts_iff, h.battery, h.currentTime]
  refine ⟨h.violations, ?_, haccepts.arrives⟩
  have henergy := haccepts.energy
  linarith

theorem Tracked.extend {label next : ChargingLabel K} {tour : Tour K} (h : problem.Tracked label tour)
    {destination : Node K} {progress : ℕ} (hextend : problem.extend label destination progress = some next)
    (hused : 0 ≤ (problem.leg label.node destination).energy)
    (hcovered : (problem.leg label.node destination).energy ≤ label.battery) (index : ℕ) :
    problem.Tracked next (problem.validateLeg tour index label.node destination) := by
  have hviolations := h.accepts hextend index
  obtain ⟨-, hreached⟩ := problem.extend_eq_some.mp hextend
  have hlevel : remaining label.battery (problem.leg label.node destination) =
      label.battery - (problem.leg label.node destination).energy :=
    max_eq_right (by linarith)
  have hfull := h.full
  refine ⟨hviolations, ?_, ?_, ?_, ?_, ?_⟩
  · rw [validateLeg_battery, h.battery, hreached]
    by_cases hkind : destination.kind = .station <;> simp [reached, moved, hkind, hlevel]
  · rw [validateLeg_currentTime, h.battery, h.currentTime, hreached]
    have hcharge : 0 ≤ problem.vehicle.batteryCapacity -
        (label.battery - (problem.leg label.node destination).energy) := by
      linarith
    cases hkind : destination.kind with
    | depot => simp [reached, moved, stay, chargeTime, hkind]
    | customer => simp [reached, moved, stay, hkind]
    | station => simp [reached, moved, stay, chargeTime, hkind, hlevel, max_eq_right hcharge]
  · rw [validateLeg_distance, h.distance, hreached]
    rfl
  · rw [validateLeg_totalEnergy, h.totalEnergy, hreached]
    rfl
  · rw [hreached]
    by_cases hkind : destination.kind = .station
    · simp [reached, moved, hkind]
    · simp only [reached, moved, charge_of_ne _ hkind, add_zero, hlevel]
      linarith

/-- The walk of a label, and the validator's state at its end. -/
structure Driven (problem : Problem K) (order : List (Node K)) (label : ChargingLabel K) (walk : List (Node K))
    (tour : Tour K) (index : ℕ) : Prop where
  attained : problem.follow problem.initialLabel walk = some label
  inserted : ∀ rest, problem.Insertion (order.drop label.progress) rest → problem.Insertion order (walk ++ rest)
  tracked : problem.Tracked label tour
  validated : ∀ rest, problem.validateLegs (problem.startTour []) 1 problem.depot (walk ++ rest) =
    problem.validateLegs tour index label.node rest

/-- What a covered search keeps of every label. -/
def Agrees (problem : Problem K) (order : List (Node K)) (label : ChargingLabel K) : Prop :=
  problem.Proper order label ∧ ∃ walk tour index, problem.Driven order label walk tour index

omit [IsStrictOrderedRing K] in
theorem agrees_initial : problem.Agrees order problem.initialLabel := by
  refine ⟨⟨Nat.zero_le _, problem.depot_mem.1, ?_⟩, [], problem.startTour [], 1, rfl, ?_, tracked_initial, ?_⟩
  · intro hstation
    have hdepot : problem.initialLabel.node.kind = .depot := problem.depot_mem.2
    simp [hdepot] at hstation
  · intro rest hrest
    exact hrest
  · intro rest
    rfl

variable (horder : ∀ customer ∈ order, customer ∈ problem.nodes ∧ customer.kind = .customer)
  (hused : ∀ origin destination, 0 ≤ (problem.leg origin destination).energy)

include horder hused in
theorem agrees_extend {label candidate : ChargingLabel K} {successor : Node K × ℕ}
    (hlabel : problem.Agrees order label) (hsuccessor : successor ∈ problem.successors order label)
    (hopen : ¬ Closes order successor)
    (hextend : problem.extend label successor.1 successor.2 = some candidate)
    (hcovered : (problem.leg label.node successor.1).energy ≤ label.battery) : problem.Agrees order candidate := by
  obtain ⟨hproper, walk, tour, index, hdriven⟩ := hlabel
  obtain ⟨hattained, hinserted⟩ :=
    attained_walk horder hdriven.attained hdriven.inserted hsuccessor hopen hproper.progress hextend
  refine ⟨proper_extend (fun customer hmem => (horder customer hmem).1) hproper hsuccessor hextend,
    walk ++ [successor.1], problem.validateLeg tour index label.node successor.1, index + 1, hattained, hinserted,
    hdriven.tracked.extend hextend (hused _ _) hcovered index, ?_⟩
  intro rest
  rw [List.append_assoc, List.singleton_append, hdriven.validated, validateLegs, (problem.extend_progress hextend).2]

include horder hused in
theorem every_agrees {state : SearchState K} (h : (problem.coveredSearch order).Reachable state) :
    problem.Every order (problem.Agrees order) state := by
  refine h.invariant ?_ ?_
  · intro first hfirst
    rw [hfirst]
    exact problem.every_initialState order (problem.Agrees order) agrees_initial
  · intro first next hfirst hnext
    obtain ⟨hcovered, hstep⟩ := hnext
    apply hfirst.step problem order ?_ hstep
    intro label successor candidate hexpands hlabel hsuccessor hopen hextend
    have hkind : successor.1.kind ≠ .depot := by
      rcases open_successor horder hlabel.1.progress hsuccessor hopen with ⟨hcustomer, -, -⟩ | ⟨hstation, -, -⟩
      · simp [hcustomer]
      · simp [hstation]
    have hleg := hcovered label hexpands successor hsuccessor hkind (by simp [hextend])
    exact agrees_extend horder hused hlabel hsuccessor hopen hextend hleg

/-! ### The returned route -/

/-- The route of a label is valid, serves the order, and costs what the label says. -/
structure SoundRoute (problem : Problem K) (names : List String) (best : ChargingLabel K) : Prop where
  violations : (problem.validateRoute (best.path.map Node.name)).violations = []
  customers : (best.path.filter (fun node => node.kind = .customer)).map Node.name = names
  distance : (problem.validateRoute (best.path.map Node.name)).distance = best.distance
  totalEnergy : (problem.validateRoute (best.path.map Node.name)).totalEnergy = best.totalEnergy

omit [IsStrictOrderedRing K] in
/-- An insertion of a valid order is accepted as soon as its legs are. -/
theorem Insertion.accepted {names : List String} (hvalid : problem.validateOrder names = "") {walk : List (Node K)}
    (hwalk : problem.Insertion (names.filterMap problem.byName) walk)
    (hlegs : (problem.validateLegs (problem.startTour []) 1 problem.depot walk).violations = []) :
    problem.Accepted ((problem.depot :: walk).map Node.name) walk ∧
      ((problem.depot :: walk).filter (fun node => node.kind = .customer)).map Node.name = names := by
  obtain ⟨-, horder, hnames, hdemand⟩ := validateOrder_eq_empty hvalid
  obtain ⟨hknown, hreturns, hinner, hserved⟩ := hwalk.shape horder
  have hload : customerDemand walk = ((names.filterMap problem.byName).map Node.demand).sum := by
    rw [← hserved]
    rfl
  refine ⟨⟨rfl, hknown, hreturns, hinner, by rw [hload]; exact hdemand, hlegs⟩, ?_⟩
  have hdepot : (problem.depot :: walk).filter (fun node => node.kind = .customer) = served walk := by
    simp [served, problem.depot_mem.2]
  rw [hdepot, hserved, hnames]

include hused in
theorem soundRoute_of_best {names : List String} (hvalid : problem.validateOrder names = "")
    {state : SearchState K} (h : (problem.coveredSearch (names.filterMap problem.byName)).Reachable state)
    {best : ChargingLabel K} (hbest : best ∈ state.best) : problem.SoundRoute names best := by
  obtain ⟨-, horder, -, -⟩ := validateOrder_eq_empty hvalid
  obtain ⟨label, successor, ⟨-, walk, tour, index, hdriven⟩, hsuccessor, hextend, hcloses⟩ :=
    (every_agrees horder hused h).closed best hbest
  obtain ⟨hdepot, hwalk, hfollow⟩ :=
    closing_walk horder hdriven.attained hdriven.inserted hsuccessor hcloses hextend
  have hlast : problem.validateLegs (problem.startTour []) 1 problem.depot (walk ++ [problem.depot]) =
      problem.validateLeg tour index label.node problem.depot := hdriven.validated [problem.depot]
  rw [hdepot] at hextend
  have hlegs := hdriven.tracked.accepts hextend index
  rw [← hlast] at hlegs
  obtain ⟨haccepted, hcustomers⟩ := hwalk.accepted hvalid hlegs
  have hpath : best.path = problem.depot :: (walk ++ [problem.depot]) := follow_path hfollow
  obtain ⟨-, hreached⟩ := problem.extend_eq_some.mp hextend
  rw [← hpath] at haccepted hcustomers
  refine ⟨problem.validateRoute_accepts_iff.mpr ⟨_, haccepted⟩, hcustomers, ?_, ?_⟩
  · rw [haccepted.validateRoute, hlast]
    simp only [validateLeg_distance, hdriven.tracked.distance, hreached]
    rfl
  · rw [haccepted.validateRoute, hlast]
    simp only [validateLeg_totalEnergy, hdriven.tracked.totalEnergy, hreached]
    rfl

omit [IsStrictOrderedRing K] in
theorem report_ne_error {names : List String} {state : SearchState K}
    (h : ∀ best ∈ state.best, problem.SoundRoute names best) (error : InvalidRoute K) :
    problem.report names state ≠ .error error := by
  intro hreport
  cases hbest : state.best with
  | none => simp [report, hbest] at hreport
  | some best =>
      have hsound := h best hbest
      simp [report, hbest, hsound.violations, hsound.customers] at hreport

end Problem

section Instances

variable {K : Type} [Field K] [LinearOrder K] [IsStrictOrderedRing K]

namespace Problem

/-- The state after a number of passes. -/
def after (problem : Problem K) (order : List (Node K)) (passes : ℕ) : SearchState K :=
  (fun state => (problem.step order state).getD state)^[passes] problem.initialState

omit [IsStrictOrderedRing K] in
theorem reachable_after {problem : Problem K} {order : List (Node K)} {passes : ℕ}
    (hcovered : ∀ count < passes, problem.CoveredPass order (problem.after order count)) :
    (problem.coveredSearch order).Reachable (problem.after order passes) := by
  induction passes with
  | zero => exact .init rfl
  | succ passes ih =>
      have hbefore := ih fun count hcount => hcovered count (Nat.lt_succ_of_lt hcount)
      rw [after, Function.iterate_succ_apply']
      cases hstep : problem.step order (problem.after order passes) with
      | none =>
          rw [after] at hstep hbefore
          rwa [hstep]
      | some next =>
          have hnext := hbefore.step ⟨hcovered passes (Nat.lt_succ_self passes), hstep⟩
          rw [after] at hstep
          rwa [hstep]

end Problem

end Instances

namespace Problem

/-- A customer just behind a station, and just out of reach of the depot. -/
def edgeInstance : Instance ℚ where
  nodes :=
    [⟨"D", .depot, 0, 0, 0, 0, 100, 0⟩, ⟨"S", .station, 1, 0, 0, 0, 100, 0⟩,
      ⟨"C", .customer, 1 + 1 / 10 ^ 9, 0, 1, 0, 100, 0⟩]
  vehicle := ⟨1, 1, 1, 1, 1⟩
  depot := ⟨"D", .depot, 0, 0, 0, 0, 100, 0⟩
  oneDepot := rfl
  uniqueNames := lineNames_nodup
  positiveVelocity := by decide +kernel

end Problem

end TxnOpt.Evrptw
