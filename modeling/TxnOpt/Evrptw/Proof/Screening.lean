import TxnOpt.Evrptw.Screening
import TxnOpt.Evrptw.Proof.Agreement
import Mathlib.Tactic.Linarith

/-!
# Screening proves rejection

Over distances with the triangle inequality a station on the way never makes a customer reachable earlier, or
with more charge. So a walk that the validator accepts passes every bound of the screening of its customers.
-/

namespace TxnOpt.Evrptw

namespace Problem

variable {K : Type} [Field K] [LinearOrder K] [IsStrictOrderedRing K] {problem : Problem K}

/-- The legs are those of distances with the triangle inequality, and no rate is negative. -/
structure Direct (problem : Problem K) : Prop where
  distance_nonneg : ∀ first second, 0 ≤ (problem.leg first second).distance
  distance_triangle : ∀ first second third,
    (problem.leg first third).distance ≤ (problem.leg first second).distance + (problem.leg second third).distance
  energy : ∀ first second,
    (problem.leg first second).energy = (problem.leg first second).distance * problem.vehicle.consumptionRate
  travelTime : ∀ first second,
    (problem.leg first second).travelTime = (problem.leg first second).distance / problem.vehicle.averageVelocity
  consumption : 0 ≤ problem.vehicle.consumptionRate
  refueling : 0 ≤ problem.vehicle.inverseRefuelingRate
  epsilon : 0 ≤ problem.epsilon

theorem Direct.energy_nonneg (h : Direct problem) (first second : Node K) : 0 ≤ (problem.leg first second).energy := by
  rw [h.energy]
  exact mul_nonneg (h.distance_nonneg first second) h.consumption

theorem Direct.energy_triangle (h : Direct problem) (first second third : Node K) :
    (problem.leg first third).energy ≤ (problem.leg first second).energy + (problem.leg second third).energy := by
  rw [h.energy, h.energy, h.energy, ← add_mul]
  exact mul_le_mul_of_nonneg_right (h.distance_triangle first second third) h.consumption

theorem Direct.travelTime_triangle (h : Direct problem) (first second third : Node K) :
    (problem.leg first third).travelTime ≤
      (problem.leg first second).travelTime + (problem.leg second third).travelTime := by
  rw [h.travelTime, h.travelTime, h.travelTime, ← add_div]
  exact div_le_div_of_nonneg_right (h.distance_triangle first second third) problem.positiveVelocity.le

/-! ### One accepted leg -/

omit [IsStrictOrderedRing K] in
/-- What the validator asks of the first leg of a walk without violations. -/
theorem accepts_cons {tour : Tour K} {index : ℕ} {origin destination : Node K} {rest : List (Node K)}
    (h : (problem.validateLegs tour index origin (destination :: rest)).violations = []) :
    -problem.epsilon ≤ tour.battery - (problem.leg origin destination).energy ∧
      arrival tour.currentTime (problem.leg origin destination) destination ≤
        destination.dueDate + problem.epsilon ∧
      (problem.validateLegs (problem.validateLeg tour index origin destination) (index + 1) destination
        rest).violations = [] := by
  obtain ⟨-, hbattery, htime⟩ := problem.validateLeg_accepts_iff.mp (problem.violations_of_validateLegs h)
  exact ⟨hbattery, htime, h⟩

/-! ### Arrivals -/

/-- The forward pass at `origin` is never later than the tour at `here`, wherever they go next. -/
def Ahead (problem : Problem K) (time : K) (origin : Node K) (tour : Tour K) (here : Node K) : Prop :=
  ∀ next, time + (problem.leg origin next).travelTime ≤ tour.currentTime + (problem.leg here next).travelTime

theorem Ahead.station (hdirect : Direct problem) {time : K} {origin here station : Node K} {tour : Tour K} {index : ℕ}
    (h : Ahead problem time origin tour here) (hkind : station.kind = .station) :
    Ahead problem time origin (problem.validateLeg tour index here station) station := by
  intro next
  rw [validateLeg_currentTime, hkind]
  have harrival := le_max_left (tour.currentTime + (problem.leg here station).travelTime) station.readyTime
  have hcharge : 0 ≤ max 0 (problem.vehicle.batteryCapacity -
      (tour.battery - (problem.leg here station).energy)) * problem.vehicle.inverseRefuelingRate :=
    mul_nonneg (le_max_left _ _) hdirect.refueling
  calc
    time + (problem.leg origin next).travelTime
      ≤ tour.currentTime + (problem.leg here next).travelTime := h next
    _ ≤ tour.currentTime + ((problem.leg here station).travelTime + (problem.leg station next).travelTime) :=
      add_le_add_right (hdirect.travelTime_triangle here station next) _
    _ ≤ _ := by
      rw [arrival]
      dsimp only
      linarith

omit [IsStrictOrderedRing K] in
theorem Ahead.arrival {time : K} {origin here : Node K} {tour : Tour K} (h : Ahead problem time origin tour here)
    (destination : Node K) :
    arrival time (problem.leg origin destination) destination ≤
      arrival tour.currentTime (problem.leg here destination) destination :=
  max_le_max_right _ (h destination)

/-- A leg of the forward pass whose arrival is in time. -/
theorem forwardLeg_eq_some {pass : ForwardPass K} {origin destination : Node K}
    (h : arrival pass.currentTime (problem.leg origin destination) destination ≤
      destination.dueDate + problem.epsilon) :
    ∃ next, problem.forwardLeg pass origin destination = some next ∧
      next.currentTime = arrival pass.currentTime (problem.leg origin destination) destination +
        if destination.kind = .customer then destination.serviceTime else 0 := by
  rw [forwardLeg, ← TxnOpt.Evrptw.Problem.arrival]
  rw [if_neg (by linarith)]
  split
  · exact ⟨_, rfl, rfl⟩
  · exact ⟨_, rfl, (add_zero _).symm⟩

/-- The forward pass over the customers of an accepted walk ends. -/
theorem forwardPass_of_legs (hdirect : Direct problem) {order walk : List (Node K)}
    (hwalk : problem.Insertion order walk) (horder : ∀ customer ∈ order, customer.kind = .customer)
    {tour : Tour K} {index : ℕ} {here origin : Node K} {pass : ForwardPass K}
    (hlegs : (problem.validateLegs tour index here walk).violations = [])
    (hahead : Ahead problem pass.currentTime origin tour here) :
    ∃ after, problem.forwardPass pass origin (order ++ [problem.depot]) = some after := by
  induction hwalk generalizing tour index here origin pass with
  | close =>
      obtain ⟨-, htime, -⟩ := accepts_cons hlegs
      obtain ⟨next, hnext, -⟩ := forwardLeg_eq_some ((hahead.arrival problem.depot).trans htime)
      refine ⟨next, ?_⟩
      rw [List.nil_append, forwardPass, hnext]
      rfl
  | @station order walk station hstation hwalk ih =>
      obtain ⟨-, -, hrest⟩ := accepts_cons hlegs
      exact ih horder hrest (hahead.station hdirect (problem.mem_stations.mp hstation).2)
  | @customer order walk customer hwalk ih =>
      rw [List.forall_mem_cons] at horder
      obtain ⟨-, htime, hrest⟩ := accepts_cons hlegs
      obtain ⟨next, hnext, htimes⟩ := forwardLeg_eq_some ((hahead.arrival customer).trans htime)
      have hcustomer : Ahead problem next.currentTime customer (problem.validateLeg tour index here customer)
          customer := by
        intro other
        rw [htimes, if_pos horder.1, validateLeg_currentTime, horder.1]
        exact add_le_add_left (add_le_add_left (hahead.arrival customer) _) _
      obtain ⟨after, hafter⟩ := ih horder.2 hrest hcustomer
      refine ⟨after, ?_⟩
      rw [List.cons_append, forwardPass, hnext]
      exact hafter

/-! ### Latest arrivals -/

/-- What a leg of the forward pass that goes on has checked and stored. -/
theorem forwardLeg_spec {pass next : ForwardPass K} {origin destination : Node K}
    (h : problem.forwardLeg pass origin destination = some next) :
    arrival pass.currentTime (problem.leg origin destination) destination ≤
        destination.dueDate + problem.epsilon ∧
      next.minSlack = min pass.minSlack
        ((destination.dueDate - arrival pass.currentTime (problem.leg origin destination) destination : K) :
          WithTop K) ∧
      next.currentTime = arrival pass.currentTime (problem.leg origin destination) destination +
        (if destination.kind = .customer then destination.serviceTime else 0) ∧
      next.earliest = if destination.kind = .customer then
          pass.earliest.set destination.name (arrival pass.currentTime (problem.leg origin destination) destination)
        else pass.earliest := by
  rw [forwardLeg, ← TxnOpt.Evrptw.Problem.arrival] at h
  split at h
  · cases h
  · rename_i hslack
    have hdue : arrival pass.currentTime (problem.leg origin destination) destination ≤
        destination.dueDate + problem.epsilon := by linarith
    split at h
    · rename_i hkind
      rw [← Option.some.inj h, if_pos hkind, if_pos hkind]
      exact ⟨hdue, rfl, rfl, rfl⟩
    · rename_i hkind
      rw [← Option.some.inj h, if_neg hkind, if_neg hkind, add_zero]
      exact ⟨hdue, rfl, rfl, rfl⟩

/-- The names of the customers of a walk. -/
def customerNames (walk : List (Node K)) : List String := (served walk).map Node.name

omit [Field K] [LinearOrder K] [IsStrictOrderedRing K] in
theorem customerNames_cons_of_customer {node : Node K} (h : node.kind = .customer) (walk : List (Node K)) :
    customerNames (node :: walk) = node.name :: customerNames walk := by
  simp [customerNames, served, h]

omit [Field K] [LinearOrder K] [IsStrictOrderedRing K] in
theorem customerNames_cons_of_ne {node : Node K} (h : node.kind ≠ .customer) (walk : List (Node K)) :
    customerNames (node :: walk) = customerNames walk := by
  simp [customerNames, served, h]

/-- The two passes over a chain that returns to the depot: no departure of the forward pass is later than the
latest one, no arrival later than the latest arrival, and no slack too small. -/
theorem forwardPass_spec {chain : List (Node K)} {origin : Node K}
    {pass after : ForwardPass K} (hchain : chain = [] ∨ chain.getLast? = some problem.depot)
    (hend : chain = [] → pass.currentTime ≤ problem.depot.dueDate + problem.epsilon)
    (hnames : (customerNames chain).Nodup) (h : problem.forwardPass pass origin chain = some after) :
    pass.currentTime ≤ (problem.backwardPass origin chain).1 + problem.epsilon ∧
      (∀ entry ∈ after.earliest, entry ∈ pass.earliest ∨ entry.1 ∈ customerNames chain ∧
        ∃ latest, (problem.backwardPass origin chain).2.lookup entry.1 = some latest ∧
          entry.2 ≤ latest + problem.epsilon) ∧
      min pass.minSlack ((-problem.epsilon : K) : WithTop K) ≤ after.minSlack := by
  induction chain generalizing origin pass with
  | nil =>
      rw [forwardPass] at h
      rw [← Option.some.inj h]
      exact ⟨hend rfl, fun entry hentry => .inl hentry, min_le_left _ _⟩
  | cons destination rest ih =>
      rw [forwardPass] at h
      obtain ⟨next, hnext, hafter⟩ := Option.bind_eq_some_iff.mp h
      obtain ⟨hdue, hslack, htime, hearliest⟩ := forwardLeg_spec hnext
      have hlast : rest = [] ∨ rest.getLast? = some problem.depot := by
        by_cases hrest : rest = []
        · exact .inl hrest
        · right
          rcases hchain with hnil | hdepot
          · exact absurd hnil (List.cons_ne_nil _ _)
          · rwa [List.getLast?_cons_of_ne_nil hrest] at hdepot
      have hclose : rest = [] → next.currentTime ≤ problem.depot.dueDate + problem.epsilon := by
        intro hrest
        rcases hchain with hnil | hdepot
        · exact absurd hnil (List.cons_ne_nil _ _)
        · rw [hrest, List.getLast?_singleton, Option.some.injEq] at hdepot
          rw [htime, if_neg (by rw [hdepot, problem.depot_mem.2]; decide), add_zero]
          rw [hdepot] at hdue ⊢
          exact hdue
      have hearlier := le_max_left (pass.currentTime + (problem.leg origin destination).travelTime)
        destination.readyTime
      rw [← arrival] at hearlier
      have hslackLe : min pass.minSlack ((-problem.epsilon : K) : WithTop K) ≤
          min next.minSlack ((-problem.epsilon : K) : WithTop K) := by
        rw [hslack]
        apply le_min (le_min (min_le_left _ _) _) (min_le_right _ _)
        exact (min_le_right _ _).trans (WithTop.coe_le_coe.mpr (by linarith))
      by_cases hkind : destination.kind = .customer
      · rw [customerNames_cons_of_customer hkind, List.nodup_cons] at hnames
        obtain ⟨hdeparture, hentries, hmin⟩ := ih hlast hclose hnames.2 hafter
        rw [if_pos hkind] at htime hearliest
        rw [backwardPass]
        dsimp only
        rw [if_pos hkind, customerNames_cons_of_customer hkind]
        have hlatest : arrival pass.currentTime (problem.leg origin destination) destination ≤
            min destination.dueDate ((problem.backwardPass destination rest).1 - destination.serviceTime) +
              problem.epsilon := by
          rw [← min_add_add_right]
          exact le_min hdue (by linarith)
        refine ⟨by dsimp only; linarith, ?_, hslackLe.trans hmin⟩
        intro entry hentry
        rcases hentries entry hentry with hnew | ⟨hname, latest, hlookup, hle⟩
        · rw [hearliest] at hnew
          rcases OrderedDict.mem_set hnew with hold | heq
          · exact .inl hold
          · right
            rw [heq]
            exact ⟨List.mem_cons_self, _, by rw [OrderedDict.lookup_set, if_pos rfl], hlatest⟩
        · right
          refine ⟨List.mem_cons_of_mem _ hname, latest, ?_, hle⟩
          rw [OrderedDict.lookup_set, if_neg]
          · exact hlookup
          · intro heq
            rw [heq] at hname
            exact hnames.1 hname
      · rw [customerNames_cons_of_ne hkind] at hnames
        obtain ⟨hdeparture, hentries, hmin⟩ := ih hlast hclose hnames hafter
        rw [if_neg hkind] at htime hearliest
        rw [backwardPass]
        dsimp only
        rw [if_neg hkind, customerNames_cons_of_ne hkind]
        have hlatest : arrival pass.currentTime (problem.leg origin destination) destination ≤
            min destination.dueDate (problem.backwardPass destination rest).1 + problem.epsilon := by
          rw [← min_add_add_right]
          exact le_min hdue (by linarith)
        rw [hearliest] at hentries
        exact ⟨by dsimp only; linarith, hentries, hslackLe.trans hmin⟩

/-! ### Reachable nodes -/

/-- One charge lasts for the leg. -/
def OneCharge (problem : Problem K) (origin destination : Node K) : Prop :=
  (problem.leg origin destination).energy ≤ problem.vehicle.batteryCapacity + problem.epsilon

/-- The destination can be reached over stations, one charge for each leg. -/
inductive Reaches (problem : Problem K) (destination : Node K) : Node K → Prop
  | direct {origin : Node K} : OneCharge problem origin destination → Reaches problem destination origin
  | via {origin station : Node K} : station ∈ problem.stations → OneCharge problem origin station →
      Reaches problem destination station → Reaches problem destination origin

/-- Nothing outside of `closed` is one charge away from it, up to the stations that were visited. -/
structure ClosedUpTo (problem : Problem K) (destination : Node K) (visited : List String) (closed : List (Node K)) :
    Prop where
  known : ∀ node ∈ closed, node ∈ problem.nodes
  far : ∀ node ∈ closed, ¬ OneCharge problem node destination
  closed : ∀ node ∈ closed, ∀ station ∈ problem.stations, OneCharge problem node station →
    station.name = node.name ∨ station.name ∈ visited ∨ station ∈ closed

/-- What a pass over some of the stations has seen. -/
structure Expanded (problem : Problem K) (current : Node K) (frontier after : Frontier K)
    (stations : List (Node K)) : Prop where
  nodes : ∀ node ∈ frontier.nodes, node ∈ after.nodes
  known : ∀ node ∈ after.nodes, node ∈ frontier.nodes ∨ node ∈ problem.stations
  visited : ∀ name ∈ after.visited, name ∈ frontier.visited ∨ ∃ station ∈ after.nodes,
    station ∈ problem.stations ∧ station.name = name
  seen : ∀ station ∈ stations, OneCharge problem current station →
    station.name = current.name ∨ station.name ∈ after.visited
  kept : ∀ name ∈ frontier.visited, name ∈ after.visited

omit [IsStrictOrderedRing K] in
theorem expanded_foldl {current : Node K} {stations : List (Node K)}
    (hstations : ∀ station ∈ stations, station ∈ problem.stations) (frontier : Frontier K) :
    Expanded problem current frontier (stations.foldl (problem.expandStation current) frontier) stations := by
  induction stations generalizing frontier with
  | nil =>
      exact ⟨fun _ h => h, fun _ h => .inl h, fun _ h => .inl h, fun _ h => absurd h List.not_mem_nil, fun _ h => h⟩
  | cons station stations ih =>
      rw [List.forall_mem_cons] at hstations
      rw [List.foldl_cons]
      have hrest := ih hstations.2 (problem.expandStation current frontier station)
      by_cases hskip : station.name = current.name ∨ station.name ∈ frontier.visited
      · have hsame : problem.expandStation current frontier station = frontier := by
          rw [expandStation, if_pos hskip]
        rw [hsame] at hrest ⊢
        refine ⟨hrest.nodes, hrest.known, hrest.visited, ?_, hrest.kept⟩
        intro other hother hcharge
        rcases List.mem_cons.mp hother with heq | hlater
        · rw [heq]
          exact hskip.imp_right (hrest.kept _)
        · exact hrest.seen other hlater hcharge
      · by_cases hcharge : OneCharge problem current station
        · have hadded : problem.expandStation current frontier station =
              ⟨station.name :: frontier.visited, station :: frontier.nodes⟩ := by
            rw [expandStation, if_neg hskip]
            exact if_pos hcharge
          rw [hadded] at hrest ⊢
          refine ⟨?_, ?_, ?_, ?_, ?_⟩
          · intro node hnode
            exact hrest.nodes node (List.mem_cons_of_mem station hnode)
          · intro node hnode
            rcases hrest.known node hnode with hbefore | hstation
            · rcases List.mem_cons.mp hbefore with heq | hold
              · rw [heq]
                exact .inr hstations.1
              · exact .inl hold
            · exact .inr hstation
          · intro name hname
            rcases hrest.visited name hname with hbefore | hstation
            · rcases List.mem_cons.mp hbefore with heq | hold
              · exact .inr ⟨station, hrest.nodes station List.mem_cons_self, hstations.1, heq.symm⟩
              · exact .inl hold
            · exact .inr hstation
          · intro other hother hleg
            rcases List.mem_cons.mp hother with heq | hlater
            · rw [heq]
              exact .inr (hrest.kept _ List.mem_cons_self)
            · exact hrest.seen other hlater hleg
          · intro name hname
            exact hrest.kept name (List.mem_cons_of_mem _ hname)
        · have hsame : problem.expandStation current frontier station = frontier := by
            rw [expandStation, if_neg hskip]
            exact if_neg hcharge
          rw [hsame] at hrest ⊢
          refine ⟨hrest.nodes, hrest.known, hrest.visited, ?_, hrest.kept⟩
          intro other hother hleg
          rcases List.mem_cons.mp hother with heq | hlater
          · rw [heq] at hleg
            exact absurd hleg hcharge
          · exact hrest.seen other hlater hleg

omit [IsStrictOrderedRing K] in
/-- A search that fails leaves a closed set around its nodes. -/
theorem closed_of_reachesFrom {destination : Node K} {frontier : Frontier K}
    (h : problem.reachesFrom destination frontier = false) (hknown : ∀ node ∈ frontier.nodes, node ∈ problem.nodes) :
    ∃ closed, (∀ node ∈ frontier.nodes, node ∈ closed) ∧ ClosedUpTo problem destination frontier.visited closed := by
  fun_induction problem.reachesFrom destination frontier with
  | case1 visited => exact ⟨[], fun _ hnode => hnode, ⟨by simp, by simp, by simp⟩⟩
  | case2 visited current nodes hreached => cases h
  | case3 visited current nodes hfar ih =>
      have hexpanded : Expanded problem current ⟨visited, nodes⟩ (problem.expandStations current ⟨visited, nodes⟩)
          problem.stations := expanded_foldl (fun _ hstation => hstation) _
      have hnext : ∀ node ∈ (problem.expandStations current ⟨visited, nodes⟩).nodes, node ∈ problem.nodes := by
        intro node hnode
        rcases hexpanded.known node hnode with hold | hstation
        · exact hknown node (List.mem_cons_of_mem current hold)
        · exact (problem.mem_stations.mp hstation).1
      obtain ⟨closed, hsubset, hclosed⟩ := ih h hnext
      -- A name that was added in this round is that of a station whose closure is known.
      have hadded : ∀ station ∈ problem.stations,
          station.name ∈ (problem.expandStations current ⟨visited, nodes⟩).visited →
            station.name ∈ visited ∨ station ∈ closed := by
        intro station hstation hname
        rcases hexpanded.visited _ hname with hold | ⟨other, hother, hstationOther, hsame⟩
        · exact .inl hold
        · right
          rw [← problem.eq_of_name_eq (problem.mem_stations.mp hstationOther).1 (problem.mem_stations.mp hstation).1
            hsame]
          exact hsubset other hother
      refine ⟨current :: closed, ?_, ?_, ?_, ?_⟩
      · intro node hnode
        rcases List.mem_cons.mp hnode with heq | hlater
        · rw [heq]
          exact List.mem_cons_self
        · exact List.mem_cons_of_mem current (hsubset node (hexpanded.nodes node hlater))
      · intro node hnode
        rcases List.mem_cons.mp hnode with heq | hlater
        · rw [heq]
          exact hknown current List.mem_cons_self
        · exact hclosed.known node hlater
      · intro node hnode
        rcases List.mem_cons.mp hnode with heq | hlater
        · rw [heq]
          exact hfar
        · exact hclosed.far node hlater
      · intro node hnode station hstation hcharge
        rcases List.mem_cons.mp hnode with heq | hlater
        · rw [heq] at hcharge ⊢
          rcases hexpanded.seen station hstation hcharge with hself | hname
          · exact .inl hself
          · exact .inr ((hadded station hstation hname).imp_right (List.mem_cons_of_mem current))
        · rcases hclosed.closed node hlater station hstation hcharge with hself | hname | hmem
          · exact .inl hself
          · exact .inr ((hadded station hstation hname).imp_right (List.mem_cons_of_mem current))
          · exact .inr (.inr (List.mem_cons_of_mem current hmem))

omit [IsStrictOrderedRing K] in
theorem ClosedUpTo.not_mem {destination origin : Node K} {closed : List (Node K)}
    (h : ClosedUpTo problem destination [] closed) (hreaches : Reaches problem destination origin) :
    origin ∉ closed := by
  induction hreaches with
  | direct hcharge =>
      intro hmem
      exact h.far _ hmem hcharge
  | @via origin station hstation hcharge _ ih =>
      intro hmem
      rcases h.closed origin hmem station hstation hcharge with hself | hname | hlater
      · apply ih
        rw [problem.eq_of_name_eq (problem.mem_stations.mp hstation).1 (h.known origin hmem) hself]
        exact hmem
      · exact absurd hname List.not_mem_nil
      · exact ih hlater

omit [IsStrictOrderedRing K] in
/-- The search finds every destination that can be reached. -/
theorem energyReachable_of_reaches {origin destination : Node K} (horigin : origin ∈ problem.nodes)
    (h : Reaches problem destination origin) : problem.energyReachableOptimistically origin destination = true := by
  rw [energyReachableOptimistically, Bool.or_eq_true]
  right
  by_contra hfails
  rw [Bool.not_eq_true] at hfails
  obtain ⟨closed, hsubset, hclosed⟩ := closed_of_reachesFrom hfails (by simpa using horigin)
  exact hclosed.not_mem h (hsubset origin List.mem_cons_self)

/-! ### Charge along a walk -/

/-- A leg of an accepted walk is short enough for one charge. -/
theorem oneCharge_of_battery {tour : Tour K} {here destination : Node K}
    (hbattery : tour.battery ≤ problem.vehicle.batteryCapacity)
    (h : -problem.epsilon ≤ tour.battery - (problem.leg here destination).energy) :
    OneCharge problem here destination := by
  rw [OneCharge]
  linarith

theorem battery_le (hdirect : Direct problem) {tour : Tour K} {index : ℕ} {here destination : Node K}
    (hbattery : tour.battery ≤ problem.vehicle.batteryCapacity) :
    (problem.validateLeg tour index here destination).battery ≤ problem.vehicle.batteryCapacity := by
  rw [validateLeg_battery]
  split
  · exact le_refl _
  · have henergy := hdirect.energy_nonneg here destination
    linarith

/-- The nodes of the walk up to the next customer or the depot reach it over stations. -/
theorem reachableLegs_of_legs (hdirect : Direct problem) {order walk : List (Node K)}
    (hwalk : problem.Insertion order walk) (hknown : ∀ customer ∈ order, customer ∈ problem.nodes)
    {tour : Tour K} {index : ℕ} {here : Node K} (hbattery : tour.battery ≤ problem.vehicle.batteryCapacity)
    (hlegs : (problem.validateLegs tour index here walk).violations = []) :
    ∃ first rest, order ++ [problem.depot] = first :: rest ∧ Reaches problem first here ∧
      problem.energyReachableLegs first rest = true := by
  induction hwalk generalizing tour index here with
  | close =>
      obtain ⟨hcharge, -, -⟩ := accepts_cons hlegs
      exact ⟨problem.depot, [], rfl, .direct (oneCharge_of_battery hbattery hcharge), rfl⟩
  | @station order walk station hstation hwalk ih =>
      obtain ⟨hcharge, -, hrest⟩ := accepts_cons hlegs
      obtain ⟨first, rest, horder, hreaches, hlegsRest⟩ := ih hknown (battery_le hdirect hbattery) hrest
      exact ⟨first, rest, horder, .via hstation (oneCharge_of_battery hbattery hcharge) hreaches, hlegsRest⟩
  | @customer order walk customer hwalk ih =>
      rw [List.forall_mem_cons] at hknown
      obtain ⟨hcharge, -, hrest⟩ := accepts_cons hlegs
      obtain ⟨first, rest, horder, hreaches, hlegsRest⟩ := ih hknown.2 (battery_le hdirect hbattery) hrest
      refine ⟨customer, order ++ [problem.depot], rfl, .direct (oneCharge_of_battery hbattery hcharge), ?_⟩
      rw [horder, energyReachableLegs, energyReachable_of_reaches hknown.1 hreaches, hlegsRest]
      rfl

/-- The depot or a station. -/
def IsRecharge (problem : Problem K) (node : Node K) : Prop := node = problem.depot ∨ node ∈ problem.stations

/-- The charge at `here` is at most what is left of a full one after the way from some recharge. -/
def Drained (problem : Problem K) (tour : Tour K) (here : Node K) : Prop :=
  ∃ recharge, IsRecharge problem recharge ∧ ∀ next,
    tour.battery - (problem.leg here next).energy ≤
      problem.vehicle.batteryCapacity - (problem.leg recharge next).energy

theorem Drained.next (hdirect : Direct problem) {tour : Tour K} {index : ℕ} {here destination : Node K}
    (h : Drained problem tour here) (hkind : destination.kind = .station → destination ∈ problem.stations) :
    Drained problem (problem.validateLeg tour index here destination) destination := by
  obtain ⟨recharge, hrecharge, hdrained⟩ := h
  by_cases hstation : destination.kind = .station
  · refine ⟨destination, .inr (hkind hstation), ?_⟩
    intro next
    rw [validateLeg_battery, if_pos hstation]
  · refine ⟨recharge, hrecharge, ?_⟩
    intro next
    rw [validateLeg_battery, if_neg hstation]
    have hbefore := hdrained destination
    have htriangle := hdirect.energy_triangle recharge destination next
    linarith

/-- From a node of an accepted walk the charge lasts to some recharge. -/
theorem lasts_of_legs (hdirect : Direct problem) {order walk : List (Node K)} (hwalk : problem.Insertion order walk)
    (horder : ∀ customer ∈ order, customer.kind = .customer) {tour : Tour K} {index : ℕ} {here : Node K}
    (hlegs : (problem.validateLegs tour index here walk).violations = []) :
    ∃ recharge, IsRecharge problem recharge ∧ -problem.epsilon ≤ tour.battery - (problem.leg here recharge).energy := by
  induction hwalk generalizing tour index here with
  | close =>
      obtain ⟨hcharge, -, -⟩ := accepts_cons hlegs
      exact ⟨problem.depot, .inl rfl, hcharge⟩
  | @station order walk station hstation hwalk ih =>
      obtain ⟨hcharge, -, -⟩ := accepts_cons hlegs
      exact ⟨station, .inr hstation, hcharge⟩
  | @customer order walk customer hwalk ih =>
      rw [List.forall_mem_cons] at horder
      obtain ⟨-, -, hrest⟩ := accepts_cons hlegs
      obtain ⟨recharge, hrecharge, hlasts⟩ := ih horder.2 hrest
      refine ⟨recharge, hrecharge, ?_⟩
      rw [validateLeg_battery, if_neg (by rw [horder.1]; decide)] at hlasts
      have htriangle := hdirect.energy_triangle here customer recharge
      linarith

/-! ### The bound on the charge for one customer -/

omit [Field K] [IsStrictOrderedRing K] in
theorem foldl_min_le {value : K} {values : List K} :
    values.foldl min value ≤ value ∧ ∀ other ∈ values, values.foldl min value ≤ other := by
  induction values generalizing value with
  | nil => exact ⟨le_refl _, fun _ h => absurd h List.not_mem_nil⟩
  | cons first values ih =>
      rw [List.foldl_cons]
      obtain ⟨hmin, hall⟩ := @ih (min value first)
      refine ⟨hmin.trans (min_le_left _ _), ?_⟩
      intro other hother
      rcases List.mem_cons.mp hother with heq | hlater
      · rw [heq]
        exact hmin.trans (min_le_right _ _)
      · exact hall other hlater

omit [Field K] [IsStrictOrderedRing K] in
theorem foldl_max_le {bound value : K} {values : List K} (hvalue : value ≤ bound)
    (hvalues : ∀ other ∈ values, other ≤ bound) : values.foldl max value ≤ bound := by
  induction values generalizing value with
  | nil => exact hvalue
  | cons first values ih =>
      rw [List.forall_mem_cons] at hvalues
      rw [List.foldl_cons]
      exact ih (max_le hvalue hvalues.1) hvalues.2

omit [IsStrictOrderedRing K] in
theorem minOverRecharge_le {recharge : Node K} (h : IsRecharge problem recharge) (value : Node K → K) :
    problem.minOverRecharge value ≤ value recharge := by
  rw [minOverRecharge]
  rcases h with hdepot | hstation
  · rw [hdepot]
    exact foldl_min_le.1
  · exact foldl_min_le.2 _ (List.mem_map_of_mem hstation)

/-- A customer between two recharges that one charge lasts for. -/
theorem energyLowerBound_le (hdirect : Direct problem) {customer before after : Node K}
    (hbefore : IsRecharge problem before) (hafter : IsRecharge problem after) {charge : K}
    (hdrained : charge ≤ problem.vehicle.batteryCapacity - (problem.leg before customer).energy)
    (hlasts : -problem.epsilon ≤ charge - (problem.leg customer after).energy) :
    problem.energyLowerBound customer ≤ problem.vehicle.batteryCapacity + problem.epsilon := by
  have htwo : problem.minOverRecharge (fun node => (problem.leg node customer).distance) +
      problem.minOverRecharge (fun node => (problem.leg customer node).distance) ≤
        (problem.leg before customer).distance + (problem.leg customer after).distance :=
    add_le_add (minOverRecharge_le hbefore _) (minOverRecharge_le hafter _)
  calc
    problem.energyLowerBound customer
      ≤ ((problem.leg before customer).distance + (problem.leg customer after).distance) *
          problem.vehicle.consumptionRate := mul_le_mul_of_nonneg_right htwo hdirect.consumption
    _ = (problem.leg before customer).energy + (problem.leg customer after).energy := by
      rw [add_mul, ← hdirect.energy, ← hdirect.energy]
    _ ≤ problem.vehicle.batteryCapacity + problem.epsilon := by linarith

theorem energyLowerBound_of_legs (hdirect : Direct problem) {order walk : List (Node K)}
    (hwalk : problem.Insertion order walk) (horder : ∀ customer ∈ order, customer.kind = .customer) {tour : Tour K}
    {index : ℕ} {here : Node K} (hdrained : Drained problem tour here)
    (hlegs : (problem.validateLegs tour index here walk).violations = []) :
    ∀ customer ∈ order,
      problem.energyLowerBound customer ≤ problem.vehicle.batteryCapacity + problem.epsilon := by
  induction hwalk generalizing tour index here with
  | close => exact fun _ h => absurd h List.not_mem_nil
  | @station order walk station hstation hwalk ih =>
      obtain ⟨-, -, hrest⟩ := accepts_cons hlegs
      exact ih horder (hdrained.next hdirect fun _ => hstation) hrest
  | @customer order walk customer hwalk ih =>
      rw [List.forall_mem_cons] at horder
      obtain ⟨-, -, hrest⟩ := accepts_cons hlegs
      have hnone : ¬ customer.kind = .station := by rw [horder.1]; decide
      rw [List.forall_mem_cons]
      constructor
      · obtain ⟨before, hbefore, hcharge⟩ := hdrained
        obtain ⟨after, hafter, hlasts⟩ := lasts_of_legs hdirect hwalk horder.2 hrest
        rw [validateLeg_battery, if_neg hnone] at hlasts
        exact energyLowerBound_le hdirect hbefore hafter (hcharge customer) hlasts
      · exact ih horder.2 (hdrained.next hdirect fun hkind => absurd hkind hnone) hrest

/-! ### The route -/

/-- The screening accepts the customers of every walk that the validator accepts. -/
theorem screenRouteSafely_of_legs (hdirect : Direct problem) {order walk : List (Node K)}
    (hwalk : problem.Insertion order walk) (hne : order ≠ [])
    (horder : ∀ customer ∈ order, customer ∈ problem.nodes ∧ customer.kind = .customer)
    (hnames : (order.map Node.name).Nodup)
    (hlegs : (problem.validateLegs (problem.startTour []) 1 problem.depot walk).violations = []) :
    problem.screenRouteSafely order = .ok true := by
  have hkinds : ∀ customer ∈ order, customer.kind = .customer := fun customer h => (horder customer h).2
  have hserved : served (order ++ [problem.depot]) = order := by
    rw [served, List.filter_append, List.filter_eq_self.mpr (by simpa using hkinds)]
    simp [problem.depot_mem.2]
  obtain ⟨after, hafter⟩ := @forwardPass_of_legs K _ _ _ problem hdirect order walk hwalk hkinds
    (problem.startTour []) 1 problem.depot problem.depot ⟨max 0 problem.depot.readyTime, [], ⊤⟩ hlegs
    (fun next => le_refl _)
  obtain ⟨-, hentries, hslack⟩ := forwardPass_spec (.inr (List.getLast?_concat ..)) (by simp)
    (by rw [customerNames, hserved]; exact hnames) hafter
  have hlate : (after.earliest.any fun entry =>
      ((problem.backwardPass problem.depot (order ++ [problem.depot])).2.lookup entry.1).any fun latest =>
        latest - entry.2 < -problem.epsilon) = false := by
    rw [List.any_eq_false]
    intro entry hentry
    rcases hentries entry hentry with hnone | ⟨-, latest, hlookup, hle⟩
    · exact absurd hnone List.not_mem_nil
    · rw [hlookup, Option.any_some, decide_eq_true_iff]
      linarith
  have hmin : ¬ after.minSlack < ((-problem.epsilon : K) : WithTop K) := by
    rw [not_lt]
    exact (le_min le_top (le_refl _)).trans hslack
  obtain ⟨first, rest, hchain, hreaches, hreachable⟩ := reachableLegs_of_legs hdirect hwalk
    (fun customer h => (horder customer h).1) (le_refl _) hlegs
  have hlegsReachable : problem.energyReachableLegs problem.depot (order ++ [problem.depot]) = true := by
    rw [hchain, energyReachableLegs, energyReachable_of_reaches problem.depot_mem.1 hreaches, hreachable]
    rfl
  have hbounds := energyLowerBound_of_legs hdirect hwalk hkinds
    ⟨problem.depot, .inl rfl, fun next => le_refl _⟩ hlegs
  rw [screenRouteSafely, hafter]
  dsimp only
  rw [if_neg (by rw [hlate]; decide), if_neg hmin, if_neg (by rw [hlegsReachable]; decide)]
  cases order with
  | nil => exact absurd rfl hne
  | cons customer order =>
      rw [List.forall_mem_cons] at hbounds
      rw [List.map_cons]
      dsimp only
      rw [decide_eq_true (foldl_max_le hbounds.1 ?_)]
      intro bound hbound
      obtain ⟨other, hother, heq⟩ := List.mem_map.mp hbound
      rw [← heq]
      exact hbounds.2 other hother

/-- The customers that a route of names visits, in its order. -/
def customersOf (problem : Problem K) (route : List String) : List String :=
  route.filter fun name => (problem.byName name).any fun node => node.kind = .customer

omit [IsStrictOrderedRing K] in
theorem customersOf_eq {walk : List (Node K)} (hknown : ∀ node ∈ walk, node ∈ problem.nodes) :
    customersOf problem (problem.depot.name :: walk.map Node.name) = customerNames walk := by
  have hbyName : ∀ node ∈ problem.nodes, problem.byName node.name = some node :=
    fun node hnode => problem.byName_eq_some.mpr ⟨hnode, rfl⟩
  have hdepot : ((problem.byName problem.depot.name).any fun node => node.kind = .customer) = false := by
    rw [hbyName _ problem.depot_mem.1, Option.any_some, problem.depot_mem.2]
    rfl
  rw [customersOf, List.filter_cons_of_neg (by rw [hdepot]; decide), List.filter_map, customerNames, served]
  apply congrArg (List.map Node.name)
  apply List.filter_congr
  intro node hnode
  rw [Function.comp_apply, hbyName node (hknown node hnode), Option.any_some]

/-- A route that the validator accepts passes the screening of its customers. -/
theorem screenedRoute_of_accepted (hdirect : Direct problem) {route visited : List String} {walk : List (Node K)}
    (hne : route ≠ []) (hnames : route.Nodup) (haccepted : problem.Accepted visited walk)
    (hroute : customersOf problem visited = route) : problem.screenedRoute route = .ok true := by
  have hcustomers : customerNames walk = route := by
    rw [← hroute, haccepted.names, customersOf_eq haccepted.known]
  have horder : ∀ customer ∈ served walk, customer ∈ problem.nodes ∧ customer.kind = .customer := by
    intro customer hcustomer
    obtain ⟨hmem, hkind⟩ := List.mem_filter.mp hcustomer
    exact ⟨haccepted.known customer hmem, by simpa using hkind⟩
  have hnodes : route.mapM problem.byName = some (served walk) :=
    problem.mapM_byName_eq_some.mpr ⟨fun node h => (horder node h).1, hcustomers⟩
  have hwalk := insertion_of_shape haccepted.known haccepted.returns haccepted.inner
  have hserved : served walk ≠ [] := by
    intro hnil
    rw [customerNames, hnil] at hcustomers
    exact hne hcustomers.symm
  have hload := haccepted.load
  rw [screenedRoute, hnodes]
  dsimp only
  rw [if_pos]
  · exact screenRouteSafely_of_legs hdirect hwalk hserved horder (by rw [← customerNames, hcustomers]; exact hnames)
      haccepted.legs
  · exact hload

end Problem

/-- Distances with the triangle inequality give direct legs. -/
theorem Instance.direct {K : Type} [Field K] [LinearOrder K] [IsStrictOrderedRing K] {inst : Instance K}
    {distance : Node K → Node K → K} (hnonneg : ∀ first second, 0 ≤ distance first second)
    (htriangle : ∀ first second third, distance first third ≤ distance first second + distance second third)
    (hconsumption : 0 ≤ inst.vehicle.consumptionRate) (hrefueling : 0 ≤ inst.vehicle.inverseRefuelingRate) {epsilon : K}
    (hepsilon : 0 ≤ epsilon) : Problem.Direct (inst.withDistance distance epsilon) where
  distance_nonneg := hnonneg
  distance_triangle := htriangle
  energy _ _ := rfl
  travelTime _ _ := rfl
  consumption := hconsumption
  refueling := hrefueling
  epsilon := hepsilon

end TxnOpt.Evrptw
