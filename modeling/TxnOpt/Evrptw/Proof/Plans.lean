import TxnOpt.Evrptw.Proof.Caches
import TxnOpt.Evrptw.Proof.Soundness
import TxnOpt.Evrptw.Search
import TxnOpt.Lib.Fallible
import TxnOpt.Lib.Keys
import Mathlib.Algebra.Order.BigOperators.Group.List
import Mathlib.Data.Nat.Bitwise

/-!
# Plans and their exact solutions

`_screen_one` admits the plans that partition the customers into routes which pass the screening. For such a plan
the solver, the validator and the objective agree: as soon as the searches of its routes return, `_evaluate_one`
returns a solution that `validate` accepts.
-/

namespace TxnOpt.Evrptw

variable {K : Type} [CommRing K] [LinearOrder K]

namespace PlanOracle

variable {oracle : PlanOracle K}

/-! ### Screening -/

theorem lookup_customerBits {name : String} {bit : ℕ} : oracle.customerBits.lookup name = some bit ↔
    ∃ i customer, oracle.problem.customers[i]? = some customer ∧ customer.name = name ∧ bit = 2 ^ i := by
  have hnodup : (oracle.customerBits.map Prod.fst).Nodup := by
    unfold customerBits
    rw [List.map_map]
    have hnames : (Prod.fst ∘ fun (item : Node K × ℕ) => (item.1.name, 1 <<< item.2)) = Node.name ∘ Prod.fst := rfl
    change (List.map (Prod.fst ∘ fun (item : Node K × ℕ) => (item.1.name, 1 <<< item.2)) _).Nodup
    rw [hnames, ← List.map_map, List.zipIdx_map_fst]
    exact oracle.problem.uniqueNames.sublist (List.filter_sublist.map Node.name)
  rw [lookup_eq_some_iff_mem hnodup]
  unfold customerBits
  rw [List.mem_map]
  constructor
  · intro h
    obtain ⟨⟨customer, i⟩, hitem, hpair⟩ := h
    obtain ⟨rfl, rfl⟩ := Prod.mk.inj hpair
    exact ⟨i, customer, List.mem_zipIdx_iff_getElem?.mp hitem, rfl, Nat.one_shiftLeft i⟩
  · intro h
    obtain ⟨i, customer, hcustomer, rfl, rfl⟩ := h
    exact ⟨(customer, i), List.mem_zipIdx_iff_getElem?.mpr hcustomer, by rw [← Nat.one_shiftLeft i]⟩

/-- The bits of `visited` stand for the customers with these names. -/
def Marks (oracle : PlanOracle K) (names : List String) (visited : ℕ) : Prop :=
  ∀ i, visited.testBit i = true ↔ ∃ customer, oracle.problem.customers[i]? = some customer ∧ customer.name ∈ names

theorem marks_nil : Marks oracle [] 0 := by
  intro i
  rw [Nat.zero_testBit]
  constructor
  · intro h
    cases h
  · intro h
    obtain ⟨customer, -, hmem⟩ := h
    cases hmem

variable (oracle) in
theorem customers_nodup : (oracle.problem.customers.map Node.name).Nodup :=
  oracle.problem.uniqueNames.sublist (List.filter_sublist.map Node.name)

theorem customer_unique {i j : ℕ} {first second : Node K} (hfirst : oracle.problem.customers[i]? = some first)
    (hsecond : oracle.problem.customers[j]? = some second) (hname : first.name = second.name) : i = j := by
  obtain ⟨hi, hfirst⟩ := List.getElem?_eq_some_iff.mp hfirst
  obtain ⟨hj, hsecond⟩ := List.getElem?_eq_some_iff.mp hsecond
  have hlength : i < (oracle.problem.customers.map Node.name).length := by rwa [List.length_map]
  have hlength' : j < (oracle.problem.customers.map Node.name).length := by rwa [List.length_map]
  have hsame : (oracle.problem.customers.map Node.name)[i] = (oracle.problem.customers.map Node.name)[j] := by
    rw [List.getElem_map, List.getElem_map, hfirst, hsecond, hname]
  exact oracle.customers_nodup.getElem_inj_iff.mp hsame

theorem visitName_eq_some {visited next : ℕ} {name : String} : oracle.visitName visited name = some next ↔
    ∃ i customer, oracle.problem.customers[i]? = some customer ∧ customer.name = name ∧
      visited.testBit i = false ∧ next = visited ||| 2 ^ i := by
  have hbit : ∀ i, visited &&& 2 ^ i ≠ 0 ↔ visited.testBit i = true := by
    intro i
    rw [Nat.and_two_pow]
    cases visited.testBit i with
    | false => simp
    | true => simp
  unfold visitName
  cases hlookup : oracle.customerBits.lookup name with
  | none =>
      constructor
      · intro h
        cases h
      · intro h
        obtain ⟨i, customer, hcustomer, hname, -⟩ := h
        rw [lookup_customerBits.mpr ⟨i, customer, hcustomer, hname, rfl⟩] at hlookup
        cases hlookup
  | some bit =>
      obtain ⟨i, customer, hcustomer, hname, rfl⟩ := lookup_customerBits.mp hlookup
      dsimp only
      constructor
      · intro h
        by_cases hset : visited.testBit i = true
        · rw [if_pos ((hbit i).mpr hset)] at h
          cases h
        · rw [if_neg (mt (hbit i).mp hset)] at h
          exact ⟨i, customer, hcustomer, hname, Bool.eq_false_of_not_eq_true hset, (Option.some.inj h).symm⟩
      · intro h
        obtain ⟨j, other, hother, hsame, hclear, rfl⟩ := h
        obtain rfl := customer_unique hcustomer hother (hname.trans hsame.symm)
        exact if_neg (mt (hbit i).mp (by rw [hclear]; exact Bool.false_ne_true))

theorem Marks.next {names : List String} {visited next : ℕ} (h : Marks oracle names visited) {name : String}
    (hnext : oracle.visitName visited name = some next) : Marks oracle (names ++ [name]) next ∧
      name ∈ oracle.problem.customers.map Node.name ∧ name ∉ names := by
  obtain ⟨i, customer, hcustomer, rfl, hclear, rfl⟩ := visitName_eq_some.mp hnext
  refine ⟨?_, List.mem_map_of_mem (List.mem_of_getElem? hcustomer), ?_⟩
  · intro j
    rw [Nat.testBit_or, Nat.testBit_two_pow, Bool.or_eq_true, decide_eq_true_eq, h j]
    constructor
    · intro hset
      obtain ⟨other, hother, hmem⟩ | rfl := hset
      · exact ⟨other, hother, List.mem_append_left _ hmem⟩
      · exact ⟨customer, hcustomer, List.mem_append_right _ (List.mem_singleton_self _)⟩
    · intro hset
      obtain ⟨other, hother, hmem⟩ := hset
      obtain hmem | hmem := List.mem_append.mp hmem
      · exact .inl ⟨other, hother, hmem⟩
      · exact .inr (customer_unique hcustomer hother (List.mem_singleton.mp hmem).symm)
  · intro hmem
    rw [(h i).mpr ⟨customer, hcustomer, hmem⟩] at hclear
    cases hclear

/-- A name that the loop accepts is that of a customer it has not visited. -/
theorem Marks.exists_next {names : List String} {visited : ℕ} (h : Marks oracle names visited) {name : String}
    (hname : name ∈ oracle.problem.customers.map Node.name) (hnew : name ∉ names) :
    ∃ next, oracle.visitName visited name = some next := by
  obtain ⟨customer, hmem, rfl⟩ := List.mem_map.mp hname
  obtain ⟨i, hcustomer⟩ := List.getElem?_of_mem hmem
  refine ⟨visited ||| 2 ^ i, visitName_eq_some.mpr ⟨i, customer, hcustomer, rfl, ?_, rfl⟩⟩
  apply Bool.eq_false_of_not_eq_true
  intro hset
  obtain ⟨other, hother, hseen⟩ := (h i).mp hset
  obtain rfl := Option.some.inj (hcustomer.symm.trans hother)
  exact hnew hseen

theorem Marks.visit {names : List String} : ∀ {seen : List String} {visited final : ℕ}, Marks oracle seen visited →
    names.foldlM oracle.visitName visited = some final →
      Marks oracle (seen ++ names) final ∧ names.Nodup ∧
        ∀ name ∈ names, name ∈ oracle.problem.customers.map Node.name ∧ name ∉ seen := by
  induction names with
  | nil =>
      intro seen visited final h hfinal
      obtain rfl := Option.some.inj hfinal
      rw [List.append_nil]
      exact ⟨h, List.nodup_nil, fun name hname => by cases hname⟩
  | cons name names ih =>
      intro seen visited final h hfinal
      rw [List.foldlM_cons] at hfinal
      obtain ⟨next, hnext, hrest⟩ := Option.bind_eq_some_iff.mp hfinal
      obtain ⟨hmarks, hcustomer, hnew⟩ := h.next hnext
      obtain ⟨hfinal, hnodup, hnames⟩ := ih hmarks hrest
      rw [List.append_assoc] at hfinal
      refine ⟨hfinal, List.nodup_cons.mpr ⟨?_, hnodup⟩, ?_⟩
      · intro hmem
        exact (hnames name hmem).2 (List.mem_append_right _ (List.mem_singleton_self _))
      · intro other hother
        obtain rfl | hother := List.mem_cons.mp hother
        · exact ⟨hcustomer, hnew⟩
        · obtain ⟨hknown, hunseen⟩ := hnames other hother
          exact ⟨hknown, fun hmem => hunseen (List.mem_append_left _ hmem)⟩

theorem Marks.exists_visit {names : List String} : ∀ {seen : List String} {visited : ℕ}, Marks oracle seen visited →
    names.Nodup → (∀ name ∈ names, name ∈ oracle.problem.customers.map Node.name ∧ name ∉ seen) →
      ∃ final, names.foldlM oracle.visitName visited = some final := by
  induction names with
  | nil =>
      intro seen visited _ _ _
      exact ⟨visited, rfl⟩
  | cons name names ih =>
      intro seen visited h hnodup hnames
      obtain ⟨hfirst, hrest⟩ := List.forall_mem_cons.mp hnames
      obtain ⟨hnew, hnodup⟩ := List.nodup_cons.mp hnodup
      obtain ⟨next, hnext⟩ := h.exists_next hfirst.1 hfirst.2
      obtain ⟨final, hfinal⟩ := ih (h.next hnext).1 hnodup (by
        intro other hother
        obtain ⟨hknown, hunseen⟩ := hrest other hother
        refine ⟨hknown, ?_⟩
        intro hmem
        obtain hmem | hmem := List.mem_append.mp hmem
        · exact hunseen hmem
        · exact hnew (List.mem_singleton.mp hmem ▸ hother))
      refine ⟨final, ?_⟩
      rw [List.foldlM_cons, hnext]
      exact hfinal

theorem customerBits_length : oracle.customerBits.length = oracle.problem.customers.length := by
  unfold customerBits
  rw [List.length_map, List.length_zipIdx]

theorem Marks.all {names : List String} {visited : ℕ} (h : Marks oracle names visited)
    (hall : ∀ name ∈ oracle.problem.customers.map Node.name, name ∈ names) :
    visited = (1 <<< oracle.customerBits.length) - 1 := by
  rw [Nat.one_shiftLeft, customerBits_length]
  apply Nat.eq_of_testBit_eq
  intro i
  rw [Nat.testBit_two_pow_sub_one, Bool.eq_iff_iff, h i, decide_eq_true_eq]
  constructor
  · intro hset
    obtain ⟨customer, hcustomer, -⟩ := hset
    exact (List.getElem?_eq_some_iff.mp hcustomer).1
  · intro hlt
    have hmem : oracle.problem.customers[i] ∈ oracle.problem.customers := List.getElem_mem hlt
    exact ⟨_, List.getElem?_eq_getElem hlt, hall _ (List.mem_map_of_mem hmem)⟩

theorem allM_eq_true {α : Type} {p : α → Except PyExc Bool} {items : List α} :
    items.allM p = .ok true ↔ ∀ item ∈ items, p item = .ok true := by
  induction items with
  | nil => simp [List.allM, pure, Except.pure]
  | cons item items ih =>
      rw [List.forall_mem_cons, ← ih, List.allM]
      cases hitem : p item with
      | error error => simp [bind, Except.bind]
      | ok value =>
          cases value with
          | false => simp [bind, Except.bind, pure, Except.pure]
          | true => simp [bind, Except.bind]

/-- A plan is admitted if its routes partition the customers and pass the screening. -/
theorem screenOne_iff {candidate : EVRPTWPlan} : oracle.screenOne candidate = .ok true ↔
    candidate.customerRoutes.flatten.Perm (oracle.problem.customers.map Node.name) ∧
      ∀ route ∈ candidate.customerRoutes, oracle.problem.screenedRoute route = .ok true := by
  unfold screenOne
  constructor
  · intro h
    cases hvisit : candidate.customerRoutes.flatten.foldlM oracle.visitName 0 with
    | none =>
        rw [hvisit] at h
        cases h
    | some visited =>
        rw [hvisit] at h
        dsimp only at h
        split at h
        · cases h
        · rename_i hcounted
          obtain ⟨-, hnodup, hnames⟩ := marks_nil.visit hvisit
          refine ⟨?_, allM_eq_true.mp h⟩
          have hsub : candidate.customerRoutes.flatten.Subperm (oracle.problem.customers.map Node.name) :=
            hnodup.subperm fun name hname => (hnames name hname).1
          apply hsub.perm_of_length_le
          rw [List.length_map, ← customerBits_length]
          exact le_of_eq (not_not.mp (not_or.mp hcounted).1).symm
  · intro h
    obtain ⟨hperm, hscreened⟩ := h
    obtain ⟨visited, hvisit⟩ := marks_nil.exists_visit (hperm.nodup_iff.mpr oracle.customers_nodup)
      fun name hname => ⟨hperm.mem_iff.mp hname, List.not_mem_nil⟩
    have hmarks := (marks_nil.visit hvisit).1
    rw [hvisit]
    dsimp only
    rw [if_neg]
    · exact allM_eq_true.mpr hscreened
    · rw [not_or, not_not, not_not, customerBits_length, ← List.length_map Node.name]
      refine ⟨hperm.length_eq, ?_⟩
      rw [List.length_map, ← customerBits_length]
      exact hmarks.all fun name hname => hperm.mem_iff.mpr hname

theorem isSome_byName {name : String} (h : name ∈ oracle.problem.customers.map Node.name) :
    (oracle.problem.byName name).isSome = true := by
  obtain ⟨customer, hcustomer, rfl⟩ := List.mem_map.mp h
  rw [oracle.problem.byName_eq_some.mpr ⟨(oracle.problem.mem_customers.mp hcustomer).1, rfl⟩]
  rfl

theorem exists_allM {α : Type} {p : α → Except PyExc Bool} {items : List α}
    (h : ∀ item ∈ items, (p item).isOk = true) : ∃ value, items.allM p = .ok value := by
  induction items with
  | nil => exact ⟨true, rfl⟩
  | cons item items ih =>
      rw [List.forall_mem_cons] at h
      obtain ⟨first, hfirst⟩ := exists_of_isOk h.1
      obtain ⟨rest, hrest⟩ := ih h.2
      rw [List.allM, hfirst]
      cases first with
      | false => exact ⟨false, rfl⟩
      | true => exact ⟨rest, hrest⟩

variable (oracle) in
/-- The screening raises nothing. -/
theorem exists_screenOne (candidate : EVRPTWPlan) : ∃ screened, oracle.screenOne candidate = .ok screened := by
  unfold screenOne
  cases hvisit : candidate.customerRoutes.flatten.foldlM oracle.visitName 0 with
  | none => exact ⟨false, rfl⟩
  | some visited =>
      dsimp only
      split
      · exact ⟨false, rfl⟩
      · obtain ⟨-, -, hnames⟩ := marks_nil.visit hvisit
        apply exists_allM
        intro route hroute
        apply EVRPTWOracle.screenedRoute_isOk (candidate.customersNonempty route hroute)
        intro name hname
        exact isSome_byName (hnames name (List.mem_flatten.mpr ⟨route, hroute, hname⟩)).1

end PlanOracle

namespace Problem

variable {problem : Problem K}

/-! ### The routes of the solver -/

theorem hasKind_name {node : Node K} (hnode : node ∈ problem.nodes) (kind : NodeType) :
    problem.hasKind kind node.name = decide (node.kind = kind) := by
  unfold Problem.hasKind
  rw [problem.byName_eq_some.mpr ⟨hnode, rfl⟩]
  rfl

theorem routedCustomers_map {walk : List (Node K)} (hwalk : ∀ node ∈ walk, node ∈ problem.nodes) :
    problem.routedCustomers (walk.map Node.name) = (walk.filter fun node => node.kind = .customer).map Node.name := by
  unfold Problem.routedCustomers
  rw [List.filter_map]
  apply congrArg (List.map Node.name)
  apply List.filter_congr
  intro node hnode
  exact hasKind_name (hwalk node hnode) .customer

/-- What the search returns as feasible has passed the validator and keeps the order. -/
theorem solved_feasible {names : List String} {fuel : ℕ} {result : ChargingSubproblemResult K}
    (h : problem.solveExactCharging fuel names = some (.ok result)) (hfeasible : result.feasible = true) :
    (problem.validateRoute result.route).violations = [] ∧ problem.routedCustomers result.route = names := by
  unfold solveExactCharging at h
  by_cases hvalid : problem.validateOrder names = ""
  · rw [if_neg (not_not.mpr hvalid)] at h
    obtain ⟨final, hloop, hreport⟩ := Option.map_eq_some_iff.mp h
    obtain ⟨hreachable, -⟩ := problem.queueLoop_reachable _ (.init rfl) hloop
    obtain ⟨-, horder, -, -⟩ := validateOrder_eq_empty hvalid
    unfold report at hreport
    cases hbest : final.best with
    | none =>
        rw [hbest] at hreport
        obtain rfl := Except.ok.inj hreport
        cases hfeasible
    | some best =>
        rw [hbest] at hreport
        dsimp only at hreport
        obtain ⟨walk, hwalk, hfollow⟩ := best_attained horder hreachable hbest
        have hpath : best.path = problem.depot :: walk := follow_path hfollow
        have hknown : ∀ node ∈ best.path, node ∈ problem.nodes := by
          rw [hpath]
          exact List.forall_mem_cons.mpr ⟨problem.depot_mem.1, (hwalk.shape horder).1⟩
        split at hreport
        · cases hreport
        · rename_i hchecked
          obtain ⟨hviolations, hrouted⟩ := not_or.mp hchecked
          obtain rfl := Except.ok.inj hreport
          refine ⟨not_not.mp hviolations, ?_⟩
          rw [routedCustomers_map hknown]
          exact not_not.mp hrouted
  · rw [if_pos hvalid] at h
    obtain rfl := Except.ok.inj (Option.some.inj h)
    cases hfeasible

end Problem

/-! ### Whole solutions -/

namespace Problem

variable {problem : Problem K}

theorem all_known {route : List String} (h : (problem.validateRoute route).violations = []) :
    (route.all fun name => (problem.byName name).isSome) = true := by
  obtain ⟨walk, haccepted⟩ := validateRoute_accepts_iff problem |>.mp h
  rw [List.all_eq_true]
  intro name hname
  have hknown : ∀ node ∈ problem.depot :: walk, node ∈ problem.nodes :=
    List.forall_mem_cons.mpr ⟨problem.depot_mem.1, haccepted.known⟩
  rw [haccepted.names, ← List.map_cons] at hname
  obtain ⟨node, hnode, rfl⟩ := List.mem_map.mp hname
  rw [problem.byName_eq_some.mpr ⟨hknown node hnode, rfl⟩]
  rfl

theorem visits_eq {routes : List (List String)} (h : ∀ route ∈ routes, (problem.validateRoute route).violations = []) :
    problem.visits routes = (routes.map problem.routedCustomers).flatten := by
  unfold visits
  rw [List.flatMap_def]
  apply congrArg List.flatten
  apply List.map_congr_left
  intro route hroute
  exact if_pos (all_known (h route hroute))

theorem visits_subset {routes : List (List String)} {name : String} (h : name ∈ problem.visits routes) :
    name ∈ problem.customers.map Node.name := by
  obtain ⟨route, -, hname⟩ := List.mem_flatMap.mp h
  split at hname
  · have hkind := (List.mem_filter.mp hname).2
    unfold hasKind at hkind
    cases hfound : problem.byName name with
    | none =>
        rw [hfound] at hkind
        cases hkind
    | some node =>
        rw [hfound] at hkind
        obtain ⟨hnode, rfl⟩ := problem.byName_eq_some.mp hfound
        exact List.mem_map_of_mem (problem.mem_customers.mpr ⟨hnode, of_decide_eq_true hkind⟩)
  · cases hname

theorem solutionViolations_eq_nil {routes : List (List String)} : problem.solutionViolations routes = [] ↔
    (problem.visits routes).Perm (problem.customers.map Node.name) := by
  have hcustomers : (problem.customers.map Node.name).Nodup :=
    problem.uniqueNames.sublist (List.filter_sublist.map Node.name)
  have hempty : ∀ names : List String, sortedBy id names = [] ↔ ∀ name, name ∉ names := by
    intro names
    rw [List.eq_nil_iff_forall_not_mem]
    apply forall_congr'
    intro name
    rw [mem_sortedBy]
  have hreport : ∀ {names : List String} {message : String},
      (if names ≠ [] then [message] else []) = [] ↔ names = [] := by
    intro names message
    by_cases hnames : names = []
    · simp [hnames]
    · simp [hnames]
  unfold solutionViolations
  dsimp only
  rw [List.append_eq_nil_iff, hreport, hreport, hempty, hempty]
  constructor
  · intro h
    obtain ⟨hmissing, hduplicates⟩ := h
    have hnodup : (problem.visits routes).Nodup := by
      rw [List.nodup_iff_count_le_one]
      intro name
      by_contra hmany
      apply hduplicates name
      rw [List.mem_filter, List.mem_dedup, decide_eq_true_eq]
      exact ⟨List.count_pos_iff.mp (Nat.lt_of_le_of_lt (Nat.zero_le 1) (not_le.mp hmany)), not_le.mp hmany⟩
    rw [List.perm_ext_iff_of_nodup hnodup hcustomers]
    intro name
    refine ⟨visits_subset, ?_⟩
    intro hname
    by_contra hunvisited
    apply hmissing name
    rw [List.mem_filter, decide_eq_true_eq]
    exact ⟨hname, List.count_eq_zero.mpr hunvisited⟩
  · intro h
    constructor
    · intro name hname
      rw [List.mem_filter, decide_eq_true_eq] at hname
      exact List.count_eq_zero.mp hname.2 (h.mem_iff.mpr hname.1)
    · intro name hname
      rw [List.mem_filter, decide_eq_true_eq] at hname
      exact absurd (List.nodup_iff_count_le_one.mp (h.nodup_iff.mpr hcustomers) name) (not_le.mpr hname.2)

/-! ### Objectives -/

theorem objectiveOf_eq_ok {report : SolutionReport K} {value : SolutionObjective K}
    (h : problem.objectiveOf report = .ok value) : report.feasible = true ∧ value.vehicleCount = report.vehicleCount ∧
      value.totalDistance = report.totalDistance ∧ value.totalChargingTime = report.totalChargingTime ∧
        value.chargingCount = problem.countChargingVisits (report.routes.map RouteReport.route) := by
  unfold objectiveOf SolutionObjective.new at h
  split at h
  · cases h
  · rename_i hfeasible
    split at h
    · split at h
      · obtain rfl := Except.ok.inj h
        exact ⟨Bool.eq_true_of_not_eq_false hfeasible, rfl, rfl, rfl, rfl⟩
      · cases h
    · cases h

/-- No leg has a negative length, and a recharge takes no negative time. -/
structure Forward (problem : Problem K) : Prop where
  distance : ∀ origin destination, 0 ≤ (problem.leg origin destination).distance
  recharge : 0 ≤ problem.vehicle.inverseRefuelingRate

variable [IsStrictOrderedRing K]

theorem Forward.validateLegs (h : problem.Forward) {walk : List (Node K)} :
    ∀ {tour : Tour K} {index : ℕ} {origin : Node K}, 0 ≤ tour.distance → 0 ≤ tour.chargingTime →
      0 ≤ (problem.validateLegs tour index origin walk).distance ∧
        0 ≤ (problem.validateLegs tour index origin walk).chargingTime := by
  induction walk with
  | nil =>
      intro tour index origin hdistance hcharging
      exact ⟨hdistance, hcharging⟩
  | cons destination rest ih =>
      intro tour index origin hdistance hcharging
      apply ih
      · rw [validateLeg_distance]
        exact add_nonneg hdistance (h.distance origin destination)
      · unfold validateLeg
        cases destination.kind with
        | depot => exact hcharging
        | customer => exact hcharging
        | station => exact add_nonneg hcharging (mul_nonneg (le_max_left 0 _) h.recharge)

theorem Forward.validateRoute (h : problem.Forward) (route : List String) :
    0 ≤ (problem.validateRoute route).distance ∧ 0 ≤ (problem.validateRoute route).chargingTime := by
  unfold Problem.validateRoute
  cases route.mapM problem.byName with
  | none => exact ⟨le_refl _, le_refl _⟩
  | some nodes =>
      dsimp only
      cases nodes with
      | nil => exact ⟨le_refl _, le_refl _⟩
      | cons origin rest => exact h.validateLegs (le_refl 0) (le_refl 0)

theorem Forward.exists_objective (h : problem.Forward) {routes : List (List String)}
    (hfeasible : (problem.validateRoutes routes).feasible = true) :
    ∃ value, problem.objectiveOf (problem.validateRoutes routes) = .ok value := by
  have hdistance : 0 ≤ (problem.validateRoutes routes).totalDistance := by
    apply List.sum_nonneg
    intro distance hmem
    obtain ⟨report, hreport, rfl⟩ := List.mem_map.mp hmem
    obtain ⟨route, -, rfl⟩ := List.mem_map.mp hreport
    exact (h.validateRoute route).1
  have hcharging : 0 ≤ (problem.validateRoutes routes).totalChargingTime := by
    apply List.sum_nonneg
    intro time hmem
    obtain ⟨report, hreport, rfl⟩ := List.mem_map.mp hmem
    obtain ⟨route, -, rfl⟩ := List.mem_map.mp hreport
    exact (h.validateRoute route).2
  unfold objectiveOf SolutionObjective.new
  rw [hfeasible, if_neg Bool.true_eq_false.mp, dif_pos hdistance, dif_pos hcharging]
  exact ⟨_, rfl⟩

end Problem

theorem EVRPTWSolution.isSome_objectiveValue {state : EVRPTWSolution K} :
    state.objectiveValue.isSome = true ↔ state.feasible = true := by
  have hshape := state.shape
  unfold SolutionShape at hshape
  by_cases hfeasible : state.feasible = true
  · rw [if_pos hfeasible] at hshape
    exact ⟨fun _ => hfeasible, fun _ => hshape.1⟩
  · rw [if_neg hfeasible] at hshape
    rw [hshape.1]
    constructor
    · intro h
      cases h
    · intro h
      exact absurd h hfeasible

namespace PlanOracle

variable {oracle : PlanOracle K}

/-- What `validate` accepts as feasible: a plan that is admitted, served in its order by routes that the validator
accepts, with their objective. -/
structure Served (oracle : PlanOracle K) (state : EVRPTWSolution K) : Prop where
  screened : oracle.screenOne state.plan = .ok true
  routes : ∀ route ∈ state.routes, (oracle.problem.validateRoute route).violations = []
  order : state.routes.map oracle.problem.routedCustomers = state.plan.customerRoutes
  objective : ∃ claimed value, state.objectiveValue = some claimed ∧
    oracle.problem.objectiveOf (oracle.problem.validateRoutes state.routes) = .ok value ∧
    claimed.key oracle.formats = value.key oracle.formats

theorem Served.feasible_report {routes : List (List String)} {candidate : EVRPTWPlan}
    (hscreened : oracle.screenOne candidate = .ok true)
    (hroutes : ∀ route ∈ routes, (oracle.problem.validateRoute route).violations = [])
    (horder : routes.map oracle.problem.routedCustomers = candidate.customerRoutes) :
    (oracle.problem.validateRoutes routes).feasible = true := by
  have hvisits : oracle.problem.solutionViolations routes = [] := by
    rw [Problem.solutionViolations_eq_nil, Problem.visits_eq hroutes, horder]
    exact (screenOne_iff.mp hscreened).1
  unfold SolutionReport.feasible Problem.validateRoutes
  dsimp only
  rw [hvisits, List.isEmpty_nil, Bool.true_and, List.all_eq_true]
  intro report hreport
  obtain ⟨route, hroute, rfl⟩ := List.mem_map.mp hreport
  unfold RouteReport.feasible
  rw [hroutes route hroute]
  rfl

theorem routes_of_feasible {routes : List (List String)} (h : (oracle.problem.validateRoutes routes).feasible = true) :
    ∀ route ∈ routes, (oracle.problem.validateRoute route).violations = [] := by
  intro route hroute
  unfold SolutionReport.feasible at h
  rw [Bool.and_eq_true, List.all_eq_true] at h
  exact List.isEmpty_iff.mp (h.2 _ (List.mem_map_of_mem hroute))

theorem validate_feasible_iff {state : EVRPTWSolution K} (hfeasible : state.feasible = true) :
    oracle.validate state = .ok () ↔ Served oracle state := by
  unfold validate
  obtain ⟨screened, hscreened⟩ := oracle.exists_screenOne state.plan
  rw [hscreened, ok_bind]
  constructor
  · intro h
    cases screened with
    | false => cases h
    | true =>
        rw [if_neg Bool.true_eq_false.mp, hfeasible, if_neg Bool.true_eq_false.mp] at h
        dsimp only at h
        split at h
        · cases h
        · rename_i hreport
          have hroutes := routes_of_feasible (Bool.eq_true_of_not_eq_false hreport)
          obtain ⟨value, hvalue, h⟩ := exists_of_bind_eq_ok h
          split at h
          · cases h
          · rename_i hkey
            split at h
            · cases h
            · rename_i horder
              obtain ⟨claimed, hclaimed, hsame⟩ := Option.map_eq_some_iff.mp (not_not.mp hkey)
              exact ⟨hscreened, hroutes, not_not.mp horder, claimed, value, hclaimed, hvalue, hsame⟩
  · intro h
    obtain rfl : screened = true := Except.ok.inj (hscreened.symm.trans h.screened)
    obtain ⟨claimed, value, hclaimed, hvalue, hkey⟩ := h.objective
    rw [if_neg Bool.true_eq_false.mp, hfeasible, if_neg Bool.true_eq_false.mp]
    dsimp only
    rw [Served.feasible_report h.screened h.routes h.order, if_neg Bool.true_eq_false.mp, hvalue, hclaimed]
    change (if some _ ≠ some _ then _ else _) = _
    rw [if_neg (not_not.mpr (congrArg some hkey)), if_neg (not_not.mpr h.order)]

/-! ### Evaluations -/

omit [CommRing K] [LinearOrder K] in
theorem failuresOf_eq_nil {exactResults : List (ChargingSubproblemResult K)} :
    failuresOf exactResults = [] ↔ ∀ result ∈ exactResults, result.feasible = true := by
  unfold failuresOf
  rw [List.map_eq_nil_iff, List.filter_eq_nil_iff]
  constructor
  · intro h result hresult
    obtain ⟨index, hindex⟩ := List.getElem?_of_mem hresult
    simpa using h (result, index) (List.mem_zipIdx_iff_getElem?.mpr hindex)
  · intro h item hitem
    simpa using h item.1 (List.fst_mem_of_mem_zipIdx hitem)

/-- The solution of a plan whose searches returned these results. -/
structure ExactSolution (oracle : PlanOracle K) (candidate : EVRPTWPlan)
    (exactResults : List (ChargingSubproblemResult K)) (solution : EVRPTWSolution K) : Prop where
  plan : solution.plan = candidate
  feasible : solution.feasible = true ↔ ∀ result ∈ exactResults, result.feasible = true
  failures : solution.failureReasons = failuresOf exactResults
  routes : solution.routes = if solution.feasible then exactResults.map ChargingSubproblemResult.route else []
  objective : ∀ value, solution.objectiveValue = some value →
    oracle.problem.objectiveOf (oracle.problem.validateRoutes solution.routes) = .ok value
  validated : oracle.validate solution = .ok ()
  served : solution.feasible = true → Served oracle solution

theorem validate_infeasible {state : EVRPTWSolution K} (hscreened : oracle.screenOne state.plan = .ok true)
    (hfeasible : state.feasible = false) (hroutes : state.routes = []) : oracle.validate state = .ok () := by
  unfold validate
  rw [hscreened, ok_bind, if_neg Bool.true_eq_false.mp, if_pos hfeasible, if_neg (not_not.mpr hroutes)]

theorem solveRoute_eq_ok {route : List String} {result : ChargingSubproblemResult K} :
    oracle.solveRoute route = .ok result ↔ oracle.problem.solveExactCharging oracle.fuel route = some (.ok result) := by
  unfold solveRoute
  cases oracle.problem.solveExactCharging oracle.fuel route with
  | none =>
      constructor
      · intro h
        cases h
      · intro h
        cases h
  | some outcome =>
      cases outcome with
      | error invalid =>
          constructor
          · intro h
            cases h
          · intro h
            cases h
      | ok found =>
          constructor
          · intro h
            rw [Except.ok.inj h]
          · intro h
            rw [Except.ok.inj (Option.some.inj h)]

theorem routes_of_solved {customerRoutes : List (List String)} {exactResults : List (ChargingSubproblemResult K)}
    (h : List.Forall₂ (fun route result => oracle.solveRoute route = .ok result) customerRoutes exactResults)
    (hall : ∀ result ∈ exactResults, result.feasible = true) :
    (∀ route ∈ exactResults.map ChargingSubproblemResult.route,
        (oracle.problem.validateRoute route).violations = []) ∧
      (exactResults.map ChargingSubproblemResult.route).map oracle.problem.routedCustomers = customerRoutes := by
  induction h with
  | nil =>
      refine ⟨?_, rfl⟩
      intro route hroute
      cases hroute
  | cons hresult _ ih =>
      obtain ⟨hfeasible, hall⟩ := List.forall_mem_cons.mp hall
      obtain ⟨hvalid, horder⟩ := Problem.solved_feasible (solveRoute_eq_ok.mp hresult) hfeasible
      obtain ⟨hvalids, horders⟩ := ih hall
      rw [List.map_cons, List.forall_mem_cons, List.map_cons, horder, horders]
      exact ⟨⟨hvalid, hvalids⟩, rfl⟩

theorem evaluateOne_eq {candidate : EVRPTWPlan} (hscreened : oracle.screenOne candidate = .ok true) :
    oracle.evaluateOne candidate =
      candidate.customerRoutes.mapM oracle.solveRoute >>= oracle.solutionFromExact candidate := by
  unfold evaluateOne
  rw [hscreened, ok_bind, if_neg Bool.true_eq_false.mp]

variable [IsStrictOrderedRing K]

theorem exists_solutionFromExact (hforward : oracle.problem.Forward) {candidate : EVRPTWPlan}
    {exactResults : List (ChargingSubproblemResult K)} (hscreened : oracle.screenOne candidate = .ok true)
    (hresults : candidate.customerRoutes.mapM oracle.solveRoute = .ok exactResults) :
    ∃ solution, oracle.solutionFromExact candidate exactResults = .ok solution ∧
      ExactSolution oracle candidate exactResults solution := by
  unfold solutionFromExact
  dsimp only
  by_cases hfailures : failuresOf exactResults = []
  · rw [if_neg (not_not.mpr hfailures)]
    have hall := failuresOf_eq_nil.mp hfailures
    obtain ⟨hroutes, horder⟩ := routes_of_solved (mapM_eq_ok_iff.mp hresults) hall
    have hreport := Served.feasible_report hscreened hroutes horder
    obtain ⟨value, hvalue⟩ := hforward.exists_objective hreport
    rw [hreport, if_neg Bool.true_eq_false.mp, hvalue]
    have hlength : (exactResults.map ChargingSubproblemResult.route).length = candidate.customerRoutes.length := by
      rw [List.length_map, (mapM_eq_ok_iff.mp hresults).length_eq]
    have hnew : ∃ solution, EVRPTWSolution.new candidate (exactResults.map ChargingSubproblemResult.route) true
        (some value) [] = .ok solution ∧ solution.plan = candidate ∧
        solution.routes = exactResults.map ChargingSubproblemResult.route ∧ solution.feasible = true ∧
        solution.objectiveValue = some value ∧ solution.failureReasons = [] := by
      unfold EVRPTWSolution.new
      rw [dif_pos rfl, dif_pos Option.isSome_some, dif_pos hlength, dif_pos rfl]
      exact ⟨_, rfl, rfl, rfl, rfl, rfl, rfl⟩
    obtain ⟨solution, hsolution, hplan, hsame, hfeasible, hobjective, hreasons⟩ := hnew
    have hserved : Served oracle solution := ⟨hplan ▸ hscreened, hsame ▸ hroutes, hsame ▸ hplan ▸ horder, value, value,
      hobjective, hsame ▸ hvalue, rfl⟩
    have hvalidated : oracle.validate solution = .ok () := (validate_feasible_iff hfeasible).mpr hserved
    refine ⟨solution, ?_, ⟨hplan, ⟨fun _ => hall, fun _ => hfeasible⟩, hreasons.trans hfailures.symm, ?_, ?_,
      hvalidated, fun _ => hserved⟩⟩
    · change (EVRPTWSolution.new candidate _ true (some value) [] >>= _) = _
      rw [hsolution]
      change (oracle.validate solution >>= _) = _
      rw [hvalidated]
      rfl
    · rw [hfeasible, if_pos rfl]
      exact hsame
    · intro other hother
      obtain rfl := Option.some.inj (hobjective.symm.trans hother)
      rw [hsame]
      exact hvalue
  · rw [if_pos hfailures]
    have hnew : ∃ solution, EVRPTWSolution.new candidate [] false (none : Option (SolutionObjective K))
        (failuresOf exactResults) = .ok solution ∧ solution.plan = candidate ∧ solution.routes = [] ∧
        solution.feasible = false ∧ solution.objectiveValue = none ∧
        solution.failureReasons = failuresOf exactResults := by
      unfold EVRPTWSolution.new
      rw [dif_neg Bool.false_ne_true, dif_pos ⟨rfl, hfailures⟩]
      exact ⟨_, rfl, rfl, rfl, rfl, rfl, rfl⟩
    obtain ⟨solution, hsolution, hplan, hsame, hfeasible, hobjective, hreasons⟩ := hnew
    refine ⟨solution, hsolution, hplan, ?_, hreasons, ?_, ?_,
      validate_infeasible (hplan ▸ hscreened) hfeasible hsame, ?_⟩
    · rw [hfeasible]
      constructor
      · intro h
        cases h
      · intro h
        exact absurd (failuresOf_eq_nil.mpr h) hfailures
    · rw [hfeasible, if_neg Bool.false_ne_true]
      exact hsame
    · intro value hvalue
      rw [hobjective] at hvalue
      cases hvalue
    · intro h
      rw [hfeasible] at h
      cases h

theorem exists_evaluateOne (hforward : oracle.problem.Forward) {candidate : EVRPTWPlan}
    {exactResults : List (ChargingSubproblemResult K)} (hscreened : oracle.screenOne candidate = .ok true)
    (hresults : candidate.customerRoutes.mapM oracle.solveRoute = .ok exactResults) :
    ∃ solution, oracle.evaluateOne candidate = .ok solution ∧ ExactSolution oracle candidate exactResults solution := by
  rw [evaluateOne_eq hscreened, hresults, ok_bind]
  exact exists_solutionFromExact hforward hscreened hresults

/-- What is evaluated has been admitted, and its searches have returned. -/
theorem exactSolution_of_evaluateOne (hforward : oracle.problem.Forward) {candidate : EVRPTWPlan}
    {solution : EVRPTWSolution K} (h : oracle.evaluateOne candidate = .ok solution) :
    oracle.screenOne candidate = .ok true ∧ ∃ exactResults,
      candidate.customerRoutes.mapM oracle.solveRoute = .ok exactResults ∧
        ExactSolution oracle candidate exactResults solution := by
  obtain ⟨screened, hscreened⟩ := oracle.exists_screenOne candidate
  cases screened with
  | false =>
      unfold evaluateOne at h
      rw [hscreened] at h
      cases h
  | true =>
      have heval := h
      rw [evaluateOne_eq hscreened] at h
      obtain ⟨exactResults, hresults, -⟩ := exists_of_bind_eq_ok h
      obtain ⟨other, hother, hexact⟩ := exists_evaluateOne hforward hscreened hresults
      obtain rfl := Except.ok.inj (heval.symm.trans hother)
      exact ⟨hscreened, exactResults, hresults, hexact⟩

def lineDigest : String := String.ofList (List.replicate 64 '0')

theorem lineDigest_isSha256 : IsSha256 lineDigest := by decide +kernel

/-- The station is open until 8. All values are integers, which `round` keeps. -/
def lineOracle (epsilon : ℚ) : PlanOracle ℚ where
  problem := (Problem.lineInstance ℚ 8).problem (Problem.axisHypot ℚ) epsilon
  formats := ⟨id, fun value => toString value.num, fun value => .int value.num, " ".intercalate⟩
  sha := ⟨fun _ => lineDigest, fun _ => lineDigest_isSha256⟩
  instanceDigest := lineDigest
  digestBytes := []
  routeScreenCacheCapacity := 1
  fuel := 8

def linePlan : EVRPTWPlan := ⟨[["C"]], List.cons_ne_nil _ _, fun _ h => by
  rw [List.mem_singleton.mp h]
  exact List.cons_ne_nil _ _⟩

theorem lineOracle_forward (epsilon : ℚ) : (lineOracle epsilon).problem.Forward :=
  ⟨fun _ _ => Problem.axisHypot_nonneg ℚ _ _, zero_le_one⟩

end PlanOracle

end TxnOpt.Evrptw
