import TxnOpt.Evrptw.Proof.Optimality
import TxnOpt.Runtime.IntegerDomain
import TxnOpt.Runtime.Proof.Descent

/-!
# What an EVRPTW search ends with

The kernel moves only to a feasible solution with a lower key. So a run, however it ends, ends with a solution that
the validator accepts, and none of the feasible solutions that it has stored has a lower key. With exact comparisons
this covers all the routes that serve the plans of these solutions, not only those that the oracle has found.
-/

namespace TxnOpt.Evrptw

variable {K : Type} [CommRing K] [LinearOrder K] {formats : Formats K}

/-! ### The decision -/

/-- The key of a solution; above all keys when it is infeasible. -/
def rank (formats : Formats K) (state : EVRPTWSolution K) : WithTop (ObjectiveKey K) :=
  match state.objectiveValue with
  | none => ⊤
  | some value => value.key formats

theorem rank_of_some {state : EVRPTWSolution K} {value : SolutionObjective K} (h : state.objectiveValue = some value) :
    rank formats state = value.key formats := by
  unfold rank
  rw [h]

theorem compareObjectives_better {left right : SolutionObjective K} :
    compareObjectives formats left right = .better ↔ left.key formats < right.key formats := by
  unfold compareObjectives
  by_cases hlt : left.key formats < right.key formats
  · rw [if_pos hlt]
    exact ⟨fun _ => hlt, fun _ => rfl⟩
  · rw [if_neg hlt]
    constructor
    · intro h
      split at h
      · cases h
      · cases h
    · intro h
      exact absurd h hlt

/-- The vehicles and the distance of a key, which come first. -/
def fleet (formats : Formats K) (vehicleCount : ℕ) (totalDistance : K) : ℕ ×ₗ K :=
  toLex (vehicleCount, formats.rounded totalDistance)

theorem fleet_le_of_key_le {first second : SolutionObjective K}
    (h : first.key formats ≤ second.key formats) :
    fleet formats first.vehicleCount first.totalDistance ≤
      fleet formats second.vehicleCount second.totalDistance := by
  unfold SolutionObjective.key at h
  unfold fleet
  rw [Prod.Lex.toLex_le_toLex] at h ⊢
  obtain hlt | ⟨hsame, h⟩ := h
  · exact .inl hlt
  · refine .inr ⟨hsame, ?_⟩
    obtain hlt | ⟨hsame, -⟩ := Prod.Lex.toLex_le_toLex.mp h
    · exact le_of_lt hlt
    · exact le_of_eq hsame

namespace EVRPTWSearchKernel

variable (formats) in
/-- One comparison keeps the better of the two; an infeasible result is passed over. -/
theorem better_spec {incumbent : EVRPTWSolution K} (result : EVRPTWSolution K)
    (hincumbent : incumbent.feasible = true) :
    (better formats incumbent result).feasible = true ∧
      (better formats incumbent result = incumbent ∨ better formats incumbent result = result) ∧
      rank formats (better formats incumbent result) ≤ rank formats incumbent ∧
      (result.feasible = true → rank formats (better formats incumbent result) ≤ rank formats result) := by
  obtain ⟨best, hbest⟩ := Option.isSome_iff_exists.mp (EVRPTWSolution.isSome_objectiveValue.mpr hincumbent)
  unfold better
  by_cases hfeasible : result.feasible = true
  · obtain ⟨value, hvalue⟩ := Option.isSome_iff_exists.mp (EVRPTWSolution.isSome_objectiveValue.mpr hfeasible)
    rw [hfeasible, hvalue, hbest]
    dsimp only
    by_cases hbetter : compareObjectives formats value best = .better
    · rw [if_pos hbetter, rank_of_some hvalue, rank_of_some hbest, WithTop.coe_le_coe]
      exact ⟨hfeasible, .inr rfl, le_of_lt (compareObjectives_better.mp hbetter), fun _ => le_refl _⟩
    · rw [if_neg hbetter, rank_of_some hvalue, rank_of_some hbest]
      refine ⟨hincumbent, .inl rfl, le_refl _, ?_⟩
      intro _
      exact WithTop.coe_le_coe.mpr (not_lt.mp (mt compareObjectives_better.mpr hbetter))
  · rw [Bool.eq_false_of_not_eq_true hfeasible]
    refine ⟨hincumbent, .inl rfl, le_refl _, ?_⟩
    intro h
    cases h

variable (formats) in
theorem foldl_better_spec {evaluatedStates : List (EVRPTWSolution K)} : ∀ {snapshot : EVRPTWSolution K},
    snapshot.feasible = true →
      (evaluatedStates.foldl (better formats) snapshot = snapshot ∨
        evaluatedStates.foldl (better formats) snapshot ∈ evaluatedStates) ∧
      (evaluatedStates.foldl (better formats) snapshot).feasible = true ∧
      rank formats (evaluatedStates.foldl (better formats) snapshot) ≤ rank formats snapshot ∧
      ∀ state ∈ evaluatedStates, state.feasible = true →
        rank formats (evaluatedStates.foldl (better formats) snapshot) ≤ rank formats state := by
  induction evaluatedStates with
  | nil =>
      intro snapshot hsnapshot
      refine ⟨.inl rfl, hsnapshot, le_refl _, ?_⟩
      intro state hstate
      cases hstate
  | cons first evaluatedStates ih =>
      intro snapshot hsnapshot
      obtain ⟨hfeasible, hchosen, hle, hfirst⟩ := better_spec formats first hsnapshot
      obtain ⟨horigin, hbest, hlater, hstates⟩ := ih hfeasible
      rw [List.foldl_cons]
      refine ⟨?_, hbest, hlater.trans hle, ?_⟩
      · obtain horigin | hmem := horigin
        · rw [horigin]
          obtain hsame | hsame := hchosen
          · exact .inl hsame
          · rw [hsame]
            exact .inr List.mem_cons_self
        · exact .inr (List.mem_cons_of_mem _ hmem)
      · intro state hstate hcounts
        obtain rfl | hstate := List.mem_cons.mp hstate
        · exact hlater.trans (hfirst hcounts)
        · exact hstates state hstate hcounts

theorem searchKernel_descends {W : Type} (kernel : EVRPTWSearchKernel) (formats : Formats K) :
    Descends (kernel.searchKernel (W := W) formats) (rank formats) fun state => state.feasible = true := by
  intro snapshot admitted resolved roundId next hcall
  have hdecided : decideBest formats snapshot admitted resolved = .ok next := hcall.of_resume
  unfold decideBest at hdecided
  split at hdecided
  · cases hdecided
  · split at hdecided
    · cases hdecided
    · rename_i hobjective
      obtain rfl := Except.ok.inj hdecided
      have hsnapshot : snapshot.feasible = true :=
        EVRPTWSolution.isSome_objectiveValue.mp (Option.isSome_iff_ne_none.mpr hobjective)
      obtain ⟨horigin, hfeasible, hle, hstates⟩ := foldl_better_spec formats hsnapshot
      exact ⟨horigin.imp_right fun hmem => ⟨hmem, hfeasible⟩, hle, hstates⟩

end EVRPTWSearchKernel

/-! ### The evaluation -/

namespace PlanOracle

variable {W : Type} {oracle : PlanOracle K} {monotonicNs : W → Int × W}

theorem searchOracle_evaluates : Evaluates (oracle.searchOracle monotonicNs)
    fun candidate state => oracle.evaluateOne candidate = .ok state := by
  intro batch workBudget deadlineNs w states h
  change (oracle.evaluateBatch monotonicNs batch workBudget deadlineNs w).1 = .ok states at h
  unfold evaluateBatch at h
  split at h
  · cases h
  · refine Prog.collect_forall₂ ?_ h
    intro candidate w state hrun
    unfold evaluateNext at hrun
    cases deadlineNs with
    | none => exact hrun
    | some deadline =>
        dsimp only at hrun
        split at hrun
        · cases hrun
        · exact hrun

/-- Whatever has an objective is feasible and accepted by the validator. -/
theorem served_of_objective {state : EVRPTWSolution K} {value : SolutionObjective K}
    (h : Called ((oracle.searchOracle monotonicNs).objective state) (.ok value)) :
    Served oracle state ∧ state.objectiveValue = some value := by
  have hvalue : oracle.objective state = .ok value := Called.of_resume h
  obtain ⟨_, hvalidated, hvalue⟩ := exists_of_bind_eq_ok hvalue
  cases hobjective : state.objectiveValue with
  | none =>
      rw [hobjective] at hvalue
      cases hvalue
  | some claimed =>
      rw [hobjective] at hvalue
      obtain rfl := Except.ok.inj hvalue
      have hfeasible : state.feasible = true :=
        EVRPTWSolution.isSome_objectiveValue.mp (Option.isSome_iff_exists.mpr ⟨_, hobjective⟩)
      exact ⟨(validate_feasible_iff hfeasible).mp hvalidated, rfl⟩

/-! ### Runs -/

variable {job : Job W (InMemoryCacheStore (EVRPTWSolution K)) EVRPTWPlan (EVRPTWSolution K) (SolutionObjective K)}
  {kernel : EVRPTWSearchKernel} {onCommit : Option (PyDict (EVRPTWSolution K) → Prog W PyExc Unit)}

/-- What a run of the search has made, when it started from this state. -/
structure Searched (oracle : PlanOracle K) (initialState : EVRPTWSolution K)
    (final : Session W (InMemoryCacheStore (EVRPTWSolution K)) EVRPTWPlan (EVRPTWSolution K) (SolutionObjective K)) :
    Prop where
  served : Served oracle final.state
  objective : final.state.objectiveValue = some final.objective
  origin : final.state = initialState ∨ ∃ key, final.cache.values.lookup key = some final.state
  initial : rank oracle.formats final.state ≤ rank oracle.formats initialState
  stored : ∀ key solution, final.cache.values.lookup key = some solution →
    key = oracle.stableKey solution.plan ∧ oracle.evaluateOne solution.plan = .ok solution
  least : ∀ key solution, final.cache.values.lookup key = some solution → solution.feasible = true →
    rank oracle.formats final.state ≤ rank oracle.formats solution

variable [IsStrictOrderedRing K]

theorem searched_of_run {initialState : EVRPTWSolution K} {world : W}
    {outcome : Except PyExc (RunResult (EVRPTWSolution K) (SolutionObjective K))}
    {final : Session W (InMemoryCacheStore (EVRPTWSolution K)) EVRPTWPlan (EVRPTWSolution K) (SolutionObjective K)}
    (hforward : oracle.problem.Forward) (hkernel : job.kernel = kernel.searchKernel oracle.formats)
    (horacle : job.oracle = oracle.searchOracle monotonicNs)
    (hops : job.runtime.cacheOps = InMemoryCacheStore.ops onCommit)
    (hempty : ∀ cache, Called job.runtime.cacheFactory (.ok cache) → cache.values = ∅)
    (hrun : run job initialState world = .ended outcome final) :
    Searched oracle initialState final ∧ ∀ result, outcome = .ok result →
      result.lastCommittedState = final.state ∧ result.objective = final.objective := by
  have hdescends : Descends job.kernel (rank oracle.formats) fun state => state.feasible = true :=
    hkernel ▸ kernel.searchKernel_descends oracle.formats
  have hmade : Evaluates job.oracle fun candidate state => oracle.evaluateOne candidate = .ok state :=
    horacle ▸ searchOracle_evaluates
  obtain ⟨⟨horigin, hinitial, hleast, hstored, -, hobjective⟩, hresult⟩ :=
    run_descends hops hempty hdescends hmade hrun
  rw [horacle] at hobjective
  obtain ⟨hserved, hvalue⟩ := served_of_objective hobjective
  refine ⟨⟨hserved, hvalue, horigin.imp_right And.right, hinitial, ?_, hleast⟩, hresult⟩
  intro key solution hkey
  obtain ⟨-, candidate, hcalled, hevaluated⟩ := hstored key solution hkey
  rw [horacle] at hcalled
  obtain ⟨w, w', hstable⟩ := hcalled
  cases hstable
  obtain ⟨-, results, -, hexact⟩ := exactSolution_of_evaluateOne hforward hevaluated
  obtain rfl := hexact.plan
  exact ⟨rfl, hevaluated⟩

end PlanOracle

namespace PlanOracle

variable {K : Type} [Field K] [LinearOrder K] [IsStrictOrderedRing K] {W : Type} {oracle : PlanOracle K}
  {monotonicNs : W → Int × W}
  {job : Job W (InMemoryCacheStore (EVRPTWSolution K)) EVRPTWPlan (EVRPTWSolution K) (SolutionObjective K)}
  {kernel : EVRPTWSearchKernel} {onCommit : Option (PyDict (EVRPTWSolution K) → Prog W PyExc Unit)}
  {initialState : EVRPTWSolution K} {world : W}
  {outcome : Except PyExc (RunResult (EVRPTWSolution K) (SolutionObjective K))}
  {final : Session W (InMemoryCacheStore (EVRPTWSolution K)) EVRPTWPlan (EVRPTWSolution K) (SolutionObjective K)}

/-- Routes that serve the plan of a stored solution use more vehicles than the state, or no shorter routes. -/
theorem Searched.dominates (h : Searched oracle initialState final) (hexact : oracle.problem.Exact)
    (hrounded : Monotone oracle.formats.rounded) {key : String} {solution : EVRPTWSolution K}
    (hkey : final.cache.values.lookup key = some solution) {routes : List (List String)}
    (hroutes : oracle.Realizes solution.plan routes) :
    fleet oracle.formats final.objective.vehicleCount final.objective.totalDistance ≤
      fleet oracle.formats routes.length (oracle.problem.validateRoutes routes).totalDistance := by
  obtain ⟨-, hevaluated⟩ := h.stored key solution hkey
  obtain ⟨hfeasible, hle⟩ := le_of_realizes hexact hevaluated hroutes
  obtain ⟨value, hvalue⟩ := Option.isSome_iff_exists.mp (EVRPTWSolution.isSome_objectiveValue.mpr hfeasible)
  obtain ⟨hcount, hdistance⟩ := objective_of_evaluateOne hexact hevaluated hvalue
  have hbest := h.least key solution hkey hfeasible
  rw [rank_of_some h.objective, rank_of_some hvalue, WithTop.coe_le_coe] at hbest
  have hlength : solution.routes.length = routes.length :=
    (realizes_of_evaluateOne hexact hevaluated hfeasible).length_eq.symm.trans hroutes.length_eq
  refine (fleet_le_of_key_le hbest).trans ?_
  unfold fleet
  rw [hcount, hlength, hdistance]
  exact Prod.Lex.toLex_le_toLex.mpr (.inr ⟨rfl, hrounded hle⟩)

theorem pairNames_nodup : ["D", "A", "B"].Nodup := by decide

theorem pairVelocity_pos : (0 : ℚ) < 1 := one_pos

/-- The depot at 0, customers at 1 and 2, and a charge that lasts for all. -/
def pairInstance : Instance ℚ where
  nodes :=
    [⟨"D", .depot, 0, 0, 0, 0, 100, 0⟩, ⟨"A", .customer, 1, 0, 1, 0, 100, 0⟩, ⟨"B", .customer, 2, 0, 1, 0, 100, 0⟩]
  vehicle := ⟨12, 2, 1, 1, 1⟩
  depot := ⟨"D", .depot, 0, 0, 0, 0, 100, 0⟩
  oneDepot := rfl
  uniqueNames := pairNames_nodup
  positiveVelocity := pairVelocity_pos

def pairOracle : PlanOracle ℚ := { lineOracle 0 with problem := pairInstance.problem (Problem.axisHypot ℚ) 0 }

theorem apart_nonempty : ∀ route ∈ [["A"], ["B"]], route ≠ [] := by decide

theorem apart_nonneg : (0 : ℚ) ≤ 6 := by norm_num

/-- A vehicle for each customer. -/
def apartSolution : EVRPTWSolution ℚ where
  plan := ⟨[["A"], ["B"]], List.cons_ne_nil _ _, apart_nonempty⟩
  routes := [["D", "A", "D"], ["D", "B", "D"]]
  feasible := true
  objectiveValue := some ⟨2, 6, 0, 0, apart_nonneg, le_refl _⟩
  failureReasons := []
  shape := .of_feasible rfl rfl rfl rfl

def pairKernel : EVRPTWSearchKernel := ⟨1, Nat.one_pos⟩

theorem pair_work : 0 < 5 := Nat.succ_pos 4

def pairJob : Job ℕ (InMemoryCacheStore (EVRPTWSolution ℚ)) EVRPTWPlan (EVRPTWSolution ℚ) (SolutionObjective ℚ) where
  runtime :=
    { clockNs := fun w => (0, w)
      costClockNs := fun w => (0, w)
      cacheOps := InMemoryCacheStore.ops none
      cacheFactory := pure .new
      semanticEventSink := true
      physicalEventSink := false
      schedule := fun _ => []
      sha256 := fun events => toString events.length }
  kernel := pairKernel.searchKernel pairOracle.formats
  oracle := pairOracle.searchOracle fun w => (0, w)
  config := IntegerDomain.serialConfig 5 1 pair_work Nat.one_pos

end PlanOracle

end TxnOpt.Evrptw
