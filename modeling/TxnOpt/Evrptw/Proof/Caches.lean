import TxnOpt.Evrptw.Caches
import TxnOpt.Evrptw.Proof.Screening
import TxnOpt.Evrptw.Proof.Termination

/-!
# What the caches hold and return

Each cache returns what is computed without it, and holds the keys that were used last.
-/

namespace TxnOpt.Evrptw

variable {ι K : Type} [DecidableEq ι] [CommRing K] [LinearOrder K]

/-! ### Route reports -/

namespace RouteReportCache

variable {problemOf : ι → Problem K}

/-- What a call returns when the first one was for the instance `known`. -/
def expectedReport (problemOf : ι → Problem K) (known : ι) (call : ι × List String) :
    Except PyExc (RouteReport K) :=
  if known = call.1 then .ok ((problemOf call.1).validateRoute call.2)
  else .error (.valueError "a route report cache cannot cross instance contexts")

/-- The routes of the calls for the instance. -/
def routesOf (known : ι) (calls : List (ι × List String)) : List (List String) :=
  (calls.filter fun call => known = call.1).map Prod.snd

/-- The cache after some calls, the first of them for the instance `known`. -/
structure After (problemOf : ι → Problem K) (known : ι) (capacity : ℕ+) (calls : List (ι × List String))
    (cache : RouteReportCache ι K) : Prop where
  capacity : cache.capacity = capacity
  context : cache.context = some known
  holds : Holds cache.capacity (fun route => .ok ((problemOf known).validateRoute route) : _ → Except PyExc _)
    (routesOf known calls) cache.entries
  counters : cache.counters.Exact (routesOf known calls).length cache.entries.length

theorem After.resolve {known : ι} {capacity : ℕ+} {calls : List (ι × List String)} {cache : RouteReportCache ι K}
    (h : After problemOf known capacity calls cache) (call : ι × List String) :
    (resolve problemOf call.1 call.2 cache).1 = expectedReport problemOf known call ∧
      After problemOf known capacity (calls ++ [call]) (resolve problemOf call.1 call.2 cache).2 := by
  rw [RouteReportCache.resolve, h.context, expectedReport]
  by_cases hknown : known = call.1
  · have hroutes : routesOf known (calls ++ [call]) = routesOf known calls ++ [call.2] := by
      rw [routesOf, List.filter_append, List.map_append, List.filter_singleton]
      simp [hknown, routesOf]
    simp only [if_pos hknown]
    rw [fetchReport, ← hknown]
    cases hfetch : fetch cache.capacity (fun route => .ok ((problemOf known).validateRoute route)) call.2
        cache.entries with
    | mk result entries =>
        cases result with
        | error error => exact absurd (fetch_error hfetch).1 (by simp)
        | ok answer =>
            obtain ⟨report, use⟩ := answer
            obtain ⟨hreport, hholds, hcounters⟩ := h.holds.fetch cache.capacity.pos hfetch
            refine ⟨hreport.symm, h.capacity, h.context, ?_, ?_⟩
            · rw [hroutes]
              exact hholds
            · rw [hroutes]
              exact hcounters h.counters
  · have hroutes : routesOf known (calls ++ [call]) = routesOf known calls := by
      rw [routesOf, List.filter_append, List.map_append, List.filter_singleton]
      simp [hknown, routesOf]
    simp only [if_neg hknown]
    refine ⟨trivial, h.capacity, h.context, ?_, ?_⟩
    · rw [hroutes]
      exact h.holds
    · rw [hroutes]
      exact h.counters

/-- The instance of the first call. -/
def firstContext (fallback : ι) : List (ι × List String) → ι
  | [] => fallback
  | call :: _ => call.1

/-- A cache for an instance before any report. -/
def inContext (capacity : ℕ+) (known : ι) : RouteReportCache ι K := ⟨capacity, [], .zero, some known⟩

theorem after_nil (known : ι) (capacity : ℕ+) : After problemOf known capacity [] (inContext capacity known) :=
  ⟨rfl, rfl, holds_nil, rfl, rfl⟩

/-- The first call fixes the instance. -/
theorem resolve_fresh (capacity : ℕ+) (call : ι × List String) :
    resolve problemOf call.1 call.2 (fresh capacity) =
      resolve problemOf call.1 call.2 (inContext capacity call.1) := by
  simp only [resolve, fresh, inContext, if_pos]

theorem resolve_run (capacity : ℕ+) (call : ι × List String) (calls : List (ι × List String)) :
    (answers (fun call => resolve problemOf call.1 call.2) (call :: calls) (fresh capacity)).1 =
        (call :: calls).map (expectedReport problemOf call.1) ∧
      After problemOf call.1 capacity (call :: calls)
        (answers (fun call => resolve problemOf call.1 call.2) (call :: calls) (fresh capacity)).2 := by
  have hstart : answers (fun call => resolve problemOf call.1 call.2) (call :: calls) (fresh capacity) =
      answers (fun call => resolve problemOf call.1 call.2) (call :: calls) (inContext capacity call.1) := by
    rw [answers, answers, resolve_fresh]
  rw [hstart]
  exact answers_invariant (fun past next cache hpast => hpast.resolve next) (after_nil call.1 capacity) (call :: calls)

end RouteReportCache

/-! ### Screening decisions and plan keys -/

namespace EVRPTWOracle

/-- The calls that return. -/
def returning {κ ν : Type} (compute : κ → Except PyExc ν) (keys : List κ) : List κ :=
  keys.filter fun key => (compute key).isOk

theorem returning_snoc_ok {κ ν : Type} {compute : κ → Except PyExc ν} (keys : List κ) {key : κ} {value : ν}
    (h : compute key = .ok value) : returning compute (keys ++ [key]) = returning compute keys ++ [key] := by
  rw [returning, List.filter_append, List.filter_singleton, h]
  rfl

theorem returning_snoc_error {κ ν : Type} {compute : κ → Except PyExc ν} (keys : List κ) {key : κ}
    {error : PyExc} (h : compute key = .error error) : returning compute (keys ++ [key]) = returning compute keys := by
  rw [returning, List.filter_append, List.filter_singleton, h]
  exact List.append_nil _

/-- The oracle after some calls of `_screen_route`. -/
structure Screened (inst : Problem K) (capacity : ℕ+) (routes : List (List String)) (oracle : EVRPTWOracle K) :
    Prop where
  sameCapacity : oracle.routeScreenCacheCapacity = capacity
  sameInst : oracle.inst = inst
  holds : Holds capacity inst.screenedRoute (returning inst.screenedRoute routes) oracle.routeScreenCache
  counters : oracle.routeScreenCounters.Exact (returning inst.screenedRoute routes).length
    oracle.routeScreenCache.length

theorem Screened.screenRoute {inst : Problem K} {capacity : ℕ+} {routes : List (List String)}
    {oracle : EVRPTWOracle K} (h : Screened inst capacity routes oracle) (route : List String) :
    (screenRoute route oracle).1 = inst.screenedRoute route ∧
      Screened inst capacity (routes ++ [route]) (screenRoute route oracle).2 := by
  rw [EVRPTWOracle.screenRoute, h.sameCapacity, h.sameInst]
  cases hfetch : fetch capacity inst.screenedRoute route oracle.routeScreenCache with
  | mk result entries =>
      cases result with
      | error error =>
          have herror := (fetch_error hfetch).1
          refine ⟨herror.symm, h.sameCapacity, h.sameInst, ?_, ?_⟩
          · rw [returning_snoc_error routes herror]
            exact h.holds
          · rw [returning_snoc_error routes herror]
            exact h.counters
      | ok answer =>
          obtain ⟨decision, use⟩ := answer
          obtain ⟨hdecision, hholds, hcounters⟩ := h.holds.fetch capacity.pos hfetch
          refine ⟨hdecision.symm, rfl, rfl, ?_, ?_⟩
          · rw [returning_snoc_ok routes hdecision]
            exact hholds
          · rw [returning_snoc_ok routes hdecision]
            exact hcounters h.counters

/-- The oracle after some calls of `stable_key`. -/
structure Keyed (sha : Sha256) (start : EVRPTWOracle K) (candidates : List EVRPTWPlan) (oracle : EVRPTWOracle K) :
    Prop where
  sameCapacity : oracle.routeScreenCacheCapacity = start.routeScreenCacheCapacity
  planKeyPrefix : oracle.planKeyPrefix = start.planKeyPrefix
  holds : Holds start.routeScreenCacheCapacity (fun candidate => .ok (planKey sha start candidate) : _ → Except PyExc _)
    candidates oracle.planKeyCache

theorem Keyed.stableKey {sha : Sha256} {start oracle : EVRPTWOracle K} {candidates : List EVRPTWPlan}
    (h : Keyed sha start candidates oracle) (candidate : EVRPTWPlan) :
    (stableKey sha candidate oracle).1 = .ok (planKey sha start candidate) ∧
      Keyed sha start (candidates ++ [candidate]) (stableKey sha candidate oracle).2 := by
  have hkey : planKey sha oracle = planKey sha start := by
    funext plan
    rw [planKey, planKey, h.planKeyPrefix]
  rw [EVRPTWOracle.stableKey, h.sameCapacity, hkey]
  cases hfetch : fetch start.routeScreenCacheCapacity (fun candidate => .ok (planKey sha start candidate)) candidate
      oracle.planKeyCache with
  | mk result entries =>
      cases result with
      | error error => exact absurd (fetch_error hfetch).1 (by simp)
      | ok answer =>
          obtain ⟨key, use⟩ := answer
          obtain ⟨hvalue, hholds, -⟩ := h.holds.fetch start.routeScreenCacheCapacity.pos hfetch
          exact ⟨hvalue.symm, rfl, h.planKeyPrefix, hholds⟩

theorem screenRoute_run (inst : Problem K) (digest : Bytes) (capacity : ℕ+) (routes : List (List String)) :
    (answers screenRoute routes (fresh inst digest capacity)).1 = routes.map inst.screenedRoute ∧
      Screened inst capacity routes (answers screenRoute routes (fresh inst digest capacity)).2 := by
  have hstart : Screened inst capacity [] (fresh inst digest capacity) := ⟨rfl, rfl, holds_nil, rfl, rfl⟩
  exact answers_invariant (fun past route oracle (hpast : Screened inst capacity past oracle) =>
    hpast.screenRoute route) hstart routes

theorem stableKey_run (sha : Sha256) (inst : Problem K) (digest : Bytes) (capacity : ℕ+)
    (candidates : List EVRPTWPlan) :
    (answers (stableKey sha) candidates (fresh inst digest capacity)).1 =
        candidates.map (fun candidate => .ok (planKey sha (fresh inst digest capacity) candidate)) ∧
      Keyed sha (fresh inst digest capacity) candidates
        (answers (stableKey sha) candidates (fresh inst digest capacity)).2 := by
  have hstart : Keyed sha (fresh inst digest capacity) [] (fresh inst digest capacity) := ⟨rfl, rfl, holds_nil⟩
  exact answers_invariant (fun past candidate oracle (hpast : Keyed sha (fresh inst digest capacity) past oracle) =>
    hpast.stableKey candidate) hstart candidates

/-- The computation for a route returns when each name of it is known and it has one. -/
theorem screenedRoute_isOk {inst : Problem K} {route : List String} (hroute : route ≠ [])
    (hknown : ∀ name ∈ route, (inst.byName name).isSome = true) : (inst.screenedRoute route).isOk = true := by
  obtain ⟨nodes, hnodes, hne⟩ : ∃ nodes, route.mapM inst.byName = some nodes ∧ nodes ≠ [] := by
    cases route with
    | nil => exact absurd rfl hroute
    | cons name names =>
        have hnames : ∀ names : List String, (∀ name ∈ names, (inst.byName name).isSome = true) →
            ∃ nodes, names.mapM inst.byName = some nodes := by
          intro names
          induction names with
          | nil => exact fun _ => ⟨[], rfl⟩
          | cons first names ih =>
              intro h
              rw [List.forall_mem_cons] at h
              obtain ⟨node, hnode⟩ := Option.isSome_iff_exists.mp h.1
              obtain ⟨nodes, hnodes⟩ := ih h.2
              exact ⟨node :: nodes, by rw [List.mapM_cons, hnode, hnodes]; rfl⟩
        rw [List.forall_mem_cons] at hknown
        obtain ⟨node, hnode⟩ := Option.isSome_iff_exists.mp hknown.1
        obtain ⟨nodes, hnodes⟩ := hnames names hknown.2
        exact ⟨node :: nodes, by rw [List.mapM_cons, hnode, hnodes]; rfl, List.cons_ne_nil _ _⟩
  rw [Problem.screenedRoute, hnodes]
  dsimp only
  split
  · rw [Problem.screenRouteSafely]
    dsimp only
    split
    · rfl
    · split
      · rfl
      · split
        · rfl
        · split
          · rfl
          · cases nodes with
            | nil => exact absurd rfl hne
            | cons node nodes => rfl
  · rfl

end EVRPTWOracle

/-- After any calls, a route that `_screen_route` rejects has no order of stations that the validator accepts. -/
theorem screenRoute_false_rejects {F : Type} [Field F] [LinearOrder F] [IsStrictOrderedRing F] (inst : Instance F)
    (distance : Node F → Node F → F) (digest : Bytes) (capacity : ℕ+) (routes : List (List String))
    (route visited : List String) (hnonneg : ∀ first second, 0 ≤ distance first second)
    (htriangle : ∀ first second third, distance first third ≤ distance first second + distance second third)
    (hconsumption : 0 ≤ inst.vehicle.consumptionRate) (hrefueling : 0 ≤ inst.vehicle.inverseRefuelingRate)
    (hne : route ≠ []) (hdistinct : route.Nodup)
    (hrejected : (EVRPTWOracle.screenRoute route (answers EVRPTWOracle.screenRoute routes
      (.fresh (inst.withDistance distance (1 / 10 ^ 9)) digest capacity)).2).1 = .ok false)
    (hvisited : Problem.customersOf (inst.withDistance distance (1 / 10 ^ 9)) visited = route) :
    ((inst.withDistance distance (1 / 10 ^ 9)).validateRoute visited).feasible = false := by
  have hdirect := @Instance.direct F _ _ _ inst distance hnonneg htriangle hconsumption hrefueling (1 / 10 ^ 9)
    (by positivity)
  rw [((EVRPTWOracle.screenRoute_run _ digest capacity routes).2.screenRoute route).1] at hrejected
  rw [RouteReport.feasible, List.isEmpty_eq_false_iff]
  intro haccepts
  obtain ⟨walk, haccepted⟩ := Problem.validateRoute_accepts_iff _ |>.mp haccepts
  rw [Problem.screenedRoute_of_accepted hdirect hne hdistinct haccepted hvisited] at hrejected
  cases hrejected

theorem heavyVelocity_pos : (0 : ℚ) < 1 := one_pos

/-- A depot at 0 and a customer at 8 whose demand is more than the vehicle carries. -/
def heavyInstance : Instance ℚ where
  nodes := [⟨"D", .depot, 0, 0, 0, 0, 100, 0⟩, ⟨"C", .customer, 8, 0, 1, 0, 100, 0⟩]
  vehicle := ⟨20, 0, 1, 1, 1⟩
  depot := ⟨"D", .depot, 0, 0, 0, 0, 100, 0⟩
  oneDepot := rfl
  uniqueNames := (by decide : ["D", "C"].Nodup)
  positiveVelocity := heavyVelocity_pos

def taxicab (first second : Node ℚ) : ℚ := |first.x - second.x| + |first.y - second.y|

theorem screenRoute_heavy_rejects :
    ((heavyInstance.withDistance taxicab (1 / 10 ^ 9)).validateRoute ["D", "C", "D"]).feasible = false := by
  have hscreened : (heavyInstance.withDistance taxicab (1 / 10 ^ 9)).screenedRoute ["C"] = .ok false := by
    have hname : (heavyInstance.withDistance taxicab (1 / 10 ^ 9)).byName "C" =
        some ⟨"C", .customer, 8, 0, 1, 0, 100, 0⟩ := by
      rw [Instance.byName_eq_some]
      exact ⟨List.mem_cons_of_mem _ List.mem_cons_self, rfl⟩
    rw [Problem.screenedRoute, List.mapM_cons, hname]
    simp only [List.mapM_nil, Option.pure_def, Option.bind_eq_bind, Option.bind_some, List.map_cons, List.map_nil,
      List.sum_cons, List.sum_nil]
    rw [if_neg]
    change ¬ (1 + 0 : ℚ) ≤ 0 + 1 / 10 ^ 9
    norm_num
  apply screenRoute_false_rejects heavyInstance taxicab [] 1 [] ["C"] ["D", "C", "D"]
  · intro first second
    exact add_nonneg (abs_nonneg _) (abs_nonneg _)
  · intro first second third
    have hx := abs_sub_le first.x second.x third.x
    have hy := abs_sub_le first.y second.y third.y
    rw [taxicab, taxicab, taxicab]
    linarith
  · exact zero_le_one
  · exact zero_le_one
  · exact List.cons_ne_nil _ _
  · exact List.nodup_singleton _
  · rw [((EVRPTWOracle.screenRoute_run _ [] 1 []).2.screenRoute ["C"]).1, hscreened]
  · rfl

/-- The three caches are transparent and exact over every sequence of calls. -/
theorem caches_exact (sha : Sha256) (problemOf : ι → Problem K) (inst : Problem K) (digest : Bytes) (capacity : ℕ+) :
    (∀ call calls,
      (answers (fun call => RouteReportCache.resolve problemOf call.1 call.2) (call :: calls) (.fresh capacity)).1 =
          (call :: calls).map (RouteReportCache.expectedReport problemOf call.1) ∧
        RouteReportCache.After problemOf call.1 capacity (call :: calls)
          (answers (fun call => RouteReportCache.resolve problemOf call.1 call.2) (call :: calls)
            (.fresh capacity)).2) ∧
    (∀ routes,
      (answers EVRPTWOracle.screenRoute routes (.fresh inst digest capacity)).1 = routes.map inst.screenedRoute ∧
        EVRPTWOracle.Screened inst capacity routes
          (answers EVRPTWOracle.screenRoute routes (.fresh inst digest capacity)).2) ∧
    ∀ candidates,
      (answers (EVRPTWOracle.stableKey sha) candidates (.fresh inst digest capacity)).1 =
          candidates.map (fun candidate => .ok (EVRPTWOracle.planKey sha (.fresh inst digest capacity) candidate)) ∧
        EVRPTWOracle.Keyed sha (.fresh inst digest capacity) candidates
          (answers (EVRPTWOracle.stableKey sha) candidates (.fresh inst digest capacity)).2 :=
  ⟨RouteReportCache.resolve_run capacity, EVRPTWOracle.screenRoute_run inst digest capacity,
    EVRPTWOracle.stableKey_run sha inst digest capacity⟩

/-- A call for a second instance raises, and neither it nor a route with an unknown name is counted. -/
theorem caches_uncounted :
    (answers (fun call => RouteReportCache.resolve (fun _ : Bool => Problem.twinProblem) call.1 call.2)
        [(false, []), (true, [])] (.fresh 1)).1 ≠
          [.ok (Problem.twinProblem.validateRoute []), .ok (Problem.twinProblem.validateRoute [])] ∧
      (answers (@EVRPTWOracle.screenRoute ℚ _ _) [["X"]] (.fresh Problem.twinProblem [] 1)).2.routeScreenCounters.hits +
        (answers (@EVRPTWOracle.screenRoute ℚ _ _) [["X"]] (.fresh Problem.twinProblem [] 1)).2.routeScreenCounters.misses ≠
          1 := by
  constructor
  · intro h
    have hrun := (@RouteReportCache.resolve_run Bool ℚ _ _ _ (fun _ => Problem.twinProblem) 1 (false, []) [(true, [])]).1
    rw [hrun] at h
    simp [RouteReportCache.expectedReport] at h
  · have hname : Problem.twinProblem.byName "X" = none := by
      simp [Instance.byName, Problem.twinProblem, Instance.problem, Instance.withDistance, Problem.twinInstance]
    have hunknown : (Problem.twinProblem.screenedRoute ["X"]).isOk = false := by
      rw [Problem.screenedRoute, List.mapM_cons, hname]
      rfl
    have hcounters := (@EVRPTWOracle.screenRoute_run ℚ _ _ Problem.twinProblem [] 1 [["X"]]).2.counters.calls
    rw [hcounters, EVRPTWOracle.returning, List.filter_singleton, hunknown]
    decide

end TxnOpt.Evrptw
