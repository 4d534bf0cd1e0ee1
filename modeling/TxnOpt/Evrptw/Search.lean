import TxnOpt.Evrptw.Caches
import TxnOpt.Evrptw.Charging
import TxnOpt.Evrptw.Objective
import TxnOpt.Runtime.Contracts

/-!
# The EVRPTW case as the runtime runs it

Plans, their exact solutions and the oracle and the kernel over them. The caches of the oracle only store what is
computed here anew, so they are left out. A charging search may not end: here it raises after `fuel` pops.
-/

namespace TxnOpt.Evrptw

variable {K : Type} [CommRing K] [LinearOrder K]

/-! ### Solutions -/

/-- What `__post_init__` checks. -/
def SolutionShape (plan : EVRPTWPlan) (routes : List (List String)) (feasible : Bool)
    (objectiveValue : Option (SolutionObjective K)) (failureReasons : List String) : Prop :=
  if feasible then
    objectiveValue.isSome ∧ routes.length = plan.customerRoutes.length ∧ failureReasons = []
  else objectiveValue = none ∧ failureReasons ≠ []

section

variable {plan : EVRPTWPlan} {routes : List (List String)} {feasible : Bool}
  {objectiveValue : Option (SolutionObjective K)} {failureReasons : List String}

theorem SolutionShape.of_feasible (hfeasible : feasible = true) (hobjective : objectiveValue.isSome)
    (hroutes : routes.length = plan.customerRoutes.length) (hreasons : failureReasons = []) :
    SolutionShape plan routes feasible objectiveValue failureReasons :=
  (if_pos hfeasible).mpr ⟨hobjective, hroutes, hreasons⟩

theorem SolutionShape.of_infeasible (hfeasible : ¬feasible = true)
    (hreasons : objectiveValue = none ∧ failureReasons ≠ []) :
    SolutionShape plan routes feasible objectiveValue failureReasons :=
  (if_neg hfeasible).mpr hreasons

end

structure EVRPTWSolution (K : Type) [CommRing K] [LinearOrder K] where
  plan : EVRPTWPlan
  routes : List (List String)
  feasible : Bool
  objectiveValue : Option (SolutionObjective K)
  failureReasons : List String
  shape : SolutionShape plan routes feasible objectiveValue failureReasons
  deriving DecidableEq

/-- The constructor of `EVRPTWSolution`. -/
def EVRPTWSolution.new (plan : EVRPTWPlan) (routes : List (List String)) (feasible : Bool)
    (objectiveValue : Option (SolutionObjective K)) (failureReasons : List String) :
    Except PyExc (EVRPTWSolution K) :=
  if hfeasible : feasible = true then
    if hobjective : objectiveValue.isSome then
      if hroutes : routes.length = plan.customerRoutes.length then
        if hreasons : failureReasons = [] then
          .ok ⟨plan, routes, feasible, objectiveValue, failureReasons,
            .of_feasible hfeasible hobjective hroutes hreasons⟩
        else .error (.valueError "a feasible EVRPTW solution cannot have failure reasons")
      else .error (.valueError "exact routes must align with customer routes")
    else .error (.valueError "a feasible EVRPTW solution requires an objective")
  else if hreasons : objectiveValue = none ∧ failureReasons ≠ [] then
    .ok ⟨plan, routes, feasible, objectiveValue, failureReasons, .of_infeasible hfeasible hreasons⟩
  else .error (.valueError "an infeasible EVRPTW result requires failure reasons only")

/-! ### The oracle -/

/-- The oracle of an instance, for the bytes and the digits of the digest of that instance. -/
structure PlanOracle (K : Type) [CommRing K] [LinearOrder K] where
  problem : Problem K
  formats : Formats K
  sha : Sha256
  instanceDigest : String
  digestBytes : Bytes
  routeScreenCacheCapacity : ℕ+
  fuel : ℕ

namespace PlanOracle

variable (oracle : PlanOracle K)

/-- `_customer_bits`. -/
def customerBits : List (String × ℕ) :=
  oracle.problem.customers.zipIdx.map fun (customer, index) => (customer.name, 1 <<< index)

/-- The body of the loop of `_screen_one`; nothing when it returns `False`. -/
def visitName (visited : ℕ) (name : String) : Option ℕ :=
  match oracle.customerBits.lookup name with
  | none => none
  | some bit => if visited &&& bit ≠ 0 then none else some (visited ||| bit)

/-- `_screen_one`. -/
def screenOne (candidate : EVRPTWPlan) : Except PyExc Bool :=
  match candidate.customerRoutes.flatten.foldlM oracle.visitName 0 with
  | none => .ok false
  | some visited =>
      if candidate.customerRoutes.flatten.length ≠ oracle.customerBits.length ∨
          visited ≠ (1 <<< oracle.customerBits.length) - 1 then
        .ok false
      else candidate.customerRoutes.allM oracle.problem.screenedRoute

def invalidRouteText (invalid : InvalidRoute K) : String :=
  "exact charging returned an invalid route: " ++
    " | ".intercalate (invalid.violations.map (Violation.text oracle.formats) ++
      if invalid.wrongSequence then ["route customer sequence differs from fixed order"] else [])

/-- `solve_exact_charging`. -/
def solveRoute (route : List String) : Except PyExc (ChargingSubproblemResult K) :=
  match oracle.problem.solveExactCharging oracle.fuel route with
  | none => .error ⟨[.other "SearchDoesNotEnd"], "no result within the given pops"⟩
  | some (.error invalid) => .error ⟨[.other "RuntimeError"], oracle.invalidRouteText invalid⟩
  | some (.ok result) => .ok result

/-- `validate`. A validated route has no unknown name. -/
def validate (state : EVRPTWSolution K) : Except PyExc Unit := do
  let screened ← oracle.screenOne state.plan
  if screened = false then .error (.valueError "EVRPTW solution plan failed safe screening")
  else if state.feasible = false then
    if state.routes ≠ [] then
      .error (.valueError "an infeasible EVRPTW result cannot expose partial routes")
    else .ok ()
  else
    let report := oracle.problem.validateRoutes state.routes
    if report.feasible = false then
      .error (.valueError ("invalid EVRPTW solution: " ++ oracle.formats.tuple report.violations))
    else
      let objective ← oracle.problem.objectiveOf report
      if state.objectiveValue.map (SolutionObjective.key oracle.formats) ≠ some (objective.key oracle.formats) then
        .error (.valueError "EVRPTW objective differs from independent reconstruction")
      else if state.routes.map oracle.problem.routedCustomers ≠ state.plan.customerRoutes then
        .error (.valueError "exact routes changed the declared customer order")
      else .ok ()

/-- `failures`. -/
def failuresOf (exactResults : List (ChargingSubproblemResult K)) : List String :=
  (exactResults.zipIdx.filter fun item => !item.1.feasible).map fun (result, index) =>
    "route " ++ toString index ++ ": " ++ result.failureReason

/-- `_solution_from_exact`. -/
def solutionFromExact (candidate : EVRPTWPlan) (exactResults : List (ChargingSubproblemResult K)) :
    Except PyExc (EVRPTWSolution K) :=
  let failures := failuresOf exactResults
  if failures ≠ [] then EVRPTWSolution.new candidate [] false none failures
  else do
    let routes := exactResults.map ChargingSubproblemResult.route
    let report := oracle.problem.validateRoutes routes
    if report.feasible = false then
      .error ⟨[.other "RuntimeError"], "exact charging and the independent EVRPTW validator disagree: " ++
        " | ".intercalate report.violations⟩
    else
      let objective ← oracle.problem.objectiveOf report
      let solution ← EVRPTWSolution.new candidate routes true (some objective) []
      oracle.validate solution
      pure solution

/-- `_evaluate_one`. -/
def evaluateOne (candidate : EVRPTWPlan) : Except PyExc (EVRPTWSolution K) := do
  let screened ← oracle.screenOne candidate
  if screened = false then .error (.valueError "EVRPTW candidate failed safe screening")
  else
    let exactResults ← candidate.customerRoutes.mapM oracle.solveRoute
    oracle.solutionFromExact candidate exactResults

def objective (state : EVRPTWSolution K) : Except PyExc (SolutionObjective K) := do
  oracle.validate state
  match state.objectiveValue with
  | none => .error (.valueError "an infeasible EVRPTW result has no objective")
  | some value => pure value

def solveInitial (plan : EVRPTWPlan) : Except PyExc (EVRPTWSolution K) := do
  let screened ← oracle.screenOne plan
  if screened = false then .error (.valueError "initial EVRPTW plan failed safe screening")
  else
    let state ← oracle.evaluateOne plan
    oracle.validate state
    if state.feasible = false then .error (.valueError "initial EVRPTW plan is exact-infeasible")
    else pure state

/-! ### The oracle as the runtime reaches it -/

def routesJson (routes : List (List String)) : Json := .arr (routes.map fun route => .arr (route.map Json.str))

def keyJson (value : SolutionObjective K) : Json :=
  .arr [.int value.vehicleCount, oracle.formats.json (oracle.formats.rounded value.totalDistance),
    oracle.formats.json (oracle.formats.rounded value.totalChargingTime), .int value.chargingCount]

def stateDigest (state : EVRPTWSolution K) : String :=
  oracle.sha.hexdigest (canonicalJsonBytes (.obj [("instance", .str oracle.instanceDigest),
    ("plan", routesJson state.plan.customerRoutes), ("routes", routesJson state.routes),
    ("feasible", .bool state.feasible), ("objective", (state.objectiveValue.map oracle.keyJson).getD .null),
    ("failure_reasons", .arr (state.failureReasons.map Json.str))]) false)

def stableKey (candidate : EVRPTWPlan) : String :=
  EVRPTWOracle.planKey oracle.sha (.fresh oracle.problem oracle.digestBytes oracle.routeScreenCacheCapacity)
    candidate

def workUnits (candidate : EVRPTWPlan) : ℕ := candidate.customerRoutes.length

variable {W : Type} (monotonicNs : W → Int × W)

/-- The body of the loop of `evaluate_batch`. -/
def evaluateNext (deadlineNs : Option Int) (candidate : EVRPTWPlan) : Prog W PyExc (EVRPTWSolution K) := fun w =>
  match deadlineNs with
  | none => (oracle.evaluateOne candidate, w)
  | some deadline =>
      let (now, v) := monotonicNs w
      if now ≥ deadline then (.error ⟨[.timeoutError], "EVRPTW exact batch crossed its deadline"⟩, v)
      else (oracle.evaluateOne candidate, v)

def evaluateBatch (candidates : List EVRPTWPlan) (workBudget : ℕ) (deadlineNs : Option Int) :
    Prog W PyExc (List (EVRPTWSolution K)) :=
  if workBudget ≠ (candidates.map workUnits).sum then
    Prog.raise (.valueError "EVRPTW work budget must cover the complete ordered batch")
  else Prog.collect (oracle.evaluateNext monotonicNs deadlineNs) candidates

/-- The statistics of the caches are left out with the caches. -/
def searchOracle : Oracle W EVRPTWPlan (EVRPTWSolution K) (SolutionObjective K) where
  deterministic := true
  parallelSafe := true
  internalParallelism := false
  workerCount := none
  stableKey := fun candidate => pure (oracle.stableKey candidate)
  workUnits := fun candidate => pure (.int (workUnits candidate))
  stateDigest := fun state => pure (oracle.stateDigest state)
  screen := fun candidates =>
    Prog.resume (candidates.mapM fun candidate => (oracle.screenOne candidate).map Value.bool)
  evaluateBatch := oracle.evaluateBatch monotonicNs
  validate := fun state => Prog.resume (oracle.validate state)
  objective := fun state => Prog.resume (oracle.objective state)
  drainPhysicalObservations := .absent
  screeningStatistics := none

end PlanOracle

/-! ### The kernel -/

structure EVRPTWSearchKernel where
  maxCandidates : ℕ
  candidatesPos : 0 < maxCandidates

namespace EVRPTWSearchKernel

def propose (kernel : EVRPTWSearchKernel) (snapshot : EVRPTWSolution K) (roundId : ℕ) (randomTape : List ℕ) :
    Except PyExc (List EVRPTWPlan) :=
  if snapshot.feasible = false then .error (.valueError "EVRPTW proposal snapshot must be feasible")
  else
    match randomTape with
    | [] => .error (.valueError "EVRPTW proposal requires a non-empty random tape")
    | first :: _ => do
        let unique ← canonicalNeighborhoodPlans snapshot.plan.customerRoutes
        if unique = [] then pure []
        else
          let offset := (first + roundId) % unique.length
          pure ((unique.drop offset ++ unique.take offset).take (kernel.maxCandidates * 64))

/-- The body of the loop of `decide`. -/
def better (formats : Formats K) (incumbent result : EVRPTWSolution K) : EVRPTWSolution K :=
  match result.feasible, result.objectiveValue, incumbent.objectiveValue with
  | true, some value, some best => if compareObjectives formats value best = .better then result else incumbent
  | _, _, _ => incumbent

/-- `decide`. -/
def decideBest (formats : Formats K) (snapshot : EVRPTWSolution K) (candidates : List EVRPTWPlan)
    (evaluatedStates : List (EVRPTWSolution K)) : Except PyExc (EVRPTWSolution K) :=
  if candidates.length ≠ evaluatedStates.length then
    .error (.valueError "EVRPTW decision inputs must preserve candidate order")
  else if snapshot.objectiveValue = none then .error (.valueError "EVRPTW incumbent must have an objective")
  else .ok (evaluatedStates.foldl (better formats) snapshot)

def searchKernel {W : Type} (kernel : EVRPTWSearchKernel) (formats : Formats K) :
    SearchKernel W EVRPTWPlan (EVRPTWSolution K) where
  propose := fun snapshot roundId randomTape => Prog.resume (kernel.propose snapshot roundId randomTape)
  decide := fun snapshot candidates evaluatedStates _ =>
    Prog.resume (decideBest formats snapshot candidates evaluatedStates)
  admissionLimit := some (pure (.int kernel.maxCandidates))

end EVRPTWSearchKernel

end TxnOpt.Evrptw
