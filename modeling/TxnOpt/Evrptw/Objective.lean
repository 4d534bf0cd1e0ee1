import TxnOpt.Evrptw.Validation
import TxnOpt.Lib.Json
import TxnOpt.Runtime.Values
import Mathlib.Data.Prod.Lex

/-!
# Objectives and whole solutions

`SolutionObjective` with its order, and `validate_routes`, which puts the reports of the routes together. No
objective is claimed there: the oracle compares its own.
-/

namespace TxnOpt.Evrptw

/-- What Python makes of numbers and tuples: `round(value, 9)`, `f"{value:.6g}"`, the literal of `json.dumps`, and
the text of a tuple of strings. -/
structure Formats (K : Type) where
  rounded : K → K
  sixDigits : K → String
  json : K → Json
  tuple : List String → String

variable {K : Type} [CommRing K] [LinearOrder K]

/-! ### Objectives -/

/-- The counts are lengths, so only the totals are checked. -/
structure SolutionObjective (K : Type) [CommRing K] [LinearOrder K] where
  vehicleCount : ℕ
  totalDistance : K
  totalChargingTime : K
  chargingCount : ℕ
  distanceNonneg : 0 ≤ totalDistance
  chargingTimeNonneg : 0 ≤ totalChargingTime
  deriving DecidableEq

/-- The constructor of `SolutionObjective`. -/
def SolutionObjective.new (vehicleCount : ℕ) (totalDistance totalChargingTime : K) (chargingCount : ℕ) :
    Except PyExc (SolutionObjective K) :=
  if hdistance : 0 ≤ totalDistance then
    if hcharging : 0 ≤ totalChargingTime then
      .ok ⟨vehicleCount, totalDistance, totalChargingTime, chargingCount, hdistance, hcharging⟩
    else .error (.valueError "total_charging_time must be finite and non-negative")
  else .error (.valueError "total_distance must be finite and non-negative")

abbrev ObjectiveKey (K : Type) : Type := ℕ ×ₗ K ×ₗ K ×ₗ ℕ

/-- `key`. -/
def SolutionObjective.key (formats : Formats K) (objective : SolutionObjective K) : ObjectiveKey K :=
  toLex (objective.vehicleCount, toLex (formats.rounded objective.totalDistance,
    toLex (formats.rounded objective.totalChargingTime, objective.chargingCount)))

inductive ObjectiveComparison where
  | better
  | equal
  | worse
  deriving DecidableEq, Repr

def compareObjectives (formats : Formats K) (left right : SolutionObjective K) : ObjectiveComparison :=
  if left.key formats < right.key formats then .better
  else if right.key formats < left.key formats then .worse
  else .equal

/-! ### Reports of whole solutions -/

def Violation.text (formats : Formats K) : Violation K → String
  | .endpoints => "route must start and end at the depot"
  | .unknownNodes names => "unknown nodes: " ++ ", ".intercalate names
  | .innerDepot => "depot may only appear at route start and end"
  | .load demand capacity =>
      "load " ++ formats.sixDigits demand ++ " exceeds capacity " ++ formats.sixDigits capacity
  | .batteryDepleted legIndex origin destination =>
      "battery depleted on leg " ++ toString legIndex ++ " (" ++ origin ++ "->" ++ destination ++ ")"
  | .lateArrival destination arrival dueDate =>
      "arrival at " ++ destination ++ " (" ++ formats.sixDigits arrival ++ ") exceeds due date " ++
        formats.sixDigits dueDate

structure SolutionReport (K : Type) where
  vehicleCount : ℕ
  totalDistance : K
  totalEnergy : K
  totalChargedEnergy : K
  totalChargingTime : K
  routes : List (RouteReport K)
  violations : List String

def SolutionReport.feasible {K : Type} (report : SolutionReport K) : Bool :=
  report.violations.isEmpty && report.routes.all RouteReport.feasible

namespace Problem

variable (problem : Problem K)

def hasKind (kind : NodeType) (name : String) : Bool :=
  (problem.byName name).any fun node => decide (node.kind = kind)

/-- The customers that a route visits, in order. -/
def routedCustomers (route : List String) : List String := route.filter (problem.hasKind .customer)

/-- The elements of `visits`. A route with an unknown name adds none. -/
def visits (routes : List (List String)) : List String :=
  routes.flatMap fun route =>
    if route.all fun name => (problem.byName name).isSome then problem.routedCustomers route else []

/-- `solution_violations`. -/
def solutionViolations (routes : List (List String)) : List String :=
  let visited := problem.visits routes
  let missing := sortedBy id ((problem.customers.map Node.name).filter fun name => visited.count name = 0)
  let duplicates := sortedBy id (visited.dedup.filter fun name => 1 < visited.count name)
  (if missing ≠ [] then ["unvisited customers: " ++ ", ".intercalate missing] else []) ++
    (if duplicates ≠ [] then ["customers visited more than once: " ++ ", ".intercalate duplicates] else [])

def validateRoutes (routes : List (List String)) : SolutionReport K :=
  let reports := routes.map problem.validateRoute
  ⟨routes.length, (reports.map RouteReport.distance).sum, (reports.map RouteReport.totalEnergy).sum,
    (reports.map RouteReport.chargedEnergy).sum, (reports.map RouteReport.chargingTime).sum, reports,
    problem.solutionViolations routes⟩

/-- `count_charging_visits`. -/
def countChargingVisits (routes : List (List String)) : ℕ :=
  (routes.map fun route => route.countP (problem.hasKind .station)).sum

/-- `SolutionObjective.from_report`. -/
def objectiveOf (report : SolutionReport K) : Except PyExc (SolutionObjective K) :=
  if report.feasible = false then
    .error (.valueError "cannot construct an objective from an infeasible solution report")
  else
    SolutionObjective.new report.vehicleCount report.totalDistance report.totalChargingTime
      (problem.countChargingVisits (report.routes.map RouteReport.route))

end Problem

end TxnOpt.Evrptw
