import TxnOpt.Evrptw.Models
import Mathlib.Algebra.BigOperators.Group.List.Basic
import Mathlib.Data.List.Dedup
import Mathlib.Data.String.Basic

/-!
# The independent route validator

`_validate_route`. A violation carries the values its text shows; the texts themselves are left out.
-/

namespace TxnOpt.Evrptw

inductive Violation (K : Type) where
  /-- route must start and end at the depot -/
  | endpoints
  /-- unknown nodes -/
  | unknownNodes (names : List String)
  /-- depot may only appear at route start and end -/
  | innerDepot
  /-- load exceeds capacity -/
  | load (demand capacity : K)
  /-- battery depleted on a leg -/
  | batteryDepleted (legIndex : ℕ) (origin destination : String)
  /-- arrival exceeds due date -/
  | lateArrival (destination : String) (arrival dueDate : K)
  deriving DecidableEq

structure RouteReport (K : Type) where
  route : List String
  distance : K
  finishTime : K
  totalEnergy : K
  chargedEnergy : K
  chargingTime : K
  violations : List (Violation K)

def RouteReport.feasible {K : Type} (report : RouteReport K) : Bool :=
  report.violations.isEmpty

/-- The running values of the loop over the legs. -/
structure Tour (K : Type) where
  battery : K
  currentTime : K
  distance : K
  totalEnergy : K
  chargedEnergy : K
  chargingTime : K
  violations : List (Violation K)

variable {K : Type} [CommRing K] [LinearOrder K]

namespace Problem

variable (problem : Problem K)

/-- The loop body for the leg with number `index`. -/
def validateLeg (tour : Tour K) (index : ℕ) (origin destination : Node K) : Tour K :=
  let leg := problem.leg origin destination
  let battery := tour.battery - leg.energy
  let arrival := max (tour.currentTime + leg.travelTime) destination.readyTime
  let violations := tour.violations ++
    (if battery < -problem.epsilon then
      [.batteryDepleted index origin.name destination.name] else []) ++
    (if arrival > destination.dueDate + problem.epsilon then
      [.lateArrival destination.name arrival destination.dueDate] else [])
  let moved : Tour K :=
    { tour with
      battery := battery
      currentTime := arrival
      distance := tour.distance + leg.distance
      totalEnergy := tour.totalEnergy + leg.energy
      violations := violations }
  match destination.kind with
  | .customer => { moved with currentTime := arrival + destination.serviceTime }
  | .station =>
      let recharge := max 0 (problem.vehicle.batteryCapacity - battery)
      let rechargeTime := recharge * problem.vehicle.inverseRefuelingRate
      { moved with
        chargedEnergy := tour.chargedEnergy + recharge
        chargingTime := tour.chargingTime + rechargeTime
        currentTime := arrival + rechargeTime
        battery := problem.vehicle.batteryCapacity }
  | .depot => moved

/-- The loop over the legs from `origin` on. -/
def validateLegs (tour : Tour K) (index : ℕ) (origin : Node K) : List (Node K) → Tour K
  | [] => tour
  | destination :: rest =>
      validateLegs (problem.validateLeg tour index origin destination) (index + 1) destination rest

def startTour (violations : List (Violation K)) : Tour K :=
  { battery := problem.vehicle.batteryCapacity
    currentTime := max 0 problem.depot.readyTime
    distance := 0
    totalEnergy := 0
    chargedEnergy := 0
    chargingTime := 0
    violations := violations }

def endpointViolations (route : List String) : List (Violation K) :=
  if route.length < 2 ∨ route.head? ≠ some problem.depot.name ∨
      route.getLast? ≠ some problem.depot.name then
    [.endpoints] else []

/-- `route[1:-1]` holds the depot. -/
def depotViolations (route : List String) : List (Violation K) :=
  if problem.depot.name ∈ route.tail.dropLast then [.innerDepot] else []

def customerDemand (nodes : List (Node K)) : K :=
  ((nodes.filter (fun node => node.kind = .customer)).map Node.demand).sum

def loadViolations (nodes : List (Node K)) : List (Violation K) :=
  if customerDemand nodes > problem.vehicle.loadCapacity + problem.epsilon then
    [.load (customerDemand nodes) problem.vehicle.loadCapacity] else []

/-- The loop over consecutive pairs of `nodes`. -/
def tourOf (violations : List (Violation K)) : List (Node K) → Tour K
  | [] => problem.startTour violations
  | origin :: rest => problem.validateLegs (problem.startTour violations) 1 origin rest

def validateRoute (route : List String) : RouteReport K :=
  let endpoints := problem.endpointViolations route
  match route.mapM problem.byName with
  | none =>
      let unknown := route.filter (fun name => (problem.byName name).isNone)
      ⟨route, 0, 0, 0, 0, 0, endpoints ++ [.unknownNodes (unknown.dedup.mergeSort (· ≤ ·))]⟩
  | some nodes =>
      let tour := problem.tourOf
        (endpoints ++ problem.depotViolations route ++ problem.loadViolations nodes) nodes
      ⟨route, tour.distance, tour.currentTime, tour.totalEnergy, tour.chargedEnergy,
        tour.chargingTime, tour.violations⟩

end Problem

end TxnOpt.Evrptw
