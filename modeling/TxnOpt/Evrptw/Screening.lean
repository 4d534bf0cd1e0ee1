import TxnOpt.Evrptw.Models
import TxnOpt.Lib.Lru
import TxnOpt.Runtime.Values
import Mathlib.Algebra.BigOperators.Group.List.Basic
import Mathlib.Order.WithBot

/-!
# Safe screening of a customer route

What `_screen_route` computes for a route that it has not stored: the load, and the optimistic bounds of
`_screen_route_safely` over the nodes that the names of the route stand for.
-/

namespace TxnOpt.Evrptw

variable {K : Type} [CommRing K] [LinearOrder K]

namespace Problem

variable (problem : Problem K)

/-! ### Time windows -/

/-- The running values of the forward pass. -/
structure ForwardPass (K : Type) where
  currentTime : K
  earliest : OrderedDict String K
  minSlack : WithTop K

/-- The loop body of the forward pass; nothing when it returns `False`. -/
def forwardLeg (pass : ForwardPass K) (origin destination : Node K) : Option (ForwardPass K) :=
  let arrival := max (pass.currentTime + (problem.leg origin destination).travelTime) destination.readyTime
  let slack := destination.dueDate - arrival
  let minSlack := min pass.minSlack slack
  if slack < -problem.epsilon then none
  else if destination.kind = .customer then
    some ⟨arrival + destination.serviceTime, pass.earliest.set destination.name arrival, minSlack⟩
  else some ⟨arrival, pass.earliest, minSlack⟩

def forwardPass : ForwardPass K → Node K → List (Node K) → Option (ForwardPass K)
  | pass, _, [] => some pass
  | pass, origin, destination :: rest =>
      (problem.forwardLeg pass origin destination).bind fun pass => forwardPass pass destination rest

/-- The backward pass: the latest departure at the first node, and the latest arrivals at the customers. -/
def backwardPass : Node K → List (Node K) → K × OrderedDict String K
  | _, [] => (problem.depot.dueDate, [])
  | origin, destination :: rest =>
      let (latestDeparture, latestArrivals) := backwardPass destination rest
      if destination.kind = .customer then
        let latestArrival := min destination.dueDate (latestDeparture - destination.serviceTime)
        (latestArrival - (problem.leg origin destination).travelTime,
          latestArrivals.set destination.name latestArrival)
      else (min destination.dueDate latestDeparture - (problem.leg origin destination).travelTime, latestArrivals)

/-! ### Energy -/

/-- The stations that were seen, and the nodes still to look at, the last one first. -/
structure Frontier (K : Type) where
  visited : List String
  nodes : List (Node K)

/-- The body of the loop over the stations in `_energy_reachable_optimistically`. -/
def expandStation (current : Node K) (frontier : Frontier K) (station : Node K) : Frontier K :=
  if station.name = current.name ∨ station.name ∈ frontier.visited then frontier
  else if (problem.leg current station).energy ≤ problem.vehicle.batteryCapacity + problem.epsilon then
    ⟨station.name :: frontier.visited, station :: frontier.nodes⟩
  else frontier

def expandStations (current : Node K) (frontier : Frontier K) : Frontier K :=
  problem.stations.foldl (problem.expandStation current) frontier

/-- The stations still to be seen count twice, the nodes still to look at once. -/
def frontierMeasure (frontier : Frontier K) : ℕ :=
  2 * (problem.stations.filter fun station => station.name ∉ frontier.visited).length + frontier.nodes.length

theorem unvisited_length_lt (visited : List String) {station : Node K} (hstation : station ∈ problem.stations)
    (hnew : station.name ∉ visited) :
    (problem.stations.filter fun other => other.name ∉ station.name :: visited).length <
      (problem.stations.filter fun other => other.name ∉ visited).length := by
  have hfilter : (problem.stations.filter fun other => other.name ∉ station.name :: visited) =
      (problem.stations.filter fun other => other.name ∉ visited).filter fun other => other.name ≠ station.name := by
    rw [List.filter_filter]
    apply List.filter_congr
    intro other _
    simp [List.mem_cons, not_or]
  rw [hfilter, List.length_filter_lt_length_iff_exists]
  exact ⟨station, List.mem_filter.mpr ⟨hstation, by simpa using hnew⟩, by simp⟩

theorem frontierMeasure_expandStation (current : Node K) (frontier : Frontier K) {station : Node K}
    (hstation : station ∈ problem.stations) :
    problem.frontierMeasure (problem.expandStation current frontier station) ≤ problem.frontierMeasure frontier := by
  rw [expandStation]
  by_cases hskip : station.name = current.name ∨ station.name ∈ frontier.visited
  · rw [if_pos hskip]
  · rw [if_neg hskip]
    rw [not_or] at hskip
    split
    · have hless := problem.unvisited_length_lt frontier.visited hstation hskip.2
      dsimp only [frontierMeasure]
      rw [List.length_cons]
      omega
    · exact Nat.le_refl _

theorem frontierMeasure_foldl (current : Node K) {stations : List (Node K)}
    (hstations : ∀ station ∈ stations, station ∈ problem.stations) (frontier : Frontier K) :
    problem.frontierMeasure (stations.foldl (problem.expandStation current) frontier) ≤
      problem.frontierMeasure frontier := by
  induction stations generalizing frontier with
  | nil => exact Nat.le_refl _
  | cons station stations ih =>
      rw [List.foldl_cons]
      calc
        _ ≤ problem.frontierMeasure (problem.expandStation current frontier station) :=
          ih (fun other hother => hstations other (List.mem_cons_of_mem station hother)) _
        _ ≤ problem.frontierMeasure frontier :=
          problem.frontierMeasure_expandStation current frontier (hstations station List.mem_cons_self)

/-- The loop of `_energy_reachable_optimistically`. -/
def reachesFrom (destination : Node K) (frontier : Frontier K) : Bool :=
  match frontier with
  | ⟨_, []⟩ => false
  | ⟨visited, current :: nodes⟩ =>
      if (problem.leg current destination).energy ≤ problem.vehicle.batteryCapacity + problem.epsilon then true
      else reachesFrom destination (problem.expandStations current ⟨visited, nodes⟩)
termination_by problem.frontierMeasure frontier
decreasing_by
  have hmeasure := problem.frontierMeasure_foldl current (fun _ h => h) ⟨visited, nodes⟩
  rw [expandStations]
  calc
    _ ≤ problem.frontierMeasure ⟨visited, nodes⟩ := hmeasure
    _ < problem.frontierMeasure ⟨visited, current :: nodes⟩ := by
      dsimp only [frontierMeasure]
      rw [List.length_cons]
      omega

def energyReachableOptimistically (origin destination : Node K) : Bool :=
  origin.name = destination.name || problem.reachesFrom destination ⟨[], [origin]⟩

def energyReachableLegs : Node K → List (Node K) → Bool
  | _, [] => true
  | origin, destination :: rest =>
      problem.energyReachableOptimistically origin destination && energyReachableLegs destination rest

/-- The smallest value over `recharge_nodes`. -/
def minOverRecharge (value : Node K → K) : K :=
  (problem.stations.map value).foldl min (value problem.depot)

def energyLowerBound (customer : Node K) : K :=
  (problem.minOverRecharge (fun node => (problem.leg node customer).distance) +
    problem.minOverRecharge fun node => (problem.leg customer node).distance) * problem.vehicle.consumptionRate

/-! ### The route -/

/-- `_screen_route_safely`. -/
def screenRouteSafely (nodes : List (Node K)) : Except PyExc Bool :=
  let chain := nodes ++ [problem.depot]
  match problem.forwardPass ⟨max 0 problem.depot.readyTime, [], ⊤⟩ problem.depot chain with
  | none => .ok false
  | some pass =>
      let latestArrivals := (problem.backwardPass problem.depot chain).2
      if pass.earliest.any fun (name, arrival) =>
          (latestArrivals.lookup name).any fun latest => latest - arrival < -problem.epsilon then .ok false
      else if pass.minSlack < ((-problem.epsilon : K) : WithTop K) then .ok false
      else if ¬ problem.energyReachableLegs problem.depot chain then .ok false
      else
        match nodes.map problem.energyLowerBound with
        | [] => .error (.valueError "max() iterable argument is empty")
        | bound :: bounds => .ok (decide (bounds.foldl max bound ≤ problem.vehicle.batteryCapacity + problem.epsilon))

/-- The first name of a route that no node has. -/
def unknownName (route : List String) : String :=
  (route.find? fun name => (problem.byName name).isNone).getD ""

/-- The value that `_screen_route` stores for a route. -/
def screenedRoute (route : List String) : Except PyExc Bool :=
  match route.mapM problem.byName with
  | none => .error ⟨[.other "KeyError"], problem.unknownName route⟩
  | some nodes =>
      if (nodes.map Node.demand).sum ≤ problem.vehicle.loadCapacity + problem.epsilon then
        problem.screenRouteSafely nodes
      else .ok false

end Problem

end TxnOpt.Evrptw
