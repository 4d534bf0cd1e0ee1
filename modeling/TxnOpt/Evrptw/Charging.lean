import TxnOpt.Evrptw.Validation
import Mathlib.Data.Prod.Lex
import Mathlib.Data.List.Sort

/-!
# The exact charging search

`solve_exact_charging`: best-first label search over the station insertions of one fixed customer order.
A label holds the nodes of its path where the source holds their names; in an instance the two determine
each other.
-/

namespace TxnOpt.Evrptw

structure ChargingLabel (K : Type) where
  progress : ℕ
  node : Node K
  elapsedTime : K
  battery : K
  distance : K
  totalEnergy : K
  chargedEnergy : K
  chargingTime : K
  path : List (Node K)
  deriving DecidableEq

structure QueueEntry (K : Type) where
  serial : ℕ
  label : ChargingLabel K

/-- The variables of the queue loop. -/
structure SearchState (K : Type) where
  labels : ℕ × String → List (ChargingLabel K)
  queue : List (QueueEntry K)
  best : Option (ChargingLabel K)
  generated : ℕ
  expanded : ℕ
  pruned : ℕ
  serial : ℕ

section

variable {K : Type}

def ChargingLabel.key (label : ChargingLabel K) : ℕ × String :=
  (label.progress, label.node.name)

/-- `_queue_priority` and the serial number that breaks its ties. -/
def QueueEntry.priority (entry : QueueEntry K) : K ×ₗ K ×ₗ ℤ ×ₗ ℕ :=
  toLex (entry.label.distance, toLex (entry.label.elapsedTime,
    toLex (-(entry.label.progress : ℤ), entry.serial)))

/-- `heappush`: the heap is kept as the sorted list of its entries. -/
def heappush [LinearOrder K] (queue : List (QueueEntry K)) (entry : QueueEntry K) :
    List (QueueEntry K) :=
  queue.orderedInsert (fun left right => left.priority ≤ right.priority) entry

end

instance {K : Type} [LinearOrder K] : LawfulBEq (ChargingLabel K) := inferInstance

variable {K : Type} [CommRing K] [LinearOrder K]

namespace Problem

variable (problem : Problem K)

/-- The label at `destination`, with everything a label accumulates. -/
def moved (label : ChargingLabel K) (destination : Node K) (progress : ℕ) (leg : Leg K)
    (elapsed battery charged chargeTime : K) : ChargingLabel K :=
  { progress := progress
    node := destination
    elapsedTime := elapsed
    battery := battery
    distance := label.distance + leg.distance
    totalEnergy := label.totalEnergy + leg.energy
    chargedEnergy := label.chargedEnergy + charged
    chargingTime := label.chargingTime + chargeTime
    path := label.path ++ [destination] }

/-- `_extend_with_transition`. -/
def extendWithTransition (label : ChargingLabel K) (destination : Node K) (progress : ℕ)
    (leg : Leg K) : Option (ChargingLabel K) :=
  if leg.energy > label.battery + problem.epsilon then none
  else
    let battery := max 0 (label.battery - leg.energy)
    let elapsed := max (label.elapsedTime + leg.travelTime) destination.readyTime
    if elapsed > destination.dueDate + problem.epsilon then none
    else
      match destination.kind with
      | .customer =>
          some (moved label destination progress leg (elapsed + destination.serviceTime) battery 0 0)
      | .station =>
          let charged := problem.vehicle.batteryCapacity - battery
          let chargeTime := charged * problem.vehicle.inverseRefuelingRate
          if elapsed + chargeTime > destination.dueDate + problem.epsilon then none
          else
            some (moved label destination progress leg (elapsed + chargeTime)
              problem.vehicle.batteryCapacity charged chargeTime)
      | .depot => some (moved label destination progress leg elapsed battery 0 0)

def extend (label : ChargingLabel K) (destination : Node K) (progress : ℕ) :
    Option (ChargingLabel K) :=
  problem.extendWithTransition label destination progress (problem.leg label.node destination)

/-- `_successors`: the next customer or, after the last one, the depot; then every other station. -/
def successors (order : List (Node K)) (label : ChargingLabel K) : List (Node K × ℕ) :=
  (match order[label.progress]? with
    | some customer => (customer, label.progress + 1)
    | none => (problem.depot, label.progress)) ::
    (problem.stations.filter (fun station => station.name ≠ label.node.name)).map
      (fun station => (station, label.progress))

def noWorse (left right : ChargingLabel K) : Prop :=
  left.elapsedTime ≤ right.elapsedTime + problem.epsilon ∧
    left.battery + problem.epsilon ≥ right.battery ∧
    left.distance ≤ right.distance + problem.epsilon

def strictlyBetter (left right : ChargingLabel K) : Prop :=
  left.elapsedTime < right.elapsedTime - problem.epsilon ∨
    left.battery > right.battery + problem.epsilon ∨
    left.distance < right.distance - problem.epsilon

instance (left right : ChargingLabel K) : Decidable (problem.noWorse left right) :=
  inferInstanceAs (Decidable (_ ∧ _ ∧ _))

instance (left right : ChargingLabel K) : Decidable (problem.strictlyBetter left right) :=
  inferInstanceAs (Decidable (_ ∨ _ ∨ _))

def dominates (left right : ChargingLabel K) : Prop :=
  problem.noWorse left right ∧ problem.strictlyBetter left right

instance (left right : ChargingLabel K) : Decidable (problem.dominates left right) :=
  inferInstanceAs (Decidable (_ ∧ _))

end Problem

def betterTerminal (candidate incumbent : ChargingLabel K) : Prop :=
  toLex (candidate.distance, candidate.elapsedTime) <
    toLex (incumbent.distance, incumbent.elapsedTime)

instance (candidate incumbent : ChargingLabel K) : Decidable (betterTerminal candidate incumbent) :=
  inferInstanceAs (Decidable (toLex _ < toLex _))

namespace Problem

variable (problem : Problem K) (order : List (Node K))

def initialLabel : ChargingLabel K :=
  { progress := 0
    node := problem.depot
    elapsedTime := max 0 problem.depot.readyTime
    battery := problem.vehicle.batteryCapacity
    distance := 0
    totalEnergy := 0
    chargedEnergy := 0
    chargingTime := 0
    path := [problem.depot] }

def initialState : SearchState K :=
  { labels := Function.update (fun _ => []) (0, problem.depot.name) [problem.initialLabel]
    queue := [⟨0, problem.initialLabel⟩]
    best := none
    generated := 1
    expanded := 0
    pruned := 0
    serial := 1 }

/-- A candidate that reached the closing depot. -/
def offerTerminal (state : SearchState K) (candidate : ChargingLabel K) : SearchState K :=
  if ∀ incumbent ∈ state.best, betterTerminal candidate incumbent then
    { state with best := some candidate }
  else state

/-- A candidate that did not: it is dropped, or kept in place of the labels it dominates. -/
def offerLabel (state : SearchState K) (candidate : ChargingLabel K) : SearchState K :=
  let current := state.labels candidate.key
  if ∃ existing ∈ current, problem.dominates existing candidate then
    { state with pruned := state.pruned + 1 }
  else
    let survivors := current.filter (fun existing => ¬ problem.dominates candidate existing)
    { state with
      labels := Function.update state.labels candidate.key (survivors ++ [candidate])
      queue := heappush state.queue ⟨state.serial, candidate⟩
      pruned := state.pruned + (current.length - survivors.length)
      serial := state.serial + 1 }

/-- The body of the `for` loop over the successors of `label`. -/
def visit (label : ChargingLabel K) (state : SearchState K) (successor : Node K × ℕ) :
    SearchState K :=
  let generated := { state with generated := state.generated + 1 }
  match problem.extend label successor.1 successor.2 with
  | none => { generated with pruned := generated.pruned + 1 }
  | some candidate =>
      if successor.2 = order.length ∧ successor.1.kind = .depot then
        offerTerminal generated candidate
      else problem.offerLabel generated candidate

def expand (state : SearchState K) (label : ChargingLabel K) : SearchState K :=
  (problem.successors order label).foldl (problem.visit order label)
    { state with expanded := state.expanded + 1 }

/-- One pass of the queue loop; `none` when the queue is empty. -/
def step (state : SearchState K) : Option (SearchState K) :=
  match state.queue with
  | [] => none
  | entry :: rest =>
      let popped := { state with queue := rest }
      if entry.label ∉ state.labels entry.label.key then some popped
      else if ∃ incumbent ∈ state.best, entry.label.distance ≥ incumbent.distance - problem.epsilon then
        some { popped with pruned := popped.pruned + 1 }
      else some (problem.expand order popped entry.label)

/-- The queue loop, for at most `fuel` pops. -/
def queueLoop : ℕ → SearchState K → Option (SearchState K)
  | 0, _ => none
  | fuel + 1, state =>
      match problem.step order state with
      | none => some state
      | some next => queueLoop fuel next

/-- `_validate_order`: why `order` is no valid customer order; empty when it is one. -/
def validateOrder (order : List String) : String :=
  let unknown := order.filter (fun name => name ∉ problem.customers.map Node.name)
  let demand := ((order.filterMap problem.byName).map Node.demand).sum
  if ¬ order.Nodup then "customer order contains duplicates"
  else if unknown ≠ [] then
    "customer order contains non-customer nodes: " ++ ", ".intercalate unknown
  else if demand > problem.vehicle.loadCapacity + problem.epsilon then
    "fixed route demand exceeds vehicle capacity"
  else ""

end Problem

/-- The result without its run time; `⊤` is `float("inf")`. -/
structure ChargingSubproblemResult (K : Type) where
  feasible : Bool
  route : List String
  distance : WithTop K
  totalEnergy : K
  chargedEnergy : K
  chargingTime : K
  labelsGenerated : ℕ
  labelsExpanded : ℕ
  labelsPruned : ℕ
  failureReason : String

/-- The `RuntimeError` of a route that fails its re-validation. -/
structure InvalidRoute (K : Type) where
  violations : List (Violation K)
  wrongSequence : Bool

namespace Problem

variable (problem : Problem K)

def failureResult (reason : String) : ChargingSubproblemResult K :=
  ⟨false, [], ⊤, 0, 0, 0, 0, 0, 0, reason⟩

/-- What `solve_exact_charging` returns when the queue loop has ended in `state`. -/
def report (order : List String) (state : SearchState K) :
    Except (InvalidRoute K) (ChargingSubproblemResult K) :=
  match state.best with
  | none =>
      .ok ⟨false, [], ⊤, 0, 0, 0, state.generated, state.expanded, state.pruned,
        "no feasible station-insertion pattern for fixed customer order"⟩
  | some best =>
      let route := best.path.map Node.name
      let violations := (problem.validateRoute route).violations
      let routed := (best.path.filter (fun node => node.kind = .customer)).map Node.name
      if violations ≠ [] ∨ routed ≠ order then .error ⟨violations, routed ≠ order⟩
      else
        .ok ⟨true, route, best.distance, best.totalEnergy, best.chargedEnergy, best.chargingTime,
          state.generated, state.expanded, state.pruned, ""⟩

/-- `none` when `fuel` pops do not empty the queue. -/
def solveExactCharging (fuel : ℕ) (order : List String) :
    Option (Except (InvalidRoute K) (ChargingSubproblemResult K)) :=
  if problem.validateOrder order ≠ "" then
    some (.ok (failureResult (problem.validateOrder order)))
  else
    (problem.queueLoop (order.filterMap problem.byName) fuel problem.initialState).map
      (problem.report order)

end Problem

end TxnOpt.Evrptw
