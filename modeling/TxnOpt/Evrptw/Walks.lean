import TxnOpt.Evrptw.Charging

/-!
# Station insertions and their schedules

What the charging search is about, without labels: a walk is the list of nodes after the depot, an
insertion puts stations anywhere into a fixed order, and a schedule follows time and battery along a walk
with full recharges.
-/

namespace TxnOpt.Evrptw

namespace Problem

variable {K : Type} [CommRing K] [LinearOrder K] (problem : Problem K)

/-- `walk` serves `order`, returns to the depot, and visits stations in between. -/
inductive Insertion : List (Node K) → List (Node K) → Prop
  | close : Insertion [] [problem.depot]
  | station {order walk : List (Node K)} {station : Node K} : station ∈ problem.stations →
      Insertion order walk → Insertion order (station :: walk)
  | customer {order walk : List (Node K)} {customer : Node K} :
      Insertion order walk → Insertion (customer :: order) (customer :: walk)

/-- The served customers of a label moved to `destination`. -/
def nextProgress (label : ChargingLabel K) (destination : Node K) : ℕ :=
  if destination.kind = .customer then label.progress + 1 else label.progress

/-- Leg by leg, every node of `walk` accepted by `extend`. -/
def follow (label : ChargingLabel K) : List (Node K) → Option (ChargingLabel K)
  | [] => some label
  | destination :: rest =>
      (problem.extend label destination (nextProgress label destination)).bind
        (fun next => follow next rest)

/-! ### Time and battery of one leg -/

def arrival (elapsed : K) (leg : Leg K) (destination : Node K) : K :=
  max (elapsed + leg.travelTime) destination.readyTime

/-- The charge on arrival. -/
def remaining (battery : K) (leg : Leg K) : K :=
  max 0 (battery - leg.energy)

/-- The charge taken on at `destination`, arriving with `battery`. -/
def charge (destination : Node K) (battery : K) : K :=
  if destination.kind = .station then problem.vehicle.batteryCapacity - battery else 0

/-- The time of a full recharge. -/
def chargeTime (destination : Node K) (battery : K) : K :=
  problem.charge destination battery * problem.vehicle.inverseRefuelingRate

/-- The time spent at `destination`, arriving with `battery`. -/
def stay (destination : Node K) (battery : K) : K :=
  if destination.kind = .customer then destination.serviceTime
  else problem.chargeTime destination battery

/-- Every recharge of the walk from `origin` is over by the due date of its station. -/
def RechargesInTime (elapsed battery : K) (origin : Node K) : List (Node K) → Prop
  | [] => True
  | destination :: rest =>
      let leg := problem.leg origin destination
      let level := remaining battery leg
      let departure := arrival elapsed leg destination + problem.stay destination level
      (destination.kind = .station → departure ≤ destination.dueDate + problem.epsilon) ∧
        RechargesInTime departure (level + problem.charge destination level) destination rest

instance decidableRechargesInTime (elapsed battery : K) (origin : Node K) (walk : List (Node K)) :
    Decidable (problem.RechargesInTime elapsed battery origin walk) :=
  match walk with
  | [] => inferInstanceAs (Decidable True)
  | destination :: rest =>
      @instDecidableAnd _ _ (inferInstanceAs (Decidable (_ = _ → _ ≤ _)))
        (decidableRechargesInTime _ _ destination rest)

end Problem

end TxnOpt.Evrptw
