import Mathlib.Algebra.Order.Field.Basic
import Mathlib.Data.List.Nodup

/-!
# EVRPTW instances

The domain model of the EVRPTW case: nodes, the vehicle and the instance its constructor accepts. The
planar distance is the parameter `hypot`; the legs of an instance are the three numbers the search and
the validator derive from it.
-/

namespace TxnOpt.Evrptw

inductive NodeType where
  | depot
  | station
  | customer
  deriving DecidableEq, Repr

structure Node (K : Type) where
  name : String
  kind : NodeType
  x : K
  y : K
  demand : K
  readyTime : K
  dueDate : K
  serviceTime : K
  deriving DecidableEq

structure Vehicle (K : Type) where
  batteryCapacity : K
  loadCapacity : K
  consumptionRate : K
  inverseRefuelingRate : K
  averageVelocity : K

/-- An instance `__post_init__` accepts, with the depot it finds. -/
structure Instance (K : Type) [Zero K] [LT K] where
  nodes : List (Node K)
  vehicle : Vehicle K
  depot : Node K
  oneDepot : nodes.filter (fun node => node.kind = .depot) = [depot]
  uniqueNames : (nodes.map Node.name).Nodup
  positiveVelocity : 0 < vehicle.averageVelocity

/-- What one leg costs. -/
structure Leg (K : Type) where
  distance : K
  energy : K
  travelTime : K

/-- An instance with the legs between its nodes and the tolerance of all comparisons. -/
structure Problem (K : Type) [Zero K] [LT K] extends Instance K where
  leg : Node K → Node K → Leg K
  epsilon : K

namespace Instance

variable {K : Type} [Zero K] [LT K] (inst : Instance K)

def customers : List (Node K) :=
  inst.nodes.filter (fun node => node.kind = .customer)

def stations : List (Node K) :=
  inst.nodes.filter (fun node => node.kind = .station)

def byName (name : String) : Option (Node K) :=
  inst.nodes.find? (fun node => node.name = name)

theorem depot_mem : inst.depot ∈ inst.nodes ∧ inst.depot.kind = .depot := by
  have h : inst.depot ∈ inst.nodes.filter (fun node => node.kind = .depot) := by
    rw [inst.oneDepot]
    exact List.mem_singleton_self _
  simpa using h

theorem eq_depot {node : Node K} (hmem : node ∈ inst.nodes) (hkind : node.kind = .depot) :
    node = inst.depot := by
  have h : node ∈ inst.nodes.filter (fun node => node.kind = .depot) := by
    simp [hmem, hkind]
  rw [inst.oneDepot] at h
  exact List.mem_singleton.mp h

@[simp]
theorem mem_stations {node : Node K} :
    node ∈ inst.stations ↔ node ∈ inst.nodes ∧ node.kind = .station := by
  simp [stations]

@[simp]
theorem mem_customers {node : Node K} :
    node ∈ inst.customers ↔ node ∈ inst.nodes ∧ node.kind = .customer := by
  simp [customers]

/-- Unique names: a name determines its node. -/
theorem eq_of_name_eq {first second : Node K} (hfirst : first ∈ inst.nodes)
    (hsecond : second ∈ inst.nodes) (hname : first.name = second.name) : first = second :=
  List.inj_on_of_nodup_map inst.uniqueNames hfirst hsecond hname

theorem byName_eq_some {name : String} {node : Node K} :
    inst.byName name = some node ↔ node ∈ inst.nodes ∧ node.name = name := by
  constructor
  · intro h
    have hname := List.find?_some h
    exact ⟨List.mem_of_find?_eq_some h, by simpa using hname⟩
  · rintro ⟨hmem, hname⟩
    cases h : inst.byName name with
    | none =>
        have hnone := List.find?_eq_none.mp h node hmem
        simp [hname] at hnone
    | some found =>
        have hfound := List.find?_some h
        have hfoundName : found.name = name := by simpa using hfound
        rw [inst.eq_of_name_eq (List.mem_of_find?_eq_some h) hmem (hfoundName.trans hname.symm)]

end Instance

section Legs

variable {K : Type} [Field K] [LT K]

/-- `Node.distance_to`, over the planar norm `hypot`. -/
def Node.distanceTo (hypot : K → K → K) (origin destination : Node K) : K :=
  hypot (origin.x - destination.x) (origin.y - destination.y)

/-- The legs over given distances: distance, distance times consumption, distance over velocity. -/
def Instance.withDistance (inst : Instance K) (distance : Node K → Node K → K) (epsilon : K) :
    Problem K :=
  { inst with
    leg := fun origin destination =>
      let legDistance := distance origin destination
      ⟨legDistance, legDistance * inst.vehicle.consumptionRate,
        legDistance / inst.vehicle.averageVelocity⟩
    epsilon := epsilon }

/-- The legs of an instance, over the distances of its coordinates. -/
def Instance.problem (inst : Instance K) (hypot : K → K → K) (epsilon : K) : Problem K :=
  inst.withDistance (fun origin destination => origin.distanceTo hypot destination) epsilon

end Legs

end TxnOpt.Evrptw
