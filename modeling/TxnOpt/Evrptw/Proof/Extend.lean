import TxnOpt.Evrptw.Walks
import Mathlib.Tactic.Linarith
import Mathlib.Tactic.Ring

/-!
# One extension of a label

When `extend` accepts a leg and what it returns, in the terms of time and battery of `Walks`.
-/

namespace TxnOpt.Evrptw

namespace Problem

variable {K : Type} [CommRing K] [LinearOrder K] (problem : Problem K)

@[simp]
theorem charge_station {destination : Node K} (h : destination.kind = .station) (battery : K) :
    problem.charge destination battery = problem.vehicle.batteryCapacity - battery := by
  simp [charge, h]

@[simp]
theorem charge_of_ne {destination : Node K} (h : destination.kind ≠ .station) (battery : K) :
    problem.charge destination battery = 0 := by
  simp [charge, h]

/-- The checks `extend` makes of one leg. -/
structure Accepts (elapsed battery : K) (leg : Leg K) (destination : Node K) : Prop where
  energy : leg.energy ≤ battery + problem.epsilon
  arrives : arrival elapsed leg destination ≤ destination.dueDate + problem.epsilon
  recharges : destination.kind = .station →
    arrival elapsed leg destination + problem.stay destination (remaining battery leg) ≤
      destination.dueDate + problem.epsilon

/-- The label `extend` returns. -/
def reached (label : ChargingLabel K) (destination : Node K) (progress : ℕ) (leg : Leg K) :
    ChargingLabel K :=
  let level := remaining label.battery leg
  moved label destination progress leg
    (arrival label.elapsedTime leg destination + problem.stay destination level)
    (level + problem.charge destination level) (problem.charge destination level)
    (problem.chargeTime destination level)

theorem reached_customer {label : ChargingLabel K} {destination : Node K} {progress : ℕ} {leg : Leg K}
    (h : destination.kind = .customer) :
    problem.reached label destination progress leg =
      moved label destination progress leg
        (max (label.elapsedTime + leg.travelTime) destination.readyTime + destination.serviceTime)
        (max 0 (label.battery - leg.energy)) 0 0 := by
  simp [reached, stay, h, arrival, remaining, chargeTime]

theorem reached_depot {label : ChargingLabel K} {destination : Node K} {progress : ℕ} {leg : Leg K}
    (h : destination.kind = .depot) :
    problem.reached label destination progress leg =
      moved label destination progress leg
        (max (label.elapsedTime + leg.travelTime) destination.readyTime)
        (max 0 (label.battery - leg.energy)) 0 0 := by
  simp [reached, stay, h, arrival, remaining, chargeTime]

theorem reached_station {label : ChargingLabel K} {destination : Node K} {progress : ℕ} {leg : Leg K}
    (h : destination.kind = .station) :
    problem.reached label destination progress leg =
      let charged := problem.vehicle.batteryCapacity - max 0 (label.battery - leg.energy)
      let chargeTime := charged * problem.vehicle.inverseRefuelingRate
      moved label destination progress leg
        (max (label.elapsedTime + leg.travelTime) destination.readyTime + chargeTime)
        problem.vehicle.batteryCapacity charged chargeTime := by
  simp [reached, stay, h, arrival, remaining, chargeTime]

theorem extendWithTransition_eq_some {label next : ChargingLabel K} {destination : Node K}
    {progress : ℕ} {leg : Leg K} :
    problem.extendWithTransition label destination progress leg = some next ↔
      problem.Accepts label.elapsedTime label.battery leg destination ∧
        next = problem.reached label destination progress leg := by
  by_cases henergy : leg.energy > label.battery + problem.epsilon
  · constructor
    · intro h
      simp [extendWithTransition, henergy] at h
    · intro h
      exact absurd h.1.energy (not_le.mpr henergy)
  by_cases hlate : max (label.elapsedTime + leg.travelTime) destination.readyTime >
      destination.dueDate + problem.epsilon
  · constructor
    · intro h
      simp [extendWithTransition, henergy, hlate] at h
    · intro h
      exact absurd h.1.arrives (not_le.mpr hlate)
  have haccepts : destination.kind ≠ .station →
      problem.Accepts label.elapsedTime label.battery leg destination := fun hkeep =>
    ⟨not_lt.mp henergy, not_lt.mp hlate, fun hstation => absurd hstation hkeep⟩
  cases hkind : destination.kind with
  | customer =>
      rw [problem.reached_customer hkind]
      simp only [extendWithTransition, henergy, hlate, hkind, if_false, Option.some.injEq,
        haccepts (by simp [hkind]), true_and]
      exact eq_comm
  | depot =>
      rw [problem.reached_depot hkind]
      simp only [extendWithTransition, henergy, hlate, hkind, if_false, Option.some.injEq,
        haccepts (by simp [hkind]), true_and]
      exact eq_comm
  | station =>
      rw [problem.reached_station hkind]
      simp only [extendWithTransition, henergy, hlate, hkind, if_false,
        Option.ite_none_left_eq_some, Option.some.injEq, not_lt]
      constructor
      · intro h
        refine ⟨⟨not_lt.mp henergy, not_lt.mp hlate, fun _ => ?_⟩, h.2.symm⟩
        simpa [stay, hkind, chargeTime, arrival, remaining] using h.1
      · intro h
        refine ⟨?_, h.2.symm⟩
        simpa [stay, hkind, chargeTime, arrival, remaining] using h.1.recharges hkind

theorem extend_eq_some {label next : ChargingLabel K} {destination : Node K} {progress : ℕ} :
    problem.extend label destination progress = some next ↔
      problem.Accepts label.elapsedTime label.battery (problem.leg label.node destination) destination ∧
        next = problem.reached label destination progress (problem.leg label.node destination) :=
  problem.extendWithTransition_eq_some

theorem extend_progress {label next : ChargingLabel K} {destination : Node K} {progress : ℕ}
    (h : problem.extend label destination progress = some next) :
    next.progress = progress ∧ next.node = destination := by
  rw [extend_eq_some] at h
  rw [h.2]
  exact ⟨rfl, rfl⟩

end Problem

end TxnOpt.Evrptw
