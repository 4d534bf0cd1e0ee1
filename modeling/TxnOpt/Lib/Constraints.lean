import TxnOpt.Lib.Intervals
import Mathlib.Order.Bounds.Basic

/-!
# Integer constraint models

Bounded integer variables under interval, order, cumulative and maximum constraints, with one variable to
minimize, and what it means to solve such a model.
-/

namespace TxnOpt

/-- An interval of fixed size between two variables. -/
structure IntervalVar (V : Type) where
  start : V
  size : Int
  finish : V
  deriving DecidableEq, Repr

inductive Constraint (V : Type) where
  /-- `start + size = finish` -/
  | interval (span : IntervalVar V)
  | le (left right : V)
  /-- at every instant the demands of the intervals that contain it sum to at most the capacity -/
  | cumulative (tasks : List (IntervalVar V × ℕ)) (capacity : ℕ)
  | maxEquality (target : V) (args : List V)
  deriving DecidableEq, Repr

structure CpModel (V : Type) where
  /-- every variable with its lower and upper bound -/
  bounds : List (V × Int × Int)
  constraints : List (Constraint V)
  /-- minimized -/
  objective : V
  deriving DecidableEq, Repr

inductive CpStatus where
  | unknown
  | modelInvalid
  | feasible
  | infeasible
  | optimal
  deriving DecidableEq, Repr

variable {V : Type}

def Constraint.Holds (value : V → Int) : Constraint V → Prop
  | .interval span => value span.start + span.size = value span.finish
  | .le left right => value left ≤ value right
  | .cumulative tasks capacity => ∀ time : Int,
      load (fun task => value task.1.start) (fun task => value task.1.finish) (fun task => task.2)
        tasks time ≤ capacity
  | .maxEquality target args => IsGreatest {bound | ∃ arg ∈ args, value arg = bound} (value target)

namespace CpModel

structure Solution (model : CpModel V) (value : V → Int) : Prop where
  bounds : ∀ bounded ∈ model.bounds,
    bounded.2.1 ≤ value bounded.1 ∧ value bounded.1 ≤ bounded.2.2
  holds : ∀ constraint ∈ model.constraints, constraint.Holds value

/-- The values of the objective over all solutions. -/
def objectives (model : CpModel V) : Set Int :=
  {bound | ∃ value, model.Solution value ∧ value model.objective = bound}

structure Optimum (model : CpModel V) (value : V → Int) : Prop where
  solution : model.Solution value
  least : ∀ other, model.Solution other → value model.objective ≤ other model.objective

theorem Optimum.isLeast {model : CpModel V} {value : V → Int} (h : model.Optimum value) :
    IsLeast model.objectives (value model.objective) := by
  refine ⟨⟨value, h.solution, rfl⟩, ?_⟩
  intro bound hbound
  obtain ⟨other, hother, hvalue⟩ := hbound
  rw [← hvalue]
  exact h.least other hother

end CpModel

end TxnOpt
