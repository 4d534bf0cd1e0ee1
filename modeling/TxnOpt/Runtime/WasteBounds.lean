import TxnOpt.Runtime.Values
import Mathlib.Algebra.Group.Nat.Defs

/-!
# Executable T4 bounds

`auditWaste` checks one atomic transaction's observed waste against its bound, in work units. The bound
also carries a cost, a `float`; the runtime fixes the request cost at `1.0` and reads no cost, but
multiplying an `int` by a `float` converts the `int`, and that raises when it is too large.
-/

namespace TxnOpt

/-- The least positive integer that no finite `float` is nearest to: converting it, or any larger one,
raises `OverflowError`. It is halfway between the largest `float` and `2 ^ 1024`, and the tie rounds
to the even significand of `2 ^ 1024`. -/
def floatOverflow : Nat := 2 ^ 1024 - 2 ^ 970

/-- `units * 1.0`: the product itself is not used, only whether the conversion raises. -/
def unitCost (units : Nat) : Except PyExc Unit :=
  if units < floatOverflow then .ok ()
  else .error (.overflowError "int too large to convert to float")

structure WasteBound where
  discardedWorkUnits : Nat
  postBoundaryWorkUnits : Nat
  deriving DecidableEq, Repr

/-- Observed unit-level waste checked against one declared T4 bound. -/
structure WasteAudit where
  remainingBudgetBefore : Int
  uncommittedWindow : Nat
  maxRequestsPerCandidate : Nat
  postBoundaryCapacityUnits : Nat
  observedDiscardedWorkUnits : Int
  observedPostBoundaryWorkUnits : Int
  bound : WasteBound
  deriving DecidableEq, Repr

/-- Evaluate T4 for one atomic transaction parameter tuple, at request cost `1.0`. -/
def boundedWaste (remainingBudget : Int) (uncommittedWindow maxRequestsPerCandidate : Nat)
    (postBoundaryCapacityUnits : Nat) : Except PyExc WasteBound := do
  if remainingBudget < 0 then
    throw (.valueError "T4 integer parameters must be non-negative integers")
  let windowCapacity := uncommittedWindow * maxRequestsPerCandidate
  let discardedUnits := min remainingBudget.toNat windowCapacity
  let postBoundaryUnits := min postBoundaryCapacityUnits windowCapacity
  unitCost discardedUnits
  unitCost postBoundaryUnits
  return ⟨discardedUnits, postBoundaryUnits⟩

/-- Fail closed if a fixed-work transaction violates its T4 unit bound. -/
def auditWaste (remainingBudgetBefore : Int) (uncommittedWindow maxRequestsPerCandidate : Nat)
    (postBoundaryCapacityUnits : Nat)
    (observedDiscardedWorkUnits observedPostBoundaryWorkUnits : Int) :
    Except PyExc WasteAudit := do
  if observedDiscardedWorkUnits < 0 ∨ observedPostBoundaryWorkUnits < 0 then
    throw (.valueError "observed T4 work must be non-negative integers")
  let bound ← boundedWaste remainingBudgetBefore uncommittedWindow maxRequestsPerCandidate
    postBoundaryCapacityUnits
  if observedDiscardedWorkUnits > bound.discardedWorkUnits then
    throw (.wasteBoundViolation "discarded work exceeds the atomic-window T4 bound")
  if observedPostBoundaryWorkUnits > bound.postBoundaryWorkUnits then
    throw (.wasteBoundViolation "post-boundary work exceeds the declared T4 capacity")
  return ⟨remainingBudgetBefore, uncommittedWindow, maxRequestsPerCandidate,
    postBoundaryCapacityUnits, observedDiscardedWorkUnits, observedPostBoundaryWorkUnits, bound⟩

end TxnOpt
