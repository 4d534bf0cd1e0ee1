import TxnOpt.Lib.Firsts
import TxnOpt.Runtime.Values

/-!
# Plan neighbourhoods

`canonical_neighborhood_plans`: merges, relocations and swaps of customer routes, in their order, each plan
once.
-/

namespace TxnOpt.Evrptw

abbrev CustomerRoutes := List (List String)

structure EVRPTWPlan where
  customerRoutes : CustomerRoutes
  routesNonempty : customerRoutes ≠ []
  customersNonempty : ∀ route ∈ customerRoutes, route ≠ []
  deriving DecidableEq, Repr

/-- The constructor of `EVRPTWPlan`. -/
def EVRPTWPlan.new (customerRoutes : CustomerRoutes) : Except PyExc EVRPTWPlan :=
  if h : customerRoutes ≠ [] ∧ ∀ route ∈ customerRoutes, route ≠ [] then .ok ⟨customerRoutes, h.1, h.2⟩
  else .error (.valueError "EVRPTW plans require non-empty customer routes")

/-- The body of the loops of `_iter_relocate_plans`. -/
def relocated (routes : CustomerRoutes) (sourceIndex sourcePosition : ℕ) (source : List String)
    (customer : String) (targetIndex targetPosition : ℕ) (target : List String) : CustomerRoutes :=
  let shortened := source.take sourcePosition ++ source.drop (sourcePosition + 1)
  if sourceIndex = targetIndex then
    let insertion := targetPosition - (if targetPosition > sourcePosition then 1 else 0)
    routes.set sourceIndex (shortened.take insertion ++ customer :: shortened.drop insertion)
  else
    ((routes.set sourceIndex shortened).set targetIndex
      (target.take targetPosition ++ customer :: target.drop targetPosition)).filter fun route => route ≠ []

/-- `_iter_relocate_plans`, before the constructor. -/
def relocateRoutes (routes : CustomerRoutes) : List CustomerRoutes :=
  routes.zipIdx.flatMap fun (source, sourceIndex) =>
    source.zipIdx.flatMap fun (customer, sourcePosition) =>
      routes.zipIdx.flatMap fun (target, targetIndex) =>
        (List.range (target.length + 1)).filterMap fun targetPosition =>
          if sourceIndex = targetIndex ∧
              (targetPosition = sourcePosition ∨ targetPosition = sourcePosition + 1) then none
          else some (relocated routes sourceIndex sourcePosition source customer targetIndex targetPosition target)

/-- `changed[position[0]][position[1]]`. -/
def customerAt (routes : CustomerRoutes) (position : ℕ × ℕ) : String :=
  (routes.getD position.1 []).getD position.2 ""

/-- `changed[position[0]][position[1]] = customer`. -/
def assignAt (routes : CustomerRoutes) (position : ℕ × ℕ) (customer : String) : CustomerRoutes :=
  routes.modify position.1 fun route => route.set position.2 customer

def positions (routes : CustomerRoutes) : List (ℕ × ℕ) :=
  routes.zipIdx.flatMap fun (route, routeIndex) =>
    (List.range route.length).map fun position => (routeIndex, position)

/-- `_iter_swap_plans`, before the constructor. -/
def swapRoutes (routes : CustomerRoutes) : List CustomerRoutes :=
  (positions routes).zipIdx.flatMap fun (left, leftIndex) =>
    ((positions routes).drop (leftIndex + 1)).map fun right =>
      assignAt (assignAt routes left (customerAt routes right)) right (customerAt routes left)

/-- `_iter_merge_plans`, before the constructor. -/
def mergeRoutes (routes : CustomerRoutes) : List CustomerRoutes :=
  (List.range routes.length).flatMap fun left =>
    (List.range' (left + 1) (routes.length - (left + 1))).flatMap fun right =>
      let leftRoute := routes.getD left []
      let rightRoute := routes.getD right []
      [leftRoute ++ rightRoute, rightRoute ++ leftRoute].map fun merged =>
        let changed := (routes.zipIdx.filter fun (_, index) => index ≠ left ∧ index ≠ right).map Prod.fst
        changed.take left ++ merged :: changed.drop left

def canonicalNeighborhoodPlans (routes : CustomerRoutes) : Except PyExc (List EVRPTWPlan) := do
  let plans ← (mergeRoutes routes ++ relocateRoutes routes ++ swapRoutes routes).mapM EVRPTWPlan.new
  pure (firsts id [] plans)

end TxnOpt.Evrptw
