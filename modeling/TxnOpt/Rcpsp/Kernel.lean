import TxnOpt.Lib.Firsts
import TxnOpt.Rcpsp.Model

/-!
# The proposal kernel

`RCPSPSearchKernel.propose`: the reinsertions of activity blocks, then the mode changes, each proposal once.
-/

namespace TxnOpt.Rcpsp

structure RCPSPSearchKernel where
  inst : RCPSPInstance
  maxBlockSize : ℕ
  maxCandidates : ℕ
  blockSizePos : 0 < maxBlockSize
  candidatesPos : 0 < maxCandidates

/-- The orders with one block of at most `maxBlockSize` activities in another place. -/
def movedOrders (order : List Int) (maxBlockSize : ℕ) : List (List Int) :=
  (List.range' 1 (min maxBlockSize order.length)).flatMap fun blockSize =>
    (List.range (order.length - blockSize + 1)).flatMap fun start =>
      let block := (order.drop start).take blockSize
      let remainder := order.take start ++ order.drop (start + blockSize)
      (List.range (remainder.length + 1)).filterMap fun insertion =>
        let moved := remainder.take insertion ++ block ++ remainder.drop insertion
        if moved = order then none else some moved

/-- The state with the order `moved`, every activity in the mode that it has. -/
def movedState (snapshot : RCPSPState) (moved : List Int) : Except PyExc RCPSPState := do
  let modes ← moved.mapM fun item => foundOr (keyError item) (snapshot.modeByActivity item)
  RCPSPState.new moved modes

namespace RCPSPSearchKernel

variable (kernel : RCPSPSearchKernel)

/-- The states with the activity at `position` in another of its modes. -/
def changedModes (snapshot : RCPSPState) (activityId : Int) (position : ℕ) : Except PyExc (List RCPSPState) := do
  let activity ← foundOr (keyError activityId) (kernel.inst.byId activityId)
  let current ← foundOr (keyError activityId) (snapshot.modeByActivity activityId)
  ((List.range activity.modes.length).filter fun modeIndex => modeIndex ≠ current).mapM fun modeIndex =>
    RCPSPState.new snapshot.activityOrder (snapshot.modeVector.set position modeIndex)

/-- `unique`. -/
def uniqueProposals (snapshot : RCPSPState) : Except PyExc (List RCPSPState) := do
  let moved ← (movedOrders snapshot.activityOrder kernel.maxBlockSize).mapM (movedState snapshot)
  let changed ← snapshot.activityOrder.zipIdx.mapM fun (activityId, position) =>
    kernel.changedModes snapshot activityId position
  pure (firsts id [] (moved ++ changed.flatten))

def propose (snapshot : RCPSPSchedule) (roundId : Int) (randomTape : List Int) :
    Except PyExc (List RCPSPState) :=
  match randomTape with
  | [] => .error (.valueError "RCPSP proposal requires a non-empty random tape")
  | first :: _ => do
      let unique ← kernel.uniqueProposals snapshot.state
      if unique = [] then pure []
      else
        let offset := ((first + roundId) % unique.length).toNat
        pure ((unique.drop offset ++ unique.take offset).take (kernel.maxCandidates * 4))

end RCPSPSearchKernel

end TxnOpt.Rcpsp
