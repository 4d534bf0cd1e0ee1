import TxnOpt.Evrptw.Models
import Mathlib.Data.Prod.Lex
import Mathlib.Data.List.Sort
import Mathlib.Order.WithBot

/-!
# The native batched charging search

`run_exact_charging_batch`: one search for each route of a batch, interleaved in rounds. Nodes are indices
into shared tables; labels live in one vector per route, are killed by a flag and know their parent by
index. `expired` answers the deadline checks by their number.
-/

namespace TxnOpt.Evrptw.Native

/-- The tables all routes share. -/
structure Tables (K : Type) where
  nodeCount : ℕ
  nodeKinds : ℕ → NodeType
  ready : ℕ → K
  due : ℕ → K
  service : ℕ → K
  distances : ℕ → ℕ → K
  vehicle : Vehicle K
  depot : ℕ
  stations : List ℕ

/-- A label; `parent` is `none` where the source has `-1`. -/
structure ExactLabel (K : Type) where
  progress : ℕ
  node : ℕ
  elapsedTime : K
  battery : K
  distance : K
  totalEnergy : K
  chargedEnergy : K
  chargingTime : K
  parent : Option ℕ
  live : Bool

structure ExactQueueEntry (K : Type) where
  distance : K
  elapsedTime : K
  negativeProgress : ℤ
  serial : ℕ
  labelIndex : ℕ

def ExactQueueEntry.key {K : Type} (entry : ExactQueueEntry K) : K ×ₗ K ×ₗ ℤ ×ₗ ℕ :=
  toLex (entry.distance, toLex (entry.elapsedTime, toLex (entry.negativeProgress, entry.serial)))

/-- `stateLabels` is indexed by progress and node, as `group_index` is. -/
structure ExactSearchState (K : Type) where
  order : List ℕ
  labels : List (ExactLabel K)
  stateLabels : ℕ × ℕ → List ℕ
  queue : List (ExactQueueEntry K)
  best : Option (ExactLabel K)
  generated : ℕ
  expanded : ℕ
  pruned : ℕ
  serial : ℕ
  completed : Bool

structure ExactRequest where
  route : ℕ
  labelIndex : ℕ
  destination : ℕ
  progress : ℕ

variable {K : Type} [Field K] [LinearOrder K]

/-- `state.labels[index]`. -/
def ExactSearchState.label (state : ExactSearchState K) (index : ℕ) : ExactLabel K :=
  state.labels.getD index ⟨0, 0, 0, 0, 0, 0, 0, 0, none, false⟩

section Labels

variable (epsilon : K)

def exactDominates (left right : ExactLabel K) : Bool :=
  (left.elapsedTime ≤ right.elapsedTime + epsilon ∧ left.battery + epsilon ≥ right.battery ∧
    left.distance ≤ right.distance + epsilon) ∧
  (left.elapsedTime < right.elapsedTime - epsilon ∨ left.battery > right.battery + epsilon ∨
    left.distance < right.distance - epsilon)

def exactBetterTerminal (candidate incumbent : ExactLabel K) : Bool :=
  toLex (candidate.distance, candidate.elapsedTime) < toLex (incumbent.distance, incumbent.elapsedTime)

end Labels

/-- `pop_live_exact_label`: the first live label, and the queue after it. -/
def popLive (state : ExactSearchState K) :
    List (ExactQueueEntry K) → Option ℕ × List (ExactQueueEntry K)
  | [] => (none, [])
  | entry :: rest =>
      if (state.label entry.labelIndex).live then (some entry.labelIndex, rest) else popLive state rest

/-- The nodes from a label back to the first one, following the parents. -/
def ancestry (state : ExactSearchState K) : ℕ → Option ℕ → List ℕ
  | 0, _ => []
  | _ + 1, none => []
  | fuel + 1, some index =>
      let label := state.label index
      label.node :: ancestry state fuel label.parent

/-- `reconstruct_exact_path`. A parent is always an older label, so no path is longer than the vector. -/
def reconstructExactPath (state : ExactSearchState K) (terminal : ExactLabel K) : List ℕ :=
  (terminal.node :: ancestry state state.labels.length terminal.parent).reverse

section Search

variable (tables : Tables K) (epsilon : K)

def startState (order : List ℕ) : ExactSearchState K :=
  { order := order
    labels := [⟨0, tables.depot, max 0 (tables.ready tables.depot), tables.vehicle.batteryCapacity, 0, 0,
      0, 0, none, true⟩]
    stateLabels := Function.update (fun _ => []) (0, tables.depot) [0]
    queue := [⟨0, max 0 (tables.ready tables.depot), 0, 0, 0⟩]
    best := none
    generated := 1
    expanded := 0
    pruned := 0
    serial := 1
    completed := false }

/-- The candidate of one request; `none` where the source prunes it. -/
def candidate (label : ExactLabel K) (request : ExactRequest) : Option (ExactLabel K) :=
  let destination := request.destination
  let legDistance := tables.distances label.node destination
  let energy := legDistance * tables.vehicle.consumptionRate
  if energy > label.battery + epsilon then none
  else
    let battery := max 0 (label.battery - energy)
    let elapsed := max (label.elapsedTime + legDistance / tables.vehicle.averageVelocity)
      (tables.ready destination)
    if elapsed > tables.due destination + epsilon then none
    else
      let reached (elapsed battery charged chargingTime : K) : ExactLabel K :=
        ⟨request.progress, destination, elapsed, battery, label.distance + legDistance,
          label.totalEnergy + energy, label.chargedEnergy + charged,
          label.chargingTime + chargingTime, some request.labelIndex, true⟩
      match tables.nodeKinds destination with
      | .customer => some (reached (elapsed + tables.service destination) battery 0 0)
      | .station =>
          let charged := tables.vehicle.batteryCapacity - battery
          let chargingTime := charged * tables.vehicle.inverseRefuelingRate
          if elapsed + chargingTime > tables.due destination + epsilon then none
          else
            some (reached (elapsed + chargingTime) tables.vehicle.batteryCapacity charged chargingTime)
      | .depot => some (reached elapsed battery 0 0)

/-- Mark the given labels dead. -/
def kill (labels : List (ExactLabel K)) (dead : List ℕ) : List (ExactLabel K) :=
  labels.mapIdx (fun index label => if index ∈ dead then { label with live := false } else label)

/-- A candidate that did not close its route. -/
def insert (state : ExactSearchState K) (label : ExactLabel K) : ExactSearchState K :=
  let group := (label.progress, label.node)
  let current := state.stateLabels group
  if current.any (fun existing => exactDominates epsilon (state.label existing) label) then
    { state with pruned := state.pruned + 1 }
  else
    let dominated := current.filter (fun existing => exactDominates epsilon label (state.label existing))
    let survivors := current.filter
      (fun existing => !exactDominates epsilon label (state.label existing))
    let serial := state.serial + 1
    { state with
      labels := kill state.labels dominated ++ [label]
      stateLabels := Function.update state.stateLabels group (survivors ++ [state.labels.length])
      queue := state.queue.orderedInsert (fun left right => left.key ≤ right.key)
        ⟨label.distance, label.elapsedTime, -(label.progress : ℤ), serial, state.labels.length⟩
      pruned := state.pruned + dominated.length
      serial := serial }

/-- One request of a chunk. -/
def serve (state : ExactSearchState K) (request : ExactRequest) : ExactSearchState K :=
  let state := { state with generated := state.generated + 1 }
  match candidate tables epsilon (state.label request.labelIndex) request with
  | none => { state with pruned := state.pruned + 1 }
  | some reached =>
      if request.progress = state.order.length ∧ tables.nodeKinds request.destination = .depot then
        if state.best.all (fun best => exactBetterTerminal reached best) then
          { state with best := some reached }
        else state
      else insert epsilon state reached

/-- The requests that expand label `index` of `route`. -/
def requestsOf (route index : ℕ) (state : ExactSearchState K) : List ExactRequest :=
  let label := state.label index
  (match state.order[label.progress]? with
    | some customer => ⟨route, index, customer, label.progress + 1⟩
    | none => ⟨route, index, tables.depot, label.progress⟩) ::
    (tables.stations.filter (fun station => station ≠ label.node)).map
      (fun station => ⟨route, index, station, label.progress⟩)

end Search

/-- The variables of the search loop; three of the batch counters are counted here. -/
structure Batch (K : Type) where
  states : List (ExactSearchState K)
  chunks : ℕ
  requested : ℕ
  checks : ℕ
  searchRound : ℕ
  completionOrder : List ℕ
  completionRounds : ℕ → Option ℕ
  deadlineHit : Bool

/-- What the loop over the routes hands to the rest of its round. -/
structure Round (K : Type) where
  batch : Batch K
  requests : List ExactRequest
  progressed : Bool

section Rounds

variable (tables : Tables K) (epsilon : K) (expired : ℕ → Bool) (batchSize : ℕ)

/-- `deadline_hit = deadline_expired()`. -/
def Batch.check (batch : Batch K) : Batch K :=
  { batch with checks := batch.checks + 1, deadlineHit := expired batch.checks }

/-- The body of the loop over the routes, after its deadline check, for a route not yet completed. -/
def poll (round : Round K) (route : ℕ) (state : ExactSearchState K) : Round K :=
  let batch := round.batch
  match popLive state state.queue with
  | (none, queue) =>
      let checked := batch.check expired
      if checked.deadlineHit then
        { round with batch := { checked with states := checked.states.set route { state with queue } } }
      else
        { round with
          batch :=
            { checked with
              states := checked.states.set route { state with queue, completed := true }
              completionOrder := checked.completionOrder ++ [route]
              completionRounds :=
                Function.update checked.completionRounds route (some checked.searchRound) } }
  | (some index, queue) =>
      if state.best.any (fun best => (state.label index).distance ≥ best.distance - epsilon) then
        { round with
          batch :=
            { batch with states := batch.states.set route { state with queue, pruned := state.pruned + 1 } }
          progressed := true }
      else
        { batch :=
            { batch with
              states := batch.states.set route { state with queue, expanded := state.expanded + 1 } }
          requests := round.requests ++ requestsOf tables route index state
          progressed := true }

/-- The loop over the routes; it breaks when the deadline is hit. -/
def pollRoutes (round : Round K) : List ℕ → Round K
  | [] => round
  | route :: rest =>
      let checked := { round with batch := round.batch.check expired }
      if checked.batch.deadlineHit then checked
      else
        match checked.batch.states[route]? with
        | none => pollRoutes checked rest
        | some state =>
            if state.completed then pollRoutes checked rest
            else
              let next := poll tables epsilon expired checked route state
              if next.batch.deadlineHit then next else pollRoutes next rest

/-- Serve one request in the state of its route. -/
def serveRoute (states : List (ExactSearchState K)) (request : ExactRequest) :
    List (ExactSearchState K) :=
  states.modify request.route (fun state => serve tables epsilon state request)

/-- The chunk loop, for at most `fuel` chunks. -/
def serveChunks : ℕ → List ExactRequest → Batch K → Batch K
  | 0, _, batch => batch
  | fuel + 1, requests, batch =>
      if requests.isEmpty then batch
      else
        let checked := batch.check expired
        if checked.deadlineHit then checked
        else
          let chunk := requests.take batchSize
          serveChunks fuel (requests.drop batchSize)
            { checked with
              states := chunk.foldl (serveRoute tables epsilon) checked.states
              chunks := checked.chunks + 1
              requested := checked.requested + chunk.length }

/-- One round of the search loop; the flag tells whether the loop breaks. -/
def round (batch : Batch K) : Batch K × Bool :=
  let polled := pollRoutes tables epsilon expired
    ⟨{ batch with searchRound := batch.searchRound + 1 }, [], false⟩ (List.range batch.states.length)
  let checked := polled.batch.check expired
  if checked.deadlineHit then (checked, true)
  else if polled.requests.isEmpty then (checked, !polled.progressed)
  else
    let served := serveChunks tables epsilon expired batchSize polled.requests.length polled.requests
      checked
    (served, served.deadlineHit)

/-- The search loop, for at most `fuel` rounds. -/
def searchLoop : ℕ → Batch K → Option (Batch K)
  | 0, _ => none
  | fuel + 1, batch =>
      if batch.deadlineHit then some batch
      else
        match round tables epsilon expired batchSize batch with
        | (next, true) => some next
        | (next, false) => searchLoop fuel next

end Rounds

/-! ### The output arrays -/

def feasibleStatus : ℤ := 0

def infeasibleStatus : ℤ := 1

def interruptedStatus : ℤ := 2

def noFailureReason : ℤ := 0

def noFeasiblePatternReason : ℤ := 1

def deadlineReason : ℤ := 2

/-- One row of `metrics`; `⊤` is infinity. -/
structure Metrics (K : Type) where
  distance : WithTop K
  totalEnergy : K
  chargedEnergy : K
  chargingTime : K

/-- One row of `label_counters`. -/
structure LabelCounters where
  generated : ℕ
  expanded : ℕ
  pruned : ℕ
  deriving DecidableEq, Repr

/-- The ten entries of `batch_counters`, in their order. -/
structure BatchCounters where
  requested : ℕ
  started : ℕ
  completed : ℕ
  interrupted : ℕ
  calls : ℕ
  chunks : ℕ
  requests : ℕ
  checks : ℕ
  dispatches : ℕ
  batchSize : ℕ
  deriving DecidableEq, Repr

/-- One row of `physical_task_receipts`. -/
structure TaskReceipt where
  task : ℤ
  worker : ℤ
  first : ℤ
  last : ℤ
  submitted : ℤ
  started : ℤ
  completed : ℤ
  deriving DecidableEq, Repr

/-- `ExactBatchOutput`, two-dimensional arrays as lists of rows. -/
structure ExactBatchOutput (K : Type) where
  pathOffsets : List ℕ
  pathIndices : List ℕ
  statuses : List ℤ
  reasons : List ℤ
  metrics : List (Metrics K)
  labelCounters : List LabelCounters
  batchCounters : BatchCounters
  completionOrder : List ℕ
  completionRounds : List ℤ
  physicalCompletionOrder : List ℕ
  physicalTaskReceipts : List TaskReceipt

/-- The output before anything has run, with the given number of deadline checks made. -/
def untouched (routeCount batchSize checks : ℕ) : ExactBatchOutput K :=
  { pathOffsets := List.replicate (routeCount + 1) 0
    pathIndices := []
    statuses := List.replicate routeCount interruptedStatus
    reasons := List.replicate routeCount deadlineReason
    metrics := List.replicate routeCount ⟨0, 0, 0, 0⟩
    labelCounters := List.replicate routeCount ⟨0, 0, 0⟩
    batchCounters :=
      { requested := routeCount
        started := routeCount
        completed := 0
        interrupted := routeCount
        calls := if routeCount = 0 then 0 else 1
        chunks := 0
        requests := 0
        checks := checks
        dispatches := if routeCount = 0 then 0 else 1
        batchSize := batchSize }
    completionOrder := []
    completionRounds := List.replicate routeCount (-1)
    physicalCompletionOrder := []
    physicalTaskReceipts := [] }

/-- What the last loop over the routes accumulates. -/
structure Results (K : Type) where
  rawOffsets : List ℕ
  pathIndices : List ℕ
  statuses : List ℤ
  reasons : List ℤ
  metrics : List (Metrics K)
  labelCounters : List LabelCounters
  completed : ℕ
  completionOrder : List ℕ
  completionRounds : List ℤ

/-- The last loop at one route. -/
def classify (batch : Batch K) (results : Results K) (route : ℕ) (state : ExactSearchState K) :
    Results K :=
  let labelCounters := results.labelCounters ++ [⟨state.generated, state.expanded, state.pruned⟩]
  if !state.completed && batch.deadlineHit then
    { results with
      rawOffsets := results.rawOffsets ++ [0]
      statuses := results.statuses ++ [interruptedStatus]
      reasons := results.reasons ++ [deadlineReason]
      metrics := results.metrics ++ [⟨0, 0, 0, 0⟩]
      labelCounters
      completionRounds := results.completionRounds ++ [-1] }
  else
    let recorded := batch.completionRounds route
    let results :=
      { results with
        labelCounters
        completed := results.completed + 1
        completionOrder :=
          if recorded.isNone then results.completionOrder ++ [route] else results.completionOrder
        completionRounds :=
          results.completionRounds ++ [((recorded.getD (batch.searchRound + 1) : ℕ) : ℤ)] }
    match state.best with
    | none =>
        { results with
          rawOffsets := results.rawOffsets ++ [0]
          statuses := results.statuses ++ [infeasibleStatus]
          reasons := results.reasons ++ [noFeasiblePatternReason]
          metrics := results.metrics ++ [⟨⊤, 0, 0, 0⟩] }
    | some best =>
        let pathIndices := results.pathIndices ++ reconstructExactPath state best
        { results with
          rawOffsets := results.rawOffsets ++ [pathIndices.length]
          pathIndices
          statuses := results.statuses ++ [feasibleStatus]
          reasons := results.reasons ++ [noFailureReason]
          metrics := results.metrics ++
            [⟨best.distance, best.totalEnergy, best.chargedEnergy, best.chargingTime⟩] }

def classifyAll (batch : Batch K) (results : Results K) (route : ℕ) :
    List (ExactSearchState K) → Results K
  | [] => results
  | state :: rest => classifyAll batch (classify batch results route state) (route + 1) rest

/-- A zero offset takes over the one before it. -/
def carryOffsets (previous : ℕ) : List ℕ → List ℕ
  | [] => []
  | offset :: rest =>
      let carried := if offset = 0 then previous else offset
      carried :: carryOffsets carried rest

def outputOf (batchSize : ℕ) (batch : Batch K) : ExactBatchOutput K :=
  let results := classifyAll batch ⟨[], [], [], [], [], [], 0, batch.completionOrder, []⟩ 0 batch.states
  let routeCount := batch.states.length
  { pathOffsets := 0 :: carryOffsets 0 results.rawOffsets
    pathIndices := results.pathIndices
    statuses := results.statuses
    reasons := results.reasons
    metrics := results.metrics
    labelCounters := results.labelCounters
    batchCounters :=
      { requested := routeCount
        started := routeCount
        completed := results.completed
        interrupted := routeCount - results.completed
        calls := if routeCount = 0 then 0 else 1
        chunks := batch.chunks
        requests := batch.requested
        checks := batch.checks
        dispatches := if routeCount = 0 then 0 else 1
        batchSize := batchSize }
    completionOrder := results.completionOrder
    completionRounds := results.completionRounds
    physicalCompletionOrder := []
    physicalTaskReceipts := [] }

/-- The customers of a route: `order_indices` from its offset up to the next one. -/
def routeOrder (orderOffsets orderIndices : List ℕ) (route : ℕ) : List ℕ :=
  let first := orderOffsets.getD route 0
  (orderIndices.drop first).take (orderOffsets.getD (route + 1) 0 - first)

/-- The number of the first check at which the deadline has expired, among `count` checks from `first`. -/
def firstExpired (expired : ℕ → Bool) (first : ℕ) : ℕ → Option ℕ
  | 0 => none
  | count + 1 => if expired first then some first else firstExpired expired (first + 1) count

/-- `run_exact_charging_batch`; `none` when `fuel` rounds do not end the search. One deadline check comes
before the set-up, one before each route of it. -/
def runExactChargingBatch (tables : Tables K) (epsilon : K) (expired : ℕ → Bool) (batchSize : ℕ)
    (orderOffsets orderIndices : List ℕ) (routeCount fuel : ℕ) : Option (ExactBatchOutput K) :=
  match firstExpired expired 0 (routeCount + 1) with
  | some check => some (untouched routeCount batchSize (check + 1))
  | none =>
      let states := (List.range routeCount).map
        (fun route => startState tables (routeOrder orderOffsets orderIndices route))
      let batch : Batch K := ⟨states, 0, 0, routeCount + 1, 0, [], fun _ => none, false⟩
      (searchLoop tables epsilon expired batchSize fuel (batch.check expired)).map (outputOf batchSize)

end TxnOpt.Evrptw.Native

namespace TxnOpt.Evrptw.Instance

open Native

variable {K : Type} [Field K] [LinearOrder K] (inst : Instance K)

/-- The node with index `index`. -/
def node (index : ℕ) : Node K :=
  inst.nodes.getD index inst.depot

/-- The tables of an instance: its nodes in their order, and its distances. -/
def tables (distance : Node K → Node K → K) : Tables K :=
  { nodeCount := inst.nodes.length
    nodeKinds := fun index => (inst.node index).kind
    ready := fun index => (inst.node index).readyTime
    due := fun index => (inst.node index).dueDate
    service := fun index => (inst.node index).serviceTime
    distances := fun origin destination => distance (inst.node origin) (inst.node destination)
    vehicle := inst.vehicle
    depot := inst.nodes.findIdx (fun node => node.kind = .depot)
    stations := (List.range inst.nodes.length).filter (fun index => (inst.node index).kind = .station) }

end TxnOpt.Evrptw.Instance
