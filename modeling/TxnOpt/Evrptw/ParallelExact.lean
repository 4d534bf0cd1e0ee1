import TxnOpt.Evrptw.Native
import TxnOpt.Lib.Lexicographic
import TxnOpt.Native.WorkPool
import Mathlib.Data.Prod.Lex

/-!
# The parallel exact round

`run_exact_charging_parallel`: the routes in contiguous chunks, one index of the pool's `parallel_for` each,
and the outputs of the chunks merged in chunk order. What the clock and the pool's threads do is given with
every call.
-/

namespace TxnOpt.Evrptw.Native

open TxnOpt.Native

variable {K : Type} [Field K]

/-- The arguments; `offsets` is a pointer, and `runBatch` the chunk function. -/
structure ExactCall (K : Type) where
  offsets : Option (List ℤ)
  indices : List ℤ
  routeCount : ℕ
  deadlineRemaining : K
  runBatch : List ℤ → List ℤ → ℕ → K → Except CppError (ExactBatchOutput K)

/-- What happens around one call: the pool's service, the worker and the clock readings of each chunk. The
clock is steady, and a chunk is dispatched before it starts. -/
structure Occasion (K : Type) where
  service : Service
  worker : ℕ → ℕ
  submitted : ℤ
  started : ℕ → ℤ
  completed : ℕ → ℤ
  elapsed : ℕ → K
  submitted_le : ∀ chunk, submitted ≤ started chunk
  started_le : ∀ chunk, started chunk ≤ completed chunk

namespace ExactCall

variable (call : ExactCall K) (threadCount : ℕ)

def chunkCount : ℕ := min call.routeCount threadCount

/-- `chunk_bounds`. -/
def chunkBounds (chunk : ℕ) : TaskRange :=
  let base := call.routeCount / call.chunkCount threadCount
  let oversized := call.routeCount % call.chunkCount threadCount
  let first := chunk * base + min chunk oversized
  ⟨first, first + (base + if chunk < oversized then 1 else 0)⟩

/-- The entry of `offsets` at `index`. -/
def offset (index : ℕ) : ℤ := (call.offsets.getD []).getD index 0

/-- The offsets and indices of a chunk, one route appended. -/
def appendRoute (gathered : List ℤ × List ℤ) (route : ℕ) : Except CppError (List ℤ × List ℤ) :=
  let routeFirst := call.offset route
  let routeLast := call.offset (route + 1)
  if routeFirst < 0 ∨ routeLast < routeFirst then
    .error (.runtimeError "native parallel exact route offsets are invalid")
  else
    let chunkIndices := gathered.2 ++
      (call.indices.drop routeFirst.toNat).take (routeLast - routeFirst).toNat
    .ok (gathered.1 ++ [(chunkIndices.length : ℤ)], chunkIndices)

/-- The function of one chunk. -/
def runChunk (occasion : Occasion K) (chunk : ℕ) : Except CppError (ExactBatchOutput K) := do
  let range := call.chunkBounds threadCount chunk
  let gathered ← (List.range' range.first (range.last - range.first)).foldlM call.appendRoute ([0], [])
  call.runBatch gathered.1 gathered.2 (range.last - range.first)
    (call.deadlineRemaining - occasion.elapsed chunk)

/-- What a chunk throws. -/
def chunkError (occasion : Occasion K) (chunk : ℕ) : Option CppError :=
  match call.runChunk threadCount occasion chunk with
  | .ok _ => none
  | .error error => some error

/-- The output that the chunks are merged into. -/
def emptyOutput : ExactBatchOutput K :=
  { pathOffsets := [0]
    pathIndices := []
    statuses := []
    reasons := []
    metrics := []
    labelCounters := []
    batchCounters :=
      { requested := call.routeCount
        started := call.routeCount
        completed := 0
        interrupted := 0
        calls := 1
        chunks := 0
        requests := 0
        checks := 0
        dispatches := 1
        batchSize := 0 }
    completionOrder := []
    completionRounds := List.replicate call.routeCount (-1)
    physicalCompletionOrder := []
    physicalTaskReceipts := [] }

/-- The sums over the chunks. -/
def addCounters (counters child : BatchCounters) : BatchCounters :=
  { counters with
    completed := counters.completed + child.completed
    interrupted := counters.interrupted + child.interrupted
    chunks := counters.chunks + child.chunks
    requests := counters.requests + child.requests
    checks := counters.checks + child.checks }

/-- One chunk's output is merged. -/
def mergeChunk (occasion : Occasion K) (output : ExactBatchOutput K) (chunk : ℕ × ExactBatchOutput K) :
    Except CppError (ExactBatchOutput K) :=
  let range := call.chunkBounds threadCount chunk.1
  let child := chunk.2
  if child.statuses.length ≠ range.last - range.first ∨
      child.completionRounds.length ≠ child.statuses.length ∨
      occasion.started chunk.1 < occasion.submitted ∨
      occasion.completed chunk.1 < occasion.started chunk.1 then
    .error (.runtimeError "native parallel exact child receipt is invalid")
  else
    .ok
      { output with
        pathOffsets := output.pathOffsets ++
          child.pathOffsets.tail.map fun offset => output.pathOffsets.getLastD 0 + offset
        pathIndices := output.pathIndices ++ child.pathIndices
        statuses := output.statuses ++ child.statuses
        reasons := output.reasons ++ child.reasons
        metrics := output.metrics ++ child.metrics
        labelCounters := output.labelCounters ++ child.labelCounters
        batchCounters := addCounters output.batchCounters child.batchCounters
        completionRounds := output.completionRounds.take range.first ++ child.completionRounds ++
          output.completionRounds.drop (range.first + child.completionRounds.length)
        physicalTaskReceipts := output.physicalTaskReceipts ++
          [{ task := chunk.1
             worker := occasion.worker chunk.1
             first := range.first
             last := range.last
             submitted := occasion.submitted
             started := occasion.started chunk.1
             completed := occasion.completed chunk.1 }] }

/-- The routes with a completion round, by round and then by number. -/
def completionOrderOf (completionRounds : List ℤ) : List ℕ :=
  let routes := (List.range completionRounds.length).filter fun route => 0 ≤ completionRounds.getD route (-1)
  sortedBy (fun route => toLex (completionRounds.getD route (-1), route)) routes

/-- The chunks by completion, each with its routes in the order it completed them. -/
def physicalOrder (occasion : Occasion K) (children : List (ExactBatchOutput K)) : List ℕ :=
  let chunks := sortedBy (fun chunk => toLex (occasion.completed chunk, chunk)) (List.range children.length)
  chunks.flatMap fun chunk =>
    ((children[chunk]?.map ExactBatchOutput.completionOrder).getD []).map fun ordinal =>
      (call.chunkBounds threadCount chunk).first + ordinal

/-- The outputs of the chunks, merged. -/
def mergeChunks (occasion : Occasion K) (children : List (ExactBatchOutput K)) :
    Except CppError (ExactBatchOutput K) := do
  let merged ← ((List.range children.length).zip children).foldlM
    (call.mergeChunk threadCount occasion) call.emptyOutput
  .ok
    { merged with
      batchCounters :=
        { merged.batchCounters with
          batchSize := (children.head?.map fun child => child.batchCounters.batchSize).getD 0 }
      completionOrder := completionOrderOf merged.completionRounds
      physicalCompletionOrder := call.physicalOrder threadCount occasion children }

/-- The checks on the input. -/
def inputError (pool : WorkPool) : Option CppError :=
  if call.offsets = none ∨ call.routeCount = 0 ∨ call.offset 0 ≠ 0 ∨ call.offset call.routeCount < 0 then
    some (.invalidArgument "native parallel exact route input is invalid")
  else if pool.threadCount = 0 then
    some (.invalidArgument "native parallel exact work pool is disabled")
  else none

end ExactCall

variable (pool : WorkPool) (call : ExactCall K) (occasion : Occasion K)

/-- The receipts are collected and counted only after a dispatch that has thrown nothing. -/
def collectChunks (chunkCount : ℕ) (result : Except CppError (ExactBatchOutput K)) :
    WorkPool × Except CppError (ExactBatchOutput K) :=
  match pool.consumeTaskReceipts with
  | (consumed, .error error) => (consumed, .error error)
  | (consumed, .ok receipts) =>
      if receipts.length ≠ chunkCount then
        (consumed, .error (.runtimeError "native parallel exact work-pool receipt count is invalid"))
      else (consumed, result)

/-- `run_exact_charging_parallel`. -/
def runExactChargingParallel : WorkPool × Except CppError (ExactBatchOutput K) :=
  match call.inputError pool with
  | some error => (pool, .error error)
  | none =>
      let chunkCount := call.chunkCount pool.threadCount
      match pool.parallelFor chunkCount (call.chunkError pool.threadCount occasion) occasion.service with
      | (dispatched, some error) => (dispatched, .error error)
      | (dispatched, none) =>
          collectChunks dispatched chunkCount do
            let children ← (List.range chunkCount).mapM (call.runChunk pool.threadCount occasion)
            call.mergeChunks pool.threadCount occasion children

/-- The pool after a sequence of calls, whatever they throw. -/
def afterCalls (pool : WorkPool) (calls : List (ExactCall K × Occasion K)) : WorkPool :=
  calls.foldl (fun pool call => (runExactChargingParallel pool call.1 call.2).1) pool

end TxnOpt.Evrptw.Native
