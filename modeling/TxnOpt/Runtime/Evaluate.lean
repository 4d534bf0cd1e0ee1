import TxnOpt.Runtime.Session

/-!
# The three evaluators

`evaluateCandidates` runs the missing candidates of a round in one batch, in contiguous chunks, or in a
sliding window. The parallel evaluators share an executor whose worker threads run whenever the
scheduler lets them: `yieldToWorkers` stands at every point between two actions of the owner where a
worker may be in the middle of its own work.
-/

namespace TxnOpt

/-- `_EvaluationAbort`: a detected evaluation boundary and its live work. -/
structure EvaluationAbort where
  cause : PyExc
  postBoundaryWorkUnits : Nat
  postBoundaryCapacityUnits : Nat

section Executor

variable {W C Cand State Obj : Type}

def modifyExecutor (f : Executor Cand State → Executor Cand State) :
    RunM W C Cand State Obj Unit :=
  Prog.modify fun s => { s with executor := f s.executor }

/-- `ThreadPoolExecutor(...)`, with an empty ordered window. -/
def openExecutor : RunM W C Cand State Obj Unit :=
  modifyExecutor fun e => ⟨[], [], 0, e.tick⟩

def Executor.setStatus (executor : Executor Cand State) (index : Nat)
    (status : FutureStatus State) : Executor Cand State :=
  { executor with futures := executor.futures.modify index fun f => { f with status } }

/-- A worker enters `evaluate_batch` for a queued future. -/
def enterFuture (job : Job W C Cand State Obj) (deadlineNs : Option Int) (index : Nat) :
    RunM W C Cand State Obj Unit := do
  let future ← Prog.read fun s => s.executor.futures[index]?
  match future with
  | some ⟨keys, candidates, workBudget, counted, .queued⟩ => do
      let ledger ← Prog.read Session.budget
      observe (.evaluate ⟨keys, workBudget, ledger, counted⟩)
      let outcome ← Prog.attempt
        (onWorld (job.oracle.evaluateBatch candidates workBudget deadlineNs))
      modifyExecutor fun e => e.setStatus index (.running outcome)
  | _ => pure ()

/-- A worker leaves `evaluate_batch`, and its future is done. -/
def leaveFuture (index : Nat) : RunM W C Cand State Obj Unit :=
  modifyExecutor fun e =>
    match e.futures[index]? with
    | some ⟨_, _, _, _, .running outcome⟩ => e.setStatus index (.finished outcome)
    | _ => e

def workerStep (job : Job W C Cand State Obj) (deadlineNs : Option Int) :
    WorkerStep → RunM W C Cand State Obj Unit
  | .enter index => enterFuture job deadlineNs index
  | .leave index => leaveFuture index

/-- The worker threads run for as long as the scheduler lets them. -/
def yieldToWorkers (job : Job W C Cand State Obj) (deadlineNs : Option Int) :
    RunM W C Cand State Obj Unit := do
  let tick ← Prog.read fun s => s.executor.tick
  modifyExecutor fun e => { e with tick := e.tick + 1 }
  Prog.forEach (workerStep job deadlineNs) (job.runtime.schedule tick)

/-- `executor.submit(oracle.evaluate_batch, ...)`. -/
def submit (entries : List (String × Cand)) (workBudget : Nat) : RunM W C Cand State Obj Unit :=
  modifyExecutor fun e =>
    { e with futures :=
      e.futures ++ [⟨entries.map Prod.fst, entries.map Prod.snd, workBudget, false, .queued⟩] }

/-- `budget.start(work)`. -/
def startWork (work : Nat) : RunM W C Cand State Obj Unit := fun s =>
  match s.budget.start work with
  | .error error => (.error error, s)
  | .ok budget => (.ok (), { s with budget })

/-- `budget.start(work)` for the future submitted last. -/
def startSubmitted (work : Nat) : RunM W C Cand State Obj Unit := do
  startWork work
  modifyExecutor fun e =>
    { e with futures := e.futures.modify (e.futures.length - 1) fun f =>
      { f with counted := true } }

/-- `future.result()`: the owner waits, so the workers run until this future is done. -/
def awaitFuture (job : Job W C Cand State Obj) (deadlineNs : Option Int) (index : Nat) :
    RunM W C Cand State Obj (List State) := do
  yieldToWorkers job deadlineNs
  enterFuture job deadlineNs index
  leaveFuture index
  let future ← Prog.read fun s => s.executor.futures[index]?
  match future with
  | some ⟨_, _, _, _, .finished outcome⟩ => Prog.resume outcome
  | _ => Prog.raise ⟨[.other "CancelledError"], ""⟩

/-- The work of the futures that are not done; each `done()` reads a later moment. -/
def pendingWork (job : Job W C Cand State Obj) (deadlineNs : Option Int) :
    List (Nat × Nat) → RunM W C Cand State Obj Nat
  | [] => pure 0
  | (index, work) :: rest => do
      yieldToWorkers job deadlineNs
      let future ← Prog.read fun s => s.executor.futures[index]?
      let later ← pendingWork job deadlineNs rest
      match future with
      | some future => pure ((if future.done then 0 else work) + later)
      | none => pure later

/-- `future.cancel()`: a future that is already running goes on. -/
def cancelFuture (job : Job W C Cand State Obj) (deadlineNs : Option Int) (index : Nat) :
    RunM W C Cand State Obj Unit := do
  yieldToWorkers job deadlineNs
  modifyExecutor fun e =>
    match e.futures[index]? with
    | some ⟨_, _, _, _, .queued⟩ => e.setStatus index .cancelled
    | _ => e

def FutureStatus.afterShutdown : FutureStatus State → FutureStatus State
  | .queued => .cancelled
  | .running outcome => .finished outcome
  | status => status

/-- `executor.shutdown(wait=True, cancel_futures=True)`. -/
def shutdown (job : Job W C Cand State Obj) (deadlineNs : Option Int) :
    RunM W C Cand State Obj Unit := do
  yieldToWorkers job deadlineNs
  modifyExecutor fun e =>
    { e with futures := e.futures.map fun f => { f with status := f.status.afterShutdown } }

/-- `budget.release_reserved()`. -/
def releaseReserved : RunM W C Cand State Obj Unit :=
  Prog.modify fun s => { s with budget := s.budget.releaseReserved }

end Executor

section Evaluators

variable {W C Cand State Obj : Type}

/-- The serial branch of `_evaluate_candidates`: the whole batch in one call. -/
def evaluateSerial (job : Job W C Cand State Obj) (deadlineNs : Option Int)
    (entries : List (String × Cand)) (workUnits : List Nat) :
    RunM W C Cand State Obj (Except EvaluationAbort (List State)) := do
  startWork workUnits.sum
  let ledger ← Prog.read Session.budget
  observe (.evaluate ⟨entries.map Prod.fst, workUnits.sum, ledger, true⟩)
  let outcome ← Prog.attempt
    (onWorld (job.oracle.evaluateBatch (entries.map Prod.snd) workUnits.sum deadlineNs))
  match outcome with
  | .ok values => pure (.ok values)
  | .error cause => do
      releaseReserved
      pure (.error ⟨cause, 0, 0⟩)

/-- `_contiguous_chunks`: the bounds of `min(workers, count)` chunks whose sizes differ by at most one,
the larger ones first. -/
def contiguousChunks (count workers : Nat) : List (Nat × Nat) :=
  let chunkCount := min workers count
  let quotient := count / chunkCount
  let remainder := count % chunkCount
  let rec loop (index offset : Nat) : Nat → List (Nat × Nat)
    | 0 => []
    | left + 1 =>
        let size := quotient + if index < remainder then 1 else 0
        (offset, offset + size) :: loop (index + 1) (offset + size) left
  loop 0 0 chunkCount

/-- `items[first:last]`. -/
def slice {α : Type} (items : List α) (chunk : Nat × Nat) : List α :=
  (items.drop chunk.1).take (chunk.2 - chunk.1)

/-- Wait for the chunk's future and check the shape of its result. -/
def gatherChunk (job : Job W C Cand State Obj) (deadlineNs : Option Int)
    (item : (Nat × Nat) × Nat) : RunM W C Cand State Obj (List State) := do
  let values ← awaitFuture job deadlineNs item.2
  if values.length ≠ item.1.2 - item.1.1 then
    Prog.raise (.contractError "parallel oracle chunk did not preserve its ordered shape")
  else pure values

def submitChunk (job : Job W C Cand State Obj) (deadlineNs : Option Int)
    (entries : List (String × Cand)) (workUnits : List Nat) (chunk : Nat × Nat) :
    RunM W C Cand State Obj Unit := do
  submit (slice entries chunk) (slice workUnits chunk).sum
  yieldToWorkers job deadlineNs
  startSubmitted (slice workUnits chunk).sum

/-- The part of `_evaluate_barrier` under its `try`. -/
def barrierBody (job : Job W C Cand State Obj) (deadlineNs : Option Int)
    (entries : List (String × Cand)) (workUnits : List Nat) (chunks : List (Nat × Nat)) :
    RunM W C Cand State Obj (List State) := do
  Prog.forEach (submitChunk job deadlineNs entries workUnits) chunks
  let ordered ← Prog.collect (gatherChunk job deadlineNs) chunks.zipIdx
  pure ordered.flatten

/-- What both parallel evaluators do on an exception: count the live work among `live`, cancel it,
release the reservation. -/
def abortEvaluation (job : Job W C Cand State Obj) (deadlineNs : Option Int) (cause : PyExc)
    (live : List (Nat × Nat)) (capacity : Nat) : RunM W C Cand State Obj EvaluationAbort := do
  let pending ← pendingWork job deadlineNs live
  Prog.forEach (fun item => cancelFuture job deadlineNs item.1) live
  releaseReserved
  pure ⟨cause, pending, capacity⟩

/-- `_evaluate_barrier`. -/
def evaluateBarrier (job : Job W C Cand State Obj) (deadlineNs : Option Int)
    (entries : List (String × Cand)) (workUnits : List Nat) :
    RunM W C Cand State Obj (Except EvaluationAbort (List State)) := do
  let chunks := contiguousChunks entries.length job.config.workers
  openExecutor
  let outcome ← Prog.attempt (barrierBody job deadlineNs entries workUnits chunks)
  match outcome with
  | .ok values => do
      shutdown job deadlineNs
      pure (.ok values)
  | .error cause => do
      let submitted ← Prog.read fun s => s.executor.futures.length
      let live := (chunks.take submitted).zipIdx.map fun item =>
        (item.2, (slice workUnits item.1).sum)
      let abort ← abortEvaluation job deadlineNs cause live workUnits.sum
      shutdown job deadlineNs
      pure (.error abort)

/-- The `while` loop of `fill_window`; a pass adds one pending future, so `width` passes suffice. -/
def fillWindow (job : Job W C Cand State Obj) (deadlineNs : Option Int)
    (entries : List (String × Cand)) (workUnits : List Nat) (width : Nat) :
    Nat → RunM W C Cand State Obj Unit
  | 0 => pure ()
  | passes + 1 => do
      let executor ← Prog.read Session.executor
      let index := executor.nextToSubmit
      match entries[index]?, workUnits[index]? with
      | some entry, some work =>
          if executor.pending.length < width then do
            submit [entry] work
            modifyExecutor fun e => { e with pending := e.pending ++ [index] }
            yieldToWorkers job deadlineNs
            startSubmitted work
            modifyExecutor fun e => { e with nextToSubmit := e.nextToSubmit + 1 }
            fillWindow job deadlineNs entries workUnits width passes
          else pure ()
      | _, _ => pure ()

/-- One pass of the ordered evaluator: take the candidate's result, then refill the window. -/
def gatherOrdered (job : Job W C Cand State Obj) (deadlineNs : Option Int)
    (entries : List (String × Cand)) (workUnits : List Nat) (width index : Nat) :
    RunM W C Cand State Obj State := do
  modifyExecutor fun e => { e with pending := e.pending.erase index }
  let values ← awaitFuture job deadlineNs index
  match values with
  | [value] => do
      fillWindow job deadlineNs entries workUnits width width
      pure value
  | _ => Prog.raise (.contractError "ordered oracle result did not preserve its scalar shape")

/-- The part of `_evaluate_ordered` under its `try`. -/
def orderedBody (job : Job W C Cand State Obj) (deadlineNs : Option Int)
    (entries : List (String × Cand)) (workUnits : List Nat) (width : Nat) :
    RunM W C Cand State Obj (List State) := do
  fillWindow job deadlineNs entries workUnits width width
  Prog.collect (gatherOrdered job deadlineNs entries workUnits width) (List.range entries.length)

/-- `_evaluate_ordered`. -/
def evaluateOrdered (job : Job W C Cand State Obj) (deadlineNs : Option Int)
    (entries : List (String × Cand)) (workUnits : List Nat) :
    RunM W C Cand State Obj (Except EvaluationAbort (List State)) := do
  let width := min (min job.config.workers job.config.speculationWindow) entries.length
  openExecutor
  let outcome ← Prog.attempt (orderedBody job deadlineNs entries workUnits width)
  match outcome with
  | .ok values => do
      shutdown job deadlineNs
      pure (.ok values)
  | .error cause => do
      let pending ← Prog.read fun s => s.executor.pending
      let live := pending.map fun index => (index, workUnits.getD index 0)
      let abort ← abortEvaluation job deadlineNs cause live (width * workUnits.foldl max 0)
      shutdown job deadlineNs
      pure (.error abort)

/-- `_evaluate_candidates`. -/
def evaluateCandidates (job : Job W C Cand State Obj) (deadlineNs : Option Int)
    (entries : List (String × Cand)) (workUnits : List Nat) :
    RunM W C Cand State Obj (Except EvaluationAbort (List State)) :=
  if job.config.executionMode = .serial ∨ job.oracle.internalParallelism = true then
    evaluateSerial job deadlineNs entries workUnits
  else if job.config.executionMode = .barrier then
    evaluateBarrier job deadlineNs entries workUnits
  else
    evaluateOrdered job deadlineNs entries workUnits

end Evaluators

end TxnOpt
