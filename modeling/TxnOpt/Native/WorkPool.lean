import TxnOpt.Native.RoundTransaction

/-!
# The work pool

`NativeWorkPool` as one caller at a time sees it: how a call is cut into tasks, how the workers record a
receipt for each task, and what `parallel_for` and `consume_task_receipts` throw. Every call gives the pool
it leaves. The clock readings and the sequence number of a receipt are left out: nothing reads them.
-/

namespace TxnOpt.Native

/-- `NativeWorkPool::TaskReceipt`: who ran which indices. -/
structure TaskReceipt where
  workerIndex : ℕ
  firstIndex : ℕ
  lastIndex : ℕ
  deriving DecidableEq, Repr

def maximumTaskReceipts : ℕ := 65536

/-- The indices of a task, from `first` up to and without `last`. -/
structure TaskRange where
  first : ℕ
  last : ℕ
  deriving DecidableEq, Repr

/-- Consecutive ranges of the given sizes, from `first` on. -/
def rangesFrom (first : ℕ) : List ℕ → List TaskRange
  | [] => []
  | size :: sizes => ⟨first, first + size⟩ :: rangesFrom (first + size) sizes

/-- As many chunks as there are threads, at most one an index; the first ones take the remainder. -/
def chunkRanges (count threadCount : ℕ) : List TaskRange :=
  let chunkCount := min count threadCount
  rangesFrom 0 <| (List.range chunkCount).map fun chunk =>
    count / chunkCount + if chunk < count % chunkCount then 1 else 0

def defaultMaximumPendingTasks (threadCount : ℕ) : ℕ := max 1 (threadCount * 2)

structure WorkPool where
  threadCount : ℕ
  maximumPendingTasks : ℕ
  /-- Receipts go to a sink and its flush, and none is kept. -/
  hasSink : Bool
  taskReceipts : List TaskReceipt := []
  taskReceiptError : Option CppError := none
  deriving DecidableEq, Repr

/-- What the threads, the sink and its flush do in one call of `parallel_for`: the order in which its tasks
are done, the worker of each task, and what is thrown for its receipt and by the flush. -/
structure Service where
  order : ℕ → List ℕ
  order_perm : ∀ taskCount, (order taskCount).Perm (List.range taskCount)
  worker : ℕ → ℕ
  sinkError : ℕ → Option CppError
  flushError : Option CppError

namespace WorkPool

/-- The constructor. -/
def new (threadCount : Int) (maximumPendingTasks : ℕ) (taskReceiptSink taskReceiptFlush : Bool) :
    Except CppError WorkPool :=
  if taskReceiptSink ≠ taskReceiptFlush then
    .error (.invalidArgument "native work-pool task receipt sink/flush must be paired")
  else if threadCount < 0 then
    .error (.invalidArgument "native work-pool thread count must be non-negative")
  else
    .ok
      { threadCount := threadCount.toNat
        maximumPendingTasks :=
          if maximumPendingTasks ≠ 0 then maximumPendingTasks
          else defaultMaximumPendingTasks threadCount.toNat
        hasSink := taskReceiptSink }

variable (pool : WorkPool)

/-- The first error is the one that stays. -/
def rememberTaskReceiptError (error : CppError) : WorkPool :=
  { pool with taskReceiptError := pool.taskReceiptError.or (some error) }

/-- The pool's own list of receipts is bounded. -/
def storeTaskReceipt (receipt : TaskReceipt) : Except CppError WorkPool :=
  if pool.taskReceipts.length = maximumTaskReceipts then
    .error (.runtimeError "native work-pool task receipt capacity exceeded")
  else .ok { pool with taskReceipts := pool.taskReceipts ++ [receipt] }

/-- `record_task_receipt`, with what the sink throws at this receipt. -/
def recordTaskReceipt (sinkError : Option CppError) (receipt : TaskReceipt) : WorkPool × Option CppError :=
  let stored :=
    if pool.hasSink then
      match sinkError with
      | some error => .error error
      | none => .ok pool
    else pool.storeTaskReceipt receipt
  match stored with
  | .ok stored => (stored, none)
  | .error error => (pool.rememberTaskReceiptError error, some error)

def flushTaskReceipts (flushError : Option CppError) : WorkPool × Option CppError :=
  if pool.hasSink then
    match flushError with
    | some error => (pool.rememberTaskReceiptError error, some error)
    | none => (pool, none)
  else (pool, none)

/-- What the task's own function keeps: the first error of its indices. -/
def taskError (function : ℕ → Option CppError) (range : TaskRange) : Option CppError :=
  (List.range' range.first (range.last - range.first)).findSome? function

/-- A worker runs one task, records its receipt and completes it; `error` is the error of the call so far. -/
def serveTask (function : ℕ → Option CppError) (service : Service) (ranges : List TaskRange)
    (served : WorkPool × Option CppError) (task : ℕ) : WorkPool × Option CppError :=
  match ranges[task]? with
  | none => served
  | some range =>
      let error := served.2.or (taskError function range)
      let recorded := served.1.recordTaskReceipt (service.sinkError task)
        ⟨service.worker task, range.first, range.last⟩
      (recorded.1, error.or recorded.2)

/-- `parallel_for`, called from outside the pool; `function` gives what each index throws. -/
def parallelFor (count : ℕ) (function : ℕ → Option CppError) (service : Service) :
    WorkPool × Option CppError :=
  match pool.taskReceiptError with
  | some error => (pool, some error)
  | none =>
      if count = 0 then pool.flushTaskReceipts service.flushError
      else if pool.threadCount = 0 then
        (pool, some (.runtimeError "disabled native work pool cannot execute local work"))
      else
        let ranges := chunkRanges count pool.threadCount
        if ranges = [] ∨ ranges.length > pool.maximumPendingTasks then
          (pool, some (.invalidArgument "native work-pool batch exceeds the bounded queue"))
        else
          let served := (service.order ranges.length).foldl (serveTask function service ranges) (pool, none)
          let flushed := served.1.flushTaskReceipts service.flushError
          (flushed.1, (served.2.or flushed.2).or flushed.1.taskReceiptError)

/-- `consume_task_receipts` between two calls, when no task is queued or active. -/
def consumeTaskReceipts : WorkPool × Except CppError (List TaskReceipt) :=
  match pool.taskReceiptError with
  | some error => (pool, .error error)
  | none => ({ pool with taskReceipts := [] }, .ok pool.taskReceipts)

end WorkPool

end TxnOpt.Native
