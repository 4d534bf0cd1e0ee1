import TxnOpt.Lib.Schedules
import TxnOpt.Native.WorkPool

/-!
# The work pool under every schedule

`NativeWorkPool` with any number of concurrent callers of `parallel_for`, its bounded queue and its worker
threads, where a worker may call the pool again from inside an index. Every section under a mutex is one
step, and so are one call of the function, one receipt and one flush. A wait on a condition variable is a
guard. The pool is not stopping: no call may overlap its destructor. What the function, the sink and the
flush throw is part of the labels.
-/

namespace TxnOpt.Native.WorkPoolSchedules

/-- A chunk of a call. -/
structure Task where
  call : ℕ
  range : TaskRange
  deriving DecidableEq, Repr

/-! ### Calls -/

inductive CallStage
  | unentered
  | enqueueing
  | waiting
  | flushing (error : Option CppError)
  | flushingEmpty
  | checking
  | nested
  | returned
  | thrown (error : CppError)
  deriving DecidableEq, Repr

/-- A call of `parallel_for`. `remaining` and `error` are those of its `Completion`. `accepted` is set once the
call has passed what it checks first. -/
structure Call where
  count : ℕ := 0
  nested : Bool := false
  accepted : Bool := false
  chunks : List TaskRange := []
  remaining : ℕ := 0
  error : Option CppError := none
  stage : CallStage := .unentered
  deriving DecidableEq, Repr

namespace Call

/-- The stage after an attempt that may have thrown. -/
def settle (call : Call) (error : Option CppError) : Call :=
  match error with
  | some error => { call with stage := .thrown error }
  | none => { call with stage := .returned }

def ended (call : Call) : Bool :=
  match call.stage with
  | .returned | .thrown _ => true
  | _ => false

end Call

/-- The steps of a caller from outside the pool. -/
inductive CallerAction
  | enter (count : ℕ)
  | enqueue
  | wake
  | flush (flushError : Option CppError)
  | check
  deriving DecidableEq, Repr

/-- The first step of `parallel_for`: what it refuses, and its chunks. -/
def Call.entered (threadCount : ℕ) (pool : WorkPool) (count : ℕ) (call : Call) : Call :=
  match pool.taskReceiptError with
  | some error => { call with count, stage := .thrown error }
  | none =>
      if count = 0 then { call with count, accepted := true, stage := .flushingEmpty }
      else if threadCount = 0 then
        { call with
          count
          stage := .thrown (.runtimeError "disabled native work pool cannot execute local work") }
      else
        let chunks := chunkRanges count threadCount
        if chunks = [] ∨ chunks.length > pool.maximumPendingTasks then
          { call with
            count
            stage := .thrown (.invalidArgument "native work-pool batch exceeds the bounded queue") }
        else { call with count, accepted := true, chunks, remaining := chunks.length, stage := .enqueueing }

/-- `parallel_for` from outside the pool, one section at a time: the pool and the call after it, and the tasks
that it enqueues. `none` where the caller is elsewhere or has to wait. -/
def callerStep (threadCount id queued : ℕ) (pool : WorkPool) (call : Call) :
    CallStage → CallerAction → Option (WorkPool × Call × List Task)
  | .unentered, .enter count => some (pool, call.entered threadCount pool count, [])
  | .enqueueing, .enqueue =>
      if queued + call.chunks.length > pool.maximumPendingTasks then none
      else some (pool, { call with stage := .waiting }, call.chunks.map (Task.mk id))
  | .waiting, .wake =>
      if call.remaining = 0 then some (pool, { call with stage := .flushing call.error }, []) else none
  | .flushing error, .flush flushError =>
      let flushed := pool.flushTaskReceipts flushError
      match error.or flushed.2 with
      | some error => some (flushed.1, { call with stage := .thrown error }, [])
      | none => some (flushed.1, { call with stage := .checking }, [])
  | .flushingEmpty, .flush flushError =>
      let flushed := pool.flushTaskReceipts flushError
      some (flushed.1, call.settle flushed.2, [])
  | .checking, .check => some (pool, call.settle pool.taskReceiptError, [])
  | _, _ => none

/-! ### Threads -/

inductive FrameStage
  | running
  | reporting
  | recording
  | completing (receiptError : Option CppError)
  | flushing
  deriving DecidableEq, Repr

/-- What a worker thread is at: a task of the queue, or a call of the pool from inside an index. -/
structure Frame where
  task : Task
  nested : Bool
  next : ℕ
  error : Option CppError
  stage : FrameStage
  deriving DecidableEq, Repr

def Frame.ofTask (task : Task) : Frame := ⟨task, false, task.range.first, none, .running⟩

/-- `execute_inline`; without an index the receipts are flushed at once. -/
def Frame.ofNested (id count : ℕ) : Frame :=
  ⟨⟨id, ⟨0, count⟩⟩, true, 0, none, if count = 0 then .flushing else .running⟩

/-- One call of the function, which threw or not. Nothing in the pool reads it. -/
structure Execution where
  call : ℕ
  index : ℕ
  thrown : Option CppError
  deriving DecidableEq, Repr

inductive FrameAction
  | index (thrown : Option CppError)
  | finish
  | report
  | record (sinkError : Option CppError)
  | complete
  | flush (flushError : Option CppError)
  deriving DecidableEq, Repr

/-- What a step of the topmost frame of a thread leaves; the frame is gone once it has ended. -/
structure FrameResult where
  pool : WorkPool
  call : Call
  frame : Option Frame
  execution : Option Execution := none
  deriving DecidableEq, Repr

/-- `worker_loop` on its task, and `execute_inline`, one section at a time. -/
def frameStep (worker : ℕ) (pool : WorkPool) (call : Call) (frame : Frame) :
    FrameStage → FrameAction → Option FrameResult
  | .running, .index thrown =>
      if frame.next < frame.task.range.last then
        some
          { pool
            call
            frame := some { frame with next := frame.next + 1, error := frame.error.or thrown }
            execution := some ⟨frame.task.call, frame.next, thrown⟩ }
      else none
  | .running, .finish =>
      if frame.next < frame.task.range.last then none
      else some { pool, call, frame := some { frame with stage := if frame.nested then .recording else .reporting } }
  | .reporting, .report =>
      some
        { pool
          call := { call with error := call.error.or frame.error }
          frame := some { frame with error := none, stage := .recording } }
  | .recording, .record sinkError =>
      let recorded := pool.recordTaskReceipt sinkError
        ⟨worker, frame.task.range.first, frame.task.range.last⟩
      if frame.nested then
        match frame.error.or recorded.2 with
        | some error => some { pool := recorded.1, call := { call with stage := .thrown error }, frame := none }
        | none => some { pool := recorded.1, call, frame := some { frame with stage := .flushing } }
      else some { pool := recorded.1, call, frame := some { frame with stage := .completing recorded.2 } }
  | .completing receiptError, .complete =>
      some
        { pool
          call := { call with error := call.error.or receiptError, remaining := call.remaining - 1 }
          frame := none }
  | .flushing, .flush flushError =>
      let flushed := pool.flushTaskReceipts flushError
      some { pool := flushed.1, call := call.settle flushed.2, frame := none }
  | _, _ => none

/-! ### The pool -/

/-- The pool with its queue, the calls by number, and the frames of each thread, the topmost first. `executed`
and `completed` are not in the source: they list what was done. -/
structure State (threadCount : ℕ) where
  pool : WorkPool
  queue : List Task
  calls : ℕ → Call
  threads : Fin threadCount → List Frame
  executed : List Execution
  completed : List Task

inductive Label (threadCount : ℕ)
  | caller (id : ℕ) (action : CallerAction)
  | pop (thread : Fin threadCount)
  | nest (thread : Fin threadCount) (id count : ℕ)
  | frame (thread : Fin threadCount) (action : FrameAction)
  deriving DecidableEq

namespace State

variable {threadCount : ℕ}

def initial (threadCount : ℕ) (pool : WorkPool) : State threadCount :=
  ⟨pool, [], fun _ => {}, fun _ => [], [], []⟩

/-- A worker calls `parallel_for` from inside the index that it is at. -/
def nest (s : State threadCount) (thread : Fin threadCount) (id count : ℕ) : State threadCount :=
  match s.pool.taskReceiptError with
  | some error =>
      { s with calls := Function.update s.calls id { count, nested := true, stage := .thrown error } }
  | none =>
      { s with
        calls := Function.update s.calls id
          { count, nested := true, accepted := true, chunks := [⟨0, count⟩], stage := .nested }
        threads := Function.update s.threads thread (Frame.ofNested id count :: s.threads thread) }

def step (s : State threadCount) : Label threadCount → Option (State threadCount)
  | .caller id action =>
      (callerStep threadCount id s.queue.length s.pool (s.calls id) (s.calls id).stage action).map fun next =>
        { s with
          pool := next.1
          calls := Function.update s.calls id next.2.1
          queue := s.queue ++ next.2.2 }
  | .pop thread =>
      match s.threads thread, s.queue with
      | [], task :: queue =>
          some { s with queue, threads := Function.update s.threads thread [Frame.ofTask task] }
      | _, _ => none
  | .nest thread id count =>
      match s.threads thread with
      | [] => none
      | frame :: _ =>
          if frame.stage = .running ∧ frame.next < frame.task.range.last ∧ (s.calls id).stage = .unentered then
            some (s.nest thread id count)
          else none
  | .frame thread action =>
      match s.threads thread with
      | [] => none
      | frame :: frames =>
          (frameStep thread s.pool (s.calls frame.task.call) frame frame.stage action).map fun next =>
            { s with
              pool := next.pool
              calls := Function.update s.calls frame.task.call next.call
              threads := Function.update s.threads thread (next.frame.toList ++ frames)
              executed := s.executed ++ next.execution.toList
              completed := if next.frame.isSome then s.completed else s.completed ++ [frame.task] }

end State

end TxnOpt.Native.WorkPoolSchedules
