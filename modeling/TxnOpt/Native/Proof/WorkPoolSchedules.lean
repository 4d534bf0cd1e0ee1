import TxnOpt.Native.WorkPoolSchedules
import TxnOpt.Native.Proof.WorkPool
import Mathlib.Algebra.Order.BigOperators.Group.Finset
import Mathlib.Algebra.Order.BigOperators.Group.List
import Mathlib.Data.Fintype.Basic

/-!
# What every schedule of the work pool keeps

Each chunk of a call is in the queue, on a thread, or done, and exactly one of these. So the call's own
counter says when it may go on, each of its indices is executed once, and the queue keeps its bound.
-/

namespace TxnOpt.Native.WorkPoolSchedules

variable {threadCount : ℕ} {s t : State threadCount} {label : Label threadCount}
  {labels : List (Label threadCount)} {pool after : WorkPool} {call : Call} {frame : Frame} {result : FrameResult}
  {id index worker : ℕ} {thread : Fin threadCount}

/-! ### Receipts -/

/-- The settings of the pool stay, and so does a recorded failure. -/
structure Grows (pool after : WorkPool) : Prop where
  bound : after.maximumPendingTasks = pool.maximumPendingTasks
  failure : pool.taskReceiptError.isSome = true → after.taskReceiptError.isSome = true

theorem Grows.refl (pool : WorkPool) : Grows pool pool := ⟨rfl, id⟩

theorem grows_remember (pool : WorkPool) (error : CppError) : Grows pool (pool.rememberTaskReceiptError error) := by
  refine ⟨rfl, fun h => ?_⟩
  rw [WorkPool.rememberTaskReceiptError, Option.isSome_or, h]
  rfl

theorem remember_isSome (pool : WorkPool) (error : CppError) :
    (pool.rememberTaskReceiptError error).taskReceiptError.isSome = true := by
  rw [WorkPool.rememberTaskReceiptError, Option.isSome_or]
  exact Bool.or_true _

theorem flushTaskReceipts_grows (pool : WorkPool) (flushError : Option CppError) :
    Grows pool (pool.flushTaskReceipts flushError).1 ∧
      ((pool.flushTaskReceipts flushError).2.isSome = true →
        (pool.flushTaskReceipts flushError).1.taskReceiptError.isSome = true) := by
  unfold WorkPool.flushTaskReceipts
  split
  · cases flushError with
    | none => exact ⟨.refl pool, by rintro ⟨⟩⟩
    | some error => exact ⟨grows_remember pool error, fun _ => remember_isSome pool error⟩
  · exact ⟨.refl pool, by rintro ⟨⟩⟩

theorem recordTaskReceipt_grows (pool : WorkPool) (sinkError : Option CppError) (receipt : TaskReceipt) :
    Grows pool (pool.recordTaskReceipt sinkError receipt).1 ∧
      ((pool.recordTaskReceipt sinkError receipt).2.isSome = true →
        (pool.recordTaskReceipt sinkError receipt).1.taskReceiptError.isSome = true) := by
  have hstored : ∀ stored : WorkPool, (stored = pool ∨ pool.storeTaskReceipt receipt = .ok stored) →
      Grows pool stored := by
    rintro stored (rfl | h)
    · exact .refl stored
    · unfold WorkPool.storeTaskReceipt at h
      split at h
      · cases h
      · cases h
        exact ⟨rfl, id⟩
  unfold WorkPool.recordTaskReceipt
  dsimp only
  split
  · rename_i stored hok
    refine ⟨hstored stored ?_, by rintro ⟨⟩⟩
    split at hok
    · cases sinkError with
      | none =>
          cases hok
          exact .inl rfl
      | some error => cases hok
    · exact .inr hok
  · rename_i error _
    exact ⟨grows_remember pool error, fun _ => remember_isSome pool error⟩

/-! ### Accounts -/

/-- A weight on the ranges of one call. -/
def only (id : ℕ) (weight : TaskRange → ℕ) (task : Task) : ℕ := if task.call = id then weight task.range else 0

/-- The sum of a weight over the frames of all threads. -/
def threadSum (s : State threadCount) (weight : Frame → ℕ) : ℕ := ∑ thread, ((s.threads thread).map weight).sum

/-- The weight of what a call has in the queue or on a thread. -/
def pending (s : State threadCount) (id : ℕ) (weight : TaskRange → ℕ) : ℕ :=
  (s.queue.map (only id weight)).sum + threadSum s fun frame => only id weight frame.task

def completed (s : State threadCount) (id : ℕ) (weight : TaskRange → ℕ) : ℕ :=
  (s.completed.map (only id weight)).sum

/-- The chunks of a call that were handed out. -/
def Call.live (call : Call) : List TaskRange :=
  match call.stage with
  | .unentered | .enqueueing => []
  | _ => call.chunks

/-- How many chunks a call has to wait for. -/
def Call.expected (call : Call) : ℕ :=
  match call.stage with
  | .waiting => call.remaining
  | .nested => 1
  | _ => 0

/-- The stages of a caller from outside the pool, before its end. -/
def CallStage.outer : CallStage → Bool
  | .enqueueing | .waiting | .flushing _ | .flushingEmpty | .checking => true
  | _ => false

def covers (index : ℕ) (range : TaskRange) : ℕ := if range.first ≤ index ∧ index < range.last then 1 else 0

/-- What a frame has executed of an index of a call. -/
def ran (id index : ℕ) (frame : Frame) : ℕ :=
  if frame.task.call = id ∧ frame.task.range.first ≤ index ∧ index < frame.next then 1 else 0

/-- How often an index of a call was executed. -/
def State.executions (s : State threadCount) (id index : ℕ) : ℕ :=
  s.executed.countP fun execution => decide (execution.call = id ∧ execution.index = index)

theorem sum_covers (ranges : List TaskRange) (index : ℕ) :
    (ranges.map (covers index)).sum = coverage ranges index := by
  induction ranges with
  | nil => rfl
  | cons range ranges ih =>
      rw [coverage] at ih ⊢
      rw [List.map_cons, List.sum_cons, ih, List.countP_cons, add_comm, covers]
      simp only [decide_eq_true_eq]

theorem sum_only_map (id id' : ℕ) (weight : TaskRange → ℕ) (ranges : List TaskRange) :
    ((ranges.map (Task.mk id')).map (only id weight)).sum = if id' = id then (ranges.map weight).sum else 0 := by
  induction ranges with
  | nil => simp
  | cons range ranges ih =>
      rw [List.map_cons, List.map_cons, List.sum_cons, ih, only]
      split <;> simp

/-- One thread has other frames. -/
theorem threadSum_moved {frames : List Frame} (weight : Frame → ℕ)
    (ht : t.threads = Function.update s.threads thread frames) :
    threadSum t weight + ((s.threads thread).map weight).sum = threadSum s weight + (frames.map weight).sum := by
  unfold threadSum
  rw [ht]
  exact sum_update (fun _ frames => (frames.map weight).sum) s.threads thread frames

theorem le_threadSum (s : State threadCount) (weight : Frame → ℕ) {thread : Fin threadCount}
    (h : frame ∈ s.threads thread) : weight frame ≤ threadSum s weight :=
  (List.single_le_sum (fun _ _ => Nat.zero_le _) _ (List.mem_map_of_mem h)).trans
    (Finset.single_le_sum (f := fun thread => ((s.threads thread).map weight).sum)
      (fun _ _ => Nat.zero_le _) (Finset.mem_univ thread))

/-! ### One section -/

/-- The marks of a frame agree: it has gone through its range once it stopped running. -/
structure Frame.Fits (frame : Frame) : Prop where
  first_le : frame.task.range.first ≤ frame.next
  next_le : frame.next ≤ frame.task.range.last
  exhausted : frame.stage ≠ .running → frame.next = frame.task.range.last
  reporting : frame.stage = .reporting → frame.nested = false
  completing : ∀ error, frame.stage = .completing error → frame.nested = false
  flushing : frame.stage = .flushing → frame.nested = true

/-- The marks of a call agree with where it stands. -/
structure Call.Fits (maximum : ℕ) (call : Call) : Prop where
  unentered : call.stage = .unentered → call.nested = false ∧ call.accepted = false
  inner : call.stage = .nested → call.nested = true
  outer : call.stage.outer = true → call.nested = false
  prepared : call.stage = .enqueueing → call.remaining = call.chunks.length ∧ call.chunks.length ≤ maximum
  refused : call.accepted = false → call.chunks = []
  ordered : ∀ range ∈ call.chunks, range.first ≤ range.last
  covered : call.accepted = true → ∀ index, coverage call.chunks index = if index < call.count then 1 else 0
  failing : call.error ≠ none → call.stage = .waiting ∨ call.stage = .flushing call.error ∨
    ∃ error, call.stage = .thrown error
  flushing : ∀ error, call.stage = .flushing error → error = call.error

/-- A frame runs for a call that waits for it. -/
def Frame.Serves (frame : Frame) (call : Call) : Prop :=
  if frame.nested then call.stage = .nested else call.stage = .waiting ∧ 0 < call.remaining

/-- What no section of a frame changes, and what ending it takes from its call. -/
structure Advanced (pool : WorkPool) (call : Call) (frame : Frame) (result : FrameResult) : Prop where
  grows : Grows pool result.pool
  count : result.call.count = call.count
  nested : result.call.nested = call.nested
  accepted : result.call.accepted = call.accepted
  chunks : result.call.chunks = call.chunks
  live : result.call.live = call.live
  expected : result.call.expected + (if result.frame.isSome then 0 else 1) = call.expected
  stage : result.call.stage = call.stage ∨ call.stage = .nested ∧ result.call.ended = true
  fits : ∀ maximum, call.Fits maximum → result.call.Fits maximum
  same : ∀ next, result.frame = some next →
    next.task = frame.task ∧ next.nested = frame.nested ∧ next.Fits ∧ result.call.stage = call.stage
  exhausted : result.frame = none → frame.next = frame.task.range.last
  executed : result.execution = none ∧ (∀ next, result.frame = some next → next.next = frame.next) ∨
    ∃ thrown next, result.execution = some ⟨frame.task.call, frame.next, thrown⟩ ∧
      result.frame = some next ∧ next.next = frame.next + 1

theorem settle_ended (call : Call) (error : Option CppError) : (call.settle error).ended = true := by
  cases error <;> rfl

theorem settle_same (call : Call) (error : Option CppError) :
    (call.settle error).count = call.count ∧ (call.settle error).nested = call.nested ∧
      (call.settle error).accepted = call.accepted ∧ (call.settle error).chunks = call.chunks ∧
      (call.settle error).error = call.error := by
  cases error <;> exact ⟨rfl, rfl, rfl, rfl, rfl⟩

theorem expected_of_ended (h : call.ended = true) : call.expected = 0 := by
  unfold Call.ended at h
  unfold Call.expected
  split at h <;> simp_all

theorem live_of_ended (h : call.ended = true) : call.live = call.chunks := by
  unfold Call.ended at h
  unfold Call.live
  split at h <;> simp_all

theorem Call.Fits.quiet {maximum : ℕ} (hfits : call.Fits maximum)
    (hstage : call.stage ≠ .waiting ∧ (∀ error, call.stage ≠ .flushing error) ∧ ∀ error, call.stage ≠ .thrown error) :
    call.error = none := by
  by_contra herror
  obtain hwaiting | hflushing | ⟨error, hthrown⟩ := hfits.failing herror
  · exact hstage.1 hwaiting
  · exact hstage.2.1 _ hflushing
  · exact hstage.2.2 error hthrown

/-- What the threads tell a waiting call leaves its marks. -/
theorem Call.Fits.told {maximum remaining : ℕ} {error : Option CppError} (hfits : call.Fits maximum)
    (hwaiting : call.stage = .waiting) : { call with error, remaining }.Fits maximum where
  unentered := hfits.unentered
  inner := hfits.inner
  outer := hfits.outer
  prepared h := by rw [hwaiting] at h; cases h
  refused := hfits.refused
  ordered := hfits.ordered
  covered := hfits.covered
  failing _ := .inl hwaiting
  flushing error h := by rw [hwaiting] at h; cases h

/-- A call that ends keeps its marks. -/
theorem Call.Fits.settled {maximum : ℕ} {ended : Call} (hfits : call.Fits maximum) (hended : ended.ended = true)
    (hsame : ended.count = call.count ∧ ended.nested = call.nested ∧ ended.accepted = call.accepted ∧
      ended.chunks = call.chunks ∧ ended.error = call.error)
    (hquiet : ended.stage = .returned → call.error = none) : ended.Fits maximum := by
  obtain ⟨hcount, -, haccepted, hchunks, herror⟩ := hsame
  have hstage : ended.stage = .returned ∨ ∃ error, ended.stage = .thrown error := by
    unfold Call.ended at hended
    split at hended <;> simp_all
  refine ⟨?_, ?_, ?_, ?_, ?_, ?_, ?_, ?_, ?_⟩
  · intro h
    rw [h] at hstage
    simp at hstage
  · intro h
    rw [h] at hstage
    simp at hstage
  · intro h
    obtain hstage | ⟨error, hstage⟩ := hstage <;> rw [hstage] at h <;> cases h
  · intro h
    rw [h] at hstage
    simp at hstage
  · rw [haccepted, hchunks]
    exact hfits.refused
  · rw [hchunks]
    exact hfits.ordered
  · rw [haccepted, hchunks, hcount]
    exact hfits.covered
  · intro herr
    obtain hstage | hstage := hstage
    · exact absurd (hquiet hstage) (herror ▸ herr)
    · exact .inr (.inr hstage)
  · intro error h
    rw [h] at hstage
    simp at hstage

/-- A nested call that ends has handed out what it had. -/
theorem Advanced.ofEnded {ended : Call} (hgrows : Grows pool after) (hended : ended.ended = true)
    (hsame : ended.count = call.count ∧ ended.nested = call.nested ∧ ended.accepted = call.accepted ∧
      ended.chunks = call.chunks ∧ ended.error = call.error) (hnested : call.stage = .nested)
    (hover : frame.next = frame.task.range.last) : Advanced pool call frame ⟨after, ended, none, none⟩ where
  grows := hgrows
  count := hsame.1
  nested := hsame.2.1
  accepted := hsame.2.2.1
  chunks := hsame.2.2.2.1
  live := by
    rw [live_of_ended hended, hsame.2.2.2.1, Call.live, hnested]
  expected := by
    rw [expected_of_ended hended, Call.expected, hnested]
    rfl
  stage := .inr ⟨hnested, hended⟩
  fits := fun maximum hfits => hfits.settled hended hsame fun _ => hfits.quiet (by
    rw [hnested]
    exact ⟨by rintro ⟨⟩, by rintro error ⟨⟩, by rintro error ⟨⟩⟩)
  same := by rintro next ⟨⟩
  exhausted := fun _ => hover
  executed := .inl ⟨rfl, by rintro next ⟨⟩⟩

/-- A section that leaves the frame in place. -/
theorem Advanced.ofKept {kept : Call} {next : Frame} {execution : Option Execution} (hgrows : Grows pool after)
    (hkept : kept = { call with error := kept.error }) (htold : kept = call ∨ call.stage = .waiting)
    (hnext : next.task = frame.task ∧ next.nested = frame.nested)
    (hfits : next.Fits)
    (hexecuted : execution = none ∧ next.next = frame.next ∨
      ∃ thrown, execution = some ⟨frame.task.call, frame.next, thrown⟩ ∧ next.next = frame.next + 1) :
    Advanced pool call frame ⟨after, kept, some next, execution⟩ where
  grows := hgrows
  count := by rw [hkept]
  nested := by rw [hkept]
  accepted := by rw [hkept]
  chunks := by rw [hkept]
  live := by
    rw [hkept]
    rfl
  expected := by
    rw [hkept]
    rfl
  stage := .inl (by rw [hkept])
  fits := by
    intro maximum hfits
    obtain hsame | hwaiting := htold
    · rw [hsame]
      exact hfits
    · rw [hkept]
      exact hfits.told hwaiting
  same := by
    rintro _ ⟨⟩
    exact ⟨hnext.1, hnext.2, hfits, by rw [hkept]⟩
  exhausted := by rintro ⟨⟩
  executed := by
    rcases hexecuted with ⟨hnone, hsame⟩ | ⟨thrown, hsome, hlater⟩
    · refine .inl ⟨hnone, ?_⟩
      rintro _ ⟨⟩
      exact hsame
    · exact .inr ⟨thrown, next, hsome, rfl, hlater⟩

theorem frameStep_advanced {action : FrameAction} (hfits : frame.Fits) (hserves : frame.Serves call)
    (h : frameStep worker pool call frame frame.stage action = some result) : Advanced pool call frame result := by
  have hfirst := hfits.first_le
  have hnext := hfits.next_le
  unfold frameStep at h
  split at h
  · rename_i thrown hstage
    split at h
    · rename_i hless
      cases h
      refine .ofKept (.refl pool) rfl (.inl rfl) ⟨rfl, rfl⟩ ?_ (.inr ⟨thrown, rfl, rfl⟩)
      exact ⟨hfirst.trans (Nat.le_succ _), hless, fun hnot => absurd hstage hnot, hfits.reporting, hfits.completing,
        hfits.flushing⟩
    · cases h
  · rename_i hstage
    split at h
    · cases h
    · rename_i hless
      cases h
      have hlast : frame.next = frame.task.range.last := le_antisymm hnext (not_lt.mp hless)
      refine .ofKept (.refl pool) rfl (.inl rfl) ⟨rfl, rfl⟩ ⟨hfirst, hnext, fun _ => hlast, ?_, ?_, ?_⟩
        (.inl ⟨rfl, rfl⟩)
      all_goals cases hnested : frame.nested <;> simp
  · rename_i hstage
    cases h
    have hlast := hfits.exhausted (by rw [hstage]; rintro ⟨⟩)
    rw [Frame.Serves, if_neg (by rw [hfits.reporting hstage]; exact Bool.false_ne_true)] at hserves
    exact .ofKept (.refl pool) rfl (.inr hserves.1) ⟨rfl, rfl⟩
      ⟨hfirst, hnext, fun _ => hlast, by rintro ⟨⟩, by rintro error ⟨⟩, by rintro ⟨⟩⟩ (.inl ⟨rfl, rfl⟩)
  · rename_i sinkError hstage
    have hlast := hfits.exhausted (by rw [hstage]; rintro ⟨⟩)
    have hgrows := (recordTaskReceipt_grows pool sinkError
      ⟨worker, frame.task.range.first, frame.task.range.last⟩).1
    dsimp only at h
    split at h
    · rename_i hnested
      rw [Frame.Serves, if_pos hnested] at hserves
      split at h
      · cases h
        exact .ofEnded hgrows rfl ⟨rfl, rfl, rfl, rfl, rfl⟩ hserves hlast
      · cases h
        exact .ofKept hgrows rfl (.inl rfl) ⟨rfl, rfl⟩
          ⟨hfirst, hnext, fun _ => hlast, by rintro ⟨⟩, by rintro error ⟨⟩, fun _ => hnested⟩ (.inl ⟨rfl, rfl⟩)
    · rename_i hnested
      cases h
      exact .ofKept hgrows rfl (.inl rfl) ⟨rfl, rfl⟩
        ⟨hfirst, hnext, fun _ => hlast, by rintro ⟨⟩, fun _ _ => by simpa using hnested, by rintro ⟨⟩⟩
        (.inl ⟨rfl, rfl⟩)
  · rename_i receiptError hstage
    cases h
    have hnested := hfits.completing receiptError hstage
    rw [Frame.Serves, if_neg (by rw [hnested]; exact Bool.false_ne_true)] at hserves
    obtain ⟨hwaiting, hremaining⟩ := hserves
    refine
      { grows := .refl pool
        count := rfl
        nested := rfl
        accepted := rfl
        chunks := rfl
        live := rfl
        expected := ?_
        stage := .inl rfl
        fits := fun maximum hfits => hfits.told hwaiting
        same := by rintro next ⟨⟩
        exhausted := fun _ => hfits.exhausted (by rw [hstage]; rintro ⟨⟩)
        executed := .inl ⟨rfl, by rintro next ⟨⟩⟩ }
    simp only [Call.expected, hwaiting, Option.isSome_none, Bool.false_eq_true, if_false]
    omega
  · rename_i flushError hstage
    cases h
    have hnested := hfits.flushing hstage
    rw [Frame.Serves, if_pos hnested] at hserves
    exact .ofEnded (flushTaskReceipts_grows pool flushError).1 (settle_ended _ _) (settle_same _ _) hserves
      (hfits.exhausted (by rw [hstage]; rintro ⟨⟩))
  · cases h

end TxnOpt.Native.WorkPoolSchedules
