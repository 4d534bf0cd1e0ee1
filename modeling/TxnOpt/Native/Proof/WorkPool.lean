import TxnOpt.Native.WorkPool
import Mathlib.Algebra.GroupWithZero.Nat
import Mathlib.Algebra.Order.Group.Nat

/-!
# What one call leaves in the pool

The ranges of a call cover its indices, each once. A pool without a sink gains one receipt for each task, or
runs out of room and keeps an error; a pool with a sink gains none.
-/

namespace TxnOpt.Native

/-! ### The ranges of a call -/

@[simp]
theorem rangesFrom_length (first : ℕ) (sizes : List ℕ) : (rangesFrom first sizes).length = sizes.length := by
  induction sizes generalizing first with
  | nil => rfl
  | cons size sizes ih => rw [rangesFrom, List.length_cons, ih, List.length_cons]

@[simp]
theorem chunkRanges_length (count threadCount : ℕ) :
    (chunkRanges count threadCount).length = min count threadCount := by
  rw [chunkRanges, rangesFrom_length, List.length_map, List.length_range]

/-- How many of the ranges hold an index. -/
def coverage (ranges : List TaskRange) (index : ℕ) : ℕ :=
  ranges.countP fun range => decide (range.first ≤ index ∧ index < range.last)

theorem coverage_rangesFrom (first : ℕ) (sizes : List ℕ) (index : ℕ) :
    coverage (rangesFrom first sizes) index = if first ≤ index ∧ index < first + sizes.sum then 1 else 0 := by
  induction sizes generalizing first with
  | nil =>
      rw [if_neg (by simp)]
      rfl
  | cons size sizes ih =>
      have htail := ih (first + size)
      rw [coverage] at htail ⊢
      rw [rangesFrom, List.countP_cons, htail, List.sum_cons]
      by_cases hhead : first ≤ index ∧ index < first + size
      · rw [if_neg (by omega), if_pos (by simpa using hhead), if_pos (by omega)]
      · rw [if_neg (show ¬decide _ = true by simpa using hhead)]
        by_cases hrest : first + size ≤ index ∧ index < first + size + sizes.sum
        · rw [if_pos hrest, if_pos (by omega)]
        · rw [if_neg hrest, if_neg (by omega)]

theorem sum_map_add_ite (size remainder : ℕ) (chunks : ℕ) :
    ((List.range chunks).map fun chunk => size + if chunk < remainder then 1 else 0).sum =
      chunks * size + min chunks remainder := by
  induction chunks with
  | zero => simp
  | succ chunks ih =>
      rw [List.range_succ, List.map_append, List.sum_append, ih, List.map_singleton, List.sum_singleton,
        Nat.succ_mul]
      by_cases hlarger : chunks < remainder
      · rw [if_pos hlarger]
        omega
      · rw [if_neg hlarger]
        omega

/-- Every index of a call is in one range, and no other index is in any. -/
theorem coverage_chunkRanges {threadCount : ℕ} (hthreads : 0 < threadCount) (count index : ℕ) :
    coverage (chunkRanges count threadCount) index = if index < count then 1 else 0 := by
  rw [chunkRanges, coverage_rangesFrom, sum_map_add_ite]
  by_cases hcount : count = 0
  · rw [hcount]
    simp
  · have hchunks : 0 < min count threadCount := Nat.lt_min.mpr ⟨Nat.pos_of_ne_zero hcount, hthreads⟩
    have hremainder : count % min count threadCount < min count threadCount := Nat.mod_lt _ hchunks
    have hdivide := Nat.div_add_mod count (min count threadCount)
    rw [Nat.min_eq_right (Nat.le_of_lt hremainder), hdivide, Nat.zero_add]
    simp

theorem coverage_pos_iff {ranges : List TaskRange} {index : ℕ} :
    0 < coverage ranges index ↔ ∃ range ∈ ranges, range.first ≤ index ∧ index < range.last := by
  rw [coverage, List.countP_pos_iff]
  simp

/-- The indices of the ranges are those of the call. -/
theorem mem_chunkRanges {threadCount : ℕ} (hthreads : 0 < threadCount) {count index : ℕ} :
    (∃ range ∈ chunkRanges count threadCount, range.first ≤ index ∧ index < range.last) ↔ index < count := by
  rw [← coverage_pos_iff, coverage_chunkRanges hthreads]
  by_cases hindex : index < count
  · rw [if_pos hindex]
    exact ⟨fun _ => hindex, fun _ => Nat.one_pos⟩
  · rw [if_neg hindex]
    exact ⟨fun h => absurd h (Nat.lt_irrefl 0), fun h => absurd h hindex⟩

namespace WorkPool

variable {pool : WorkPool} {function : ℕ → Option CppError} {service : Service} {ranges : List TaskRange}

theorem taskError_eq_none_iff {range : TaskRange} :
    taskError function range = none ↔
      ∀ index, range.first ≤ index → index < range.last → function index = none := by
  rw [taskError, List.findSome?_eq_none_iff]
  simp only [List.mem_range'_1]
  constructor
  · intro hall index hfirst hlast
    exact hall index ⟨hfirst, by omega⟩
  · intro hall index hindex
    exact hall index hindex.1 (by omega)

/-! ### The receipts of the tasks -/

/-- The pool with the same settings and these receipts. -/
def withReceipts (pool : WorkPool) (receipts : List TaskReceipt) (error : Option CppError) : WorkPool :=
  { pool with taskReceipts := receipts, taskReceiptError := error }

@[simp]
theorem withReceipts_self : pool.withReceipts pool.taskReceipts pool.taskReceiptError = pool := rfl

/-- One task keeps the settings, and a recorded failure stays recorded. -/
theorem serveTask_settings (served : WorkPool × Option CppError) (task : ℕ) :
    ∃ receipts error, (serveTask function service ranges served task).1 = served.1.withReceipts receipts error ∧
      (served.1.taskReceiptError.isSome = true → error.isSome = true) ∧
      (served.1.hasSink = true → receipts = served.1.taskReceipts) := by
  have hkeep : ∀ error, (served.1.taskReceiptError.or (some error)).isSome = true := by
    intro error
    cases served.1.taskReceiptError <;> rfl
  unfold serveTask
  cases ranges[task]? with
  | none => exact ⟨_, _, rfl, id, fun _ => rfl⟩
  | some range =>
      simp only [recordTaskReceipt, storeTaskReceipt]
      by_cases hsink : served.1.hasSink = true
      · rw [if_pos hsink]
        cases service.sinkError task with
        | none => exact ⟨_, _, rfl, id, fun _ => rfl⟩
        | some error => exact ⟨_, _, rfl, fun _ => hkeep _, fun _ => rfl⟩
      · rw [if_neg hsink]
        by_cases hfull : served.1.taskReceipts.length = maximumTaskReceipts
        · rw [if_pos hfull]
          exact ⟨_, _, rfl, fun _ => hkeep _, fun _ => rfl⟩
        · rw [if_neg hfull]
          exact ⟨_, _, rfl, id, fun h => absurd h hsink⟩

theorem serveTasks_settings (served : WorkPool × Option CppError) (tasks : List ℕ) :
    ∃ receipts error,
      (tasks.foldl (serveTask function service ranges) served).1 = served.1.withReceipts receipts error ∧
      (served.1.taskReceiptError.isSome = true → error.isSome = true) ∧
      (served.1.hasSink = true → receipts = served.1.taskReceipts) := by
  induction tasks generalizing served with
  | nil => exact ⟨_, _, rfl, id, fun _ => rfl⟩
  | cons task tasks ih =>
      obtain ⟨receipts, error, hserve, herror, hreceipts⟩ :=
        @serveTask_settings function service ranges served task
      obtain ⟨later, last, hlater, hlast, hkept⟩ := ih (serveTask function service ranges served task)
      rw [hserve] at hlater hlast hkept
      refine ⟨later, last, hlater, ?_, ?_⟩
      · intro hsome
        exact hlast (herror hsome)
      · intro hsink
        rw [hkept hsink]
        exact hreceipts hsink

/-- A task of a pool without a sink and with room for its receipt. -/
theorem serveTask_room (hsink : pool.hasSink = false) (hroom : pool.taskReceipts.length ≠ maximumTaskReceipts)
    {error : Option CppError} {task : ℕ} {range : TaskRange} (hrange : ranges[task]? = some range) :
    serveTask function service ranges (pool, error) task =
      (pool.withReceipts (pool.taskReceipts ++ [⟨service.worker task, range.first, range.last⟩])
        pool.taskReceiptError, error.or (taskError function range)) := by
  unfold serveTask
  rw [hrange]
  simp only [recordTaskReceipt, storeTaskReceipt]
  rw [if_neg (by rw [hsink]; exact Bool.false_ne_true), if_neg hroom]
  simp [withReceipts]

/-- A task of a full pool records the failure. -/
theorem serveTask_full (hsink : pool.hasSink = false) (hfull : pool.taskReceipts.length = maximumTaskReceipts)
    {error : Option CppError} {task : ℕ} {range : TaskRange} (hrange : ranges[task]? = some range) :
    (serveTask function service ranges (pool, error) task).1.taskReceiptError.isSome = true := by
  unfold serveTask
  rw [hrange]
  simp only [recordTaskReceipt, storeTaskReceipt]
  rw [if_neg (by rw [hsink]; exact Bool.false_ne_true), if_pos hfull]
  simp only [rememberTaskReceiptError]
  cases pool.taskReceiptError <;> rfl

/-- The tasks of a call, when their receipts fit. -/
theorem serveTasks_fit (hsink : pool.hasSink = false) {tasks : List ℕ} (error : Option CppError)
    (htasks : ∀ task ∈ tasks, task < ranges.length)
    (hfit : pool.taskReceipts.length + tasks.length ≤ maximumTaskReceipts) :
    ∃ receipts thrown, tasks.foldl (serveTask function service ranges) (pool, error) =
        (pool.withReceipts receipts pool.taskReceiptError, thrown) ∧
      receipts.length = pool.taskReceipts.length + tasks.length ∧
      (thrown = none ↔ error = none ∧
        ∀ task ∈ tasks, ∀ range, ranges[task]? = some range → taskError function range = none) := by
  induction tasks generalizing pool error with
  | nil => exact ⟨pool.taskReceipts, error, rfl, rfl, by simp⟩
  | cons task tasks ih =>
      rw [List.length_cons] at hfit
      obtain ⟨range, hrange⟩ : ∃ range, ranges[task]? = some range :=
        ⟨_, List.getElem?_eq_getElem (htasks task List.mem_cons_self)⟩
      rw [List.foldl_cons, serveTask_room hsink (by omega) hrange]
      obtain ⟨receipts, thrown, hserved, hlength, hthrown⟩ := @ih
        (pool.withReceipts (pool.taskReceipts ++ [⟨service.worker task, range.first, range.last⟩])
          pool.taskReceiptError)
        hsink (error.or (taskError function range))
        (fun later hlater => htasks later (List.mem_cons_of_mem task hlater))
        (by simp only [withReceipts, List.length_append, List.length_singleton]; omega)
      refine ⟨receipts, thrown, hserved, ?_, ?_⟩
      · rw [hlength]
        simp only [withReceipts, List.length_append, List.length_cons, List.length_nil]
        omega
      · rw [hthrown, Option.or_eq_none_iff, List.forall_mem_cons, hrange]
        simp [and_assoc]

/-- The tasks of a call, when their receipts do not fit. -/
theorem serveTasks_overflow (hsink : pool.hasSink = false) {tasks : List ℕ} (error : Option CppError)
    (htasks : ∀ task ∈ tasks, task < ranges.length) (hbound : pool.taskReceipts.length ≤ maximumTaskReceipts)
    (hfit : maximumTaskReceipts < pool.taskReceipts.length + tasks.length) :
    (tasks.foldl (serveTask function service ranges) (pool, error)).1.taskReceiptError.isSome = true := by
  induction tasks generalizing pool error with
  | nil => exact absurd hfit (by simpa using hbound)
  | cons task tasks ih =>
      rw [List.length_cons] at hfit
      obtain ⟨range, hrange⟩ : ∃ range, ranges[task]? = some range :=
        ⟨_, List.getElem?_eq_getElem (htasks task List.mem_cons_self)⟩
      rw [List.foldl_cons]
      by_cases hfull : pool.taskReceipts.length = maximumTaskReceipts
      · have hsome := @serveTask_full pool function service ranges hsink hfull error task _ hrange
        obtain ⟨receipts, last, hserved, hlast, _⟩ := @serveTasks_settings function service ranges
          (serveTask function service ranges (pool, error) task) tasks
        rw [hserved]
        exact hlast hsome
      · rw [serveTask_room hsink hfull hrange]
        refine ih ?_ _ ?_ ?_ ?_
        · exact hsink
        · intro later hlater
          exact htasks later (List.mem_cons_of_mem task hlater)
        · simp only [withReceipts, List.length_append, List.length_cons, List.length_nil]
          omega
        · simp only [withReceipts, List.length_append, List.length_cons, List.length_nil]
          omega

/-! ### One call -/

theorem order_lt (service : Service) (taskCount : ℕ) : ∀ task ∈ service.order taskCount, task < taskCount := by
  intro task htask
  exact List.mem_range.mp ((service.order_perm taskCount).mem_iff.mp htask)

theorem order_length (service : Service) (taskCount : ℕ) : (service.order taskCount).length = taskCount := by
  rw [(service.order_perm taskCount).length_eq, List.length_range]

/-- A call that the pool takes in. -/
structure Accepts (pool : WorkPool) (count : ℕ) : Prop where
  count_pos : 0 < count
  threads_pos : 0 < pool.threadCount
  fits : min count pool.threadCount ≤ pool.maximumPendingTasks

theorem Accepts.not_refused {count : ℕ} (h : pool.Accepts count) :
    ¬(chunkRanges count pool.threadCount = [] ∨
      (chunkRanges count pool.threadCount).length > pool.maximumPendingTasks) := by
  have hcount := h.count_pos
  have hthreads := h.threads_pos
  have hfits := h.fits
  intro hrefused
  rcases hrefused with hempty | hlarge
  · have hlength := chunkRanges_length count pool.threadCount
    rw [hempty, List.length_nil] at hlength
    omega
  · rw [chunkRanges_length] at hlarge
    omega

/-- A dispatch without a sink whose receipts fit: one receipt a task, and the call throws iff an index does. -/
theorem parallelFor_fit {count : ℕ} (h : pool.Accepts count) (hsink : pool.hasSink = false)
    (herror : pool.taskReceiptError = none)
    (hfit : pool.taskReceipts.length + min count pool.threadCount ≤ maximumTaskReceipts) :
    ∃ receipts thrown, pool.parallelFor count function service = (pool.withReceipts receipts none, thrown) ∧
      receipts.length = pool.taskReceipts.length + min count pool.threadCount ∧
      (thrown = none ↔ ∀ index < count, function index = none) := by
  obtain ⟨receipts, thrown, hserved, hlength, hthrown⟩ :=
    @serveTasks_fit pool function service (chunkRanges count pool.threadCount) hsink
      (service.order (chunkRanges count pool.threadCount).length) none (order_lt service _)
      (by rw [order_length, chunkRanges_length]; exact hfit)
  rw [order_length, chunkRanges_length] at hlength
  refine ⟨receipts, thrown, ?_, hlength, ?_⟩
  · unfold parallelFor
    rw [herror]
    simp only
    rw [if_neg (Nat.ne_of_gt h.count_pos), if_neg (Nat.ne_of_gt h.threads_pos), if_neg h.not_refused, hserved]
    simp [flushTaskReceipts, withReceipts, hsink, herror]
  · rw [hthrown]
    constructor
    · intro hall index hindex
      obtain ⟨range, hrange, hfirst, hlast⟩ := (mem_chunkRanges h.threads_pos).mpr hindex
      obtain ⟨task, htask, hget⟩ := List.getElem_of_mem hrange
      have hmember : task ∈ service.order (chunkRanges count pool.threadCount).length :=
        (service.order_perm _).mem_iff.mpr (List.mem_range.mpr htask)
      have hnone := hall.2 task hmember range (by rw [List.getElem?_eq_getElem htask, hget])
      exact taskError_eq_none_iff.mp hnone index hfirst hlast
    · intro hall
      refine ⟨rfl, ?_⟩
      intro task _ range hrange
      apply taskError_eq_none_iff.mpr
      intro index hfirst hlast
      exact hall index ((mem_chunkRanges h.threads_pos).mp ⟨range, List.mem_of_getElem? hrange, hfirst, hlast⟩)

/-- A dispatch without a sink whose receipts do not fit leaves an error, and throws. -/
theorem parallelFor_overflow {count : ℕ} (h : pool.Accepts count) (hsink : pool.hasSink = false)
    (herror : pool.taskReceiptError = none) (hbound : pool.taskReceipts.length ≤ maximumTaskReceipts)
    (hfit : maximumTaskReceipts < pool.taskReceipts.length + min count pool.threadCount) :
    ∃ receipts error thrown,
      pool.parallelFor count function service = (pool.withReceipts receipts (some error), some thrown) := by
  have hsome := @serveTasks_overflow pool function service (chunkRanges count pool.threadCount) hsink
    (service.order (chunkRanges count pool.threadCount).length) none (order_lt service _) hbound
    (by rw [order_length, chunkRanges_length]; exact hfit)
  obtain ⟨receipts, error, hserved, _, _⟩ := @serveTasks_settings function service
    (chunkRanges count pool.threadCount) (pool, none) (service.order (chunkRanges count pool.threadCount).length)
  rw [hserved] at hsome
  obtain ⟨error, rfl⟩ := Option.isSome_iff_exists.mp hsome
  unfold parallelFor
  rw [herror]
  simp only
  rw [if_neg (Nat.ne_of_gt h.count_pos), if_neg (Nat.ne_of_gt h.threads_pos), if_neg h.not_refused, hserved]
  refine ⟨receipts, error, ?_⟩
  simp only [flushTaskReceipts, withReceipts, hsink]
  cases (List.foldl (serveTask function service (chunkRanges count pool.threadCount)) (pool, none)
    (service.order (chunkRanges count pool.threadCount).length)).2 with
  | none => exact ⟨error, rfl⟩
  | some thrown => exact ⟨thrown, rfl⟩

/-- A call that the pool does not take in leaves it as it is, and throws. -/
theorem parallelFor_refused {count : ℕ} (hcount : 0 < count) (h : ¬pool.Accepts count) :
    ∃ thrown, pool.parallelFor count function service = (pool, some thrown) := by
  unfold parallelFor
  cases pool.taskReceiptError with
  | some error => exact ⟨error, rfl⟩
  | none =>
      simp only
      rw [if_neg (Nat.ne_of_gt hcount)]
      by_cases hthreads : pool.threadCount = 0
      · rw [if_pos hthreads]
        exact ⟨_, rfl⟩
      · rw [if_neg hthreads]
        have hlarge : (chunkRanges count pool.threadCount).length > pool.maximumPendingTasks := by
          rw [chunkRanges_length]
          by_contra hfits
          exact h ⟨hcount, Nat.pos_of_ne_zero hthreads, by omega⟩
        rw [if_pos (.inr hlarge)]
        exact ⟨_, rfl⟩

/-- A dispatch with a sink keeps no receipt. -/
theorem parallelFor_sink {count : ℕ} (hsink : pool.hasSink = true) :
    ∃ error, (pool.parallelFor count function service).1 = pool.withReceipts pool.taskReceipts error := by
  have hflush : ∀ flushed : WorkPool, ∃ error,
      (flushed.flushTaskReceipts service.flushError).1 = flushed.withReceipts flushed.taskReceipts error := by
    intro flushed
    unfold flushTaskReceipts
    by_cases hset : flushed.hasSink = true
    · rw [if_pos hset]
      cases service.flushError with
      | none => exact ⟨_, rfl⟩
      | some error => exact ⟨_, rfl⟩
    · rw [if_neg hset]
      exact ⟨_, rfl⟩
  unfold parallelFor
  cases herror : pool.taskReceiptError with
  | some error => exact ⟨some error, by simp only; rw [← herror, withReceipts_self]⟩
  | none =>
      simp only
      by_cases hcount : count = 0
      · rw [if_pos hcount]
        exact hflush pool
      · rw [if_neg hcount]
        by_cases hthreads : pool.threadCount = 0
        · rw [if_pos hthreads]
          exact ⟨none, by rw [← herror, withReceipts_self]⟩
        · rw [if_neg hthreads]
          split
          · exact ⟨none, by rw [← herror, withReceipts_self]⟩
          · obtain ⟨receipts, error, hserved, _, hreceipts⟩ := @serveTasks_settings function service
              (chunkRanges count pool.threadCount) (pool, none)
              (service.order (chunkRanges count pool.threadCount).length)
            obtain ⟨last, hlast⟩ := hflush (pool.withReceipts receipts error)
            refine ⟨last, ?_⟩
            simp only [hserved]
            rw [hlast, hreceipts hsink]
            rfl

end WorkPool

end TxnOpt.Native
