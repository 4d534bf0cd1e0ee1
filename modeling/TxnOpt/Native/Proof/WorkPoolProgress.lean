import TxnOpt.Native.Proof.WorkPoolRuns

/-!
# Every call of the work pool ends

While a call has not ended, some step other than a new call may be taken; and the calls of a schedule bound
the number of its other steps.
-/

namespace TxnOpt.Native.WorkPoolSchedules

variable {threadCount : ℕ} {s t : State threadCount} {label : Label threadCount}
  {labels : List (Label threadCount)} {pool : WorkPool} {call : Call} {frame : Frame} {result : FrameResult}
  {id worker queued maximum : ℕ} {thread : Fin threadCount}

/-! ### No schedule gets stuck -/

/-- The steps that a call which was made still needs; the others make a call. -/
def Label.advances : Label threadCount → Bool
  | .caller _ (.enter _) | .nest _ _ _ => false
  | _ => true

theorem thread_advances (hthread : s.threads thread ≠ []) :
    ∃ label, label.advances = true ∧ (s.step label).isSome = true := by
  obtain ⟨frame, frames, hframe⟩ := List.exists_cons_of_ne_nil hthread
  have hstep : ∀ action : FrameAction,
      (frameStep thread s.pool (s.calls frame.task.call) frame frame.stage action).isSome = true →
      ∃ label, label.advances = true ∧ (s.step label).isSome = true := by
    intro action hnext
    refine ⟨.frame thread action, rfl, ?_⟩
    simp only [State.step, hframe, Option.isSome_map, hnext]
  cases hstage : frame.stage with
  | running =>
      by_cases hless : frame.next < frame.task.range.last
      · exact hstep (.index none) (by rw [hstage, frameStep, if_pos hless]; rfl)
      · exact hstep .finish (by rw [hstage, frameStep, if_neg hless]; rfl)
  | reporting => exact hstep .report (by rw [hstage]; rfl)
  | recording =>
      refine hstep (.record none) ?_
      rw [hstage, frameStep]
      split
      · split <;> rfl
      · rfl
  | completing receiptError => exact hstep .complete (by rw [hstage]; rfl)
  | flushing => exact hstep (.flush none) (by rw [hstage]; rfl)

theorem caller_advances {action : CallerAction}
    (hadvances : (Label.caller id action : Label threadCount).advances = true)
    (hnext : (callerStep threadCount id s.queue.length s.pool (s.calls id) (s.calls id).stage action).isSome = true) :
    ∃ label, label.advances = true ∧ (s.step label).isSome = true :=
  ⟨.caller id action, hadvances, by simp only [State.step, Option.isSome_map, hnext]⟩

theorem Sound.never_stuck (hthreads : 0 < threadCount) (ht : Sound maximum t)
    (hentered : (t.calls id).stage ≠ .unentered) (hopen : (t.calls id).ended = false) :
    ∃ label, label.advances = true ∧ (t.step label).isSome = true := by
  by_cases hthread : ∃ thread, t.threads thread ≠ []
  · obtain ⟨thread, hthread⟩ := hthread
    exact thread_advances hthread
  · rw [not_exists] at hthread
    have hidle : ∀ thread, t.threads thread = [] := fun thread => not_not.mp (hthread thread)
    cases hqueue : t.queue with
    | cons task queue =>
        refine ⟨.pop ⟨0, hthreads⟩, rfl, ?_⟩
        simp only [State.step, hidle, hqueue, Option.isSome_some]
    | nil =>
        -- nothing is pending, so the call waits for nothing
        have hwaited := ht.waited id
        have hnone : pending t id (fun _ => 1) = 0 := by
          unfold pending threadSum
          simp [hqueue, hidle]
        rw [hnone] at hwaited
        have hfits := ht.calls id
        cases hstage : (t.calls id).stage with
        | unentered => exact absurd hstage hentered
        | enqueueing =>
            have hroom := (hfits.prepared hstage).2
            rw [← ht.bound] at hroom
            refine caller_advances (rfl : (Label.caller id .enqueue).advances = true) ?_
            rw [hstage, callerStep, hqueue, List.length_nil, zero_add, if_neg (not_lt.mpr hroom)]
            rfl
        | waiting =>
            rw [Call.expected, hstage] at hwaited
            refine caller_advances (rfl : (Label.caller id .wake).advances = true) ?_
            rw [hstage, callerStep, if_pos hwaited.symm]
            rfl
        | flushing error =>
            refine caller_advances (rfl : (Label.caller id (.flush none)).advances = true) ?_
            rw [hstage, callerStep]
            split <;> rfl
        | flushingEmpty =>
            exact caller_advances (rfl : (Label.caller id (.flush none)).advances = true) (by rw [hstage]; rfl)
        | checking => exact caller_advances (rfl : (Label.caller id .check).advances = true) (by rw [hstage]; rfl)
        | nested =>
            rw [Call.expected, hstage] at hwaited
            cases hwaited
        | returned =>
            rw [Call.ended, hstage] at hopen
            cases hopen
        | thrown error =>
            rw [Call.ended, hstage] at hopen
            cases hopen

/-! ### No schedule goes on for ever -/

/-- How many steps a task needs, from the queue to its end. -/
def Task.steps (task : Task) : ℕ := task.range.last - task.range.first + 5

def FrameStage.steps : FrameStage → ℕ
  | .running => 4
  | .reporting => 3
  | .recording => 2
  | .completing _ | .flushing => 1

def Frame.steps (frame : Frame) : ℕ := frame.task.range.last - frame.next + frame.stage.steps

def Call.steps (call : Call) : ℕ :=
  match call.stage with
  | .enqueueing => 4 + (call.chunks.map fun range => range.last - range.first + 5).sum
  | .waiting => 3
  | .flushing _ => 2
  | .flushingEmpty | .checking => 1
  | _ => 0

/-- How many steps a new call may bring. -/
def Label.credit : Label threadCount → ℕ
  | .caller _ (.enter count) => 6 * count + 4
  | .nest _ _ count => count + 4
  | _ => 0

def CallerAction.advances : CallerAction → Bool
  | .enter _ => false
  | _ => true

theorem sum_rangesFrom (first extra : ℕ) (sizes : List ℕ) :
    ((rangesFrom first sizes).map fun range => range.last - range.first + extra).sum =
      sizes.sum + extra * sizes.length := by
  induction sizes generalizing first with
  | nil => rfl
  | cons size sizes ih =>
      simp only [rangesFrom, List.map_cons, List.sum_cons, ih, List.length_cons, Nat.mul_succ]
      omega

theorem sum_chunkRanges (hthreads : 0 < threadCount) {count : ℕ} (hcount : 0 < count) :
    ((chunkRanges count threadCount).map fun range => range.last - range.first + 5).sum ≤ 6 * count := by
  have hchunks : 0 < min count threadCount := Nat.lt_min.mpr ⟨hcount, hthreads⟩
  have hremainder : count % min count threadCount < min count threadCount := Nat.mod_lt _ hchunks
  have hdivide := Nat.div_add_mod count (min count threadCount)
  have hless := Nat.min_le_left count threadCount
  rw [chunkRanges, sum_rangesFrom, sum_map_add_ite, Nat.min_eq_right (Nat.le_of_lt hremainder), hdivide,
    List.length_map, List.length_range]
  omega

theorem steps_of_ended (h : call.ended = true) : call.steps = 0 := by
  unfold Call.ended at h
  unfold Call.steps
  split at h <;> simp_all

theorem callerStep_steps {action : CallerAction} {next : WorkPool × Call × List Task} (hthreads : 0 < threadCount)
    (h : callerStep threadCount id queued pool call call.stage action = some next) :
    next.2.1.steps + (next.2.2.map Task.steps).sum + (if action.advances then 1 else 0) ≤
      call.steps + (Label.caller id action : Label threadCount).credit := by
  unfold callerStep at h
  split at h
  · rename_i count hstage
    cases h
    have hentered : (call.entered threadCount pool count).steps ≤ 6 * count + 4 := by
      unfold Call.entered
      split
      · exact Nat.zero_le _
      · split
        · exact Nat.one_le_iff_ne_zero.mpr (Nat.succ_ne_zero _)
        · rename_i hcount
          split
          · exact Nat.zero_le _
          · dsimp only
            split
            · exact Nat.zero_le _
            · have hsum := sum_chunkRanges hthreads (Nat.pos_of_ne_zero hcount)
              simp only [Call.steps]
              omega
    simpa [CallerAction.advances, Label.credit] using hentered.trans (Nat.le_add_left _ _)
  · rename_i hstage
    split at h
    · cases h
    · cases h
      have hsame : (call.chunks.map fun range => (Task.mk id range).steps).sum =
          (call.chunks.map fun range => range.last - range.first + 5).sum := rfl
      simp only [Call.steps, hstage, List.map_map, Function.comp_def, hsame, CallerAction.advances, if_true]
      omega
  · rename_i hstage
    split at h
    · cases h
      simp [Call.steps, hstage, CallerAction.advances]
    · cases h
  · rename_i error flushError hstage
    dsimp only at h
    split at h
    · cases h
      simp only [Call.steps, hstage, CallerAction.advances, List.map_nil, List.sum_nil, if_true]
      omega
    · cases h
      simp only [Call.steps, hstage, CallerAction.advances, List.map_nil, List.sum_nil, if_true]
      omega
  · rename_i flushError hstage
    cases h
    rw [steps_of_ended (settle_ended _ _), Call.steps, hstage]
    exact Nat.le_add_right _ _
  · rename_i hstage
    cases h
    rw [steps_of_ended (settle_ended _ _), Call.steps, hstage]
    exact Nat.le_add_right _ _
  · cases h

theorem frameStep_steps {action : FrameAction} (hfits : frame.Fits) (hserves : frame.Serves call)
    (h : frameStep worker pool call frame frame.stage action = some result) :
    (result.frame.toList.map Frame.steps).sum + result.call.steps + 1 ≤ frame.steps + call.steps := by
  have hstages : ∀ stage, frame.stage = stage →
      frame.steps = frame.task.range.last - frame.next + stage.steps := by
    intro stage hstage
    rw [Frame.steps, hstage]
  unfold frameStep at h
  split at h
  · rename_i thrown hstage
    split at h
    · cases h
      simp only [Option.toList_some, List.map_cons, List.map_nil, List.sum_cons, List.sum_nil, Frame.steps]
      omega
    · cases h
  · rename_i hstage
    split at h
    · cases h
    · cases h
      rw [hstages _ hstage]
      simp only [Option.toList_some, List.map_cons, List.map_nil, List.sum_cons, List.sum_nil, Frame.steps]
      split <;> simp only [FrameStage.steps] <;> omega
  · rename_i hstage
    cases h
    rw [hstages _ hstage]
    have hsame : { call with error := call.error.or frame.error }.steps = call.steps := rfl
    simp only [Option.toList_some, List.map_cons, List.map_nil, List.sum_cons, List.sum_nil, Frame.steps, hsame,
      FrameStage.steps]
    omega
  · rename_i sinkError hstage
    rw [hstages _ hstage]
    dsimp only at h
    split at h
    · split at h
      · cases h
        simp only [Option.toList_none, List.map_nil, List.sum_nil, FrameStage.steps]
        rw [steps_of_ended rfl]
        omega
      · cases h
        simp only [Option.toList_some, List.map_cons, List.map_nil, List.sum_cons, List.sum_nil, Frame.steps,
          FrameStage.steps]
        omega
    · cases h
      simp only [Option.toList_some, List.map_cons, List.map_nil, List.sum_cons, List.sum_nil, Frame.steps,
        FrameStage.steps]
      omega
  · rename_i receiptError hstage
    cases h
    rw [hstages _ hstage]
    have hwaiting : call.stage = .waiting := by
      rw [Frame.Serves, if_neg (by rw [hfits.completing receiptError hstage]; exact Bool.false_ne_true)] at hserves
      exact hserves.1
    simp only [Option.toList_none, List.map_nil, List.sum_nil, FrameStage.steps, Call.steps, hwaiting]
    omega
  · rename_i flushError hstage
    cases h
    rw [hstages _ hstage, steps_of_ended (settle_ended _ _)]
    simp only [Option.toList_none, List.map_nil, List.sum_nil, FrameStage.steps]
    omega
  · cases h

/-- The steps that the calls in `ids` and their tasks still need. -/
def State.steps (s : State threadCount) (ids : Finset ℕ) : ℕ :=
  ∑ id ∈ ids, (s.calls id).steps + (s.queue.map Task.steps).sum + threadSum s Frame.steps

/-- All calls that were made are among `ids`. -/
def Entered (s : State threadCount) (ids : Finset ℕ) : Prop := ∀ id ∉ ids, (s.calls id).stage = .unentered

theorem Entered.sum_calls {ids : Finset ℕ} {next : Call} (hids : Entered s ids)
    (ht : t.calls = Function.update s.calls id next) :
    ∑ other ∈ insert id ids, (t.calls other).steps + (s.calls id).steps =
      ∑ other ∈ ids, (s.calls other).steps + next.steps := by
  rw [ht, sum_update_on (fun _ call => call.steps) s.calls next (Finset.mem_insert_self id ids),
    Finset.sum_insert_of_eq_zero_if_notMem fun hid => by rw [Call.steps, hids id hid]]

theorem Entered.insert {ids : Finset ℕ} {next : Call} (hids : Entered s ids)
    (ht : t.calls = Function.update s.calls id next) : Entered t (insert id ids) := by
  intro other hother
  rw [Finset.mem_insert, not_or] at hother
  rw [ht, Function.update_of_ne hother.1]
  exact hids other hother.2

/-- One call and one thread have moved. -/
theorem Entered.steps_moved {ids : Finset ℕ} {next : Call} {frames : List Frame} (hids : Entered s ids)
    (hcalls : t.calls = Function.update s.calls id next) (hqueue : t.queue = s.queue)
    (hthreads : t.threads = Function.update s.threads thread frames) :
    t.steps (Insert.insert id ids) + (s.calls id).steps + ((s.threads thread).map Frame.steps).sum =
      s.steps ids + next.steps + (frames.map Frame.steps).sum := by
  have hsum := threadSum_moved Frame.steps hthreads
  have hmoved := hids.sum_calls hcalls
  unfold State.steps
  rw [hqueue]
  omega

theorem step_steps {ids : Finset ℕ} (hthreads : 0 < threadCount) (hs : Sound maximum s) (hids : Entered s ids)
    (h : s.step label = some t) : ∃ ids', Entered t ids' ∧
      t.steps ids' + (if label.advances then 1 else 0) ≤ s.steps ids + label.credit := by
  cases step_cases h with
  | @caller id action next hnext =>
      refine ⟨insert id ids, hids.insert rfl, ?_⟩
      have hless := callerStep_steps hthreads hnext
      have hcalls := hids.sum_calls
        (t := { s with pool := next.1, calls := Function.update s.calls id next.2.1, queue := s.queue ++ next.2.2 }) rfl
      have hadvances : (Label.caller id action : Label threadCount).advances = action.advances := by
        cases action <;> rfl
      have hsame : threadSum
          { s with pool := next.1, calls := Function.update s.calls id next.2.1, queue := s.queue ++ next.2.2 }
          Frame.steps = threadSum s Frame.steps := rfl
      simp only [State.steps, List.map_append, List.sum_append, hadvances, hsame] at hcalls ⊢
      omega
  | @pop thread task queue hthread hqueue =>
      refine ⟨ids, hids, ?_⟩
      have hsum := threadSum_moved (s := s)
        (t := { s with queue, threads := Function.update s.threads thread [Frame.ofTask task] }) Frame.steps rfl
      have hframe : (Frame.ofTask task).steps + 1 = task.steps := rfl
      rw [hthread] at hsum
      simp only [List.map_cons, List.map_nil, List.sum_cons, List.sum_nil] at hsum
      simp only [State.steps, hqueue, List.map_cons, List.sum_cons, Label.advances, if_true]
      omega
  | @refused thread id count error hstage hfailed =>
      refine ⟨insert id ids, hids.insert rfl, ?_⟩
      have hcalls := hids.sum_calls
        (t := { s with calls := Function.update s.calls id { count, nested := true, stage := .thrown error } }) rfl
      have hzero : ({ count, nested := true, stage := .thrown error } : Call).steps = 0 := rfl
      have hsame : threadSum
          { s with calls := Function.update s.calls id { count, nested := true, stage := .thrown error } }
          Frame.steps = threadSum s Frame.steps := rfl
      simp only [State.steps, Label.advances, Bool.false_eq_true, if_false, hsame] at hcalls ⊢
      omega
  | @nested thread id count hstage =>
      refine ⟨insert id ids, hids.insert rfl, ?_⟩
      have hmoved := hids.steps_moved
        (t := { s with
          calls := Function.update s.calls id (.inside count)
          threads := Function.update s.threads thread (Frame.ofNested id count :: s.threads thread) }) rfl rfl rfl
      have hzero : (Call.inside count).steps = 0 := rfl
      have hframe : (Frame.ofNested id count).steps ≤ count + 4 := by
        unfold Frame.steps Frame.ofNested
        dsimp only
        split <;> simp only [FrameStage.steps] <;> omega
      rw [List.map_cons, List.sum_cons] at hmoved
      simp only [Label.advances, Label.credit, Bool.false_eq_true, if_false]
      change State.steps { s with
        calls := Function.update s.calls id (.inside count)
        threads := Function.update s.threads thread (Frame.ofNested id count :: s.threads thread) } _ + _ ≤ _
      omega
  | @frame thread action frame frames next hthread hnext =>
      refine ⟨insert frame.task.call ids, hids.insert rfl, ?_⟩
      have hmem : frame ∈ s.threads thread := by
        rw [hthread]
        exact List.mem_cons_self
      have hless := frameStep_steps (hs.frames thread frame hmem).1 (hs.serves hmem) hnext
      have hmoved := hids.steps_moved
        (t := { s with
          pool := next.pool
          calls := Function.update s.calls frame.task.call next.call
          threads := Function.update s.threads thread (next.frame.toList ++ frames)
          executed := s.executed ++ next.execution.toList
          completed := if next.frame.isSome then s.completed else s.completed ++ [frame.task] }) rfl rfl rfl
      rw [hthread, List.map_cons, List.sum_cons, List.map_append, List.sum_append] at hmoved
      simp only [Label.advances, if_true]
      omega

/-- The steps taken and those still needed are no more than the calls so far have brought. -/
def Paid (labels : List (Label threadCount)) (t : State threadCount) : Prop :=
  ∃ ids, Entered t ids ∧ t.steps ids + labels.countP Label.advances ≤ (labels.map Label.credit).sum

/-- A schedule takes no more steps than its calls pay for, the queue keeps its bound, and while a call has not
ended some step other than a new call may be taken. So every call ends once no more are made. -/
theorem calls_finish (hthreads : 0 < threadCount)
    (hrun : runSchedule State.step (State.initial threadCount pool) labels = some t) :
    t.queue.length ≤ pool.maximumPendingTasks ∧
      labels.countP Label.advances ≤ (labels.map Label.credit).sum ∧
      ∀ id, (t.calls id).stage ≠ .unentered → (t.calls id).ended = false →
        ∃ label, label.advances = true ∧ (t.step label).isSome = true := by
  have ht := run_sound hthreads hrun
  have hpaid : Paid labels t := by
    refine runSchedule_induction Paid ⟨∅, fun _ _ => rfl, ?_⟩ ?_ hrun
    · simp [State.steps, State.initial, threadSum]
    · intro labels label s t hbefore hpaid hstep
      obtain ⟨ids, hids, hle⟩ := hpaid
      obtain ⟨ids', hids', hless⟩ := step_steps hthreads (run_sound hthreads hbefore) hids hstep
      refine ⟨ids', hids', ?_⟩
      rw [List.countP_append, List.countP_singleton, List.map_append, List.sum_append, List.map_singleton,
        List.sum_singleton]
      omega
  obtain ⟨ids, -, hle⟩ := hpaid
  exact ⟨ht.room, (Nat.le_add_left _ _).trans hle, fun id hentered hopen => ht.never_stuck hthreads hentered hopen⟩

theorem calls_finish_nested : nestedSchedule.countP Label.advances ≤ 22 + 6 ∧
    ∃ s, runSchedule State.step (.initial 2 twoThreads) nestedSchedule = some s ∧ s.queue.length ≤ 2 := by
  obtain ⟨s, t, hrun, -⟩ := nestedSchedule_runs
  obtain ⟨hroom, hpaid, -⟩ := calls_finish Nat.two_pos hrun
  exact ⟨hpaid, s, hrun, hroom⟩

end TxnOpt.Native.WorkPoolSchedules
