import TxnOpt.Native.Proof.WorkPoolSchedules

/-!
# Runs of the work pool

Whatever the schedule, every index of a call is executed at most once, and exactly once when an accepted call
has ended; and a call throws just when it should.
-/

namespace TxnOpt.Native.WorkPoolSchedules

variable {threadCount : ℕ} {s t : State threadCount} {label : Label threadCount}
  {labels : List (Label threadCount)} {pool after : WorkPool} {call : Call} {frame : Frame} {result : FrameResult}
  {id index worker queued : ℕ} {thread : Fin threadCount}

/-! ### A schedule

One call with three indices on two threads; index 0 calls the pool again, and the second of its two indices
throws.
-/

def twoThreads : WorkPool := { threadCount := 2, maximumPendingTasks := 2, hasSink := true }

def nestedSchedule : List (Label 2) :=
  [.caller 0 (.enter 3), .caller 0 .enqueue, .pop 0, .pop 1, .frame 1 (.index none), .nest 0 1 2,
    .frame 0 (.index none), .frame 0 (.index (some (.runtimeError "infeasible"))), .frame 0 .finish,
    .frame 0 (.record none), .frame 0 (.index (some (.runtimeError "infeasible"))), .frame 0 (.index none),
    .frame 0 .finish, .frame 0 .report, .frame 0 (.record none), .frame 0 .complete, .frame 1 .finish,
    .frame 1 .report, .frame 1 (.record none), .frame 1 .complete, .caller 0 .wake]

theorem nestedSchedule_runs : ∃ s t, runSchedule State.step (.initial 2 twoThreads) nestedSchedule = some s ∧
    s.step (.caller 0 (.flush none)) = some t ∧ (s.calls 0).ended = false ∧ (t.calls 0).ended = true ∧
    (t.calls 0).accepted = true ∧ (t.calls 0).count = 3 := by
  have htest : (runSchedule State.step (.initial 2 twoThreads) nestedSchedule).any (fun s =>
      !(s.calls 0).ended && (s.step (.caller 0 (.flush none))).any fun t =>
        (t.calls 0).ended && (t.calls 0).accepted && decide ((t.calls 0).count = 3)) = true := by decide
  obtain ⟨s, hrun, hs⟩ := (Option.any_eq_true _ _).mp htest
  obtain ⟨hopen, hlast⟩ := Bool.and_eq_true_iff.mp hs
  obtain ⟨t, hstep, ht⟩ := (Option.any_eq_true _ _).mp hlast
  simp only [Bool.and_eq_true, decide_eq_true_eq] at ht
  exact ⟨s, t, hrun, hstep, by simpa using hopen, ht.1.1, ht.1.2, ht.2⟩

/-! ### A caller's step -/

theorem le_of_mem_rangesFrom {first : ℕ} {sizes : List ℕ} :
    ∀ range ∈ rangesFrom first sizes, range.first ≤ range.last := by
  induction sizes generalizing first with
  | nil =>
      intro range h
      cases h
  | cons size sizes ih =>
      intro range h
      obtain heq | hlater := List.mem_cons.mp h
      · rw [heq]
        exact Nat.le_add_right _ _
      · exact ih range hlater

/-- What a step of a caller changes: the chunks it hands out are those it then waits for. -/
structure Called (maximum id queued : ℕ) (pool : WorkPool) (call : Call) (next : WorkPool × Call × List Task) :
    Prop where
  grows : Grows pool next.1
  fits : next.2.1.Fits maximum
  nested : next.2.1.nested = call.nested
  outer : call.nested = false
  served : call.stage = .waiting → call.remaining = 0
  handed : ∃ ranges, next.2.2 = ranges.map (Task.mk id) ∧ (∀ range ∈ ranges, range.first ≤ range.last) ∧
    next.2.1.live = call.live ++ ranges ∧ next.2.1.expected = call.expected + ranges.length ∧
    (ranges = [] ∨ queued + ranges.length ≤ pool.maximumPendingTasks)

theorem Called.ofIdle {maximum : ℕ} {next : Call} (hgrows : Grows pool after) (hfits : next.Fits maximum)
    (hnested : next.nested = call.nested) (houter : call.nested = false)
    (hserved : call.stage = .waiting → call.remaining = 0) (hlive : next.live = call.live)
    (hexpected : next.expected = call.expected) : Called maximum id queued pool call (after, next, []) where
  grows := hgrows
  fits := hfits
  nested := hnested
  outer := houter
  served := hserved
  handed := ⟨[], rfl, by simp, by rw [hlive, List.append_nil], by rw [hexpected, List.length_nil, add_zero], .inl rfl⟩

theorem Called.ofSettled {maximum : ℕ} {error : Option CppError} (hgrows : Grows pool after)
    (hfits : call.Fits maximum) (houter : call.nested = false) (hlive : call.live = call.chunks)
    (hwaiting : call.expected = 0) (hquiet : error = none → call.error = none) :
    Called maximum id queued pool call (after, call.settle error, []) := by
  have hsame := settle_same call error
  have hended := settle_ended call error
  refine .ofIdle hgrows (hfits.settled hended hsame ?_) hsame.2.1 houter ?_ ?_ ?_
  · intro hreturned
    cases error with
    | none => exact hquiet rfl
    | some error => cases hreturned
  · intro hstage
    rwa [Call.expected, hstage] at hwaiting
  · rw [live_of_ended hended, hsame.2.2.2.1, hlive]
  · rw [expected_of_ended hended, hwaiting]

theorem coverage_nil (index : ℕ) : coverage [] index = 0 := rfl

theorem Call.Fits.entered {maximum : ℕ} (hthreads : 0 < threadCount) (hpool : pool.maximumPendingTasks = maximum)
    (count : ℕ) (hfits : call.Fits maximum) (hstage : call.stage = .unentered) :
    (call.entered threadCount pool count).Fits maximum ∧ (call.entered threadCount pool count).nested = call.nested ∧
      (call.entered threadCount pool count).live = [] ∧ (call.entered threadCount pool count).expected = 0 := by
  obtain ⟨hnested, haccepted⟩ := hfits.unentered hstage
  have hchunks := hfits.refused haccepted
  have herror : call.error = none := hfits.quiet
    (by rw [hstage]; exact ⟨by rintro ⟨⟩, by rintro error ⟨⟩, by rintro error ⟨⟩⟩)
  have hrefused : ∀ error, { call with count, stage := .thrown error }.Fits maximum := by
    intro error
    refine ⟨by rintro ⟨⟩, by rintro ⟨⟩, by rintro ⟨⟩, by rintro ⟨⟩, hfits.refused, hfits.ordered, ?_, ?_, ?_⟩
    · intro h
      rw [haccepted] at h
      cases h
    · intro h
      exact absurd herror h
    · rintro error ⟨⟩
  unfold Call.entered
  split
  · exact ⟨hrefused _, rfl, hchunks, rfl⟩
  · split
    · rename_i hcount
      refine ⟨⟨by rintro ⟨⟩, by rintro ⟨⟩, fun _ => hnested, by rintro ⟨⟩, fun _ => hchunks, hfits.ordered, ?_, ?_, ?_⟩,
        rfl, hchunks, rfl⟩
      · intro _ index
        simp only [hchunks, hcount, coverage_nil, Nat.not_lt_zero, if_false]
      · intro h
        exact absurd herror h
      · rintro error ⟨⟩
    · split
      · exact ⟨hrefused _, rfl, hchunks, rfl⟩
      · dsimp only
        split
        · exact ⟨hrefused _, rfl, hchunks, rfl⟩
        · rename_i hbatch
          rw [not_or] at hbatch
          refine ⟨⟨by rintro ⟨⟩, by rintro ⟨⟩, fun _ => hnested, ?_, by rintro ⟨⟩, le_of_mem_rangesFrom,
            fun _ => coverage_chunkRanges hthreads count, ?_, by rintro error ⟨⟩⟩, rfl, rfl, rfl⟩
          · intro _
            exact ⟨rfl, hpool ▸ not_lt.mp hbatch.2⟩
          · intro h
            exact absurd herror h

theorem callerStep_called {maximum : ℕ} {action : CallerAction} {next : WorkPool × Call × List Task}
    (hthreads : 0 < threadCount) (hpool : pool.maximumPendingTasks = maximum) (hfits : call.Fits maximum)
    (h : callerStep threadCount id queued pool call call.stage action = some next) :
    Called maximum id queued pool call next := by
  unfold callerStep at h
  split at h
  · rename_i count hstage
    cases h
    obtain ⟨hnext, hsame, hlive, hexpected⟩ := hfits.entered hthreads hpool count hstage
    have hnone : call.live = [] ∧ call.expected = 0 := by
      rw [Call.live, Call.expected, hstage]
      exact ⟨rfl, rfl⟩
    exact .ofIdle (.refl pool) hnext hsame (hfits.unentered hstage).1 (by rw [hstage]; rintro ⟨⟩)
      (hlive.trans hnone.1.symm) (hexpected.trans hnone.2.symm)
  · rename_i hstage
    split at h
    · cases h
    · rename_i hroom
      cases h
      have houter := hfits.outer (by rw [hstage]; rfl)
      obtain ⟨hremaining, -⟩ := hfits.prepared hstage
      refine ⟨.refl pool, ?_, rfl, houter, by rw [hstage]; rintro ⟨⟩, call.chunks, rfl, hfits.ordered, ?_, ?_, ?_⟩
      · exact ⟨by rintro ⟨⟩, by rintro ⟨⟩, fun _ => houter, by rintro ⟨⟩, hfits.refused, hfits.ordered, hfits.covered,
          fun _ => .inl rfl, by rintro error ⟨⟩⟩
      · simp only [Call.live, hstage, List.nil_append]
      · simp only [Call.expected, hstage, hremaining, Nat.zero_add]
      · exact .inr (not_lt.mp hroom)
  · rename_i hstage
    split at h
    · rename_i hzero
      cases h
      have houter := hfits.outer (by rw [hstage]; rfl)
      refine .ofIdle (.refl pool) ?_ rfl houter (fun _ => hzero) ?_ ?_
      · exact ⟨by rintro ⟨⟩, by rintro ⟨⟩, fun _ => houter, by rintro ⟨⟩, hfits.refused, hfits.ordered, hfits.covered,
          fun _ => .inr (.inl rfl), by rintro error ⟨⟩; rfl⟩
      · simp only [Call.live, hstage]
      · simp only [Call.expected, hstage, hzero]
    · cases h
  · rename_i error flushError hstage
    have houter := hfits.outer (by rw [hstage]; rfl)
    have hgrows := (flushTaskReceipts_grows pool flushError).1
    dsimp only at h
    split at h
    · rename_i thrown _
      cases h
      exact .ofSettled hgrows hfits houter (by simp only [Call.live, hstage])
        (by simp only [Call.expected, hstage]) fun hnone : some thrown = none => by cases hnone
    · rename_i hnone
      cases h
      have herror : call.error = none := by
        rw [Option.or_eq_none_iff] at hnone
        rw [← hfits.flushing error hstage, hnone.1]
      refine .ofIdle hgrows ?_ rfl houter (by rw [hstage]; rintro ⟨⟩) ?_ ?_
      · exact ⟨by rintro ⟨⟩, by rintro ⟨⟩, fun _ => houter, by rintro ⟨⟩, hfits.refused, hfits.ordered, hfits.covered,
          fun herr => absurd herror herr, by rintro error ⟨⟩⟩
      · simp only [Call.live, hstage]
      · simp only [Call.expected, hstage]
  · rename_i flushError hstage
    cases h
    have houter := hfits.outer (by rw [hstage]; rfl)
    exact .ofSettled (flushTaskReceipts_grows pool flushError).1 hfits houter (by simp only [Call.live, hstage])
      (by simp only [Call.expected, hstage]) fun _ => hfits.quiet
        (by rw [hstage]; exact ⟨by rintro ⟨⟩, by rintro error ⟨⟩, by rintro error ⟨⟩⟩)
  · rename_i hstage
    cases h
    have houter := hfits.outer (by rw [hstage]; rfl)
    exact .ofSettled (.refl pool) hfits houter (by simp only [Call.live, hstage])
      (by simp only [Call.expected, hstage]) fun _ => hfits.quiet
        (by rw [hstage]; exact ⟨by rintro ⟨⟩, by rintro error ⟨⟩, by rintro error ⟨⟩⟩)
  · cases h

/-! ### What a step is -/

inductive Stepped (s : State threadCount) : Label threadCount → State threadCount → Prop
  | caller {id : ℕ} {action : CallerAction} {next : WorkPool × Call × List Task}
      (h : callerStep threadCount id s.queue.length s.pool (s.calls id) (s.calls id).stage action = some next) :
      Stepped s (.caller id action)
        { s with pool := next.1, calls := Function.update s.calls id next.2.1, queue := s.queue ++ next.2.2 }
  | pop {thread : Fin threadCount} {task : Task} {queue : List Task} (hthread : s.threads thread = [])
      (hqueue : s.queue = task :: queue) :
      Stepped s (.pop thread)
        { s with queue, threads := Function.update s.threads thread [Frame.ofTask task] }
  | refused {thread : Fin threadCount} {id count : ℕ} {error : CppError}
      (hstage : (s.calls id).stage = .unentered) (hfailed : s.pool.taskReceiptError = some error) :
      Stepped s (.nest thread id count)
        { s with calls := Function.update s.calls id { count, nested := true, stage := .thrown error } }
  | nested {thread : Fin threadCount} {id count : ℕ} (hstage : (s.calls id).stage = .unentered) :
      Stepped s (.nest thread id count)
        { s with
          calls := Function.update s.calls id
            { count, nested := true, accepted := true, chunks := [⟨0, count⟩], stage := .nested }
          threads := Function.update s.threads thread (Frame.ofNested id count :: s.threads thread) }
  | frame {thread : Fin threadCount} {action : FrameAction} {frame : Frame} {frames : List Frame}
      {next : FrameResult} (hthread : s.threads thread = frame :: frames)
      (h : frameStep thread s.pool (s.calls frame.task.call) frame frame.stage action = some next) :
      Stepped s (.frame thread action)
        { s with
          pool := next.pool
          calls := Function.update s.calls frame.task.call next.call
          threads := Function.update s.threads thread (next.frame.toList ++ frames)
          executed := s.executed ++ next.execution.toList
          completed := if next.frame.isSome then s.completed else s.completed ++ [frame.task] }

theorem step_cases (h : s.step label = some t) : Stepped s label t := by
  cases label with
  | caller id action =>
      obtain ⟨next, hnext, rfl⟩ := Option.map_eq_some_iff.mp h
      exact .caller hnext
  | pop thread =>
      unfold State.step at h
      dsimp only at h
      split at h
      · rename_i hthread hqueue
        cases h
        exact .pop hthread hqueue
      · cases h
  | nest thread id count =>
      unfold State.step at h
      dsimp only at h
      split at h
      · cases h
      · split at h
        · rename_i hcalls
          cases h
          unfold State.nest
          split
          · rename_i hfailed
            exact .refused hcalls.2.2 hfailed
          · exact .nested hcalls.2.2
        · cases h
  | frame thread action =>
      unfold State.step at h
      dsimp only at h
      split at h
      · cases h
      · rename_i hthread
        obtain ⟨next, hnext, rfl⟩ := Option.map_eq_some_iff.mp h
        exact .frame hthread hnext

/-! ### The invariant -/

structure Sound (maximum : ℕ) (s : State threadCount) : Prop where
  bound : s.pool.maximumPendingTasks = maximum
  room : s.queue.length ≤ maximum
  calls : ∀ id, (s.calls id).Fits maximum
  queued : ∀ task ∈ s.queue, task.range.first ≤ task.range.last ∧ (s.calls task.call).nested = false
  frames : ∀ thread, ∀ frame ∈ s.threads thread, frame.Fits ∧ frame.nested = (s.calls frame.task.call).nested
  account : ∀ id weight, pending s id weight + completed s id weight = ((s.calls id).live.map weight).sum
  waited : ∀ id, pending s id (fun _ => 1) = (s.calls id).expected
  executed : ∀ id index, s.executions id index = completed s id (covers index) + threadSum s (ran id index)

theorem sound_initial (pool : WorkPool) : Sound pool.maximumPendingTasks (State.initial threadCount pool) where
  bound := rfl
  room := Nat.zero_le _
  calls id := ⟨fun _ => ⟨rfl, rfl⟩, by rintro ⟨⟩, by rintro ⟨⟩, by rintro ⟨⟩, fun _ => rfl, by rintro range ⟨⟩,
    by rintro ⟨⟩, fun h => absurd rfl h, by rintro error ⟨⟩⟩
  queued := by rintro task ⟨⟩
  frames := by rintro thread frame ⟨⟩
  account id weight := by simp [pending, completed, threadSum, State.initial, Call.live]
  waited id := by simp [pending, threadSum, State.initial, Call.expected]
  executed id index := by simp [State.executions, completed, threadSum, State.initial]

variable {maximum : ℕ}

/-- A call that nothing is pending for has neither a task in the queue nor a frame. -/
theorem absent_of_pending (h : pending s id (fun _ => 1) = 0) :
    (∀ task ∈ s.queue, task.call ≠ id) ∧ ∀ thread, ∀ frame ∈ s.threads thread, frame.task.call ≠ id := by
  obtain ⟨hqueue, hthreads⟩ := Nat.add_eq_zero_iff.mp h
  constructor
  · intro task htask heq
    have hle := List.single_le_sum (fun _ _ => Nat.zero_le _) _
      (List.mem_map_of_mem (f := only id fun _ => 1) htask)
    rw [hqueue, only, if_pos heq] at hle
    exact absurd hle Nat.one_ne_zero.bot_lt.not_ge
  · intro thread frame hframe heq
    have hle := le_threadSum s (fun frame => only id (fun _ => 1) frame.task) hframe
    rw [hthreads, only, if_pos heq] at hle
    exact absurd hle Nat.one_ne_zero.bot_lt.not_ge

/-- A frame runs for a call that waits for it. -/
theorem Sound.serves (hs : Sound maximum s) (hframe : frame ∈ s.threads thread) :
    frame.Serves (s.calls frame.task.call) := by
  have hnested := (hs.frames thread frame hframe).2
  have hfits := hs.calls frame.task.call
  have hone : 0 < (s.calls frame.task.call).expected := by
    rw [← hs.waited]
    have hle := le_threadSum s (fun other => only frame.task.call (fun _ => 1) other.task) hframe
    rw [only, if_pos rfl] at hle
    exact Nat.lt_of_lt_of_le Nat.one_pos (hle.trans (Nat.le_add_left _ _))
  unfold Frame.Serves
  unfold Call.expected at hone
  split at hone
  · rename_i hstage
    have houter := hfits.outer (by rw [hstage]; rfl)
    rw [hnested, houter, if_neg Bool.false_ne_true]
    exact ⟨hstage, hone⟩
  · rename_i hstage
    rw [hnested, hfits.inner hstage, if_pos rfl]
    exact hstage
  · exact absurd hone (Nat.lt_irrefl 0)

theorem Sound.caller {next : WorkPool × Call × List Task} (hs : Sound maximum s)
    (hcalled : Called maximum id s.queue.length s.pool (s.calls id) next) :
    Sound maximum
      { s with pool := next.1, calls := Function.update s.calls id next.2.1, queue := s.queue ++ next.2.2 } := by
  obtain ⟨ranges, htasks, hordered, hlive, hexpected, hroom⟩ := hcalled.handed
  have hnested : ∀ other, (Function.update s.calls id next.2.1 other).nested = (s.calls other).nested := by
    intro other
    by_cases heq : other = id
    · rw [heq, Function.update_self, hcalled.nested]
    · rw [Function.update_of_ne heq]
  have hpending : ∀ other weight,
      pending
          { s with pool := next.1, calls := Function.update s.calls id next.2.1, queue := s.queue ++ next.2.2 }
          other weight =
        pending s other weight + if id = other then (ranges.map weight).sum else 0 := by
    intro other weight
    have hadded := sum_only_map other id weight ranges
    rw [← htasks] at hadded
    simp only [pending, List.map_append, List.sum_append, hadded, threadSum]
    omega
  refine ⟨hcalled.grows.bound.trans hs.bound, ?_, ?_, ?_, ?_, ?_, ?_, hs.executed⟩
  · simp only [htasks, List.length_append, List.length_map]
    obtain hnone | hfits := hroom
    · rw [hnone, List.length_nil, add_zero]
      exact hs.room
    · rw [← hs.bound]
      exact hfits
  · intro other
    by_cases heq : other = id
    · simp only [heq, Function.update_self]
      exact hcalled.fits
    · simp only [Function.update_of_ne heq]
      exact hs.calls other
  · intro task htask
    simp only [hnested]
    obtain hold | hnew := List.mem_append.mp htask
    · exact hs.queued task hold
    · rw [htasks] at hnew
      obtain ⟨range, hrange, rfl⟩ := List.mem_map.mp hnew
      exact ⟨hordered range hrange, hcalled.outer⟩
  · intro thread frame hframe
    simp only [hnested]
    exact hs.frames thread frame hframe
  · intro other weight
    have hbefore := hs.account other weight
    rw [hpending]
    change _ + completed s other weight = ((Function.update s.calls id next.2.1 other).live.map weight).sum
    by_cases heq : other = id
    · rw [heq] at hbefore ⊢
      rw [Function.update_self, hlive, List.map_append, List.sum_append, if_pos rfl]
      omega
    · rw [Function.update_of_ne heq, if_neg (Ne.symm heq)]
      omega
  · intro other
    have hbefore := hs.waited other
    rw [hpending]
    change _ = (Function.update s.calls id next.2.1 other).expected
    by_cases heq : other = id
    · rw [heq] at hbefore ⊢
      rw [Function.update_self, hexpected, if_pos rfl, hbefore]
      simp
    · rw [Function.update_of_ne heq, if_neg (Ne.symm heq)]
      omega

theorem Frame.Fits.ofTask {task : Task} (h : task.range.first ≤ task.range.last) : (Frame.ofTask task).Fits :=
  ⟨le_rfl, h, fun hnot => absurd rfl hnot, by rintro ⟨⟩, by rintro error ⟨⟩, by rintro ⟨⟩⟩

theorem Frame.Fits.ofNested (id count : ℕ) : (Frame.ofNested id count).Fits := by
  unfold Frame.ofNested
  split
  · rename_i hzero
    exact ⟨le_rfl, Nat.zero_le _, fun _ => hzero.symm, by rintro ⟨⟩, by rintro error ⟨⟩, fun _ => rfl⟩
  · exact ⟨le_rfl, Nat.zero_le _, fun hnot => absurd rfl hnot, by rintro ⟨⟩, by rintro error ⟨⟩, by rintro ⟨⟩⟩

theorem Sound.pop {task : Task} {queue : List Task} (hs : Sound maximum s) (hthread : s.threads thread = [])
    (hqueue : s.queue = task :: queue) :
    Sound maximum { s with queue, threads := Function.update s.threads thread [Frame.ofTask task] } := by
  have htask := hs.queued task (by rw [hqueue]; exact List.mem_cons_self)
  have hmoved : ∀ weight : Frame → ℕ,
      threadSum { s with queue, threads := Function.update s.threads thread [Frame.ofTask task] } weight =
        threadSum s weight + weight (Frame.ofTask task) := by
    intro weight
    have hsum := threadSum_moved (s := s)
      (t := { s with queue, threads := Function.update s.threads thread [Frame.ofTask task] }) weight rfl
    rw [hthread] at hsum
    simpa using hsum
  have hpending : ∀ id weight,
      pending { s with queue, threads := Function.update s.threads thread [Frame.ofTask task] } id weight =
        pending s id weight := by
    intro id weight
    unfold pending
    rw [hmoved, hqueue, List.map_cons, List.sum_cons]
    dsimp only [Frame.ofTask]
    omega
  refine ⟨hs.bound, ?_, hs.calls, ?_, ?_, ?_, ?_, ?_⟩
  · have hroom := hs.room
    rw [hqueue, List.length_cons] at hroom
    exact (Nat.le_succ _).trans hroom
  · intro other hother
    exact hs.queued other (by rw [hqueue]; exact List.mem_cons_of_mem _ hother)
  · intro other frame hframe
    by_cases heq : other = thread
    · simp only [heq, Function.update_self, List.mem_singleton] at hframe
      rw [hframe]
      exact ⟨.ofTask htask.1, htask.2.symm⟩
    · simp only [Function.update_of_ne heq] at hframe
      exact hs.frames other frame hframe
  · intro id weight
    rw [hpending]
    exact hs.account id weight
  · intro id
    rw [hpending]
    exact hs.waited id
  · intro id index
    have hnone : ran id index (Frame.ofTask task) = 0 := if_neg fun h => absurd h.2.2 (not_lt.mpr h.2.1)
    rw [hmoved, hnone, add_zero]
    exact hs.executed id index

/-- A nested call that is refused has nothing anywhere. -/
theorem Sound.refused {count : ℕ} {error : CppError} (hs : Sound maximum s)
    (hstage : (s.calls id).stage = .unentered) :
    Sound maximum
      { s with calls := Function.update s.calls id { count, nested := true, stage := .thrown error } } := by
  have hwaited := hs.waited id
  rw [Call.expected, hstage] at hwaited
  obtain ⟨hqueue, hthreads⟩ := absent_of_pending hwaited
  refine ⟨hs.bound, hs.room, ?_, ?_, ?_, ?_, ?_, hs.executed⟩
  · intro other
    by_cases heq : other = id
    · simp only [heq, Function.update_self]
      exact ⟨by rintro ⟨⟩, by rintro ⟨⟩, by rintro ⟨⟩, by rintro ⟨⟩, fun _ => rfl, by rintro range ⟨⟩, by rintro ⟨⟩,
        fun h => absurd rfl h, by rintro error ⟨⟩⟩
    · simp only [Function.update_of_ne heq]
      exact hs.calls other
  · intro task htask
    simp only [Function.update_of_ne (hqueue task htask)]
    exact hs.queued task htask
  · intro thread frame hframe
    simp only [Function.update_of_ne (hthreads thread frame hframe)]
    exact hs.frames thread frame hframe
  · intro other weight
    have hbefore := hs.account other weight
    by_cases heq : other = id
    · rw [heq, Call.live, hstage] at hbefore
      simp only [heq, Function.update_self]
      exact hbefore
    · simp only [Function.update_of_ne heq]
      exact hbefore
  · intro other
    have hbefore := hs.waited other
    by_cases heq : other = id
    · rw [heq, Call.expected, hstage] at hbefore
      simp only [heq, Function.update_self]
      exact hbefore
    · simp only [Function.update_of_ne heq]
      exact hbefore

/-- The call that a worker makes from inside an index. -/
def Call.inside (count : ℕ) : Call :=
  { count, nested := true, accepted := true, chunks := [⟨0, count⟩], stage := .nested }

theorem Call.Fits.inside (count : ℕ) : (Call.inside count).Fits maximum := by
  refine ⟨by rintro ⟨⟩, fun _ => rfl, by rintro ⟨⟩, by rintro ⟨⟩, by rintro ⟨⟩, ?_, ?_, fun h => absurd rfl h,
    by rintro error ⟨⟩⟩
  · intro range hrange
    rw [List.mem_singleton.mp hrange]
    exact Nat.zero_le _
  · intro _ index
    rw [coverage, Call.inside, List.countP_singleton]
    simp

theorem Sound.nested {count : ℕ} (hs : Sound maximum s) (hstage : (s.calls id).stage = .unentered)
    (ht : t = { s with
      calls := Function.update s.calls id (.inside count)
      threads := Function.update s.threads thread (Frame.ofNested id count :: s.threads thread) }) :
    Sound maximum t := by
  have hwaited := hs.waited id
  rw [Call.expected, hstage] at hwaited
  obtain ⟨hqueue, hthreads⟩ := absent_of_pending hwaited
  have hmoved : ∀ weight : Frame → ℕ,
      threadSum t weight = threadSum s weight + weight (Frame.ofNested id count) := by
    intro weight
    have hsum := threadSum_moved (s := s) (t := t) weight (by rw [ht])
    rw [List.map_cons, List.sum_cons] at hsum
    omega
  have hpending : ∀ other weight,
      pending t other weight = pending s other weight + if id = other then weight ⟨0, count⟩ else 0 := by
    intro other weight
    have hadded : only other weight (Frame.ofNested id count).task = if id = other then weight ⟨0, count⟩ else 0 := rfl
    have hsame : t.queue = s.queue := by rw [ht]
    unfold pending
    rw [hmoved, hadded, hsame, add_assoc]
  have hself : t.calls id = .inside count := by
    rw [ht]
    exact Function.update_self ..
  have hother : ∀ other, other ≠ id → t.calls other = s.calls other := by
    intro other hne
    rw [ht]
    exact Function.update_of_ne hne _ _
  refine ⟨ht ▸ hs.bound, ht ▸ hs.room, ?_, ?_, ?_, ?_, ?_, ?_⟩
  · intro other
    by_cases heq : other = id
    · rw [heq, hself]
      exact .inside count
    · rw [hother other heq]
      exact hs.calls other
  · intro task htask
    have hmem : task ∈ s.queue := by rwa [ht] at htask
    rw [hother _ (hqueue task hmem)]
    exact hs.queued task hmem
  · intro other frame hframe
    have hcases : frame = Frame.ofNested id count ∨ frame ∈ s.threads other := by
      rw [ht] at hframe
      by_cases heq : other = thread
      · rw [heq] at hframe ⊢
        simpa only [Function.update_self, List.mem_cons] using hframe
      · simp only [Function.update_of_ne heq] at hframe
        exact .inr hframe
    obtain hnew | hold := hcases
    · rw [hnew]
      exact ⟨.ofNested id count, (congrArg Call.nested hself).symm⟩
    · rw [hother _ (hthreads other frame hold)]
      exact hs.frames other frame hold
  · intro other weight
    have hbefore := hs.account other weight
    have hcompleted : completed t other weight = completed s other weight := by
      rw [ht]
      rfl
    rw [hpending, hcompleted]
    by_cases heq : other = id
    · rw [heq] at hbefore ⊢
      rw [hself, if_pos rfl]
      rw [Call.live, hstage, List.map_nil, List.sum_nil] at hbefore
      rw [show (Call.inside count).live = [⟨0, count⟩] from rfl, List.map_singleton, List.sum_singleton]
      omega
    · rw [hother other heq, if_neg (Ne.symm heq), add_zero]
      exact hbefore
  · intro other
    rw [hpending]
    by_cases heq : other = id
    · rw [heq, hself, if_pos rfl, hwaited]
      rfl
    · rw [hother other heq, if_neg (Ne.symm heq), add_zero]
      exact hs.waited other
  · intro other index
    have hnone : ran other index (Frame.ofNested id count) = 0 :=
      if_neg fun h => absurd h.2.2 (Nat.not_lt_zero index)
    have hsame : t.executions other index = s.executions other index ∧
        completed t other (covers index) = completed s other (covers index) := by
      rw [ht]
      exact ⟨rfl, rfl⟩
    rw [hsame.1, hsame.2, hmoved, hnone, add_zero]
    exact hs.executed other index

/-- What a frame has run is what it covers, once it is over. -/
theorem ran_eq_only (h : frame.next = frame.task.range.last) (id index : ℕ) :
    ran id index frame = only id (covers index) frame.task := by
  unfold ran only covers
  rw [h]
  split
  · rename_i hrun
    rw [if_pos hrun.1, if_pos hrun.2]
  · rename_i hrun
    split
    · rename_i hcall
      rw [if_neg fun hboth => hrun ⟨hcall, hboth⟩]
    · rfl

theorem ran_succ {next : Frame} (hfirst : frame.task.range.first ≤ frame.next) (htask : next.task = frame.task)
    (hnext : next.next = frame.next + 1) (id index : ℕ) :
    ran id index next = ran id index frame + if frame.task.call = id ∧ frame.next = index then 1 else 0 := by
  unfold ran
  rw [htask, hnext]
  by_cases hcall : frame.task.call = id
  · simp only [hcall, true_and]
    split <;> split <;> split <;> omega
  · simp [hcall]

theorem Sound.advanced {frames : List Frame} {next : FrameResult} (hs : Sound maximum s)
    (hthread : s.threads thread = frame :: frames)
    (hadvanced : Advanced s.pool (s.calls frame.task.call) frame next)
    (ht : t = { s with
      pool := next.pool
      calls := Function.update s.calls frame.task.call next.call
      threads := Function.update s.threads thread (next.frame.toList ++ frames)
      executed := s.executed ++ next.execution.toList
      completed := if next.frame.isSome then s.completed else s.completed ++ [frame.task] }) :
    Sound maximum t := by
  have hfits := (hs.frames thread frame (by rw [hthread]; exact List.mem_cons_self)).1
  have hnested : ∀ id, (t.calls id).nested = (s.calls id).nested := by
    intro id
    rw [ht]
    by_cases heq : id = frame.task.call
    · simp only [heq, Function.update_self]
      exact hadvanced.nested
    · simp only [Function.update_of_ne heq]
  have hmoved : ∀ weight : Frame → ℕ,
      threadSum t weight + weight frame = threadSum s weight + (next.frame.toList.map weight).sum := by
    intro weight
    have hsum := threadSum_moved (s := s) (t := t) weight (by rw [ht])
    rw [hthread, List.map_cons, List.sum_cons, List.map_append, List.sum_append] at hsum
    omega
  have hqueue : t.queue = s.queue := by rw [ht]
  -- what the frame leaves of its task: nothing changes while it is there, and its end moves it to what is done
  have hleft : ∀ id weight,
      pending t id weight + (if next.frame.isSome then 0 else only id weight frame.task) = pending s id weight := by
    intro id weight
    have hsum := hmoved fun other => only id weight other.task
    unfold pending
    rw [hqueue]
    cases hframe : next.frame with
    | none =>
        rw [hframe] at hsum
        simp only [Option.toList_none, List.map_nil, List.sum_nil, Option.isSome_none, Bool.false_eq_true,
          if_false] at hsum ⊢
        omega
    | some kept =>
        rw [hframe] at hsum
        simp only [Option.toList_some, List.map_cons, List.map_nil, List.sum_cons, List.sum_nil,
          (hadvanced.same kept hframe).1, Option.isSome_some, if_true] at hsum ⊢
        omega
  have hcompleted : ∀ id weight,
      completed t id weight = completed s id weight + if next.frame.isSome then 0 else only id weight frame.task := by
    intro id weight
    unfold completed
    rw [ht]
    cases next.frame <;> simp
  refine ⟨?_, ht ▸ hs.room, ?_, ?_, ?_, ?_, ?_, ?_⟩
  · rw [ht]
    exact hadvanced.grows.bound.trans hs.bound
  · intro id
    rw [ht]
    by_cases heq : id = frame.task.call
    · simp only [heq, Function.update_self]
      exact hadvanced.fits maximum (hs.calls _)
    · simp only [Function.update_of_ne heq]
      exact hs.calls id
  · intro task htask
    rw [hnested]
    exact hs.queued task (hqueue ▸ htask)
  · intro other kept hkept
    rw [hnested]
    rw [ht] at hkept
    by_cases heq : other = thread
    · simp only [heq, Function.update_self, List.mem_append, Option.mem_toList] at hkept
      obtain hnew | hold := hkept
      · obtain ⟨htask, hsame, hnew, -⟩ := hadvanced.same kept hnew
        rw [htask, hsame]
        exact ⟨hnew, (hs.frames thread frame (by rw [hthread]; exact List.mem_cons_self)).2⟩
      · exact hs.frames thread kept (by rw [hthread]; exact List.mem_cons_of_mem _ hold)
    · simp only [Function.update_of_ne heq] at hkept
      exact hs.frames other kept hkept
  · intro id weight
    have hbefore := hs.account id weight
    have hpending := hleft id weight
    rw [hcompleted]
    have hlive : (t.calls id).live = (s.calls id).live := by
      rw [ht]
      by_cases heq : id = frame.task.call
      · simp only [heq, Function.update_self]
        exact hadvanced.live
      · simp only [Function.update_of_ne heq]
    rw [hlive]
    omega
  · intro id
    have hbefore := hs.waited id
    have hpending := hleft id fun _ => 1
    rw [ht] at hpending ⊢
    by_cases heq : id = frame.task.call
    · have hexpected := hadvanced.expected
      simp only [heq, Function.update_self, only, if_true] at hbefore hpending ⊢
      omega
    · simp only [Function.update_of_ne heq, only, if_neg (Ne.symm heq), ite_self, add_zero] at hbefore hpending ⊢
      rw [hpending]
      exact hbefore
  · intro id index
    have hbefore := hs.executed id index
    have hsum := hmoved (ran id index)
    have hcounted : t.executions id index = s.executions id index + next.execution.toList.countP
        fun execution => decide (execution.call = id ∧ execution.index = index) := by
      rw [ht]
      exact List.countP_append
    rw [hcompleted, hcounted]
    obtain ⟨hnone, hsame⟩ | ⟨thrown, kept, hsome, hframe, hlater⟩ := hadvanced.executed
    · rw [hnone, Option.toList_none, List.countP_nil]
      cases hframe : next.frame with
      | none =>
          rw [hframe, ran_eq_only (hadvanced.exhausted hframe)] at hsum
          simp only [Option.toList_none, List.map_nil, List.sum_nil, Option.isSome_none, Bool.false_eq_true,
            if_false] at hsum ⊢
          omega
      | some kept =>
          have hran : ran id index kept = ran id index frame := by
            unfold ran
            rw [(hadvanced.same kept hframe).1, hsame kept hframe]
          rw [hframe] at hsum
          simp only [Option.toList_some, List.map_cons, List.map_nil, List.sum_cons, List.sum_nil, hran,
            Option.isSome_some, if_true] at hsum ⊢
          omega
    · have hran := ran_succ hfits.first_le (hadvanced.same kept hframe).1 hlater id index
      rw [hframe] at hsum
      rw [hsome, hframe, Option.toList_some, List.countP_singleton]
      simp only [Option.toList_some, List.map_cons, List.map_nil, List.sum_cons, List.sum_nil, hran,
        Option.isSome_some, if_true, decide_eq_true_eq] at hsum ⊢
      omega

theorem step_sound (hthreads : 0 < threadCount) (hs : Sound maximum s) (h : s.step label = some t) :
    Sound maximum t := by
  cases step_cases h with
  | caller hnext => exact hs.caller (callerStep_called hthreads hs.bound (hs.calls _) hnext)
  | pop hthread hqueue => exact hs.pop hthread hqueue
  | refused hstage _ => exact hs.refused hstage
  | nested hstage => exact hs.nested hstage rfl
  | @frame thread _ frame frames _ hthread hnext =>
      have hmem : frame ∈ s.threads thread := by
        rw [hthread]
        exact List.mem_cons_self
      exact hs.advanced hthread (frameStep_advanced (hs.frames thread frame hmem).1 (hs.serves hmem) hnext) rfl

/-- Whatever the schedule. -/
theorem run_sound (hthreads : 0 < threadCount)
    (hrun : runSchedule State.step (State.initial threadCount pool) labels = some t) :
    Sound pool.maximumPendingTasks t :=
  runSchedule_invariant (Sound pool.maximumPendingTasks) (fun _ _ _ hs h => step_sound hthreads hs h) hrun
    (sound_initial pool)

/-! ### Each index once -/

theorem Sound.executions_add_pending (hs : Sound maximum s) (id index : ℕ) :
    s.executions id index ≤ coverage (s.calls id).live index ∧
      (pending s id (fun _ => 1) = 0 → s.executions id index = coverage (s.calls id).live index) := by
  have hexecuted := hs.executed id index
  have haccount := hs.account id (covers index)
  rw [sum_covers] at haccount
  have hran : threadSum s (ran id index) ≤ pending s id (covers index) := by
    refine le_trans ?_ (Nat.le_add_left _ _)
    refine Finset.sum_le_sum fun thread _ => List.sum_le_sum fun frame hframe => ?_
    have hnext := (hs.frames thread frame hframe).1.next_le
    unfold ran only covers
    split
    · rename_i hrun
      rw [if_pos hrun.1, if_pos ⟨hrun.2.1, lt_of_lt_of_le hrun.2.2 hnext⟩]
    · exact Nat.zero_le _
  refine ⟨by omega, fun hnone => ?_⟩
  obtain ⟨hqueue, hthreads⟩ := absent_of_pending hnone
  have hzero : pending s id (covers index) = 0 := by
    refine Nat.add_eq_zero_iff.mpr ⟨List.sum_eq_zero ?_, Finset.sum_eq_zero fun thread _ => List.sum_eq_zero ?_⟩
    · intro weight hweight
      obtain ⟨task, htask, rfl⟩ := List.mem_map.mp hweight
      exact if_neg (hqueue task htask)
    · intro weight hweight
      obtain ⟨frame, hframe, rfl⟩ := List.mem_map.mp hweight
      exact if_neg (hthreads thread frame hframe)
  omega

theorem Call.Fits.coverage_chunks (hfits : call.Fits maximum) (index : ℕ) :
    coverage call.chunks index = if call.accepted = true ∧ index < call.count then 1 else 0 := by
  cases haccepted : call.accepted with
  | false => rw [hfits.refused haccepted, coverage_nil, if_neg (by simp)]
  | true => simpa using hfits.covered haccepted index

theorem coverage_live_le (call : Call) (index : ℕ) : coverage call.live index ≤ coverage call.chunks index := by
  unfold Call.live
  split <;> simp [coverage_nil]

/-- Whatever the schedule, no index is executed twice, and none that the call does not have. A call that has
ended has executed each of its indices, and nothing of it is left in the queue or on a thread. -/
theorem each_index_once (hthreads : 0 < threadCount)
    (hrun : runSchedule State.step (State.initial threadCount pool) labels = some t) (id index : ℕ) :
    t.executions id index ≤ (if (t.calls id).accepted = true ∧ index < (t.calls id).count then 1 else 0) ∧
      ((t.calls id).ended = true →
        t.executions id index = (if (t.calls id).accepted = true ∧ index < (t.calls id).count then 1 else 0) ∧
          (∀ task ∈ t.queue, task.call ≠ id) ∧
          ∀ thread, ∀ frame ∈ t.threads thread, frame.task.call ≠ id) := by
  have ht := run_sound hthreads hrun
  obtain ⟨hle, heq⟩ := ht.executions_add_pending id index
  rw [← (ht.calls id).coverage_chunks]
  refine ⟨hle.trans (coverage_live_le _ _), fun hended => ?_⟩
  have hnone : pending t id (fun _ => 1) = 0 := (ht.waited id).trans (expected_of_ended hended)
  refine ⟨?_, absent_of_pending hnone⟩
  rw [heq hnone, live_of_ended hended]

theorem each_index_once_nested : ∃ t, runSchedule State.step (.initial 2 twoThreads)
      (nestedSchedule ++ [.caller 0 (.flush none)]) = some t ∧ t.executions 0 1 = 1 := by
  obtain ⟨s, t, hrun, hstep, -, hended, haccepted, hcount⟩ := nestedSchedule_runs
  have hwhole := runSchedule_concat_eq_some.mpr ⟨s, hrun, hstep⟩
  refine ⟨t, hwhole, ?_⟩
  rw [((each_index_once Nat.two_pos hwhole 0 1).2 hended).1, if_pos ⟨haccepted, by rw [hcount]; decide⟩]

/-! ### What a call throws -/

def CallStage.isThrown : CallStage → Bool
  | .thrown _ => true
  | _ => false

/-- A call that has an error, of its own or thrown. -/
def Call.raises (call : Call) : Prop := call.error.isSome = true ∨ call.stage.isThrown = true

/-- One of the indices of a call threw. -/
def State.threw (s : State threadCount) (id : ℕ) : Prop :=
  ∃ execution ∈ s.executed, execution.call = id ∧ execution.thrown.isSome = true

/-- A frame has an error only until it has handed it on. -/
structure Frame.Quiet (pool : WorkPool) (frame : Frame) : Prop where
  held : frame.error.isSome = true →
    frame.stage = .running ∨ frame.stage = .reporting ∨ frame.stage = .recording ∧ frame.nested = true
  receipt : ∀ error, frame.stage = .completing (some error) → pool.taskReceiptError.isSome = true

theorem Frame.Quiet.grows (hquiet : frame.Quiet pool) (hgrows : Grows pool after) : frame.Quiet after :=
  ⟨hquiet.held, fun error h => hgrows.failure (hquiet.receipt error h)⟩

theorem Frame.Quiet.handed (hquiet : frame.Quiet pool) (hstage : frame.stage ≠ .running ∧ frame.stage ≠ .reporting)
    (hrecording : frame.stage = .recording → frame.nested = false) : frame.error.isSome ≠ true := by
  intro hsome
  obtain hrunning | hreporting | ⟨hrecorded, hnested⟩ := hquiet.held hsome
  · exact hstage.1 hrunning
  · exact hstage.2 hreporting
  · rw [hrecording hrecorded] at hnested
    cases hnested

theorem raises_of_settled {error : Option CppError} (h : call.error.isSome = true ∨ error.isSome = true) :
    (call.settle error).raises := by
  cases error with
  | none => exact .inl (h.resolve_right (by simp))
  | some error => exact .inr rfl

theorem of_raises_settled {error : Option CppError} (h : (call.settle error).raises) :
    call.error.isSome = true ∨ error.isSome = true := by
  cases error with
  | none =>
      obtain herror | hthrown := h
      · exact .inl herror
      · cases hthrown
  | some error => exact .inr rfl

/-- An error stays with its call until it is thrown, and comes from the call or from a receipt. -/
structure Blamed (pool after : WorkPool) (call next : Call) : Prop where
  keeps : call.raises → next.raises
  cause : next.accepted = true → next.raises → call.accepted = true ∧ call.raises ∨ after.taskReceiptError.isSome = true
  empty : next.stage = .flushingEmpty → call.stage = .flushingEmpty ∧ next.count = call.count ∨ next.count = 0

theorem Blamed.ofSettled {error : Option CppError} (hquiet : call.stage.isThrown = false)
    (hcause : error.isSome = true → call.error.isSome = true ∨ after.taskReceiptError.isSome = true) :
    Blamed pool after call (call.settle error) where
  keeps h := by
    obtain herror | hthrown := h
    · exact raises_of_settled (.inl herror)
    · rw [hquiet] at hthrown
      cases hthrown
  cause haccepted h := by
    have hsame : call.accepted = true := by rw [← (settle_same call error).2.2.1, haccepted]
    obtain herror | hsome := of_raises_settled h
    · exact .inl ⟨hsame, .inl herror⟩
    · obtain herror | hreceipt := hcause hsome
      · exact .inl ⟨hsame, .inl herror⟩
      · exact .inr hreceipt
  empty h := by cases error <;> cases h

theorem Blamed.ofMoved {stage : CallStage} (hquiet : call.stage.isThrown = false) (hmoved : stage.isThrown = false)
    (hstage : stage ≠ .flushingEmpty) : Blamed pool after call { call with stage } where
  keeps h := by
    obtain herror | hthrown := h
    · exact .inl herror
    · rw [hquiet] at hthrown
      cases hthrown
  cause haccepted h := by
    obtain herror | hthrown := h
    · exact .inl ⟨haccepted, .inl herror⟩
    · rw [hmoved] at hthrown
      cases hthrown
  empty h := absurd h hstage

theorem Call.Fits.calm (hfits : call.Fits maximum) (hstage : call.stage = .unentered) : ¬call.raises := by
  have herror : call.error = none := hfits.quiet
    (by rw [hstage]; exact ⟨by rintro ⟨⟩, by rintro error ⟨⟩, by rintro error ⟨⟩⟩)
  intro hraises
  obtain hsome | hthrown := hraises
  · rw [herror] at hsome
    cases hsome
  · rw [hstage] at hthrown
    cases hthrown

theorem callerStep_blamed {action : CallerAction} {next : WorkPool × Call × List Task} (hfits : call.Fits maximum)
    (h : callerStep threadCount id queued pool call call.stage action = some next) :
    Blamed pool next.1 call next.2.1 := by
  unfold callerStep at h
  split at h
  · rename_i count hstage
    cases h
    have herror : call.error = none := hfits.quiet
      (by rw [hstage]; exact ⟨by rintro ⟨⟩, by rintro error ⟨⟩, by rintro error ⟨⟩⟩)
    have hcalm := hfits.calm hstage
    obtain ⟨-, haccepted⟩ := hfits.unentered hstage
    have hrefused : ∀ error, Blamed pool pool call { call with count, stage := .thrown error } := fun error =>
      ⟨fun h => absurd h hcalm, fun h _ => absurd (haccepted.symm.trans h) Bool.false_ne_true, by rintro ⟨⟩⟩
    unfold Call.entered
    split
    · exact hrefused _
    · split
      · rename_i hzero
        refine ⟨fun h => absurd h hcalm, fun _ h => ?_, fun _ => .inr hzero⟩
        obtain herr | hthrown := h
        · rw [herror] at herr
          cases herr
        · cases hthrown
      · split
        · exact hrefused _
        · dsimp only
          split
          · exact hrefused _
          · refine ⟨fun h => absurd h hcalm, fun _ h => ?_, by rintro ⟨⟩⟩
            obtain herr | hthrown := h
            · rw [herror] at herr
              cases herr
            · cases hthrown
  · rename_i hstage
    split at h
    · cases h
    · cases h
      exact .ofMoved (by rw [hstage]; rfl) rfl (by rintro ⟨⟩)
  · rename_i hstage
    split at h
    · cases h
      exact .ofMoved (by rw [hstage]; rfl) rfl (by rintro ⟨⟩)
    · cases h
  · rename_i error flushError hstage
    have hreceipt := (flushTaskReceipts_grows pool flushError).2
    dsimp only at h
    split at h
    · rename_i thrown hthrown
      cases h
      refine .ofSettled (by rw [hstage]; rfl) fun _ : (some thrown).isSome = true => ?_
      obtain herror | hflushed := Option.or_eq_some_iff.mp hthrown
      · refine .inl ?_
        rw [← hfits.flushing error hstage, herror]
        rfl
      · exact .inr (hreceipt (by rw [hflushed.2]; rfl))
    · cases h
      exact .ofMoved (by rw [hstage]; rfl) rfl (by rintro ⟨⟩)
  · rename_i flushError hstage
    cases h
    exact .ofSettled (by rw [hstage]; rfl) fun hsome => .inr ((flushTaskReceipts_grows pool flushError).2 hsome)
  · rename_i hstage
    cases h
    exact .ofSettled (by rw [hstage]; rfl) fun hsome => .inr hsome
  · cases h

/-- An error of a frame goes to its call before the frame ends. -/
structure FrameBlamed (pool : WorkPool) (call : Call) (frame : Frame) (next : FrameResult) : Prop where
  keeps : frame.error.isSome = true ∨ call.raises →
    (∃ kept, next.frame = some kept ∧ kept.error.isSome = true) ∨ next.call.raises
  thrown : ∀ execution, next.execution = some execution → execution.thrown.isSome = true →
    ∃ kept, next.frame = some kept ∧ kept.error.isSome = true
  cause : next.call.raises →
    call.raises ∨ frame.error.isSome = true ∨ next.pool.taskReceiptError.isSome = true
  held : ∀ kept, next.frame = some kept → kept.error.isSome = true → frame.error.isSome = true ∨
    ∃ execution, next.execution = some execution ∧ execution.call = frame.task.call ∧ execution.thrown.isSome = true
  quiet : ∀ kept, next.frame = some kept → kept.Quiet next.pool

theorem or_isSome_cases {error other : Option CppError} :
    (error.or other).isSome = true ↔ error.isSome = true ∨ other.isSome = true := by
  rw [Option.isSome_or, Bool.or_eq_true]

theorem frameStep_blamed {action : FrameAction} (hfits : frame.Fits) (hserves : frame.Serves call)
    (hquiet : frame.Quiet pool) (h : frameStep worker pool call frame frame.stage action = some result) :
    FrameBlamed pool call frame result := by
  unfold frameStep at h
  split at h
  · rename_i thrown hstage
    split at h
    · cases h
      refine ⟨?_, ?_, .inl, ?_, ?_⟩
      · intro hbefore
        exact hbefore.imp (fun herror => ⟨_, rfl, or_isSome_cases.mpr (.inl herror)⟩) id
      · rintro _ ⟨⟩ hthrown
        exact ⟨_, rfl, or_isSome_cases.mpr (.inr hthrown)⟩
      · rintro _ ⟨⟩ herror
        exact (or_isSome_cases.mp herror).imp id fun hthrown => ⟨_, rfl, rfl, hthrown⟩
      · rintro _ ⟨⟩
        exact ⟨fun _ => .inl hstage, fun error h => by rw [hstage] at h; cases h⟩
    · cases h
  · rename_i hstage
    split at h
    · cases h
    · cases h
      refine ⟨?_, by rintro _ ⟨⟩, .inl, ?_, ?_⟩
      · intro hbefore
        exact hbefore.imp (fun herror => ⟨_, rfl, herror⟩) id
      · rintro _ ⟨⟩ herror
        exact .inl herror
      · rintro _ ⟨⟩
        cases hnested : frame.nested with
        | true => exact ⟨fun _ => .inr (.inr ⟨rfl, rfl⟩), by rintro error ⟨⟩⟩
        | false => exact ⟨fun _ => .inr (.inl rfl), by rintro error ⟨⟩⟩
  · rename_i hstage
    cases h
    have hwaiting : call.stage.isThrown = false := by
      rw [Frame.Serves, if_neg (by rw [hfits.reporting hstage]; exact Bool.false_ne_true)] at hserves
      rw [hserves.1]
      rfl
    refine ⟨?_, by rintro _ ⟨⟩, ?_, ?_, ?_⟩
    · intro hbefore
      refine .inr (.inl (or_isSome_cases.mpr ?_))
      obtain herror | herror | hthrown := hbefore
      · exact .inr herror
      · exact .inl herror
      · rw [hwaiting] at hthrown
        cases hthrown
    · intro hraises
      obtain herror | hthrown := hraises
      · exact (or_isSome_cases.mp herror).elim (fun h => .inl (.inl h)) fun h => .inr (.inl h)
      · exact .inl (.inr hthrown)
    · rintro _ ⟨⟩ ⟨⟩
    · rintro _ ⟨⟩
      exact ⟨by rintro ⟨⟩, by rintro error ⟨⟩⟩
  · rename_i sinkError hstage
    have hreceipt := (recordTaskReceipt_grows pool sinkError
      ⟨worker, frame.task.range.first, frame.task.range.last⟩).2
    dsimp only at h
    split at h
    · split at h
      · rename_i error hsome
        cases h
        refine ⟨fun _ => .inr (.inr rfl), by rintro _ ⟨⟩, fun _ => .inr ?_, by rintro _ ⟨⟩, by rintro _ ⟨⟩⟩
        have heither := or_isSome_cases.mp (Option.isSome_of_eq_some hsome)
        exact heither.imp id hreceipt
      · rename_i hnone
        cases h
        have herror : frame.error.isSome = false := by rw [(Option.or_eq_none_iff.mp hnone).1]; rfl
        refine ⟨fun hbefore => .inr (hbefore.resolve_left (by rw [herror]; exact Bool.false_ne_true)), by rintro _ ⟨⟩,
          .inl, ?_, ?_⟩
        · rintro _ ⟨⟩ hkept
          exact .inl hkept
        · rintro _ ⟨⟩
          exact ⟨fun hkept => absurd (herror.symm.trans hkept) Bool.false_ne_true, by rintro error ⟨⟩⟩
    · rename_i hnested
      cases h
      have herror := hquiet.handed (by rw [hstage]; exact ⟨by rintro ⟨⟩, by rintro ⟨⟩⟩)
        fun _ => Bool.eq_false_iff.mpr hnested
      refine ⟨fun hbefore => .inr (hbefore.resolve_left herror), by rintro _ ⟨⟩, .inl, ?_, ?_⟩
      · rintro _ ⟨⟩ hkept
        exact .inl hkept
      · rintro _ ⟨⟩
        refine ⟨fun hkept => absurd hkept herror, fun error hcompleting => hreceipt ?_⟩
        rw [FrameStage.completing.inj hcompleting]
        rfl
  · rename_i receiptError hstage
    cases h
    have herror := hquiet.handed (by rw [hstage]; exact ⟨by rintro ⟨⟩, by rintro ⟨⟩⟩)
      (by rw [hstage]; rintro ⟨⟩)
    refine ⟨fun hbefore => .inr ?_, by rintro _ ⟨⟩, ?_, by rintro _ ⟨⟩, by rintro _ ⟨⟩⟩
    · exact (hbefore.resolve_left herror).imp (fun h => or_isSome_cases.mpr (.inl h)) id
    · intro hraises
      obtain hsome | hthrown := hraises
      · obtain hold | hnew := or_isSome_cases.mp hsome
        · exact .inl (.inl hold)
        · obtain ⟨error, rfl⟩ := Option.isSome_iff_exists.mp hnew
          exact .inr (.inr (hquiet.receipt error hstage))
      · exact .inl (.inr hthrown)
  · rename_i flushError hstage
    cases h
    have herror := hquiet.handed (by rw [hstage]; exact ⟨by rintro ⟨⟩, by rintro ⟨⟩⟩)
      (by rw [hstage]; rintro ⟨⟩)
    have hinner : call.stage.isThrown = false := by
      rw [Frame.Serves, if_pos (hfits.flushing hstage)] at hserves
      rw [hserves]
      rfl
    refine ⟨fun hbefore => .inr ?_, by rintro _ ⟨⟩, ?_, by rintro _ ⟨⟩, by rintro _ ⟨⟩⟩
    · refine raises_of_settled (.inl ?_)
      exact (hbefore.resolve_left herror).resolve_right (by rw [hinner]; exact Bool.false_ne_true)
    · intro hraises
      obtain hsome | hflushed := of_raises_settled hraises
      · exact .inl (.inl hsome)
      · exact .inr (.inr ((flushTaskReceipts_grows pool flushError).2 hflushed))
  · cases h

structure Errors (s : State threadCount) : Prop where
  kept : ∀ id, s.threw id → (s.calls id).raises ∨
    ∃ thread, ∃ frame ∈ s.threads thread, frame.task.call = id ∧ frame.error.isSome = true
  framed : ∀ thread, ∀ frame ∈ s.threads thread, frame.error.isSome = true → s.threw frame.task.call
  cause : ∀ id, (s.calls id).accepted = true → (s.calls id).raises →
    s.threw id ∨ s.pool.taskReceiptError.isSome = true
  quiet : ∀ thread, ∀ frame ∈ s.threads thread, frame.Quiet s.pool
  empty : ∀ id, (s.calls id).stage = .flushingEmpty → (s.calls id).count = 0

theorem errors_initial (pool : WorkPool) : Errors (State.initial threadCount pool) where
  kept := by rintro id ⟨execution, ⟨⟩, -⟩
  framed := by rintro thread frame ⟨⟩
  cause := by rintro id ⟨⟩
  quiet := by rintro thread frame ⟨⟩
  empty := by rintro id ⟨⟩

theorem Errors.caller {next : WorkPool × Call × List Task} (he : Errors s) (hgrows : Grows s.pool next.1)
    (hblamed : Blamed s.pool next.1 (s.calls id) next.2.1) :
    Errors { s with pool := next.1, calls := Function.update s.calls id next.2.1, queue := s.queue ++ next.2.2 } where
  kept other hthrew := by
    refine (he.kept other hthrew).imp (fun hraises => ?_) fun hframe => hframe
    by_cases heq : other = id
    · simp only [heq, Function.update_self]
      exact hblamed.keeps (heq ▸ hraises)
    · simp only [Function.update_of_ne heq]
      exact hraises
  framed := he.framed
  cause other haccepted hraises := by
    by_cases heq : other = id
    · simp only [heq, Function.update_self] at haccepted hraises
      obtain ⟨hbefore, hraised⟩ | hreceipt := hblamed.cause haccepted hraises
      · exact (he.cause other (heq ▸ hbefore) (heq ▸ hraised)).imp (fun h => h) hgrows.failure
      · exact .inr hreceipt
    · simp only [Function.update_of_ne heq] at haccepted hraises
      exact (he.cause other haccepted hraises).imp (fun h => h) hgrows.failure
  quiet thread frame hframe := (he.quiet thread frame hframe).grows hgrows
  empty other hstage := by
    by_cases heq : other = id
    · simp only [heq, Function.update_self] at hstage ⊢
      obtain ⟨hbefore, hcount⟩ | hzero := hblamed.empty hstage
      · rw [hcount]
        exact he.empty id hbefore
      · exact hzero
    · simp only [Function.update_of_ne heq] at hstage ⊢
      exact he.empty other hstage

/-- A step that only begins something. -/
theorem Errors.begun {calls : ℕ → Call} {threads : Fin threadCount → List Frame} {queue : List Task} (he : Errors s)
    (hold : ∀ thread, ∀ frame ∈ s.threads thread, frame ∈ threads thread)
    (hnew : ∀ thread, ∀ frame ∈ threads thread,
      frame ∈ s.threads thread ∨ frame.error = none ∧ ∀ error, frame.stage ≠ .completing error)
    (hraises : ∀ id, (s.calls id).raises → (calls id).raises)
    (hcause : ∀ id, (calls id).accepted = true → (calls id).raises → (s.calls id).accepted = true ∧ (s.calls id).raises)
    (hempty : ∀ id, (calls id).stage = .flushingEmpty → calls id = s.calls id) :
    Errors { s with calls, threads, queue } where
  kept id hthrew := by
    obtain hraised | ⟨thread, frame, hframe, hcall, herror⟩ := he.kept id hthrew
    · exact .inl (hraises id hraised)
    · exact .inr ⟨thread, frame, hold thread frame hframe, hcall, herror⟩
  framed thread frame hframe herror := by
    obtain hbefore | ⟨hnone, -⟩ := hnew thread frame hframe
    · exact he.framed thread frame hbefore herror
    · rw [hnone] at herror
      cases herror
  cause id haccepted hraised := by
    obtain ⟨hbefore, hraised⟩ := hcause id haccepted hraised
    exact he.cause id hbefore hraised
  quiet thread frame hframe := by
    obtain hbefore | ⟨hnone, hstage⟩ := hnew thread frame hframe
    · exact he.quiet thread frame hbefore
    · refine ⟨fun herror => ?_, fun error h => absurd h (hstage _)⟩
      rw [hnone] at herror
      cases herror
  empty id hstage := by
    have hsame := hempty id hstage
    dsimp only at hstage ⊢
    rw [hsame] at hstage ⊢
    exact he.empty id hstage

theorem ofNested_begun (id count : ℕ) :
    (Frame.ofNested id count).error = none ∧ ∀ error, (Frame.ofNested id count).stage ≠ .completing error := by
  refine ⟨rfl, fun error h => ?_⟩
  unfold Frame.ofNested at h
  dsimp only at h
  split at h <;> cases h

theorem Errors.advanced {frames : List Frame} {next : FrameResult} (he : Errors s)
    (hthread : s.threads thread = frame :: frames)
    (hadvanced : Advanced s.pool (s.calls frame.task.call) frame next)
    (hblamed : FrameBlamed s.pool (s.calls frame.task.call) frame next)
    (ht : t = { s with
      pool := next.pool
      calls := Function.update s.calls frame.task.call next.call
      threads := Function.update s.threads thread (next.frame.toList ++ frames)
      executed := s.executed ++ next.execution.toList
      completed := if next.frame.isSome then s.completed else s.completed ++ [frame.task] }) : Errors t := by
  have hmem : frame ∈ s.threads thread := by
    rw [hthread]
    exact List.mem_cons_self
  have hself : t.calls frame.task.call = next.call := by
    rw [ht]
    exact Function.update_self ..
  have hother : ∀ id, id ≠ frame.task.call → t.calls id = s.calls id := by
    intro id hne
    rw [ht]
    exact Function.update_of_ne hne _ _
  have hthrew : ∀ id, t.threw id ↔ s.threw id ∨
      ∃ execution, next.execution = some execution ∧ execution.call = id ∧ execution.thrown.isSome = true := by
    intro id
    simp only [ht, State.threw, List.mem_append, Option.mem_toList, or_and_right, exists_or]
  have hframes : ∀ other kept, kept ∈ t.threads other ↔
      other = thread ∧ (next.frame = some kept ∨ kept ∈ frames) ∨ other ≠ thread ∧ kept ∈ s.threads other := by
    intro other kept
    rw [ht]
    by_cases heq : other = thread
    · simp [heq]
    · simp [heq]
  have hframe : ∀ kept, next.frame = some kept → kept ∈ t.threads thread := fun kept h =>
    (hframes thread kept).mpr (.inl ⟨rfl, .inl h⟩)
  have hcarried : frame.error.isSome = true ∨ (s.calls frame.task.call).raises →
      (t.calls frame.task.call).raises ∨
        ∃ thread, ∃ kept ∈ t.threads thread, kept.task.call = frame.task.call ∧ kept.error.isSome = true := by
    intro hbefore
    rw [hself]
    obtain ⟨kept, hkept, herror⟩ | hraises := hblamed.keeps hbefore
    · exact .inr ⟨thread, kept, hframe kept hkept, by rw [(hadvanced.same kept hkept).1], herror⟩
    · exact .inl hraises
  have hpool : t.pool = next.pool := by rw [ht]
  refine ⟨?_, ?_, ?_, ?_, ?_⟩
  · intro id hthrown
    obtain hbefore | ⟨execution, hexecution, hcall, hsome⟩ := (hthrew id).mp hthrown
    · obtain hraises | ⟨other, kept, hkept, hcall, herror⟩ := he.kept id hbefore
      · by_cases heq : id = frame.task.call
        · rw [heq] at hraises ⊢
          exact hcarried (.inr hraises)
        · rw [hother id heq]
          exact .inl hraises
      · by_cases heq : kept = frame
        · rw [heq] at hcall herror
          rw [← hcall]
          exact hcarried (.inl herror)
        · refine .inr ⟨other, kept, (hframes other kept).mpr ?_, hcall, herror⟩
          by_cases hsame : other = thread
          · rw [hsame, hthread] at hkept
            exact .inl ⟨hsame, .inr ((List.mem_cons.mp hkept).resolve_left heq)⟩
          · exact .inr ⟨hsame, hkept⟩
    · obtain ⟨kept, hkept, herror⟩ := hblamed.thrown execution hexecution hsome
      refine .inr ⟨thread, kept, hframe kept hkept, ?_, herror⟩
      obtain ⟨hnone, -⟩ | ⟨thrown, -, hran, -⟩ := hadvanced.executed
      · rw [hnone] at hexecution
        cases hexecution
      · rw [hran] at hexecution
        cases hexecution
        rw [(hadvanced.same kept hkept).1]
        exact hcall
  · intro other kept hkept herror
    rw [hthrew]
    obtain ⟨-, hnew | hold⟩ | ⟨-, hold⟩ := (hframes other kept).mp hkept
    · rw [(hadvanced.same kept hnew).1]
      exact (hblamed.held kept hnew herror).imp (he.framed thread frame hmem) id
    · exact .inl (he.framed thread kept (by rw [hthread]; exact List.mem_cons_of_mem _ hold) herror)
    · exact .inl (he.framed other kept hold herror)
  · intro id haccepted hraises
    rw [hthrew, hpool]
    by_cases heq : id = frame.task.call
    · rw [heq, hself] at haccepted hraises
      rw [heq]
      obtain hraised | herror | hreceipt := hblamed.cause hraises
      · exact (he.cause _ (hadvanced.accepted ▸ haccepted) hraised).imp .inl hadvanced.grows.failure
      · exact .inl (.inl (he.framed thread frame hmem herror))
      · exact .inr hreceipt
    · rw [hother id heq] at haccepted hraises
      exact (he.cause id haccepted hraises).imp .inl hadvanced.grows.failure
  · intro other kept hkept
    rw [hpool]
    obtain ⟨-, hnew | hold⟩ | ⟨-, hold⟩ := (hframes other kept).mp hkept
    · exact hblamed.quiet kept hnew
    · exact (he.quiet thread kept (by rw [hthread]; exact List.mem_cons_of_mem _ hold)).grows hadvanced.grows
    · exact (he.quiet other kept hold).grows hadvanced.grows
  · intro id hstage
    by_cases heq : id = frame.task.call
    · rw [heq, hself] at hstage ⊢
      obtain hsame | ⟨-, hended⟩ := hadvanced.stage
      · rw [hadvanced.count]
        exact he.empty _ (hsame ▸ hstage)
      · rw [Call.ended, hstage] at hended
        cases hended
    · rw [hother id heq] at hstage ⊢
      exact he.empty id hstage

theorem step_errors (hs : Sound maximum s) (he : Errors s) (h : s.step label = some t) (hthreads : 0 < threadCount) :
    Errors t := by
  cases step_cases h with
  | caller hnext =>
      exact he.caller (callerStep_called hthreads hs.bound (hs.calls _) hnext).grows
        (callerStep_blamed (hs.calls _) hnext)
  | @pop thread task queue hthread hqueue =>
      refine he.begun ?_ ?_ (fun _ h => h) (fun _ haccepted h => ⟨haccepted, h⟩) fun _ _ => rfl
      · intro other frame hframe
        by_cases heq : other = thread
        · rw [heq, hthread] at hframe
          cases hframe
        · rwa [Function.update_of_ne heq]
      · intro other frame hframe
        by_cases heq : other = thread
        · rw [heq, Function.update_self, List.mem_singleton] at hframe
          rw [hframe]
          exact .inr ⟨rfl, by rintro error ⟨⟩⟩
        · rw [Function.update_of_ne heq] at hframe
          exact .inl hframe
  | @refused thread id count error hstage hfailed =>
      refine he.begun (fun _ _ h => h) (fun _ _ h => .inl h) ?_ ?_ ?_
      · intro other hraises
        by_cases heq : other = id
        · rw [heq, Function.update_self]
          exact .inr rfl
        · rwa [Function.update_of_ne heq]
      · intro other haccepted hraises
        by_cases heq : other = id
        · rw [heq, Function.update_self] at haccepted
          cases haccepted
        · rw [Function.update_of_ne heq] at haccepted hraises
          exact ⟨haccepted, hraises⟩
      · intro other hempty
        by_cases heq : other = id
        · rw [heq, Function.update_self] at hempty
          cases hempty
        · exact Function.update_of_ne heq _ _
  | @nested thread id count hstage =>
      refine he.begun ?_ ?_ ?_ ?_ ?_
      · intro other frame hframe
        by_cases heq : other = thread
        · rw [heq] at hframe ⊢
          rw [Function.update_self]
          exact List.mem_cons_of_mem _ hframe
        · rwa [Function.update_of_ne heq]
      · intro other frame hframe
        by_cases heq : other = thread
        · rw [heq, Function.update_self] at hframe
          obtain hnew | hold := List.mem_cons.mp hframe
          · rw [hnew]
            exact .inr (ofNested_begun id count)
          · rw [heq]
            exact .inl hold
        · rw [Function.update_of_ne heq] at hframe
          exact .inl hframe
      · intro other hraises
        by_cases heq : other = id
        · exact absurd (heq ▸ hraises) ((hs.calls id).calm hstage)
        · rwa [Function.update_of_ne heq]
      · intro other haccepted hraises
        by_cases heq : other = id
        · rw [heq, Function.update_self] at hraises
          obtain hsome | hthrown := hraises
          · cases hsome
          · cases hthrown
        · rw [Function.update_of_ne heq] at haccepted hraises
          exact ⟨haccepted, hraises⟩
      · intro other hempty
        by_cases heq : other = id
        · rw [heq, Function.update_self] at hempty
          cases hempty
        · exact Function.update_of_ne heq _ _
  | @frame thread _ frame frames _ hthread hnext =>
      have hmem : frame ∈ s.threads thread := by
        rw [hthread]
        exact List.mem_cons_self
      have hfits := (hs.frames thread frame hmem).1
      have hserves := hs.serves hmem
      exact he.advanced hthread (frameStep_advanced hfits hserves hnext)
        (frameStep_blamed hfits hserves (he.quiet thread frame hmem) hnext) rfl

theorem run_errors (hthreads : 0 < threadCount)
    (hrun : runSchedule State.step (State.initial threadCount pool) labels = some t) :
    Sound pool.maximumPendingTasks t ∧ Errors t :=
  runSchedule_invariant (fun s => Sound pool.maximumPendingTasks s ∧ Errors s)
    (fun _ _ _ hs h => ⟨step_sound hthreads hs.1 h, step_errors hs.1 hs.2 h hthreads⟩) hrun
    ⟨sound_initial pool, errors_initial pool⟩

theorem entered_thrown {count : ℕ} (h : (call.entered threadCount pool count).ended = true) :
    (call.entered threadCount pool count).stage.isThrown = true := by
  revert h
  unfold Call.entered
  split
  · exact fun _ => rfl
  · split
    · rintro ⟨⟩
    · split
      · exact fun _ => rfl
      · dsimp only
        split
        · exact fun _ => rfl
        · rintro ⟨⟩

theorem flushingEmpty_count {action : CallerAction} {next : WorkPool × Call × List Task}
    (h : callerStep threadCount id queued pool call .flushingEmpty action = some next) :
    next.2.1.count = call.count := by
  cases action with
  | flush flushError =>
      cases h
      exact (settle_same _ _).1
  | enter | enqueue | wake | check => cases h

/-- A caller from outside the pool that ends without an exception saw no recorded failure. -/
theorem thrown_of_receipt {action : CallerAction} {next : WorkPool × Call × List Task}
    (hnext : callerStep threadCount id queued pool call call.stage action = some next) (hended : next.2.1.ended = true)
    (hstage : call.stage ≠ .flushingEmpty) (hreceipt : next.1.taskReceiptError.isSome = true) :
    next.2.1.stage.isThrown = true := by
  unfold callerStep at hnext
  split at hnext
  · cases hnext
    exact entered_thrown hended
  · split at hnext
    · cases hnext
    · cases hnext
      cases hended
  · split at hnext
    · cases hnext
      cases hended
    · cases hnext
  · dsimp only at hnext
    split at hnext
    · cases hnext
      rfl
    · cases hnext
      cases hended
  · rename_i hempty
    exact absurd hempty hstage
  · cases hnext
    obtain ⟨error, herror⟩ := Option.isSome_iff_exists.mp hreceipt
    rw [herror]
    rfl
  · cases hnext

/-- When a call that has indices ends, it throws if one of them threw, and it throws only then or after a receipt
that failed. A caller from outside the pool throws just in these cases. -/
theorem throws_exactly (hthreads : 0 < threadCount)
    (hrun : runSchedule State.step (State.initial threadCount pool) labels = some s) (hstep : s.step label = some t)
    (hopen : (s.calls id).ended = false) (hended : (t.calls id).ended = true)
    (haccepted : (t.calls id).accepted = true) (hcount : 0 < (t.calls id).count) :
    (t.threw id → (t.calls id).stage.isThrown = true) ∧
      ((t.calls id).stage.isThrown = true → t.threw id ∨ t.pool.taskReceiptError.isSome = true) ∧
      ((t.calls id).nested = false → t.pool.taskReceiptError.isSome = true →
        (t.calls id).stage.isThrown = true) := by
  obtain ⟨hs, he⟩ := run_errors hthreads hrun
  have ht := step_sound hthreads hs hstep
  have het := step_errors hs he hstep hthreads
  have hnone : pending t id (fun _ => 1) = 0 := (ht.waited id).trans (expected_of_ended hended)
  refine ⟨fun hthrew => ?_, fun hthrown => het.cause id haccepted (.inr hthrown), fun houter hreceipt => ?_⟩
  · obtain (herror | hthrown) | ⟨thread, frame, hframe, hcall, -⟩ := het.kept id hthrew
    · obtain hwaiting | hflushing | ⟨error, hthrown⟩ := (ht.calls id).failing (Option.isSome_iff_ne_none.mp herror)
      · rw [Call.ended, hwaiting] at hended
        cases hended
      · rw [Call.ended, hflushing] at hended
        cases hended
      · rw [hthrown]
        rfl
    · exact hthrown
    · exact absurd hcall ((absent_of_pending hnone).2 thread frame hframe)
  · cases step_cases hstep with
    | @caller other action next hnext =>
        by_cases heq : id = other
        · rw [← heq] at hnext
          simp only [← heq, Function.update_self] at hended hcount hreceipt ⊢
          refine thrown_of_receipt hnext hended (fun hempty => ?_) hreceipt
          rw [hempty] at hnext
          rw [flushingEmpty_count hnext, he.empty id hempty] at hcount
          exact absurd hcount (Nat.lt_irrefl 0)
        · simp only [Function.update_of_ne heq] at hended
          rw [hopen] at hended
          cases hended
    | pop hthread hqueue =>
        rw [hopen] at hended
        cases hended
    | @refused thread other count error hstage hfailed =>
        by_cases heq : id = other
        · simp only [← heq, Function.update_self] at houter
          cases houter
        · simp only [Function.update_of_ne heq] at hended
          rw [hopen] at hended
          cases hended
    | @nested thread other count hstage =>
        by_cases heq : id = other
        · simp only [← heq, Function.update_self] at houter
          cases houter
        · simp only [Function.update_of_ne heq] at hended
          rw [hopen] at hended
          cases hended
    | @frame thread action frame frames next hthread hnext =>
        have hmem : frame ∈ s.threads thread := by
          rw [hthread]
          exact List.mem_cons_self
        have hadvanced := frameStep_advanced (hs.frames thread frame hmem).1 (hs.serves hmem) hnext
        by_cases heq : id = frame.task.call
        · simp only [heq, Function.update_self] at hended houter
          rw [heq] at hopen
          obtain hsame | ⟨hinner, -⟩ := hadvanced.stage
          · rw [Call.ended, hsame, ← Call.ended, hopen] at hended
            cases hended
          · rw [hadvanced.nested, (hs.calls _).inner hinner] at houter
            cases houter
        · simp only [Function.update_of_ne heq] at hended
          rw [hopen] at hended
          cases hended

theorem throws_exactly_nested : ∃ t, runSchedule State.step (.initial 2 twoThreads)
      (nestedSchedule ++ [.caller 0 (.flush none)]) = some t ∧
    (t.threw 0 → (t.calls 0).stage.isThrown = true) := by
  obtain ⟨s, t, hrun, hstep, hopen, hended, haccepted, hcount⟩ := nestedSchedule_runs
  have hpos : 0 < (t.calls 0).count := by rw [hcount]; decide
  exact ⟨t, runSchedule_concat_eq_some.mpr ⟨s, hrun, hstep⟩,
    (throws_exactly Nat.two_pos hrun hstep hopen hended haccepted hpos).1⟩

end TxnOpt.Native.WorkPoolSchedules
