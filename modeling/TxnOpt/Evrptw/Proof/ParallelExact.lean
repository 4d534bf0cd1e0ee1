import TxnOpt.Evrptw.ParallelExact
import TxnOpt.Lib.Fallible
import TxnOpt.Native.Proof.WorkPool
import Mathlib.Algebra.Field.Rat
import Mathlib.Data.List.Induction

/-!
# Rounds after a failed round

The receipts of a dispatch are collected only when nothing was thrown, so what a failed round recorded waits
in the pool, and the next round counts it as its own. `leftover` follows that number through the calls.
-/

namespace TxnOpt.Evrptw.Native

open TxnOpt.Native

variable {K : Type} [Field K]

/-! ### Outputs up to timing -/

/-- An output without its timing and worker fields. -/
def ExactBatchOutput.logical (output : ExactBatchOutput K) : ExactBatchOutput K :=
  { output with physicalCompletionOrder := [], physicalTaskReceipts := [] }

namespace ExactCall

variable {call : ExactCall K} {threadCount : ℕ} {occasion other : Occasion K}

omit [Field K] in
theorem mergeChunk_logical {first second : ExactBatchOutput K} (h : first.logical = second.logical)
    (chunk : ℕ × ExactBatchOutput K) :
    (call.mergeChunk threadCount occasion first chunk).map ExactBatchOutput.logical =
      (call.mergeChunk threadCount other second chunk).map ExactBatchOutput.logical := by
  have hsteady : ∀ occasion : Occasion K, ¬occasion.started chunk.1 < occasion.submitted ∧
      ¬occasion.completed chunk.1 < occasion.started chunk.1 := by
    intro occasion
    exact ⟨not_lt.mpr (occasion.submitted_le chunk.1), not_lt.mpr (occasion.started_le chunk.1)⟩
  simp only [ExactBatchOutput.logical, ExactBatchOutput.mk.injEq, and_true] at h
  obtain ⟨hoffsets, hindices, hstatuses, hreasons, hmetrics, hlabels, hcounters, horder, hrounds⟩ := h
  unfold mergeChunk
  simp only [(hsteady occasion).1, (hsteady occasion).2, (hsteady other).1, (hsteady other).2, or_false]
  by_cases hsizes : chunk.2.statuses.length ≠
      (call.chunkBounds threadCount chunk.1).last - (call.chunkBounds threadCount chunk.1).first ∨
      chunk.2.completionRounds.length ≠ chunk.2.statuses.length
  · rw [if_pos hsizes, if_pos hsizes]
  · rw [if_neg hsizes, if_neg hsizes]
    simp only [Except.map, ExactBatchOutput.logical]
    rw [hoffsets, hindices, hstatuses, hreasons, hmetrics, hlabels, hcounters, horder, hrounds]

omit [Field K] in
theorem mergeChunks_logical (children : List (ExactBatchOutput K)) :
    (call.mergeChunks threadCount occasion children).map ExactBatchOutput.logical =
      (call.mergeChunks threadCount other children).map ExactBatchOutput.logical := by
  have hmerged := @foldlM_map_congr (ℕ × ExactBatchOutput K) (ExactBatchOutput K) CppError
    ((List.range children.length).zip children) (ExactBatchOutput K) ExactBatchOutput.logical
    (call.mergeChunk threadCount occasion) (call.mergeChunk threadCount other)
    (fun _ _ chunk h => mergeChunk_logical h chunk) call.emptyOutput call.emptyOutput rfl
  unfold mergeChunks
  cases hfirst : ((List.range children.length).zip children).foldlM
      (call.mergeChunk threadCount occasion) call.emptyOutput with
  | error error =>
      cases hsecond : ((List.range children.length).zip children).foldlM
          (call.mergeChunk threadCount other) call.emptyOutput with
      | error second =>
          rw [hfirst, hsecond] at hmerged
          exact hmerged
      | ok second =>
          rw [hfirst, hsecond] at hmerged
          cases hmerged
  | ok first =>
      cases hsecond : ((List.range children.length).zip children).foldlM
          (call.mergeChunk threadCount other) call.emptyOutput with
      | error second =>
          rw [hfirst, hsecond] at hmerged
          cases hmerged
      | ok second =>
          rw [hfirst, hsecond] at hmerged
          have hlogical := Except.ok.inj hmerged
          simp only [ExactBatchOutput.logical, ExactBatchOutput.mk.injEq, and_true] at hlogical
          simp only [bind, Except.bind, Except.map, ExactBatchOutput.logical]
          simp_all

end ExactCall

/-! ### The receipts that a call leaves -/

/-- A call that reaches the work of the chunks on pools with these settings. -/
structure ExactCall.Dispatches (call : ExactCall K) (pool : WorkPool) : Prop where
  input : call.inputError pool = none
  fits : call.chunkCount pool.threadCount ≤ pool.maximumPendingTasks

instance (call : ExactCall K) (pool : WorkPool) : Decidable (call.Dispatches pool) :=
  decidable_of_iff (call.inputError pool = none ∧ call.chunkCount pool.threadCount ≤ pool.maximumPendingTasks)
    ⟨fun h => ⟨h.1, h.2⟩, fun h => ⟨h.input, h.fits⟩⟩

/-- Some chunk of the call throws. -/
def ExactCall.Throws (call : ExactCall K) (threadCount : ℕ) (occasion : Occasion K) : Prop :=
  ∃ chunk < call.chunkCount threadCount, call.chunkError threadCount occasion chunk ≠ none

instance (call : ExactCall K) (threadCount : ℕ) (occasion : Occasion K) :
    Decidable (call.Throws threadCount occasion) :=
  decidable_of_iff
    (((List.range (call.chunkCount threadCount)).all
      fun chunk => (call.chunkError threadCount occasion chunk).isNone) = false) (by
    rw [ExactCall.Throws, List.all_eq_false]
    simp)

/-- How many receipts wait in the pool after one more call; `none` once their list has run over. -/
def leftover (pool : WorkPool) (left : Option ℕ) (call : ExactCall K × Occasion K) : Option ℕ :=
  match left with
  | none => none
  | some count =>
      if ¬call.1.Dispatches pool then some count
      else if maximumTaskReceipts < count + call.1.chunkCount pool.threadCount then none
      else if call.1.Throws pool.threadCount call.2 then some (count + call.1.chunkCount pool.threadCount)
      else some 0

/-- How many receipts wait after a sequence of calls on a new pool. -/
def leftovers (pool : WorkPool) (calls : List (ExactCall K × Occasion K)) : Option ℕ :=
  calls.foldl (leftover pool) (some 0)

theorem ExactCall.chunkError_eq_none_iff {call : ExactCall K} {threadCount : ℕ} {occasion : Occasion K}
    {chunk : ℕ} :
    call.chunkError threadCount occasion chunk = none ↔
      ∃ output, call.runChunk threadCount occasion chunk = .ok output := by
  unfold ExactCall.chunkError
  cases call.runChunk threadCount occasion chunk with
  | error error => simp
  | ok output => simp

theorem ExactCall.not_throws_iff {call : ExactCall K} {threadCount : ℕ} {occasion : Occasion K} :
    ¬call.Throws threadCount occasion ↔
      ∀ chunk < call.chunkCount threadCount, call.chunkError threadCount occasion chunk = none := by
  unfold ExactCall.Throws
  push Not
  rfl

variable {pool : WorkPool} {call : ExactCall K} {occasion other : Occasion K}

omit [Field K] in
theorem ExactCall.Dispatches.counts (h : call.Dispatches pool) : 0 < call.routeCount ∧ 0 < pool.threadCount := by
  have hinput := h.input
  unfold ExactCall.inputError at hinput
  split at hinput
  · cases hinput
  · split at hinput
    · cases hinput
    · omega

omit [Field K] in
theorem ExactCall.Dispatches.accepts (h : call.Dispatches pool) : pool.Accepts (call.chunkCount pool.threadCount) := by
  have hcounts := h.counts
  have hfits := h.fits
  unfold ExactCall.chunkCount at hfits ⊢
  refine ⟨?_, hcounts.2, ?_⟩
  · omega
  · omega

omit [Field K] in
theorem ExactCall.Dispatches.min_eq (_ : call.Dispatches pool) :
    min (call.chunkCount pool.threadCount) pool.threadCount = call.chunkCount pool.threadCount := by
  unfold ExactCall.chunkCount
  omega

/-! ### One call -/

/-- A call that does not dispatch, or that finds a recorded failure, leaves the pool as it is and throws. -/
theorem runExactChargingParallel_refused (h : ¬call.Dispatches pool ∨ pool.taskReceiptError ≠ none) :
    ∃ error, runExactChargingParallel pool call occasion = (pool, .error error) := by
  unfold runExactChargingParallel
  cases hinput : call.inputError pool with
  | some error => exact ⟨error, rfl⟩
  | none =>
      have hthrown : ∃ thrown, pool.parallelFor (call.chunkCount pool.threadCount)
          (call.chunkError pool.threadCount occasion) occasion.service = (pool, some thrown) := by
        cases herror : pool.taskReceiptError with
        | some error =>
            refine ⟨error, ?_⟩
            unfold WorkPool.parallelFor
            rw [herror]
        | none =>
            rcases h with hdispatch | hrecorded
            · have hpositive : 0 < call.chunkCount pool.threadCount := by
                unfold ExactCall.inputError at hinput
                unfold ExactCall.chunkCount
                split at hinput
                · cases hinput
                · split at hinput
                  · cases hinput
                  · omega
              apply WorkPool.parallelFor_refused hpositive
              intro haccepts
              apply hdispatch
              refine ⟨hinput, ?_⟩
              have hfits := haccepts.fits
              unfold ExactCall.chunkCount at hfits ⊢
              omega
            · exact absurd herror hrecorded
      obtain ⟨thrown, hthrown⟩ := hthrown
      refine ⟨thrown, ?_⟩
      simp only [hthrown]

/-- A dispatch whose receipts do not fit in the list leaves a recorded failure. -/
theorem runExactChargingParallel_overflow (h : call.Dispatches pool) (hsink : pool.hasSink = false)
    (herror : pool.taskReceiptError = none) (hbound : pool.taskReceipts.length ≤ maximumTaskReceipts)
    (hfit : maximumTaskReceipts < pool.taskReceipts.length + call.chunkCount pool.threadCount) :
    ∃ receipts error thrown,
      runExactChargingParallel pool call occasion = (pool.withReceipts receipts (some error), .error thrown) := by
  obtain ⟨receipts, error, thrown, hdispatch⟩ :=
    @WorkPool.parallelFor_overflow pool (call.chunkError pool.threadCount occasion) occasion.service _ h.accepts
      hsink herror hbound (by rw [h.min_eq]; exact hfit)
  refine ⟨receipts, error, thrown, ?_⟩
  unfold runExactChargingParallel
  rw [h.input]
  simp only [hdispatch]

/-- A dispatch in which a chunk throws leaves its receipts with those that waited. -/
theorem runExactChargingParallel_throws (h : call.Dispatches pool) (hsink : pool.hasSink = false)
    (herror : pool.taskReceiptError = none)
    (hfit : pool.taskReceipts.length + call.chunkCount pool.threadCount ≤ maximumTaskReceipts)
    (hthrows : call.Throws pool.threadCount occasion) :
    ∃ receipts thrown,
      runExactChargingParallel pool call occasion = (pool.withReceipts receipts none, .error thrown) ∧
        receipts.length = pool.taskReceipts.length + call.chunkCount pool.threadCount := by
  obtain ⟨receipts, thrown, hdispatch, hlength, hthrown⟩ :=
    @WorkPool.parallelFor_fit pool (call.chunkError pool.threadCount occasion) occasion.service _ h.accepts
      hsink herror (by rw [h.min_eq]; exact hfit)
  rw [h.min_eq] at hlength
  cases thrown with
  | none => exact absurd hthrows (ExactCall.not_throws_iff.mpr (hthrown.mp rfl))
  | some thrown =>
      refine ⟨receipts, thrown, ?_, hlength⟩
      unfold runExactChargingParallel
      rw [h.input]
      simp only [hdispatch]

/-- A dispatch in which no chunk throws collects all receipts, and returns iff none waited before it. -/
theorem runExactChargingParallel_collects (h : call.Dispatches pool) (hsink : pool.hasSink = false)
    (herror : pool.taskReceiptError = none)
    (hfit : pool.taskReceipts.length + call.chunkCount pool.threadCount ≤ maximumTaskReceipts)
    (hthrows : ¬call.Throws pool.threadCount occasion) :
    runExactChargingParallel pool call occasion =
      (pool.withReceipts [] none,
        if pool.taskReceipts.length ≠ 0 then
          .error (.runtimeError "native parallel exact work-pool receipt count is invalid")
        else do
          let children ← (List.range (call.chunkCount pool.threadCount)).mapM
            (call.runChunk pool.threadCount occasion)
          call.mergeChunks pool.threadCount occasion children) := by
  obtain ⟨receipts, thrown, hdispatch, hlength, hthrown⟩ :=
    @WorkPool.parallelFor_fit pool (call.chunkError pool.threadCount occasion) occasion.service _ h.accepts
      hsink herror (by rw [h.min_eq]; exact hfit)
  rw [h.min_eq] at hlength
  rw [hthrown.mpr (ExactCall.not_throws_iff.mp hthrows)] at hdispatch
  unfold runExactChargingParallel
  rw [h.input]
  simp only [hdispatch, collectChunks, WorkPool.consumeTaskReceipts, WorkPool.withReceipts]
  by_cases hwaiting : pool.taskReceipts.length = 0
  · rw [if_neg (by omega), if_neg (by omega)]
  · rw [if_pos (by omega), if_pos hwaiting]

/-! ### Sequences of calls -/

/-- A pool as `leftover` sees it: with the settings of the new one, and with so many receipts waiting. -/
structure Waiting (fresh pool : WorkPool) (left : Option ℕ) : Prop where
  settings : ∃ receipts error, pool = fresh.withReceipts receipts error
  recorded : left = none → pool.taskReceiptError ≠ none
  waiting : ∀ count, left = some count →
    pool.taskReceiptError = none ∧ pool.taskReceipts.length = count ∧ count ≤ maximumTaskReceipts

variable {fresh : WorkPool} {left : Option ℕ}

omit [Field K] in
theorem Waiting.dispatches_iff (h : Waiting fresh pool left) : call.Dispatches pool ↔ call.Dispatches fresh := by
  obtain ⟨receipts, error, hpool⟩ := h.settings
  rw [hpool]
  constructor
  · intro hdispatch
    exact ⟨hdispatch.input, hdispatch.fits⟩
  · intro hdispatch
    exact ⟨hdispatch.input, hdispatch.fits⟩

theorem Waiting.threadCount (h : Waiting fresh pool left) : pool.threadCount = fresh.threadCount := by
  obtain ⟨receipts, error, hpool⟩ := h.settings
  rw [hpool]
  rfl

theorem Waiting.hasSink (h : Waiting fresh pool left) : pool.hasSink = fresh.hasSink := by
  obtain ⟨receipts, error, hpool⟩ := h.settings
  rw [hpool]
  rfl

theorem Waiting.with (h : Waiting fresh pool left) (receipts : List TxnOpt.Native.TaskReceipt)
    (error : Option CppError) :
    ∃ later last, pool.withReceipts receipts error = fresh.withReceipts later last := by
  obtain ⟨earlier, first, hpool⟩ := h.settings
  rw [hpool]
  exact ⟨receipts, error, rfl⟩

/-- One call. -/
theorem Waiting.afterCall (h : Waiting fresh pool left) (hsink : fresh.hasSink = false) (call : ExactCall K)
    (occasion : Occasion K) :
    Waiting fresh (runExactChargingParallel pool call occasion).1 (leftover fresh left (call, occasion)) := by
  have hpoolSink := h.hasSink.trans hsink
  cases left with
  | none =>
      obtain ⟨error, hrun⟩ := @runExactChargingParallel_refused K _ pool call occasion (.inr (h.recorded rfl))
      rw [hrun]
      exact h
  | some count =>
      obtain ⟨herror, hlength, hbound⟩ := h.waiting count rfl
      unfold leftover
      simp only
      by_cases hdispatch : call.Dispatches fresh
      · have hpool := h.dispatches_iff.mpr hdispatch
        rw [if_neg (not_not.mpr hdispatch)]
        by_cases hfit : maximumTaskReceipts < count + call.chunkCount fresh.threadCount
        · rw [if_pos hfit]
          obtain ⟨receipts, error, thrown, hrun⟩ := @runExactChargingParallel_overflow K _ pool call occasion hpool
            hpoolSink herror (by omega) (by rw [hlength, h.threadCount]; exact hfit)
          rw [hrun]
          refine ⟨h.with _ _, ?_, ?_⟩
          · intro _
            exact Option.some_ne_none error
          · intro _ hcount
            cases hcount
        · rw [if_neg hfit]
          have hroom : pool.taskReceipts.length + call.chunkCount pool.threadCount ≤ maximumTaskReceipts := by
            rw [hlength, h.threadCount]
            omega
          by_cases hthrows : call.Throws fresh.threadCount occasion
          · rw [if_pos hthrows]
            obtain ⟨receipts, thrown, hrun, hwaiting⟩ := runExactChargingParallel_throws hpool hpoolSink herror
              hroom (by rw [h.threadCount]; exact hthrows)
            rw [hrun]
            refine ⟨h.with _ _, ?_, ?_⟩
            · intro hcount
              cases hcount
            · intro later hcount
              rw [← Option.some.inj hcount, ← hlength, ← h.threadCount]
              exact ⟨rfl, hwaiting, hroom⟩
          · rw [if_neg hthrows, runExactChargingParallel_collects hpool hpoolSink herror hroom
              (by rw [h.threadCount]; exact hthrows)]
            refine ⟨h.with _ _, ?_, ?_⟩
            · intro hcount
              cases hcount
            · intro later hcount
              rw [← Option.some.inj hcount]
              exact ⟨rfl, rfl, Nat.zero_le _⟩
      · rw [if_pos hdispatch]
        obtain ⟨error, hrun⟩ := @runExactChargingParallel_refused K _ pool call occasion
          (.inl (fun hpool => hdispatch (h.dispatches_iff.mp hpool)))
        rw [hrun]
        exact h

/-- Every sequence of calls. -/
theorem waiting_afterCalls (hsink : fresh.hasSink = false) (hreceipts : fresh.taskReceipts = [])
    (herror : fresh.taskReceiptError = none) (calls : List (ExactCall K × Occasion K)) :
    Waiting fresh (afterCalls fresh calls) (leftovers fresh calls) := by
  induction calls using List.reverseRecOn with
  | nil =>
      refine ⟨⟨fresh.taskReceipts, fresh.taskReceiptError, rfl⟩, ?_, ?_⟩
      · intro hcount
        cases hcount
      · intro count hcount
        rw [← Option.some.inj hcount]
        exact ⟨herror, by rw [afterCalls, List.foldl_nil, hreceipts, List.length_nil], Nat.zero_le _⟩
  | append_singleton calls last ih =>
      rw [afterCalls, List.foldl_append, leftovers, List.foldl_append]
      exact ih.afterCall hsink last.1 last.2

/-- After a dispatched round that throws, no valid round returns. -/
theorem leftovers_append_throws {calls : List (ExactCall K × Occasion K)} (hdispatch : call.Dispatches fresh)
    (hthrows : call.Throws fresh.threadCount occasion) : leftovers fresh (calls ++ [(call, occasion)]) ≠ some 0 := by
  have hcounts := hdispatch.counts
  have hpositive : 0 < call.chunkCount fresh.threadCount := by
    unfold ExactCall.chunkCount
    omega
  rw [leftovers, List.foldl_append, List.foldl_cons, List.foldl_nil]
  cases List.foldl (leftover fresh) (some 0) calls with
  | none =>
      intro h
      cases h
  | some count =>
      simp only [leftover]
      rw [if_neg (not_not.mpr hdispatch)]
      by_cases hfit : maximumTaskReceipts < count + call.chunkCount fresh.threadCount
      · rw [if_pos hfit]
        intro h
        cases h
      · rw [if_neg hfit, if_pos hthrows]
        intro h
        have hzero := Option.some.inj h
        omega

/-- Rounds in which no chunk throws leave nothing. -/
theorem leftovers_of_forall {calls : List (ExactCall K × Occasion K)}
    (h : ∀ call ∈ calls, ¬call.1.Throws fresh.threadCount call.2)
    (hroom : ∀ call ∈ calls, call.1.chunkCount fresh.threadCount ≤ maximumTaskReceipts) :
    leftovers fresh calls = some 0 := by
  induction calls using List.reverseRecOn with
  | nil => rfl
  | append_singleton calls last ih =>
      have hlast := List.mem_append_right calls (List.mem_singleton_self last)
      have hcalls := ih (fun call hcall => h call (List.mem_append_left [last] hcall))
        (fun call hcall => hroom call (List.mem_append_left [last] hcall))
      have hfit := hroom last hlast
      rw [leftovers] at hcalls ⊢
      rw [List.foldl_append, hcalls, List.foldl_cons, List.foldl_nil]
      simp only [leftover]
      by_cases hdispatch : last.1.Dispatches fresh
      · rw [if_neg (not_not.mpr hdispatch), if_neg (by omega), if_neg (h last hlast)]
      · rw [if_pos hdispatch]

/-! ### A later round -/

/-- With a sink the count of the receipts never agrees. -/
theorem runExactChargingParallel_sink (hsink : pool.hasSink = true) (hreceipts : pool.taskReceipts = [])
    (output : ExactBatchOutput K) : (runExactChargingParallel pool call occasion).2 ≠ .ok output := by
  unfold runExactChargingParallel
  cases hinput : call.inputError pool with
  | some error =>
      intro h
      cases h
  | none =>
      simp only
      obtain ⟨recorded, hkept⟩ := @WorkPool.parallelFor_sink pool (call.chunkError pool.threadCount occasion)
        occasion.service (call.chunkCount pool.threadCount) hsink
      cases hdispatch : pool.parallelFor (call.chunkCount pool.threadCount)
        (call.chunkError pool.threadCount occasion) occasion.service with
      | mk dispatched thrown =>
          rw [hdispatch] at hkept
          cases thrown with
          | some thrown =>
              intro h
              cases h
          | none =>
              have hpositive : 0 < call.chunkCount pool.threadCount := by
                by_contra hzero
                unfold ExactCall.inputError at hinput
                unfold ExactCall.chunkCount at hzero
                split at hinput
                · cases hinput
                · split at hinput
                  · cases hinput
                  · omega
              simp only at hkept
              simp only [collectChunks, WorkPool.consumeTaskReceipts, hkept, WorkPool.withReceipts]
              cases recorded with
              | some error =>
                  intro h
                  cases h
              | none =>
                  simp only [hreceipts, List.length_nil]
                  rw [if_pos (by omega)]
                  intro h
                  cases h

/-- A round that returns has found nothing waiting, and none of its chunks has thrown. -/
theorem Waiting.of_ok (h : Waiting fresh pool left) (hsink : fresh.hasSink = false) {output : ExactBatchOutput K}
    (hok : (runExactChargingParallel pool call occasion).2 = .ok output) :
    left = some 0 ∧ call.Dispatches fresh ∧ call.chunkCount fresh.threadCount ≤ maximumTaskReceipts ∧
      ¬call.Throws fresh.threadCount occasion := by
  have hpoolSink := h.hasSink.trans hsink
  have hrefused : ¬(¬call.Dispatches pool ∨ pool.taskReceiptError ≠ none) := by
    intro hrefused
    obtain ⟨error, hrun⟩ := @runExactChargingParallel_refused K _ pool call occasion hrefused
    rw [hrun] at hok
    cases hok
  obtain ⟨hdispatch, herror⟩ := not_or.mp hrefused
  rw [not_not] at hdispatch herror
  cases left with
  | none => exact absurd herror (h.recorded rfl)
  | some count =>
      obtain ⟨_, hlength, hbound⟩ := h.waiting count rfl
      by_cases hfit : maximumTaskReceipts < pool.taskReceipts.length + call.chunkCount pool.threadCount
      · obtain ⟨receipts, error, thrown, hrun⟩ := @runExactChargingParallel_overflow K _ pool call occasion
          hdispatch hpoolSink herror (by omega) hfit
        rw [hrun] at hok
        cases hok
      · by_cases hthrows : call.Throws pool.threadCount occasion
        · obtain ⟨receipts, thrown, hrun, _⟩ := runExactChargingParallel_throws hdispatch hpoolSink herror
            (by omega) hthrows
          rw [hrun] at hok
          cases hok
        · rw [runExactChargingParallel_collects hdispatch hpoolSink herror (by omega) hthrows] at hok
          by_cases hwaiting : pool.taskReceipts.length = 0
          · rw [← h.threadCount, ← hlength, hwaiting]
            exact ⟨rfl, h.dispatches_iff.mp hdispatch, by omega, hthrows⟩
          · simp only [if_pos hwaiting] at hok
            cases hok

/-- A round in which no chunk throws, on a pool where nothing waits. -/
theorem Waiting.returns (h : Waiting fresh pool (some 0)) (hsink : fresh.hasSink = false)
    (hdispatch : call.Dispatches fresh) (hfit : call.chunkCount fresh.threadCount ≤ maximumTaskReceipts)
    (hthrows : ¬call.Throws fresh.threadCount occasion) :
    (runExactChargingParallel pool call occasion).2 = (do
      let children ← (List.range (call.chunkCount fresh.threadCount)).mapM
        (call.runChunk fresh.threadCount occasion)
      call.mergeChunks fresh.threadCount occasion children) := by
  obtain ⟨herror, hlength, _⟩ := h.waiting 0 rfl
  rw [← h.threadCount] at hfit hthrows
  rw [runExactChargingParallel_collects (h.dispatches_iff.mpr hdispatch) (h.hasSink.trans hsink) herror
    (by omega) hthrows]
  simp only [hlength, h.threadCount]
  rfl

/-- A round that returns on a new pool returns the same after a history of rounds iff none of their receipts
waits. -/
theorem runExactChargingParallel_recovers_iff {threadCount : Int} {maximumPendingTasks : ℕ} {sink flush : Bool}
    {fresh : WorkPool} (hnew : WorkPool.new threadCount maximumPendingTasks sink flush = .ok fresh)
    (history : List (ExactCall K × Occasion K)) (call : ExactCall K) (occasion other : Occasion K)
    (hchunks : ∀ chunk < call.chunkCount fresh.threadCount,
      call.runChunk fresh.threadCount occasion chunk = call.runChunk fresh.threadCount other chunk)
    (expected : ExactBatchOutput K)
    (hexpected : (runExactChargingParallel fresh call other).2 = .ok expected) :
    (∃ output, (runExactChargingParallel (afterCalls fresh history) call occasion).2 = .ok output ∧
        output.logical = expected.logical) ↔
      leftovers fresh history = some 0 := by
  obtain ⟨hreceipts, herror⟩ : fresh.taskReceipts = [] ∧ fresh.taskReceiptError = none := by
    unfold WorkPool.new at hnew
    split at hnew
    · cases hnew
    · split at hnew
      · cases hnew
      · rw [← Except.ok.inj hnew]
        exact ⟨rfl, rfl⟩
  have hsink : fresh.hasSink = false := by
    by_contra hsink
    exact runExactChargingParallel_sink ((Bool.not_eq_false _).mp hsink) hreceipts expected hexpected
  have hstart : Waiting fresh fresh (some 0) := waiting_afterCalls hsink hreceipts herror ([] : List (ExactCall K × _))
  have hlater := waiting_afterCalls hsink hreceipts herror history
  obtain ⟨_, hdispatch, hfit, hother⟩ := hstart.of_ok hsink hexpected
  constructor
  · intro hreturned
    obtain ⟨output, houtput, _⟩ := hreturned
    exact (hlater.of_ok hsink houtput).1
  · intro hleft
    have hthrows : ¬call.Throws fresh.threadCount occasion := by
      rw [ExactCall.not_throws_iff] at hother ⊢
      intro chunk hchunk
      have hnone := hother chunk hchunk
      unfold ExactCall.chunkError at hnone ⊢
      rw [hchunks chunk hchunk]
      exact hnone
    rw [hleft] at hlater
    rw [hstart.returns hsink hdispatch hfit hother] at hexpected
    rw [hlater.returns hsink hdispatch hfit hthrows]
    rw [mapM_congr (fun chunk hchunk => hchunks chunk (List.mem_range.mp hchunk))]
    obtain ⟨children, hchildren, hmerge⟩ := exists_of_bind_eq_ok hexpected
    rw [hchildren]
    have hlogical := @ExactCall.mergeChunks_logical K call fresh.threadCount occasion other children
    rw [hmerge] at hlogical
    cases hmerged : call.mergeChunks fresh.threadCount occasion children with
    | error error =>
        rw [hmerged] at hlogical
        cases hlogical
    | ok output =>
        rw [hmerged] at hlogical
        exact ⟨output, hmerged, Except.ok.inj hlogical⟩

/-! ### One round after another -/

/-- The tasks are done in their order, and nothing throws. -/
def orderlyService : Service where
  order := List.range
  order_perm _ := List.Perm.refl _
  worker task := task
  sinkError _ := none
  flushError := none

/-- A clock that stands still. -/
def stillOccasion : Occasion ℚ where
  service := orderlyService
  worker chunk := chunk
  submitted := 0
  started _ := 0
  completed _ := 0
  elapsed _ := 0
  submitted_le _ := le_refl 0
  started_le _ := le_refl 0

/-- Two routes of one customer each, for two threads. -/
def twoRoutes (runBatch : List ℤ → List ℤ → ℕ → ℚ → Except CppError (ExactBatchOutput ℚ)) : ExactCall ℚ where
  offsets := some [0, 1, 2]
  indices := [1, 2]
  routeCount := 2
  deadlineRemaining := 1
  runBatch := runBatch

/-- Every route is interrupted. -/
def interruptedRound : ExactCall ℚ := twoRoutes fun _ _ routes _ => .ok (untouched routes 1 0)

def failedRound : ExactCall ℚ := twoRoutes fun _ _ _ _ => .error (.runtimeError "label limit")

/-- The pool of two threads with the default bound on its queue. -/
def twoThreads : WorkPool := ⟨2, 4, false, [], none⟩

/-- A round that returns on a new pool throws after a failed round. -/
theorem runExactChargingParallel_after_failure :
    WorkPool.new 2 0 false false = .ok twoThreads ∧
      (runExactChargingParallel twoThreads interruptedRound stillOccasion).2.isOk = true ∧
      (runExactChargingParallel (afterCalls twoThreads [(failedRound, stillOccasion)]) interruptedRound
          stillOccasion).2.isOk = false := by
  refine ⟨rfl, ?_, ?_⟩
  · decide
  · decide

theorem runExactChargingParallel_recovers_once : ∃ expected : ExactBatchOutput ℚ,
    (runExactChargingParallel twoThreads interruptedRound stillOccasion).2 = .ok expected ∧
      ((∃ output, (runExactChargingParallel (afterCalls twoThreads [(interruptedRound, stillOccasion)])
          interruptedRound stillOccasion).2 = .ok output ∧ output.logical = expected.logical) ↔
        leftovers twoThreads [(interruptedRound, stillOccasion)] = some 0) := by
  have hok : (runExactChargingParallel twoThreads interruptedRound stillOccasion).2.isOk = true := by decide
  obtain ⟨expected, hexpected⟩ := exists_of_isOk hok
  refine ⟨expected, hexpected, ?_⟩
  exact @runExactChargingParallel_recovers_iff ℚ _ 2 0 false false twoThreads rfl
    [(interruptedRound, stillOccasion)] interruptedRound stillOccasion stillOccasion (fun _ _ => rfl) expected
    hexpected

end TxnOpt.Evrptw.Native
