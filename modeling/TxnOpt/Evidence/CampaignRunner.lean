import TxnOpt.Lib.Schedules
import Mathlib.Algebra.Order.BigOperators.Group.Finset
import Mathlib.Data.Fintype.Basic

/-!
# The scheduler of a campaign

`execute_campaign` from the launch claim to the receipt: worker threads that take weighted core tokens, a
stop event, and the collector. Each label is one atomic step of one thread, so every interleaving is a
schedule. What `_run_one` gives is part of its label.
-/

namespace TxnOpt.CampaignRunner

/-! ### Core tokens -/

/-- `_WeightedTokens`. -/
structure WeightedTokens where
  capacity : Int
  available : Int
  deriving DecidableEq, Repr

/-- What a thread that calls `acquire` meets. -/
inductive Acquisition
  | refused
  | blocked
  | acquired (tokens : WeightedTokens)
  deriving DecidableEq, Repr

namespace WeightedTokens

/-- The constructor, for a positive capacity. -/
def new (capacity : Int) : WeightedTokens := ⟨capacity, capacity⟩

def acquire (tokens : WeightedTokens) (weight : Int) : Acquisition :=
  if weight ≤ 0 ∨ weight > tokens.capacity then .refused
  else if tokens.available ≥ weight then .acquired { tokens with available := tokens.available - weight }
  else .blocked

/-- The tokens after `release`, and whether it raises. -/
def release (tokens : WeightedTokens) (weight : Int) : WeightedTokens × Bool :=
  ({ tokens with available := tokens.available + weight }, decide (tokens.available + weight > tokens.capacity))

end WeightedTokens

/-! ### Records -/

structure CampaignEntry where
  ordinal : ℕ
  runLabel : String
  workers : Int
  deriving DecidableEq, Repr

inductive RecordStatus
  | complete
  | failed
  | notStartedAfterFailure
  deriving DecidableEq, Repr

/-- A record: the identity of its entry, its status, and the fields `error_type` and `error`. -/
structure RunRecord where
  entry : CampaignEntry
  status : RecordStatus
  errorType : Option String := none
  error : Option String := none
  deriving DecidableEq, Repr

/-- How a call of `execute_one` ends. -/
inductive TaskResult
  | returned (record : RunRecord)
  | raised (errorType error : String)
  deriving DecidableEq, Repr

/-- How a call of `_run_one` ends: it returns a record with the identity of its entry, or raises. -/
inductive RunOutcome
  | complete
  | failed (errorType error : Option String)
  | raised (errorType error : String)
  deriving DecidableEq, Repr

def RunOutcome.result (entry : CampaignEntry) : RunOutcome → TaskResult
  | complete => .returned { entry, status := .complete }
  | failed errorType error => .returned { entry, status := .failed, errorType, error }
  | raised errorType error => .raised errorType error

/-- `_skipped_record`. -/
def skippedRecord (entry : CampaignEntry) : RunRecord := { entry, status := .notStartedAfterFailure }

def expiredRecord (entry : CampaignEntry) : RunRecord :=
  { entry
    status := .failed
    errorType := some "CampaignWindowExpired"
    error := some "the signed 14-day campaign window expired" }

/-- The record that the collector makes of the result of a future. -/
def TaskResult.record (entry : CampaignEntry) : TaskResult → RunRecord
  | returned record => record
  | raised errorType error => { entry, status := .failed, errorType := some errorType, error := some error }

/-! ### A campaign -/

/-- The arguments of the scheduler. The loader of a plan numbers its entries from one, and an executor takes
no empty plan. -/
structure Campaign where
  entries : List CampaignEntry
  usableCores : Int
  startedNs : Int
  maximumWindowDays : Int
  ordinals : entries.map CampaignEntry.ordinal = List.range' 1 entries.length
  entries_pos : 0 < entries.length
  usableCores_pos : 0 < usableCores

namespace Campaign

variable (campaign : Campaign)

abbrev Index : Type := Fin campaign.entries.length

def entry (i : campaign.Index) : CampaignEntry := campaign.entries.get i

def windowNs : Int := campaign.maximumWindowDays * 86400 * 1000000000

def globalDeadlineNs : Int := campaign.startedNs + campaign.windowNs

/-- `max_workers` of the executor. -/
def maxWorkers : ℕ := min campaign.usableCores.toNat campaign.entries.length

end Campaign

/-! ### One entry -/

/-- Where the call of `execute_one` for an entry is. -/
inductive Phase
  | unsubmitted
  | queued
  | picked
  | waiting
  | acquired
  | cleared
  | expired
  | timed
  | running
  | leaving (result : TaskResult)
  | done (result : TaskResult)
  | recorded
  deriving DecidableEq, Repr

/-- What the threads share. -/
structure Shared where
  stop : Bool
  tokens : WeightedTokens
  now : Int
  deriving DecidableEq, Repr

/-- The atomic steps of `execute_one`. -/
inductive Action
  | checkStop
  | acquire
  | readClock
  | setStop
  | launch
  | finish (outcome : RunOutcome)
  | release
  deriving DecidableEq, Repr

/-- `execute_one`, one step at a time; `none` where the thread is elsewhere or has to wait. -/
def executeOne (campaign : Campaign) (entry : CampaignEntry) (shared : Shared) :
    Phase → Action → Option (Phase × Shared)
  | .picked, .checkStop =>
      some (if shared.stop then .done (.returned (skippedRecord entry)) else .waiting, shared)
  | .waiting, .acquire =>
      match shared.tokens.acquire entry.workers with
      | .refused =>
          some (.done (.raised "builtins.ValueError" "run worker request exceeds the usable-core budget"), shared)
      | .blocked => none
      | .acquired tokens => some (.acquired, { shared with tokens })
  | .acquired, .checkStop =>
      some (if shared.stop then .leaving (.returned (skippedRecord entry)) else .cleared, shared)
  | .cleared, .readClock =>
      some (if campaign.globalDeadlineNs - shared.now ≤ 0 then .expired else .timed, shared)
  | .expired, .setStop => some (.leaving (.returned (expiredRecord entry)), { shared with stop := true })
  | .timed, .launch => some (.running, shared)
  | .running, .finish outcome => some (.leaving (outcome.result entry), shared)
  | .leaving result, .release =>
      let (tokens, overflow) := shared.tokens.release entry.workers
      some (.done (if overflow then .raised "builtins.RuntimeError" "core-token ledger overflow" else result),
        { shared with tokens })
  | _, _ => none

namespace Phase

/-- A thread of the executor is in the call. -/
def busy : Phase → Bool
  | picked | waiting | acquired | cleared | expired | timed | running | leaving _ => true
  | _ => false

/-- The call holds the tokens of its entry. -/
def holds : Phase → Bool
  | acquired | cleared | expired | timed | running | leaving _ => true
  | _ => false

end Phase

/-! ### The scheduler -/

structure State (campaign : Campaign) where
  shared : Shared
  phase : campaign.Index → Phase
  records : List (Option RunRecord)
  /-- The collector has stored a failure and not yet set the stop event. -/
  stopping : Bool

inductive Label (campaign : Campaign)
  | submit (i : campaign.Index)
  | pick (i : campaign.Index)
  | act (i : campaign.Index) (action : Action)
  | collect (i : campaign.Index)
  | collectorStop
  | tick (now : Int)
  deriving DecidableEq

namespace State

variable {campaign : Campaign}

def initial (campaign : Campaign) : State campaign where
  shared := ⟨false, .new campaign.usableCores, campaign.startedNs⟩
  phase := fun _ => .unsubmitted
  records := List.replicate campaign.entries.length none
  stopping := false

def busyCount (s : State campaign) : ℕ := (Finset.univ.filter fun i => (s.phase i).busy = true).card

def move (s : State campaign) (i : campaign.Index) (phase : Phase) : State campaign :=
  { s with phase := Function.update s.phase i phase }

/-- The entry is the first one in a phase: the queue of the executor is served in order. -/
def IsFirst (s : State campaign) (phase : Phase) (i : campaign.Index) : Prop :=
  s.phase i = phase ∧ ∀ j, j < i → s.phase j ≠ phase

instance (s : State campaign) (phase : Phase) (i : campaign.Index) : Decidable (s.IsFirst phase i) :=
  inferInstanceAs (Decidable (_ ∧ _))

/-- `records[entry.ordinal - 1] = record`, once every entry is submitted. -/
def collect (s : State campaign) (i : campaign.Index) (result : TaskResult) : State campaign :=
  let record := result.record (campaign.entry i)
  { s.move i .recorded with
    records := s.records.set ((campaign.entry i).ordinal - 1) (some record)
    stopping := decide (record.status = .failed) }

def step (s : State campaign) : Label campaign → Option (State campaign)
  | .submit i => if s.IsFirst .unsubmitted i then some (s.move i .queued) else none
  | .pick i =>
      if s.IsFirst .queued i ∧ s.busyCount < campaign.maxWorkers then some (s.move i .picked) else none
  | .act i action =>
      (executeOne campaign (campaign.entry i) s.shared (s.phase i) action).map fun next =>
        { s.move i next.1 with shared := next.2 }
  | .collect i =>
      match s.phase i with
      | .done result =>
          if s.stopping = false ∧ ∀ j, s.phase j ≠ .unsubmitted then some (s.collect i result) else none
      | _ => none
  | .collectorStop =>
      if s.stopping then some { s with shared := { s.shared with stop := true }, stopping := false } else none
  | .tick now => if s.shared.now ≤ now then some { s with shared := { s.shared with now } } else none

/-- Every future was collected, and what the collector found was acted on. -/
def Finished (s : State campaign) : Prop := (∀ i, s.phase i = .recorded) ∧ s.stopping = false

instance (s : State campaign) : Decidable s.Finished := inferInstanceAs (Decidable (_ ∧ _))

end State

/-! ### The receipt -/

/-- `finalized`. -/
def finalized (records : List (Option RunRecord)) : List RunRecord := records.filterMap id

/-- `global_window_satisfied`, from the two last readings of the clock. -/
def windowSatisfied (campaign : Campaign) (endedNs windowNs : Int) : Bool :=
  decide (windowNs ≤ campaign.globalDeadlineNs ∧ endedNs - campaign.startedNs ≤ campaign.windowNs)

/-- `status` of the receipt. -/
def receiptStatus (campaign : Campaign) (records : List (Option RunRecord)) (endedNs windowNs : Int) : String :=
  let completedCount := (finalized records).countP fun record => record.status = .complete
  if windowSatisfied campaign endedNs windowNs then
    if completedCount = campaign.entries.length then "COMPLETE_RAW_ONLY_NOT_REVIEWED" else "FAILED"
  else "FAILED"

end TxnOpt.CampaignRunner
