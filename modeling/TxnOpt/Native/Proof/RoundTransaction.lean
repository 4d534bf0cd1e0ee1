import TxnOpt.Native.RoundTransaction
import Mathlib.Data.List.Chain
import Mathlib.Tactic.Common

/-!
# What a receipt says

Every call keeps the phase trace a legal path and the counters a ledger. The prepared cache delta is that of
a complete round as long as nobody aborts a round that is already validated: `abort` drops the delta there
and leaves the phase.
-/

namespace TxnOpt.Native.PreparedRoundTransaction

variable {transaction : PreparedRoundTransaction}

/-- The transitions between phases. -/
def Legal : PreparedRoundPhase → PreparedRoundPhase → Prop
  | .prepared, .reserved => True
  | .prepared, .aborted => True
  | .reserved, .evaluating => True
  | .reserved, .aborted => True
  | .evaluating, .validated => True
  | .evaluating, .interrupted => True
  | .evaluating, .aborted => True
  | _, _ => False

def Terminal (phase : PreparedRoundPhase) : Prop :=
  phase = .validated ∨ phase = .interrupted ∨ phase = .aborted

instance : DecidablePred Terminal := fun _ => inferInstanceAs (Decidable (_ ∨ _))

/-- What holds of a transaction and of the receipt that can be taken of it. -/
structure Consistent (transaction : PreparedRoundTransaction) : Prop where
  starts : transaction.phaseTrace.head? = some .prepared
  ends : transaction.phaseTrace.getLast? = some transaction.phase
  legal : transaction.phaseTrace.IsChain Legal
  terminal : transaction.phaseTrace.countP (fun phase => Terminal phase) ≤ 1
  ledger : ∀ receipt, transaction.receipt = .ok receipt →
    receipt.startedWork ≤ receipt.reservedWork ∧ receipt.reservedWork ≤ receipt.budgetLimit ∧
      receipt.completedWork + receipt.interruptedWork = receipt.startedWork
  validated : ∀ receipt, transaction.receipt = .ok receipt → receipt.phase = .validated →
    receipt.preparedCacheWriteCount = receipt.completedWork ∧ receipt.completedWork = receipt.requestedWork
  others : ∀ receipt, transaction.receipt = .ok receipt → receipt.phase ≠ .validated →
    receipt.preparedCacheWriteCount = 0

/-! ### The phase trace -/

/-- The trace is a path of legal transitions to the phase. -/
structure Path (transaction : PreparedRoundTransaction) : Prop where
  starts : transaction.phaseTrace.head? = some .prepared
  ends : transaction.phaseTrace.getLast? = some transaction.phase
  legal : transaction.phaseTrace.IsChain Legal

theorem Path.transition (h : Path transaction) {next : PreparedRoundPhase} (hlegal : Legal transaction.phase next) :
    Path (transaction.transition next) := by
  refine ⟨?_, by simp [PreparedRoundTransaction.transition], ?_⟩
  · rw [PreparedRoundTransaction.transition, List.head?_append, h.starts]
    rfl
  · rw [PreparedRoundTransaction.transition, List.isChain_append, h.ends]
    simpa using ⟨h.legal, hlegal⟩

theorem Terminal.not_legal {phase next : PreparedRoundPhase} (h : Terminal phase) : ¬ Legal phase next := by
  unfold Terminal at h
  obtain h | h | h := h
  all_goals
    rw [h]
    exact id

/-- A terminal phase ends the path. -/
theorem countP_terminal_le {trace : List PreparedRoundPhase} (h : trace.IsChain Legal) :
    trace.countP (fun phase => Terminal phase) ≤ 1 := by
  induction trace with
  | nil => simp
  | cons first rest ih =>
      cases rest with
      | nil => exact List.countP_le_length
      | cons second rest =>
          obtain ⟨hfirst, hrest⟩ := List.isChain_cons_cons.mp h
          have hopen : ¬ Terminal first := fun hterminal => hterminal.not_legal hfirst
          rw [List.countP_cons_of_neg (by simpa using hopen)]
          exact ih hrest

/-! ### The counters -/

/-- The counters of every reachable transaction. -/
structure Ledger (transaction : PreparedRoundTransaction) : Prop where
  requested : 0 ≤ transaction.requestedWork
  unstarted : transaction.phase = .prepared → transaction.startedWork = 0
  started : transaction.startedWork ≤ transaction.reservedWork
  reserved : transaction.reservedWork ≤ transaction.budgetLimit
  settled : transaction.completedWork + transaction.interruptedWork = transaction.startedWork
  delta : transaction.phase ≠ .validated → transaction.preparedCacheWriteCount = 0

/-- A validated round has prepared exactly the requested writes. -/
def Complete (transaction : PreparedRoundTransaction) : Prop :=
  transaction.phase = .validated →
    transaction.preparedCacheWriteCount = transaction.completedWork ∧
      transaction.completedWork = transaction.requestedWork

/-- The call drops the delta of a validated round. -/
def DropsDelta (transaction : PreparedRoundTransaction) (call : Call) : Prop :=
  call = .abort ∧ transaction.phase = .validated ∧ 0 < transaction.requestedWork

/-- A transition to a phase other than `VALIDATED`. -/
theorem Ledger.transition (h : Ledger transaction) {next : PreparedRoundPhase} (hnext : next ≠ .prepared)
    (hdelta : transaction.phase ≠ .validated) : Ledger (transaction.transition next) :=
  ⟨h.requested, fun hprepared => absurd hprepared hnext, h.started, h.reserved, h.settled, fun _ => h.delta hdelta⟩

theorem Ledger.settle (h : Ledger transaction) {startedWork completedWork interruptedWork : Int}
    (hphase : transaction.phase ≠ .prepared) (hstarted : startedWork ≤ transaction.reservedWork)
    (hsettled : completedWork + interruptedWork = startedWork) :
    Ledger (transaction.settle startedWork completedWork interruptedWork) :=
  ⟨h.requested, fun hprepared => absurd hprepared hphase, hstarted, h.reserved, hsettled, h.delta⟩

/-! ### One call -/

/-- Everything that a call keeps. -/
structure Sound (transaction : PreparedRoundTransaction) : Prop where
  path : Path transaction
  ledger : Ledger transaction

theorem Sound.transition (h : Sound transaction) {next : PreparedRoundPhase}
    (hlegal : Legal transaction.phase next) (hnext : next ≠ .prepared) : Sound (transaction.transition next) := by
  refine ⟨h.path.transition hlegal, h.ledger.transition hnext ?_⟩
  intro hvalidated
  exact Terminal.not_legal (.inl hvalidated) hlegal

theorem Sound.requirePhase (h : Sound transaction) {expected : PreparedRoundPhase} {rest : Outcome}
    (hrest : transaction.phase = expected → Sound rest.transaction) :
    Sound (transaction.requirePhase expected rest).transaction := by
  unfold PreparedRoundTransaction.requirePhase
  by_cases hphase : transaction.phase = expected
  · rw [if_neg (not_not.mpr hphase)]
    exact hrest hphase
  · rw [if_pos hphase]
    exact h

theorem Sound.reserve (h : Sound transaction) : Sound transaction.reserve.transaction := by
  apply h.requirePhase
  intro hphase
  by_cases hbudget : transaction.requestedWork > transaction.budgetLimit
  · rw [if_pos hbudget]
    apply h.transition _ (by decide)
    rw [hphase]
    trivial
  · rw [if_neg hbudget]
    have hreserved : Sound { transaction with reservedWork := transaction.requestedWork } := by
      refine ⟨⟨h.path.starts, h.path.ends, h.path.legal⟩, h.ledger.requested, h.ledger.unstarted, ?_,
        Int.not_lt.mp hbudget, h.ledger.settled, h.ledger.delta⟩
      rw [h.ledger.unstarted hphase]
      exact h.ledger.requested
    apply hreserved.transition _ (by decide)
    change Legal transaction.phase _
    rw [hphase]
    trivial

theorem Sound.beginEvaluation (h : Sound transaction) : Sound transaction.beginEvaluation.transaction := by
  apply h.requirePhase
  intro hphase
  apply h.transition _ (by decide)
  rw [hphase]
  trivial

/-- `resolve` ends an evaluation in any of the terminal phases. -/
theorem Sound.resolve (h : Sound transaction) (startedWork completedWork interruptedWork : Int)
    (preparedCacheKeys : List (BitVec 64)) :
    Sound (transaction.resolve startedWork completedWork interruptedWork preparedCacheKeys).transaction := by
  apply h.requirePhase
  intro hphase
  have hlegal : ∀ {next}, Terminal next → Legal transaction.phase next := by
    intro next hterminal
    rw [hphase]
    obtain hnext | hnext | hnext := hterminal
    all_goals
      rw [hnext]
      trivial
  split_ifs with hviolates hinterrupted hkeys hincomplete
  · exact h.transition (hlegal (by decide)) (by decide)
  all_goals
    have hsettled : Sound (transaction.settle startedWork completedWork interruptedWork) :=
      ⟨⟨h.path.starts, h.path.ends, h.path.legal⟩,
        h.ledger.settle (by rw [hphase]; decide) (by omega) (by omega)⟩
  · exact hsettled.transition (hlegal (by decide)) (by decide)
  · exact hsettled.transition (hlegal (by decide)) (by decide)
  · exact hsettled.transition (hlegal (by decide)) (by decide)
  · have hpath : Path ({ transaction.settle startedWork completedWork interruptedWork with
        preparedCacheWriteCount := completedWork
        preparedCacheKeyChecksum := orderedKeyChecksum preparedCacheKeys }) :=
      ⟨hsettled.path.starts, hsettled.path.ends, hsettled.path.legal⟩
    refine ⟨hpath.transition (hlegal (by decide)), hsettled.ledger.requested, ?_, hsettled.ledger.started,
      hsettled.ledger.reserved, hsettled.ledger.settled, ?_⟩
    · intro hprepared
      cases hprepared
    · intro hother
      exact absurd rfl hother

theorem Sound.abort (h : Sound transaction) : Sound transaction.abort.transaction := by
  have hstopped : Sound (if transaction.phase = .prepared ∨ transaction.phase = .reserved ∨
      transaction.phase = .evaluating then transaction.transition .aborted else transaction) := by
    split_ifs with hopen
    · apply h.transition _ (by decide)
      obtain hphase | hphase | hphase := hopen
      all_goals
        rw [hphase]
        trivial
    · exact h
  exact ⟨⟨hstopped.path.starts, hstopped.path.ends, hstopped.path.legal⟩, hstopped.ledger.requested,
    hstopped.ledger.unstarted, hstopped.ledger.started, hstopped.ledger.reserved, hstopped.ledger.settled,
    fun _ => rfl⟩

theorem Sound.step (h : Sound transaction) (call : Call) : Sound (transaction.step call).transaction := by
  cases call with
  | reserve => exact h.reserve
  | beginEvaluation => exact h.beginEvaluation
  | resolve startedWork completedWork interruptedWork preparedCacheKeys =>
      exact h.resolve startedWork completedWork interruptedWork preparedCacheKeys
  | abort => exact h.abort

/-! ### The cache delta -/

theorem transition_complete {next : PreparedRoundPhase} (hnext : next ≠ .validated) :
    Complete (transaction.transition next) :=
  fun hvalidated => absurd hvalidated hnext

theorem requirePhase_complete (h : Complete transaction) {expected : PreparedRoundPhase} {rest : Outcome}
    (hrest : Complete rest.transaction) : Complete (transaction.requirePhase expected rest).transaction := by
  unfold PreparedRoundTransaction.requirePhase
  split_ifs
  · exact h
  · exact hrest

theorem resolve_complete (h : Complete transaction) (startedWork completedWork interruptedWork : Int)
    (preparedCacheKeys : List (BitVec 64)) :
    Complete (transaction.resolve startedWork completedWork interruptedWork preparedCacheKeys).transaction := by
  apply requirePhase_complete h
  split_ifs with hviolates hinterrupted hkeys hincomplete
  · exact transition_complete (by decide)
  · exact transition_complete (by decide)
  · exact transition_complete (by decide)
  · exact transition_complete (by decide)
  · intro _
    refine ⟨rfl, ?_⟩
    change completedWork = transaction.requestedWork
    omega

/-- Only `abort` can take the delta away from a validated round. -/
theorem step_complete (h : Complete transaction) (hledger : Ledger transaction) {call : Call}
    (hkeeps : ¬ DropsDelta transaction call) : Complete (transaction.step call).transaction := by
  cases call with
  | reserve =>
      apply requirePhase_complete h
      split_ifs
      · exact transition_complete (by decide)
      · exact transition_complete (by decide)
  | beginEvaluation => exact requirePhase_complete h (transition_complete (by decide))
  | resolve startedWork completedWork interruptedWork preparedCacheKeys =>
      exact resolve_complete h startedWork completedWork interruptedWork preparedCacheKeys
  | abort =>
      intro hphase
      by_cases hvalidated : transaction.phase = .validated
      · have hempty : ¬ 0 < transaction.requestedWork := fun hwork => hkeeps ⟨rfl, hvalidated, hwork⟩
        obtain ⟨-, hcompleted⟩ := h hvalidated
        have hzero := hledger.requested
        change 0 = (transaction.abort.transaction).completedWork ∧
          (transaction.abort.transaction).completedWork = (transaction.abort.transaction).requestedWork
        simp only [PreparedRoundTransaction.abort, hvalidated, reduceCtorEq, or_self, if_false]
        omega
      · simp only [step, PreparedRoundTransaction.abort] at hphase
        split_ifs at hphase
        · cases hphase
        · exact absurd hphase hvalidated

/-- `abort` on a validated round with work leaves an incomplete one. -/
theorem not_complete_of_dropsDelta (h : Complete transaction) {call : Call} (hdrops : DropsDelta transaction call) :
    ¬ Complete (transaction.step call).transaction := by
  obtain ⟨hcall, hvalidated, hwork⟩ := hdrops
  rw [hcall]
  intro hcomplete
  have hdropped : (transaction.step .abort).transaction =
      { transaction with preparedCacheWriteCount := 0, preparedCacheKeyChecksum := 0 } := by
    simp [step, PreparedRoundTransaction.abort, hvalidated]
  rw [hdropped] at hcomplete
  have hzero : 0 = transaction.completedWork := (hcomplete hvalidated).1
  have hcompleted := (h hvalidated).2
  omega

/-! ### Receipts -/

/-- A receipt can be taken in a terminal phase and repeats the counters. -/
theorem receipt_eq_ok {receipt : PreparedRoundReceipt} (h : transaction.receipt = .ok receipt) :
    Terminal transaction.phase ∧ receipt.phase = transaction.phase ∧
      receipt.requestedWork = transaction.requestedWork ∧ receipt.budgetLimit = transaction.budgetLimit ∧
      receipt.reservedWork = transaction.reservedWork ∧ receipt.startedWork = transaction.startedWork ∧
      receipt.completedWork = transaction.completedWork ∧
      receipt.interruptedWork = transaction.interruptedWork ∧
      receipt.preparedCacheWriteCount = transaction.preparedCacheWriteCount := by
  unfold PreparedRoundTransaction.receipt at h
  split_ifs at h with hopen
  have hterminal : Terminal transaction.phase := by
    unfold Terminal
    tauto
  rw [← Except.ok.inj h]
  exact ⟨hterminal, rfl, rfl, rfl, rfl, rfl, rfl, rfl, rfl⟩

theorem exists_receipt (h : Terminal transaction.phase) : ∃ receipt, transaction.receipt = .ok receipt := by
  unfold PreparedRoundTransaction.receipt
  have hterminal : ¬ (transaction.phase ≠ .validated ∧ transaction.phase ≠ .interrupted ∧
      transaction.phase ≠ .aborted) := by
    unfold Terminal at h
    tauto
  rw [if_neg hterminal]
  exact ⟨_, rfl⟩

theorem consistent_iff (h : Sound transaction) : Consistent transaction ↔ Complete transaction := by
  constructor
  · intro hconsistent hvalidated
    obtain ⟨receipt, hreceipt⟩ := exists_receipt (.inl hvalidated)
    obtain ⟨-, hphase, hrequested, -, -, -, hcompleted, -, hwrites⟩ := receipt_eq_ok hreceipt
    have hdelta := hconsistent.validated receipt hreceipt (hphase.trans hvalidated)
    rwa [hwrites, hcompleted, hrequested] at hdelta
  · intro hcomplete
    refine ⟨h.path.starts, h.path.ends, h.path.legal, countP_terminal_le h.path.legal, ?_, ?_, ?_⟩
    · intro receipt hreceipt
      obtain ⟨-, -, -, hbudget, hreserved, hstarted, hcompleted, hinterrupted, -⟩ := receipt_eq_ok hreceipt
      rw [hbudget, hreserved, hstarted, hcompleted, hinterrupted]
      exact ⟨h.ledger.started, h.ledger.reserved, h.ledger.settled⟩
    · intro receipt hreceipt hvalidated
      obtain ⟨-, hphase, hrequested, -, -, -, hcompleted, -, hwrites⟩ := receipt_eq_ok hreceipt
      rw [hwrites, hcompleted, hrequested]
      exact hcomplete (hphase.symm.trans hvalidated)
    · intro receipt hreceipt hother
      obtain ⟨-, hphase, -, -, -, -, -, -, hwrites⟩ := receipt_eq_ok hreceipt
      rw [hwrites]
      apply h.ledger.delta
      rw [← hphase]
      exact hother

/-! ### Runs -/

theorem run_concat (calls : List Call) (call : Call) :
    transaction.run (calls ++ [call]) = ((transaction.run calls).step call).transaction := by
  simp [run]

theorem Sound.run (h : Sound transaction) (calls : List Call) : Sound (transaction.run calls) := by
  induction calls using List.reverseRecOn with
  | nil => exact h
  | append_singleton calls call ih =>
      rw [run_concat]
      exact ih.step call

theorem sound_new {requestedWork budgetLimit : Int} (h : new requestedWork budgetLimit = .ok transaction) :
    Sound transaction ∧ Complete transaction ∧ transaction.requestedWork = requestedWork := by
  unfold new at h
  split_ifs at h with hnegative
  rw [← Except.ok.inj h]
  refine ⟨⟨⟨rfl, rfl, List.isChain_singleton _⟩, ?_⟩, ?_, rfl⟩
  · have hrequested : 0 ≤ requestedWork := by omega
    have hbudget : 0 ≤ budgetLimit := by omega
    exact ⟨hrequested, fun _ => rfl, Int.le_refl 0, hbudget, rfl, fun _ => rfl⟩
  · intro hvalidated
    cases hvalidated

/-- As long as no call drops the delta of a validated round, every round is complete. -/
theorem run_complete (h : Sound transaction) (hcomplete : Complete transaction) (calls : List Call)
    (hkeeps : ∀ done call, done ++ [call] <+: calls → ¬ DropsDelta (transaction.run done) call) :
    Complete (transaction.run calls) := by
  induction calls using List.reverseRecOn with
  | nil => exact hcomplete
  | append_singleton calls call ih =>
      rw [run_concat]
      have hprevious := ih fun done next hdone => hkeeps done next (hdone.trans (List.prefix_append _ _))
      exact step_complete hprevious (h.run calls).ledger (hkeeps calls call List.prefix_rfl)

/-- The receipts of a run are consistent after every call exactly when no call aborts a validated round
that has work. -/
theorem run_consistent_iff {requestedWork budgetLimit : Int}
    (hnew : new requestedWork budgetLimit = .ok transaction) (calls : List Call) :
    (∀ done, done <+: calls → Consistent (transaction.run done)) ↔
      ∀ done call, done ++ [call] <+: calls → ¬ DropsDelta (transaction.run done) call := by
  obtain ⟨hsound, hcomplete, -⟩ := sound_new hnew
  constructor
  · intro hconsistent done call hinitial hdrops
    have hbefore := hconsistent done ((List.prefix_append done [call]).trans hinitial)
    have hafter := hconsistent (done ++ [call]) hinitial
    rw [consistent_iff (hsound.run _)] at hbefore hafter
    rw [run_concat] at hafter
    exact not_complete_of_dropsDelta hbefore hdrops hafter
  · intro hkeeps done hdone
    rw [consistent_iff (hsound.run done)]
    apply run_complete hsound hcomplete done
    intro earlier call hearlier
    exact hkeeps earlier call (hearlier.trans hdone)

/-! ### One unit of work -/

def oneUnit : PreparedRoundTransaction := { requestedWork := 1, budgetLimit := 1 }

/-- The calls of a complete round. -/
def completeRound : List Call := [.reserve, .beginEvaluation, .resolve 1 1 0 [7]]

theorem run_consistent_oneUnit :
    (∀ done, done <+: completeRound → Consistent (oneUnit.run done)) ↔
      ∀ done call, done ++ [call] <+: completeRound → ¬ DropsDelta (oneUnit.run done) call :=
  run_consistent_iff (show new 1 1 = .ok oneUnit by decide) completeRound

/-- After the complete round and `abort`, the receipt says `VALIDATED` with one completed unit and no
prepared write. -/
theorem receipt_aborted_oneUnit : new 1 1 = .ok oneUnit ∧ ∃ receipt,
    (oneUnit.run (completeRound ++ [.abort])).receipt = .ok receipt ∧ receipt.phase = .validated ∧
      receipt.completedWork = 1 ∧ receipt.preparedCacheWriteCount = 0 := by
  refine ⟨by decide, _, rfl, ?_⟩
  decide

end TxnOpt.Native.PreparedRoundTransaction
