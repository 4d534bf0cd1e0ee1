import TxnOpt.Evidence.Refinement
import Mathlib.Data.List.Chain
import Mathlib.Data.List.Basic
import Mathlib.Algebra.Order.Ring.Int

/-!
# What an accepted trace looks like

`Refining` says what the verifier guarantees of any event sequence that it accepts, whoever wrote it.
`Tracks` is the invariant of its loop: it relates the verifier's variables to the events read so far.
-/

namespace TxnOpt

namespace EventDict

/-- An event of the transaction `txnId`. -/
def OfTxn (txnId : String) (event : EventDict) : Prop :=
  event.str? "event" = some "candidate_transaction" ∧ event.str? "txn_id" = some txnId

/-- A transaction event in the given phase. -/
def inPhase (phase : String) (event : EventDict) : Bool :=
  event.str? "event" = some "candidate_transaction" && event.str? "phase" = some phase

/-- A screening that admitted `count` candidates. -/
def Screens (count : Int) (event : EventDict) : Prop :=
  event.str? "event" = some "candidate_screening" ∧ event.int? "admitted_count" = some count

/-- A transaction that ended with an unknown cache outcome. -/
def outcomeUnknown (event : EventDict) : Bool :=
  event.inPhase "INTERRUPTED" && event.str? "cache_outcome" = some "unknown"

end EventDict

/-- The `COMMITTED` events, in order. -/
def commitsOf (events : List EventDict) : List EventDict := events.filter (·.inPhase "COMMITTED")

/-- The digest that the last `COMMITTED` event published, or the one the run was opened with. -/
def visibleDigest (opening : String) (events : List EventDict) : String :=
  ((commitsOf events).getLast?.bind (·.str? "state_digest")).getD opening

def LegalStep (phase next : String) : Prop := next ∈ (replayTransitions.lookup phase).getD []

/-- A path of legal transitions from `PREPARED` to `last`; the phases before `last` are not terminal. -/
structure PhasePath (phases : List String) (last : String) : Prop where
  prepared : phases.head? = some "PREPARED"
  legal : phases.IsChain LegalStep
  ends : phases.getLast? = some last
  others : ∀ phase ∈ phases.dropLast, phase ∉ replayTerminal

/-- The events `own` of one transaction stand together, right after the screening that admitted it, on
the snapshot that was visible then, with the phases `phases` and the keys `keys`. -/
structure TxnTrace (opening txnId : String) (phases keys : List String)
    (before own after : List EventDict) : Prop where
  ofTxn : ∀ event ∈ own, event.OfTxn txnId
  others : ∀ event ∈ before ++ after, ¬event.OfTxn txnId
  follows : own.map (·.str? "phase") = phases.map some
  sameKeys : ∀ event ∈ own, event.candidateKeys? = some keys
  screened : ∃ screening, before.getLast? = some screening ∧ screening.Screens keys.length
  snapshot : ∀ event ∈ own, event.str? "snapshot_digest" = some (visibleDigest opening before)

/-- The events between `run_open` and `run_terminated` refine the aggregate model, and the receipt
states their facts. -/
structure Refining (opening : String) (events : List EventDict)
    (receipt : RefinementReplayReceipt) : Prop where
  transactions : ∀ txnId, ∀ event ∈ events, event.OfTxn txnId →
    ∃ before own after phases keys terminal, events = before ++ own ++ after ∧
      TxnTrace opening txnId phases keys before own after ∧ PhasePath phases terminal ∧
      terminal ∈ replayTerminal
  generations : (commitsOf events).map (·.int? "cache_generation") =
    (List.range (commitsOf events).length).map fun (n : Nat) => some ((n : Int) + 1)
  started : ∃ works : List Int, (commitsOf events).map (·.int? "started_work") = works.map some ∧
    works.Pairwise (· ≤ ·)
  committed : receipt.committedTransactions = (commitsOf events).length
  aborted : receipt.abortedTransactions = events.countP (·.inPhase "ABORTED")
  interrupted : receipt.interruptedTransactions = events.countP (·.inPhase "INTERRUPTED")
  digest : receipt.finalStateDigest = visibleDigest opening events
  generation : receipt.finalCacheGeneration = (commitsOf events).length
  proven : receipt.prefixSafetyProven = true ↔ ∀ event ∈ events, event.outcomeUnknown = false

/-! ### One event -/

variable {sha256 : String → String} {s accepted after : Replaying} {event : EventDict}
  {txnId phase : String} {keys : List String}

/-- The identity checks of a transaction event that passed: it opens a transaction or continues one. -/
inductive Identified (s : Replaying) (event : EventDict) (txnId phase : String)
    (keys : List String) : Replaying → Prop
  | opens : s.phases.lookup txnId = none → s.activeTxnId = none → phase = "PREPARED" →
      event.str? "snapshot_digest" = some s.visibleDigest →
      s.pendingAdmittedCount = some (keys.length : Int) →
      Identified s event txnId phase keys { s with
        transactionKeys := s.transactionKeys.insert txnId keys
        activeTxnId := some txnId
        pendingAdmittedCount := none }
  | continues {previous} : s.phases.lookup txnId = some previous → LegalStep previous phase →
      s.activeTxnId = some txnId → event.str? "snapshot_digest" = some s.visibleDigest →
      s.transactionKeys.lookup txnId = some keys →
      Identified s event txnId phase keys s

theorem replayIdentity_ok (h : replayIdentity s event txnId phase keys = .ok accepted) :
    Identified s event txnId phase keys accepted := by
  unfold replayIdentity at h
  rcases hlookup : s.phases.lookup txnId with _ | previous
  · rw [hlookup] at h
    dsimp only at h
    by_cases hbound : s.activeTxnId.isSome = true ∨ phase ≠ "PREPARED" ∨
        event.str? "snapshot_digest" ≠ some s.visibleDigest
    · rw [if_pos hbound] at h
      cases h
    rw [if_neg hbound] at h
    by_cases hnodup : keys.Nodup
    · rw [if_neg (not_not.mpr hnodup)] at h
      by_cases hcount : s.pendingAdmittedCount = some (keys.length : Int)
      · rw [if_neg (not_not.mpr hcount)] at h
        cases h
        simp only [not_or, not_not, Bool.not_eq_true, Option.isSome_eq_false_iff,
          Option.isNone_iff_eq_none] at hbound
        obtain ⟨hactive, hphase, hsnapshot⟩ := hbound
        exact .opens hlookup hactive hphase hsnapshot hcount
      · rw [if_pos hcount] at h
        cases h
    · rw [if_pos hnodup] at h
      cases h
  · rw [hlookup] at h
    dsimp only at h
    by_cases hlegal : phase ∉ (replayTransitions.lookup previous).getD []
    · rw [if_pos hlegal] at h
      cases h
    rw [if_neg hlegal] at h
    by_cases hbound : s.activeTxnId ≠ some txnId ∨
        event.str? "snapshot_digest" ≠ some s.visibleDigest ∨
        s.transactionKeys.lookup txnId ≠ some keys
    · rw [if_pos hbound] at h
      cases h
    rw [if_neg hbound] at h
    cases h
    simp only [not_or, not_not] at hbound hlegal
    obtain ⟨hactive, hsnapshot, hkeys⟩ := hbound
    exact .continues hlookup hlegal hactive hsnapshot hkeys

/-- What a transaction event in `phase` does to the visible state. -/
inductive Applied (sha256 : String → String) (s : Replaying) (event : EventDict) (phase : String)
    (keys : List String) : Replaying → Prop
  | commits {digest started} : phase = "COMMITTED" → event.str? "state_digest" = some digest →
      event.int? "cache_generation" = some (s.cacheGeneration + 1) →
      event.int? "started_work" = some started → s.lastStartedWork ≤ started →
      Applied sha256 s event phase keys { s with
        visibleDigest := digest
        cacheGeneration := s.cacheGeneration + 1
        lastStartedWork := started
        committedKeyDigests := s.committedKeyDigests ++ [candidateKeysDigest sha256 keys]
        committed := s.committed + 1 }
  | aborts : phase = "ABORTED" → Applied sha256 s event phase keys { s with aborted := s.aborted + 1 }
  | interrupts : phase = "INTERRUPTED" → Applied sha256 s event phase keys { s with
      prefixSafetyProven :=
        if event.str? "cache_outcome" = some "unknown" then false else s.prefixSafetyProven
      interrupted := s.interrupted + 1 }
  | stutters : phase ∉ replayTerminal →
      Applied sha256 s event phase keys { s with stuttering := s.stuttering + 1 }

theorem replayPhase_ok (h : replayPhase sha256 s event phase keys = .ok after) :
    Applied sha256 s event phase keys after := by
  unfold replayPhase at h
  by_cases hcommitted : phase = "COMMITTED"
  · rw [if_pos hcommitted] at h
    split at h
    case h_1 digest generation started hdigest hgeneration hstarted =>
      by_cases hbound : isDigest digest = false ∨ generation ≠ s.cacheGeneration + 1 ∨
          started < s.lastStartedWork
      · rw [if_pos hbound] at h
        cases h
      · rw [if_neg hbound] at h
        cases h
        simp only [not_or, not_not] at hbound
        obtain ⟨-, rfl, hgrown⟩ := hbound
        exact .commits hcommitted hdigest hgeneration hstarted (not_lt.mp hgrown)
    case h_2 => cases h
  rw [if_neg hcommitted] at h
  by_cases haborted : phase = "ABORTED"
  · rw [if_pos haborted] at h
    split at h
    · cases h
    · cases h
      exact .aborts haborted
  rw [if_neg haborted] at h
  by_cases hinterrupted : phase = "INTERRUPTED"
  · rw [if_pos hinterrupted] at h
    split at h
    · cases h
    · cases h
      exact .interrupts hinterrupted
  rw [if_neg hinterrupted] at h
  split at h
  · cases h
  · cases h
    apply Applied.stutters
    simp [replayTerminal, hcommitted, haborted, hinterrupted]

/-- How the verifier reads one event that it accepts. -/
inductive Accepted (sha256 : String → String) (s : Replaying) (event : EventDict) :
    Replaying → Prop
  | screening {count} : event.Screens count → s.activeTxnId = none →
      Accepted sha256 s event { s with pendingAdmittedCount := some count }
  | terminated : event.str? "event" = some "round_terminated" → s.activeTxnId = none →
      Accepted sha256 s event { s with pendingAdmittedCount := none }
  | transaction {txnId phase keys accepted applied} : event.OfTxn txnId →
      event.str? "phase" = some phase → event.candidateKeys? = some keys →
      Identified s event txnId phase keys accepted →
      Applied sha256 { accepted with phases := accepted.phases.insert txnId phase } event phase
        ((accepted.transactionKeys.lookup txnId).getD []) applied →
      Accepted sha256 s event
        (if phase ∈ replayTerminal then { applied with activeTxnId := none } else applied)

theorem replayTransaction_ok (hname : event.str? "event" = some "candidate_transaction")
    (h : replayTransaction sha256 s event = .ok after) : Accepted sha256 s event after := by
  unfold replayTransaction at h
  split at h
  case h_2 => cases h
  case h_1 txnId phase hid hphase =>
    split at h
    · cases h
    split at h
    case h_1 => cases h
    case h_2 keys hkeys =>
      rcases hidentity : replayIdentity s event txnId phase keys with error | accepted
      · rw [hidentity] at h
        cases h
      rw [hidentity] at h
      simp only [bind, Except.bind] at h
      split at h
      · cases h
      rcases happlied : replayPhase sha256
          { accepted with phases := accepted.phases.insert txnId phase } event phase
          ((accepted.transactionKeys.lookup txnId).getD []) with error | applied
      · rw [happlied] at h
        cases h
      rw [happlied] at h
      cases h
      exact .transaction ⟨hname, hid⟩ hphase hkeys (replayIdentity_ok hidentity)
        (replayPhase_ok happlied)

theorem replayEvent_ok (h : replayEvent sha256 s event = .ok after) :
    Accepted sha256 s event after := by
  unfold replayEvent at h
  split at h
  case h_1 hname =>
    split at h
    · cases h
    unfold replayScreening at h
    split at h
    · cases h
    split at h
    · cases h
    case isFalse.isFalse.isFalse hactive _ =>
      split at h
      case h_1 count hcount =>
        cases h
        exact .screening ⟨hname, hcount⟩ (by simpa using hactive)
      case h_2 => cases h
  case h_2 hname =>
    split at h
    · cases h
    unfold replayRoundTerminated at h
    split at h
    · cases h
    case isFalse.isFalse hopen =>
      cases h
      rw [not_or] at hopen
      exact .terminated hname (by simpa using hopen.1)
  case h_3 hname => exact replayTransaction_ok hname h
  case h_4 => cases h

/-! ### The counters -/

/-- The counters and the visible state after the events read so far. -/
structure Counted (opening : String) (events : List EventDict) (s : Replaying) : Prop where
  visible : s.visibleDigest = visibleDigest opening events
  generation : s.cacheGeneration = (commitsOf events).length
  generations : (commitsOf events).map (·.int? "cache_generation") =
    (List.range (commitsOf events).length).map fun (n : Nat) => some ((n : Int) + 1)
  started : ∃ works : List Int, (commitsOf events).map (·.int? "started_work") = works.map some ∧
    works.Pairwise (· ≤ ·) ∧ ∀ work ∈ works, work ≤ s.lastStartedWork
  committed : s.committed = (commitsOf events).length
  aborted : s.aborted = events.countP (·.inPhase "ABORTED")
  interrupted : s.interrupted = events.countP (·.inPhase "INTERRUPTED")
  proven : s.prefixSafetyProven = true ↔ ∀ event ∈ events, event.outcomeUnknown = false

variable {opening : String} {events : List EventDict}

theorem Counted.start (opening : String) : Counted opening [] (.start opening) := by
  refine ⟨rfl, rfl, rfl, ⟨[], rfl, .nil, ?_⟩, rfl, rfl, rfl, ?_⟩
  · intro work hmem
    cases hmem
  · simp [Replaying.start]

theorem inPhase_of_ne (h : event.str? "event" ≠ some "candidate_transaction") (phase : String) :
    event.inPhase phase = false := by
  simp [EventDict.inPhase, h]

theorem inPhase_txn (hname : event.str? "event" = some "candidate_transaction")
    (hphase : event.str? "phase" = some phase) (other : String) :
    event.inPhase other = decide (phase = other) := by
  simp [EventDict.inPhase, hname, hphase]

theorem commitsOf_append (event : EventDict) : commitsOf (events ++ [event]) =
    commitsOf events ++ if event.inPhase "COMMITTED" then [event] else [] := by
  unfold commitsOf
  rw [List.filter_append]
  cases hphase : event.inPhase "COMMITTED" <;> simp [hphase]

theorem countP_concat (event : EventDict) (phase : String) :
    (events ++ [event]).countP (·.inPhase phase) =
      events.countP (·.inPhase phase) + if event.inPhase phase then 1 else 0 := by
  rw [List.countP_append, List.countP_singleton]

theorem known_concat (event : EventDict) :
    (∀ other ∈ events ++ [event], other.outcomeUnknown = false) ↔
      (∀ other ∈ events, other.outcomeUnknown = false) ∧ event.outcomeUnknown = false := by
  rw [List.forall_mem_append, List.forall_mem_singleton]

/-- An event that commits nothing only counts. -/
theorem Counted.uncommitted (h : Counted opening events s)
    (hcommitted : event.inPhase "COMMITTED" = false)
    (hvisible : after.visibleDigest = s.visibleDigest)
    (hgeneration : after.cacheGeneration = s.cacheGeneration)
    (hstarted : after.lastStartedWork = s.lastStartedWork) (hcount : after.committed = s.committed)
    (haborted : after.aborted = s.aborted + if event.inPhase "ABORTED" then 1 else 0)
    (hinterrupted : after.interrupted = s.interrupted +
      if event.inPhase "INTERRUPTED" then 1 else 0)
    (hproven : after.prefixSafetyProven = (s.prefixSafetyProven && !event.outcomeUnknown)) :
    Counted opening (events ++ [event]) after := by
  have hcommits : commitsOf (events ++ [event]) = commitsOf events := by
    rw [commitsOf_append, hcommitted]
    exact List.append_nil _
  refine ⟨?_, ?_, ?_, ?_, ?_, ?_, ?_, ?_⟩
  · rw [hvisible, h.visible, visibleDigest, visibleDigest, hcommits]
  · rw [hgeneration, h.generation, hcommits]
  · rw [hcommits]
    exact h.generations
  · rw [hcommits, hstarted]
    exact h.started
  · rw [hcount, h.committed, hcommits]
  · rw [haborted, h.aborted, countP_concat]
  · rw [hinterrupted, h.interrupted, countP_concat]
  · rw [hproven, Bool.and_eq_true, h.proven, known_concat, Bool.not_eq_true']

/-- A commit publishes the next generation. -/
theorem Counted.commits (h : Counted opening events s)
    (hname : event.str? "event" = some "candidate_transaction")
    (hphase : event.str? "phase" = some "COMMITTED") {digest : String} {started : Int}
    (hdigest : event.str? "state_digest" = some digest)
    (hgeneration : event.int? "cache_generation" = some (s.cacheGeneration + 1))
    (hstarted : event.int? "started_work" = some started) (hgrown : s.lastStartedWork ≤ started)
    (hvisible : after.visibleDigest = digest)
    (hnext : after.cacheGeneration = s.cacheGeneration + 1)
    (hlast : after.lastStartedWork = started) (hcount : after.committed = s.committed + 1)
    (haborted : after.aborted = s.aborted) (hinterrupted : after.interrupted = s.interrupted)
    (hproven : after.prefixSafetyProven = s.prefixSafetyProven) :
    Counted opening (events ++ [event]) after := by
  have hin := inPhase_txn hname hphase
  have hcommits : commitsOf (events ++ [event]) = commitsOf events ++ [event] := by
    rw [commitsOf_append, hin]
    rfl
  have hlength : (commitsOf (events ++ [event])).length = (commitsOf events).length + 1 := by
    rw [hcommits, List.length_append]
    rfl
  have hknown : event.outcomeUnknown = false := by
    rw [EventDict.outcomeUnknown, hin]
    rfl
  refine ⟨?_, ?_, ?_, ?_, ?_, ?_, ?_, ?_⟩
  · rw [visibleDigest, hcommits, List.getLast?_concat, Option.bind_some, hdigest, hvisible]
    rfl
  · rw [hlength, hnext, h.generation]
    rfl
  · rw [hlength, hcommits, List.map_append, h.generations, List.range_succ, List.map_append,
      List.map_singleton, List.map_singleton, hgeneration, h.generation]
  · obtain ⟨works, hworks, hsorted, hbound⟩ := h.started
    refine ⟨works ++ [started], ?_, ?_, ?_⟩
    · rw [hcommits, List.map_append, hworks, List.map_append, List.map_singleton, hstarted]
      rfl
    · rw [List.pairwise_append]
      refine ⟨hsorted, List.pairwise_singleton _ _, ?_⟩
      intro work hmem other hother
      rw [List.mem_singleton.mp hother]
      exact (hbound work hmem).trans hgrown
    · intro work hmem
      rw [hlast]
      rcases List.mem_append.mp hmem with hmem | hmem
      · exact (hbound work hmem).trans hgrown
      · exact (List.mem_singleton.mp hmem).le
  · rw [hlength, hcount, h.committed]
  · rw [countP_concat, hin, haborted, h.aborted]
    rfl
  · rw [countP_concat, hin, hinterrupted, h.interrupted]
    rfl
  · rw [known_concat, hproven, h.proven]
    exact (and_iff_left hknown).symm

theorem Counted.applied (h : Counted opening events s)
    (hname : event.str? "event" = some "candidate_transaction")
    (hphase : event.str? "phase" = some phase) (hstep : Applied sha256 s event phase keys after) :
    Counted opening (events ++ [event]) after := by
  have hin := inPhase_txn hname hphase
  cases hstep with
  | commits hcommitted hdigest hgeneration hstarted hgrown =>
      rw [hcommitted] at hphase
      exact h.commits hname hphase hdigest hgeneration hstarted hgrown rfl rfl rfl rfl rfl rfl rfl
  | aborts haborted =>
      subst haborted
      refine h.uncommitted (hin _) rfl rfl rfl rfl ?_ ?_ ?_
      · rw [hin]
        rfl
      · rw [hin]
        rfl
      · rw [EventDict.outcomeUnknown, hin]
        simp
  | interrupts hinterrupted =>
      subst hinterrupted
      refine h.uncommitted (hin _) rfl rfl rfl rfl ?_ ?_ ?_
      · rw [hin]
        rfl
      · rw [hin]
        rfl
      · rw [EventDict.outcomeUnknown, hin]
        by_cases hunknown : event.str? "cache_outcome" = some "unknown" <;> simp [hunknown]
  | stutters hopen =>
      simp only [replayTerminal, List.mem_cons, List.not_mem_nil, or_false, not_or] at hopen
      obtain ⟨hcommitted, haborted, hinterrupted⟩ := hopen
      refine h.uncommitted (by rw [hin, decide_eq_false hcommitted]) rfl rfl rfl rfl ?_ ?_ ?_
      · rw [hin, decide_eq_false haborted]
        rfl
      · rw [hin, decide_eq_false hinterrupted]
        rfl
      · rw [EventDict.outcomeUnknown, hin, decide_eq_false hinterrupted]
        simp

/-- An event of another kind leaves the counters alone. -/
theorem Counted.other (h : Counted opening events s)
    (hname : event.str? "event" ≠ some "candidate_transaction") (count : Option Int) :
    Counted opening (events ++ [event]) { s with pendingAdmittedCount := count } := by
  have hnone := inPhase_of_ne hname
  refine h.uncommitted (hnone _) rfl rfl rfl rfl ?_ ?_ ?_
  · rw [hnone]
    rfl
  · rw [hnone]
    rfl
  · rw [EventDict.outcomeUnknown, hnone]
    simp

theorem Counted.step (h : Counted opening events s) (hstep : Accepted sha256 s event after) :
    Counted opening (events ++ [event]) after := by
  cases hstep with
  | screening hscreens _ => exact h.other (by rw [hscreens.1]; decide) _
  | terminated hname _ => exact h.other (by rw [hname]; decide) _
  | @transaction txnId phase keys accepted applied htxn hphase _ hidentified happlied =>
      have hopened : Counted opening events
          { accepted with phases := accepted.phases.insert txnId phase } := by
        cases hidentified with
        | opens => exact ⟨h.visible, h.generation, h.generations, h.started, h.committed, h.aborted,
            h.interrupted, h.proven⟩
        | continues => exact ⟨h.visible, h.generation, h.generations, h.started, h.committed,
            h.aborted, h.interrupted, h.proven⟩
      have hdone := hopened.applied htxn.1 hphase happlied
      split
      · exact ⟨hdone.visible, hdone.generation, hdone.generations, hdone.started, hdone.committed,
          hdone.aborted, hdone.interrupted, hdone.proven⟩
      · exact hdone

/-! ### The transactions -/

/-- The transactions among the events read so far. -/
structure Traced (opening : String) (events : List EventDict) (s : Replaying) : Prop where
  pending : ∀ count, s.pendingAdmittedCount = some count →
    ∃ screening, events.getLast? = some screening ∧ screening.Screens count
  unknown : ∀ txnId, s.phases.lookup txnId = none → ∀ event ∈ events, ¬event.OfTxn txnId
  known : ∀ txnId phase, s.phases.lookup txnId = some phase →
    ∃ before own after phases keys, events = before ++ own ++ after ∧
      s.transactionKeys.lookup txnId = some keys ∧
      TxnTrace opening txnId phases keys before own after ∧ PhasePath phases phase ∧
      (phase ∉ replayTerminal → s.activeTxnId = some txnId ∧ after = [])

theorem Traced.start (opening : String) : Traced opening [] (.start opening) := by
  refine ⟨?_, ?_, ?_⟩
  · intro count hpending
    cases hpending
  · intro txnId _ event hmem
    cases hmem
  · intro txnId phase hlookup
    cases hlookup

theorem TxnTrace.append_other {phases : List String} {before own rest : List EventDict}
    (h : TxnTrace opening txnId phases keys before own rest) (hother : ¬event.OfTxn txnId) :
    TxnTrace opening txnId phases keys before own (rest ++ [event]) := by
  refine ⟨h.ofTxn, ?_, h.follows, h.sameKeys, h.screened, h.snapshot⟩
  rw [← List.append_assoc, List.forall_mem_append, List.forall_mem_singleton]
  exact ⟨h.others, hother⟩

/-- An event of no known transaction comes only when every transaction is closed. -/
theorem Traced.other (h : Traced opening events s) (hactive : s.activeTxnId = none)
    (hother : ∀ txnId, ¬event.OfTxn txnId) {count : Option Int}
    (hpending : ∀ n, count = some n → event.Screens n) :
    Traced opening (events ++ [event]) { s with pendingAdmittedCount := count } := by
  refine ⟨?_, ?_, ?_⟩
  · intro n hn
    exact ⟨event, List.getLast?_concat, hpending n hn⟩
  · intro txnId hlookup
    rw [List.forall_mem_append, List.forall_mem_singleton]
    exact ⟨h.unknown txnId hlookup, hother txnId⟩
  · intro txnId phase hlookup
    obtain ⟨before, own, rest, phases, keys, hevents, hkeys, htrace, hpath, hopen⟩ :=
      h.known txnId phase hlookup
    refine ⟨before, own, rest ++ [event], phases, keys, ?_, hkeys, htrace.append_other (hother txnId),
      hpath, ?_⟩
    · rw [hevents, List.append_assoc _ rest]
    · intro hphase
      obtain ⟨hsome, -⟩ := hopen hphase
      rw [hactive] at hsome
      cases hsome

theorem not_terminal_of_legalStep {previous next : String} (h : LegalStep previous next) :
    previous ∉ replayTerminal := by
  intro hterminal
  simp only [replayTerminal, List.mem_cons, List.not_mem_nil, or_false] at hterminal
  rcases hterminal with rfl | rfl | rfl <;> cases h

theorem PhasePath.append {phases : List String} {previous : String}
    (h : PhasePath phases previous) (hstep : LegalStep previous phase) :
    PhasePath (phases ++ [phase]) phase := by
  have hne : phases ≠ [] := by
    intro hnil
    rw [hnil] at h
    cases h.ends
  refine ⟨?_, ?_, List.getLast?_concat, ?_⟩
  · rw [List.head?_append, h.prepared]
    rfl
  · rw [List.isChain_append]
    refine ⟨h.legal, List.isChain_singleton _, ?_⟩
    intro last hlast first hfirst
    rw [h.ends] at hlast
    cases hlast
    cases hfirst
    exact hstep
  · rw [List.dropLast_concat]
    intro earlier hmem
    rw [← List.dropLast_append_getLast? previous h.ends] at hmem
    rcases List.mem_append.mp hmem with hmem | hmem
    · exact h.others earlier hmem
    · rw [List.mem_singleton.mp hmem]
      exact not_terminal_of_legalStep hstep

theorem phasePath_prepared : PhasePath ["PREPARED"] "PREPARED" := by
  refine ⟨rfl, List.isChain_singleton _, rfl, ?_⟩
  intro phase hmem
  cases hmem

theorem EventDict.OfTxn.unique {other : String} (h : event.OfTxn txnId) (h' : event.OfTxn other) :
    txnId = other := by
  have hid := h.2.symm.trans h'.2
  exact Option.some.inj hid

/-- The phases after an event of `txnId`: its own is the event's, the others are as they were. -/
structure Moves (s after : Replaying) (txnId phase : String) (keys : List String) : Prop where
  own : after.phases.lookup txnId = some phase
  others : ∀ other, other ≠ txnId → after.phases.lookup other = s.phases.lookup other
  ownKeys : after.transactionKeys.lookup txnId = some keys
  otherKeys : ∀ other, other ≠ txnId →
    after.transactionKeys.lookup other = s.transactionKeys.lookup other
  active : phase ∉ replayTerminal → after.activeTxnId = some txnId
  pending : after.pendingAdmittedCount = none

theorem Applied.frame (h : Applied sha256 s event phase keys after) :
    after.phases = s.phases ∧ after.transactionKeys = s.transactionKeys ∧
      after.activeTxnId = s.activeTxnId ∧ after.pendingAdmittedCount = s.pendingAdmittedCount := by
  cases h <;> exact ⟨rfl, rfl, rfl, rfl⟩

/-- The transaction of an accepted event, and where it stands afterwards. -/
theorem Identified.moves (h : Identified s event txnId phase keys accepted)
    (hpending : s.activeTxnId.isSome = true → s.pendingAdmittedCount = none) {applied : Replaying}
    {shown : List String}
    (happlied : Applied sha256 { accepted with phases := accepted.phases.insert txnId phase } event
      phase shown applied) :
    Moves s (if phase ∈ replayTerminal then { applied with activeTxnId := none } else applied) txnId
      phase keys := by
  obtain ⟨hphases, hkeys, hactive, hcount⟩ := happlied.frame
  have haccepted : accepted.phases = s.phases ∧ accepted.transactionKeys.lookup txnId = some keys ∧
      (∀ other, other ≠ txnId →
        accepted.transactionKeys.lookup other = s.transactionKeys.lookup other) ∧
      accepted.activeTxnId = some txnId ∧ accepted.pendingAdmittedCount = none := by
    cases h with
    | opens =>
        refine ⟨rfl, AList.lookup_insert _, ?_, rfl, rfl⟩
        intro other hne
        exact AList.lookup_insert_ne hne
    | continues _ _ hsome _ hown =>
        exact ⟨rfl, hown, fun _ _ => rfl, hsome, hpending (by rw [hsome]; rfl)⟩
  obtain ⟨hkept, hown, hothers, hsome, hnone⟩ := haccepted
  have hresult : ∀ {result : Replaying}, result.phases = applied.phases →
      result.transactionKeys = applied.transactionKeys →
      (phase ∉ replayTerminal → result.activeTxnId = some txnId) →
      result.pendingAdmittedCount = applied.pendingAdmittedCount →
      Moves s result txnId phase keys := by
    intro result hresultPhases hresultKeys hresultActive hresultPending
    refine ⟨?_, ?_, ?_, ?_, hresultActive, ?_⟩
    · rw [hresultPhases, hphases]
      exact AList.lookup_insert _
    · intro other hne
      rw [hresultPhases, hphases, ← hkept]
      exact AList.lookup_insert_ne hne
    · rw [hresultKeys, hkeys]
      exact hown
    · intro other hne
      rw [hresultKeys, hkeys]
      exact hothers other hne
    · rw [hresultPending, hcount]
      exact hnone
  by_cases hterminal : phase ∈ replayTerminal
  · rw [if_pos hterminal]
    exact hresult rfl rfl (fun hopen => absurd hterminal hopen) rfl
  · rw [if_neg hterminal]
    exact hresult rfl rfl (fun _ => hactive.trans hsome) rfl

theorem commitsOf_eq_append {before own : List EventDict}
    (h : ∀ event ∈ own, event.inPhase "COMMITTED" = false) :
    commitsOf (before ++ own) = commitsOf before := by
  have hnone : commitsOf own = [] := by
    apply List.filter_eq_nil_iff.mpr
    intro event hmem
    rw [h event hmem]
    decide
  have happend : commitsOf (before ++ own) = commitsOf before ++ commitsOf own := List.filter_append ..
  rw [happend, hnone, List.append_nil]

/-- A transaction that is not closed has published nothing. -/
theorem TxnTrace.visible {phases : List String} {before own : List EventDict}
    (h : TxnTrace opening txnId phases keys before own []) (hpath : PhasePath phases phase)
    (hopen : phase ∉ replayTerminal) :
    visibleDigest opening (before ++ own ++ []) = visibleDigest opening before := by
  have hnone : ∀ event ∈ own, event.inPhase "COMMITTED" = false := by
    intro event hmem
    have hphase : event.str? "phase" ∈ phases.map some := by
      rw [← h.follows]
      exact List.mem_map_of_mem hmem
    obtain ⟨own, hown, heq⟩ := List.mem_map.mp hphase
    have hnot : own ∉ replayTerminal := by
      rw [← List.dropLast_append_getLast? phase hpath.ends] at hown
      rcases List.mem_append.mp hown with hown | hown
      · exact hpath.others own hown
      · rw [List.mem_singleton.mp hown]
        exact hopen
    rw [inPhase_txn (h.ofTxn event hmem).1 heq.symm]
    apply decide_eq_false
    intro hcommitted
    rw [hcommitted] at hnot
    exact hnot (by decide)
  rw [List.append_nil, visibleDigest, visibleDigest, commitsOf_eq_append hnone]

theorem Traced.step (h : Traced opening events s)
    (hvisible : s.visibleDigest = visibleDigest opening events)
    (hpending : s.activeTxnId.isSome = true → s.pendingAdmittedCount = none)
    (hstep : Accepted sha256 s event after) : Traced opening (events ++ [event]) after := by
  cases hstep with
  | @screening count hscreens hactive =>
      apply h.other hactive
      · intro txnId htxn
        have hname := htxn.1
        rw [hscreens.1] at hname
        exact absurd (Option.some.inj hname) (by decide)
      · intro n hn
        rw [← Option.some.inj hn]
        exact hscreens
  | terminated hname hactive =>
      apply h.other hactive
      · intro txnId htxn
        have hother := htxn.1
        rw [hname] at hother
        exact absurd (Option.some.inj hother) (by decide)
      · intro n hn
        cases hn
  | @transaction txnId phase keys accepted applied htxn hphase hkeys hidentified happlied =>
      have hmoves := hidentified.moves hpending happlied
      generalize (if phase ∈ replayTerminal then { applied with activeTxnId := none } else applied) =
        result at hmoves
      refine ⟨?_, ?_, ?_⟩
      · intro count hcount
        rw [hmoves.pending] at hcount
        cases hcount
      · intro other hlookup
        have hne : other ≠ txnId := by
          intro heq
          rw [heq, hmoves.own] at hlookup
          cases hlookup
        rw [hmoves.others other hne] at hlookup
        rw [List.forall_mem_append, List.forall_mem_singleton]
        exact ⟨h.unknown other hlookup, fun hother => hne (hother.unique htxn)⟩
      · intro other phase' hlookup
        by_cases hne : other = txnId
        · subst hne
          rw [hmoves.own] at hlookup
          obtain rfl := Option.some.inj hlookup
          cases hidentified with
          | opens hnew hnone hprepared hsnapshot hadmitted =>
              subst hprepared
              refine ⟨events, [event], [], ["PREPARED"], keys, by rw [List.append_nil], hmoves.ownKeys,
                ⟨?_, ?_, ?_, ?_, h.pending _ hadmitted, ?_⟩, phasePath_prepared, ?_⟩
              · rw [List.forall_mem_singleton]
                exact htxn
              · rw [List.append_nil]
                exact h.unknown other hnew
              · rw [List.map_singleton, hphase]
                rfl
              · rw [List.forall_mem_singleton]
                exact hkeys
              · rw [List.forall_mem_singleton, hsnapshot, hvisible]
              · intro hopen
                exact ⟨hmoves.active hopen, rfl⟩
          | @continues previous hold hlegal _ hsnapshot hown =>
              obtain ⟨before, own, rest, phases, keys', hevents, hkeys', htrace, hpath, hopen⟩ :=
                h.known other previous hold
              obtain ⟨-, rfl⟩ := hopen (not_terminal_of_legalStep hlegal)
              rw [hown] at hkeys'
              obtain rfl := Option.some.inj hkeys'
              refine ⟨before, own ++ [event], [], phases ++ [phase], keys, ?_, hmoves.ownKeys,
                ⟨?_, htrace.others, ?_, ?_, htrace.screened, ?_⟩, hpath.append hlegal, ?_⟩
              · rw [hevents, List.append_nil, List.append_nil, List.append_assoc]
              · rw [List.forall_mem_append, List.forall_mem_singleton]
                exact ⟨htrace.ofTxn, htxn⟩
              · rw [List.map_append, htrace.follows, List.map_append, List.map_singleton, hphase]
                rfl
              · rw [List.forall_mem_append, List.forall_mem_singleton]
                exact ⟨htrace.sameKeys, hkeys⟩
              · rw [List.forall_mem_append, List.forall_mem_singleton]
                refine ⟨htrace.snapshot, ?_⟩
                rw [hsnapshot, hvisible, hevents,
                  htrace.visible hpath (not_terminal_of_legalStep hlegal)]
              · intro hopen
                exact ⟨hmoves.active hopen, rfl⟩
        · rw [hmoves.others other hne] at hlookup
          obtain ⟨before, own, rest, phases, keys', hevents, hkeys', htrace, hpath, hopen⟩ :=
            h.known other phase' hlookup
          refine ⟨before, own, rest ++ [event], phases, keys', ?_, ?_, ?_, hpath, ?_⟩
          · rw [hevents, List.append_assoc _ rest]
          · rw [hmoves.otherKeys other hne]
            exact hkeys'
          · exact htrace.append_other fun hother => hne (hother.unique htxn)
          · intro hphase'
            obtain ⟨hactive, -⟩ := hopen hphase'
            cases hidentified with
            | opens _ hnone =>
                rw [hnone] at hactive
                cases hactive
            | continues _ _ hsome =>
                rw [hsome] at hactive
                exact absurd (Option.some.inj hactive).symm hne

/-! ### The loop -/

/-- The invariant of the verifier's loop. -/
structure Tracks (opening : String) (events : List EventDict) (s : Replaying) : Prop where
  counted : Counted opening events s
  traced : Traced opening events s
  pending : s.activeTxnId.isSome = true → s.pendingAdmittedCount = none

theorem Tracks.step (h : Tracks opening events s) (hstep : Accepted sha256 s event after) :
    Tracks opening (events ++ [event]) after := by
  refine ⟨h.counted.step hstep, h.traced.step h.counted.visible h.pending hstep, ?_⟩
  intro hsome
  cases hstep with
  | screening _ hactive =>
      rw [hactive] at hsome
      cases hsome
  | terminated => rfl
  | transaction _ _ _ hidentified happlied => exact (hidentified.moves h.pending happlied).pending

/-- What each accepted event keeps, the whole sequence keeps. -/
theorem Tracks.run (h : Tracks opening events s) (more : List EventDict)
    (hrun : more.foldlM (replayEvent sha256) s = .ok after) :
    Tracks opening (events ++ more) after := by
  induction more generalizing events s with
  | nil =>
      cases hrun
      rw [List.append_nil]
      exact h
  | cons event rest ih =>
      rw [List.foldlM_cons] at hrun
      rcases hevent : replayEvent sha256 s event with error | next
      · rw [hevent] at hrun
        cases hrun
      · rw [hevent] at hrun
        have hnext := ih (h.step (replayEvent_ok hevent)) hrun
        rwa [List.append_assoc] at hnext

/-- The checks after the loop close every transaction. -/
theorem Tracks.refining (h : Tracks opening events s) {receipt : RefinementReplayReceipt}
    (hreceipt : replayReceipt s = .ok receipt) : Refining opening events receipt := by
  unfold replayReceipt at hreceipt
  by_cases hopen : (s.phases.entries.any fun entry => entry.2 ∉ replayTerminal) = true
  · rw [if_pos hopen] at hreceipt
    cases hreceipt
  rw [if_neg hopen] at hreceipt
  split at hreceipt
  · cases hreceipt
  split at hreceipt
  · cases hreceipt
  cases hreceipt
  have hterminal : ∀ txnId phase, s.phases.lookup txnId = some phase → phase ∈ replayTerminal := by
    intro txnId phase hlookup
    by_contra hnot
    apply hopen
    rw [List.any_eq_true]
    exact ⟨⟨txnId, phase⟩, AList.mem_lookup_iff.mp hlookup, decide_eq_true hnot⟩
  obtain ⟨works, hworks, hsorted, -⟩ := h.counted.started
  refine ⟨?_, h.counted.generations, ⟨works, hworks, hsorted⟩, h.counted.committed,
    h.counted.aborted, h.counted.interrupted, h.counted.visible, h.counted.generation,
    h.counted.proven⟩
  intro txnId event hmem htxn
  rcases hlookup : s.phases.lookup txnId with _ | phase
  · exact absurd htxn (h.traced.unknown txnId hlookup event hmem)
  · obtain ⟨before, own, rest, phases, keys, hevents, -, htrace, hpath, -⟩ :=
      h.traced.known txnId phase hlookup
    exact ⟨before, own, rest, phases, keys, phase, hevents, htrace, hpath,
      hterminal txnId phase hlookup⟩

/-- Whatever sequence the verifier accepts refines the aggregate model, and the receipt states its
facts. -/
theorem replay_sound (sha256 : String → String) (events : List EventDict)
    (receipt : RefinementReplayReceipt)
    (h : replayAggregateRefinement sha256 events = .ok receipt) :
    ∃ opening digest middle closing, events = opening :: (middle ++ [closing]) ∧
      opening.str? "event" = some "run_open" ∧ opening.str? "state_digest" = some digest ∧
      isDigest digest = true ∧ closing.str? "event" = some "run_terminated" ∧
      Refining digest middle receipt := by
  unfold replayAggregateRefinement at h
  split at h
  case h_2 => cases h
  case h_1 opening closing hhead hlast =>
    split at h
    · cases h
    case isFalse hbounds =>
      simp only [not_or, not_not] at hbounds
      obtain ⟨hopening, hclosing⟩ := hbounds
      split at h
      case h_2 => cases h
      case h_1 digest hdigest =>
        by_cases hvalid : isDigest digest = true
        · rw [if_pos hvalid] at h
          rcases hrun : (events.drop 1).dropLast.foldlM (replayEvent sha256) (.start digest) with
            error | final
          · rw [hrun] at h
            cases h
          rw [hrun] at h
          have hstart : Tracks digest [] (.start digest) := by
            refine ⟨.start digest, .start digest, ?_⟩
            intro hsome
            cases hsome
          have hsplit : events = opening :: ((events.drop 1).dropLast ++ [closing]) := by
            cases events with
            | nil => cases hhead
            | cons first rest =>
                obtain rfl := Option.some.inj hhead
                rcases List.eq_nil_or_concat rest with rfl | ⟨middle, final, rfl⟩
                · obtain rfl : first = closing := Option.some.inj hlast
                  rw [hopening] at hclosing
                  exact absurd (Option.some.inj hclosing) (by decide)
                · rw [List.concat_eq_append, ← List.cons_append, List.getLast?_concat] at hlast
                  obtain rfl := Option.some.inj hlast
                  rw [List.drop_one, List.tail_cons, List.concat_eq_append, List.dropLast_concat]
          refine ⟨opening, digest, (events.drop 1).dropLast, closing, hsplit, hopening, hdigest,
            hvalid, hclosing, ?_⟩
          exact (hstart.run _ hrun).refining h
        · rw [if_neg hvalid] at h
          cases h

/-! ### An accepted sequence -/

/-- An event of the transaction `round-00000000`, which has the one candidate `a`. -/
def roundEvent (phase : String) : EventDict :=
  [("event", .str "candidate_transaction"), ("txn_id", .str "round-00000000"),
    ("phase", .str phase), ("snapshot_digest", .str ("".pushn '0' 64)),
    ("candidate_keys", .list [.str "a"])]

/-- One transaction that is prepared and aborted. -/
def abortedTrace : List EventDict :=
  [[("event", .str "run_open"), ("state_digest", .str ("".pushn '0' 64))],
    [("event", .str "candidate_screening"), ("admitted_count", .int 1)],
    roundEvent "PREPARED", roundEvent "ABORTED",
    [("event", .str "run_terminated")]]

theorem replay_sound_aborted : ∃ receipt, replayAggregateRefinement id abortedTrace = .ok receipt ∧
    ∃ opening digest middle closing, abortedTrace = opening :: (middle ++ [closing]) ∧
      opening.str? "event" = some "run_open" ∧ opening.str? "state_digest" = some digest ∧
      isDigest digest = true ∧ closing.str? "event" = some "run_terminated" ∧
      Refining digest middle receipt := by
  have haccepted : (replayAggregateRefinement id abortedTrace).isOk = true := by decide +kernel
  rcases hreceipt : replayAggregateRefinement id abortedTrace with error | receipt
  · rw [hreceipt] at haccepted
    cases haccepted
  · exact ⟨receipt, rfl, replay_sound id abortedTrace receipt hreceipt⟩

end TxnOpt
