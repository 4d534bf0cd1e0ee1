import TxnOpt.Runtime.IntegerDomain
import TxnOpt.Runtime.Proof.Evidence
import TxnOpt.Runtime.Proof.Waste

/-!
# Sealing the evidence

A run that is opened hands one stream to the semantic sink, and every transaction in it is closed once,
unless a proposal raised (nothing stands around it) or the outer handler's own audit overflowed.
-/

namespace TxnOpt

/-- The event moves the transaction `txnId` to a terminal phase. -/
def SemanticEvent.closes (txnId : String) : SemanticEvent → Bool
  | .candidateTransaction txn _ => txn.txnId == txnId && txn.terminal
  | _ => false

/-- Every transaction of the events reaches exactly one terminal phase. -/
def EachClosedOnce (events : List SemanticEvent) : Prop :=
  ∀ txn extra, .candidateTransaction txn extra ∈ events →
    events.countP (SemanticEvent.closes txn.txnId) = 1

section

variable {W C Cand State Obj : Type} [DecidableEq State]

/-- The evidence of a run that started its loop from `first` and ended at `final`. -/
structure SealedOnce (job : Job W C Cand State Obj) (deadlineNs : Option Int)
    (first final : Session W C Cand State Obj) : Prop where
  stream : ∃ events, final.semanticStreams = [events] ∧
    (∃ seed digest, events.head? = some (.runOpen seed digest)) ∧
    (∃ reason, events.getLast? = some (.runTerminated reason)) ∧
    (∀ roundId s txn, RoundStart job deadlineNs first roundId s → roundId < job.config.maxRounds →
      (runRound job deadlineNs roundId s).2.transaction = some txn → txn.phase = .committed →
      ∃ extra, .candidateTransaction txn extra ∈ events) ∧
    EachClosedOnce events
  legal : ∀ source target, .illegalTransition source target ∉ final.log

/-! ### The events of a run so far -/

/-- The events that `roundId` rounds have recorded: each belongs to one of them, and its transaction is
closed once. -/
structure ClosedEvents (roundId : Nat) (events : List SemanticEvent) : Prop where
  opens : ∃ seed digest, events.head? = some (.runOpen seed digest)
  closed : ∀ txn extra, .candidateTransaction txn extra ∈ events →
    (∃ earlier < roundId, txn.txnId = txnIdOf earlier) ∧
      events.countP (SemanticEvent.closes txn.txnId) = 1

omit [DecidableEq State] in
theorem ClosedEvents.countP_eq_zero {roundId : Nat} {events : List SemanticEvent}
    (h : ClosedEvents roundId events) :
    events.countP (SemanticEvent.closes (txnIdOf roundId)) = 0 := by
  rw [List.countP_eq_zero]
  intro event hevent hcloses
  cases event with
  | candidateTransaction txn extra =>
      obtain ⟨⟨earlier, hlt, hid⟩, -⟩ := h.closed txn extra hevent
      rw [SemanticEvent.closes, hid, Bool.and_eq_true, beq_iff_eq] at hcloses
      exact absurd (txnIdOf_injective hcloses.1) (Nat.ne_of_lt hlt)
  | _ => cases hcloses

omit [DecidableEq State] in
theorem Episode.Of.txnId_of_mem {roundId : Nat} {digest : String} {e : Episode}
    (h : e.Of roundId digest) {txn : CandidateTxn} {extra : PhaseExtra}
    (hmem : .candidateTransaction txn extra ∈ e.events) : txn.txnId = txnIdOf roundId := by
  simp only [Episode.events, Episode.steps, List.mem_cons, List.mem_append, List.mem_map,
    reduceCtorEq, false_or, SemanticEvent.candidateTransaction.injEq, List.not_mem_nil, or_false] at hmem
  rcases hmem with (⟨rfl, -⟩ | ⟨phase, -, rfl, -⟩) | ⟨rfl, -⟩
  · exact h.opens.txnId
  · exact h.opens.txnId
  · exact h.opens.txnId

omit [DecidableEq State] in
/-- The phases before the last are not terminal, the last one is. -/
theorem Episode.Of.countP_closes {roundId : Nat} {digest : String} {e : Episode}
    (h : e.Of roundId digest) : e.events.countP (SemanticEvent.closes (txnIdOf roundId)) = 1 := by
  have hsteps : e.steps.countP (SemanticEvent.closes (txnIdOf roundId)) = 0 := by
    rw [List.countP_eq_zero]
    intro event hevent
    rcases List.mem_cons.mp hevent with rfl | hevent
    · simp [SemanticEvent.closes, CandidateTxn.terminal, h.opens.phase, TxnPhase.terminalPhases]
    · obtain ⟨phase, hphase, rfl⟩ := List.mem_map.mp hevent
      have hopen : phase ∉ TxnPhase.terminalPhases := by
        have hmem := h.path.subset hphase
        revert hmem
        cases phase <;> decide
      simp [SemanticEvent.closes, CandidateTxn.terminal, hopen]
  have hlast : SemanticEvent.closes (txnIdOf roundId)
      (.candidateTransaction (e.txn.atPhase e.phase) e.extra) = true := by
    simp [SemanticEvent.closes, CandidateTxn.terminal, h.opens.txnId, h.terminal]
  rw [Episode.events, List.countP_cons, List.countP_append, hsteps, List.countP_singleton, hlast]
  rfl

omit [DecidableEq State] in
/-- The events of one more round are closed on their own. -/
theorem ClosedEvents.extend {roundId : Nat} {events more : List SemanticEvent}
    (h : ClosedEvents roundId events)
    (hmore : ∀ txn extra, .candidateTransaction txn extra ∈ more →
      txn.txnId = txnIdOf roundId ∧ more.countP (SemanticEvent.closes (txnIdOf roundId)) = 1) :
    ClosedEvents (roundId + 1) (events ++ more) := by
  refine ⟨?_, ?_⟩
  · obtain ⟨seed, digest, hopens⟩ := h.opens
    exact ⟨seed, digest, List.head?_append.trans (by rw [hopens, Option.some_or])⟩
  intro txn extra hmem
  rcases List.mem_append.mp hmem with hmem | hmem
  · obtain ⟨⟨earlier, hlt, hid⟩, hcount⟩ := h.closed txn extra hmem
    refine ⟨⟨earlier, Nat.lt_succ_of_lt hlt, hid⟩, ?_⟩
    have hnone : more.countP (SemanticEvent.closes txn.txnId) = 0 := by
      rw [List.countP_eq_zero]
      intro event hevent hcloses
      cases event with
      | candidateTransaction other extra' =>
          rw [SemanticEvent.closes, (hmore other extra' hevent).1, hid, Bool.and_eq_true,
            beq_iff_eq] at hcloses
          exact absurd (txnIdOf_injective hcloses.1) (Nat.ne_of_gt hlt)
      | _ => cases hcloses
    rw [List.countP_append, hcount, hnone]
  · obtain ⟨hid, hcount⟩ := hmore txn extra hmem
    refine ⟨⟨roundId, Nat.lt_succ_self _, hid⟩, ?_⟩
    rw [hid, List.countP_append, h.countP_eq_zero, hcount]

/-- What a run has recorded when `roundId` rounds are over. -/
structure Recorded (roundId : Nat) (c : Core C State Obj) : Prop where
  events : ClosedEvents roundId c.semanticEvents
  transaction : ∀ txn, c.transaction = some txn →
    ∃ extra, .candidateTransaction txn extra ∈ c.semanticEvents

variable {job : Job W C Cand State Obj} {initialState : State} {deadlineNs : Option Int}
  {first : Session W C Cand State Obj}

/-- One pass keeps the events closed. -/
theorem PassEvents.recorded {roundId : Nat} {c t : Core C State Obj} {unknown : Bool}
    (hc : Recorded roundId c) (h : PassEvents job deadlineNs roundId c t unknown) : Recorded (roundId + 1) t := by
  cases h with
  | none hevents _ _ _ htransaction =>
      refine ⟨?_, ?_⟩
      · rw [hevents, ← List.append_nil c.semanticEvents]
        exact hc.events.extend (by rintro txn extra ⟨⟩)
      · rw [hevents, htransaction]
        exact hc.transaction
  | inadmissible _ hevents _ _ _ htransaction =>
      refine ⟨?_, ?_⟩
      · rw [hevents]
        refine hc.events.extend ?_
        intro txn extra hmem
        simp at hmem
      · rw [hevents, htransaction]
        intro txn htxn
        obtain ⟨extra, hmem⟩ := hc.transaction txn htxn
        exact ⟨extra, List.mem_append_left _ hmem⟩
  | episode e he _ hevents htransaction =>
      refine ⟨?_, ?_⟩
      · rw [hevents]
        exact hc.events.extend fun txn extra hmem => ⟨he.txnId_of_mem hmem, he.countP_closes⟩
      · rw [hevents, htransaction]
        rintro _ ⟨⟩
        exact ⟨e.extra, List.mem_append_right _ (by simp [Episode.events])⟩

theorem RoundStart.recorded (hopened : OpenedRun job initialState deadlineNs first.core)
    {roundId : Nat} {s : Session W C Cand State Obj}
    (h : RoundStart job deadlineNs first roundId s) : Recorded roundId s.core := by
  refine h.invariant Recorded hopened.between ?_ ?_
  · rw [hopened.core]
    refine ⟨⟨⟨_, _, rfl⟩, ?_⟩, by rintro txn ⟨⟩⟩
    intro txn extra hmem
    simp at hmem
  · exact fun _ _ _ _ hc hround => hround.passEvents.recorded hc

theorem PassEvents.isPrefix {roundId : Nat} {c t : Core C State Obj} {unknown : Bool}
    (h : PassEvents job deadlineNs roundId c t unknown) : c.semanticEvents <+: t.semanticEvents := by
  cases h with
  | none hevents => rw [hevents]
  | inadmissible _ hevents =>
      rw [hevents]
      exact List.prefix_append _ _
  | episode e _ _ hevents =>
      rw [hevents]
      exact List.prefix_append _ _

/-- Events stay recorded. -/
theorem RoundStart.isPrefix (hfirst : Between first.core) {roundId later : Nat}
    {s t : Session W C Cand State Obj} (hs : RoundStart job deadlineNs first roundId s)
    (ht : RoundStart job deadlineNs first later t) (hle : roundId ≤ later) :
    s.core.semanticEvents <+: t.core.semanticEvents := by
  induction ht with
  | first =>
      obtain rfl := Nat.le_zero.mp hle
      obtain rfl := hs.unique .first
      exact List.prefix_rfl
  | @next last u v hu hround ih =>
      rcases Nat.le_succ_iff.mp hle with hle | rfl
      · exact (ih hle).trans (runRound_next (hu.between hfirst) hround).passEvents.isPrefix
      · obtain rfl := hs.unique (hu.next hround)
        exact List.prefix_rfl

omit [DecidableEq State] in
/-- The events of a run, closed by `run_terminated`. -/
theorem ClosedEvents.terminated {roundId : Nat} {events : List SemanticEvent}
    (h : ClosedEvents roundId events) (reason : String) :
    (∃ seed digest, (events ++ [SemanticEvent.runTerminated reason]).head? =
        some (.runOpen seed digest)) ∧
      (∃ reason', (events ++ [SemanticEvent.runTerminated reason]).getLast? =
        some (.runTerminated reason')) ∧
      EachClosedOnce (events ++ [.runTerminated reason]) := by
  refine ⟨?_, ⟨reason, List.getLast?_concat⟩, ?_⟩
  · obtain ⟨seed, digest, hopens⟩ := h.opens
    exact ⟨seed, digest, List.head?_append.trans (by rw [hopens, Option.some_or])⟩
  · intro txn extra hmem
    have hmem' : .candidateTransaction txn extra ∈ events := by
      simpa using hmem
    rw [List.countP_append, (h.closed txn extra hmem').2]
    rfl

/-- The committed transaction of a round that the run has been through is in its events. -/
theorem LastRound.committed_mem (hopened : OpenedRun job initialState deadlineNs first.core)
    {outcome : Except PyExc (RunResult State Obj)} {last : Nat}
    {s final : Session W C Cand State Obj} (hs : RoundStart job deadlineNs first last s)
    (hlast : LastRound job deadlineNs last s outcome final)
    (hgrown : s.core.semanticEvents <+: final.core.semanticEvents)
    (hrecorded : Recorded (last + 1) final.core) {roundId : Nat}
    {start : Session W C Cand State Obj} {txn : CandidateTxn}
    (hstart : RoundStart job deadlineNs first roundId start) (hlt : roundId < job.config.maxRounds)
    (htxn : (runRound job deadlineNs roundId start).2.transaction = some txn) :
    ∃ extra, .candidateTransaction txn extra ∈ final.core.semanticEvents := by
  have hearlier : roundId < last → ∃ extra, .candidateTransaction txn extra ∈
      final.core.semanticEvents := by
    intro hlt
    obtain ⟨t, hround, ht⟩ := hstart.goes_on hs hlt
    rw [hround] at htxn
    obtain ⟨extra, hmem⟩ := (ht.recorded hopened).transaction txn htxn
    exact ⟨extra, hgrown.subset ((ht.isPrefix hopened.between hs hlt).subset hmem)⟩
  cases hlast with
  | limit hmax _ _ => exact hearlier (hmax ▸ hlt)
  | round _ hround _ =>
      rcases Nat.lt_trichotomy roundId last with hlt | rfl | hgt
      · exact hearlier hlt
      · obtain rfl := hstart.unique hs
        rw [hround] at htxn
        exact hrecorded.transaction txn htxn
      · obtain ⟨t, hnext, -⟩ := hs.goes_on hstart hgt
        rw [hround] at hnext
        rcases outcome with _ | _ <;> cases hnext

end

/-! ### A run that is left unsealed -/

/-- The increment kernel, whose proposal in round 1 raises. -/
def failingProposals : SearchKernel Unit Int Int :=
  { IntegerDomain.kernel [1] with
    propose := fun snapshot roundId _ =>
      if roundId = 1 then Prog.raise (.valueError "no proposal") else pure [snapshot + 1] }

def proposingJob (kernel : SearchKernel Unit Int Int) (maxRounds : Nat) (hrounds : 0 < maxRounds) :
    Job Unit (InMemoryCacheStore Int) Int Int Int where
  runtime := IntegerDomain.runtime (InMemoryCacheStore.ops none) .new fun _ => []
  kernel
  oracle := IntegerDomain.oracle (fun _ => 1) pure
  config := IntegerDomain.serialConfig 3 maxRounds (Nat.succ_pos 2) hrounds

end TxnOpt
