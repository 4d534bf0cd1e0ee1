import TxnOpt.Runtime.Proof.Trail

/-!
# Preparing a transaction

From `cache.begin()` to the reservation: either the transaction is closed before any work was started,
or `Reserved` holds of what the transaction body starts from.
-/

namespace TxnOpt

/-- The terminal phases, with their extra fields, of a transaction that published nothing. -/
def Closing (phase : TxnPhase) (extra : PhaseExtra) : Prop :=
  (phase = .aborted ∧ extra = .plain) ∨
    (phase = .interrupted ∧ (extra = .plain ∨ ∃ requested started remaining,
      extra = .denied requested started remaining))

theorem Closing.ne_unknown {phase : TxnPhase} {extra : PhaseExtra} (h : Closing phase extra) :
    extra ≠ .unknownOutcome := by
  rcases h with ⟨-, rfl⟩ | ⟨-, rfl | ⟨requested, started, remaining, rfl⟩⟩ <;> rintro ⟨⟩

section

variable {W C Cand State Obj : Type}

/-- `cache.begin()` gave the transaction `begun.2`. -/
def CacheBegun (ops : CacheOps C W State) (cache : C) (begun : C × CacheTxn State) : Prop :=
  ∃ w w', ops.begin (cache, w) = (.ok begun.2, (begun.1, w'))

/-- The ledger once the misses of a round are reserved. -/
def BudgetLedger.reserving (ledger : BudgetLedger) (work : Nat) : BudgetLedger :=
  { ledger with reserved := ledger.reserved + work }

/-- What a granted preparation has found, from the core `c` to the store `store`. -/
structure Reserved (job : Job W C Cand State Obj) (admission : Admission Cand)
    (c : Core C State Obj) (prepared : Prepared Cand State) (store : C × CacheTxn State) : Prop where
  lookedUp : ∃ begun lookup, CacheBegun job.runtime.cacheOps c.cache begun ∧
    CacheCalled (job.runtime.cacheOps.lookup admission.admittedKeys) begun (.ok lookup) store ∧
    lookup.generation = store.2.expectedGeneration ∧ prepared.values = lookup.values
  admitted : prepared.admitted = admission.admitted
  missing : missesOf admission.admittedKeys admission.admitted prepared.values =
    .ok prepared.missing
  missingWork : Called (Prog.collect (fun item : Nat × String × Cand =>
    validatedWorkUnits job.oracle item.2.2) prepared.missing) (.ok prepared.missingWork)
  granted : c.budget.grants prepared.missingWork.sum = true
  remainingBefore : prepared.remainingBefore = c.budget.remaining
  startedBefore : prepared.startedBefore = c.budget.started

/-- How a preparation ends. -/
inductive PrepareEnd (job : Job W C Cand State Obj) (admission : Admission Cand)
    (c : Core C State Obj) (txn : CandidateTxn) (t : Session W C Cand State Obj) :
    Except PyExc (Preparation Cand State Obj) → Prop
  | closed {phase extra reason store outcome} :
      Closing phase extra →
      Ended job c txn .empty store c.budget phase extra reason t.core →
      Finished job t.core reason outcome →
      PrepareEnd job admission c txn t (outcome.map .exit)
  | ready {prepared store} :
      Reserved job admission c prepared store →
      At job c txn .empty store (c.budget.reserving prepared.missingWork.sum) t →
      PrepareEnd job admission c txn t (.ok (.ready prepared))

variable {job : Job W C Cand State Obj} {admission : Admission Cand} {c : Core C State Obj}
  {txn : CandidateTxn} {trail : Trail C State} {store : C × CacheTxn State} {budget : BudgetLedger}
  {s : Session W C Cand State Obj}

theorem PrepareEnd.failed {t : Session W C Cand State Obj} {phase : TxnPhase} {extra : PhaseExtra}
    {reason : String} {error : PyExc} (hclosing : Closing phase extra)
    (h : Ended job c txn .empty store c.budget phase extra reason t.core) :
    PrepareEnd job admission c txn t (.error error) := by
  have hfinished : Finished job t.core reason (.error error) := by
    rintro _ ⟨⟩
  exact .closed hclosing h hfinished

theorem At.beginCache (h : At job c txn trail store budget s) :
    Prog.wp (beginCache job)
      (fun r t => ∃ store', At job c txn trail store' budget t ∧
        (r = .ok () → CacheBegun job.runtime.cacheOps store.1 store')) s := by
  have hcache : s.cache = store.1 := congrArg Prod.fst h.store_eq
  rcases hbegin : job.runtime.cacheOps.begin (s.cache, s.world) with ⟨error | txn', cache', world'⟩
  · refine Prog.wp_of_eq (t := { s with cache := cache', world := world' }) (r := .error error) ?_
      ⟨(cache', s.cacheTxn), h.quiet rfl ?_, by rintro ⟨⟩⟩
    · simp only [TxnOpt.beginCache, hbegin]
    · rw [← h.store_eq]
      exact .begun hbegin
  · refine Prog.wp_of_eq (t := { s with cache := cache', world := world', cacheTxn := txn' })
      (r := .ok ()) ?_
      ⟨(cache', txn'), h.quiet rfl ?_, fun _ => ?_⟩
    · simp only [TxnOpt.beginCache, hbegin]
    · rw [← h.store_eq]
      exact .begun hbegin
    · rw [← hcache]
      exact ⟨s.world, world', hbegin⟩

theorem interruptPreparation_spec (admission : Admission Cand)
    (h : At job c txn .empty store c.budget s) (reason : String)
    {extra : PhaseExtra} (hreason : reason ≠ "cache_outcome_unknown")
    (hclosing : Closing .interrupted extra) :
    Prog.wp (interruptPreparation job reason extra)
      (fun r t => PrepareEnd job admission c txn t (r.map .exit)) s := by
  unfold interruptPreparation
  refine Prog.wp_attempt_bind h.rollbackOrRaise ?_
  rintro (error | _) t ⟨⟨store', ht⟩, -⟩
  · refine Prog.wp_mono (ht.abortAndRaise error (TxnPhase.aborted_mem Trail.phase_empty_open)) ?_
    rintro r u ⟨hended, raised, rfl⟩
    exact .failed (.inl ⟨rfl, rfl⟩) hended
  · refine Prog.wp_mono (ht.finish extra reason (reported_of_ne hreason hclosing.ne_unknown)
      (TxnPhase.interrupted_mem Trail.phase_empty_open)) ?_
    rintro r u ⟨hended, hfinished⟩
    exact .closed hclosing hended hfinished

theorem reserveMisses_spec {lookup : CacheLookup State} {budget : BudgetLedger}
    (h : At job c txn trail store budget s) :
    Prog.wp (reserveMisses job admission lookup)
      (fun r t => match r with
        | .error _ => At job c txn trail store budget t
        | .ok (prepared, reservation) =>
            At job c txn trail store (budget.reserve prepared.missingWork.sum).2 t ∧
            reservation = (budget.reserve prepared.missingWork.sum).1 ∧
            prepared.admitted = admission.admitted ∧ prepared.values = lookup.values ∧
            missesOf admission.admittedKeys admission.admitted lookup.values =
              .ok prepared.missing ∧
            Called (Prog.collect (fun item : Nat × String × Cand =>
              validatedWorkUnits job.oracle item.2.2) prepared.missing)
              (.ok prepared.missingWork) ∧
            prepared.remainingBefore = budget.remaining ∧
            prepared.startedBefore = budget.started) s := by
  unfold reserveMisses
  rcases hmisses : missesOf admission.admittedKeys admission.admitted lookup.values with
    error | missing
  · exact h
  rw [Prog.resume_ok, Prog.wp_pure_bind]
  refine Prog.wp_bind_of (onWorld_spec s _) ?_ (fun _ _ ht => h.of_core ht.1)
  rintro missingWork t ⟨ht, hcalled⟩
  have hbudget : t.budget = budget := (congrArg Core.budget ht).trans h.budget_eq
  rw [Prog.wp_read_bind, Prog.wp_modify_bind, Prog.wp_pure, hbudget]
  refine ⟨(h.of_core ht).withBudget rfl, rfl, rfl, rfl, rfl, hcalled, rfl, rfl⟩

theorem prepareRound_spec (h : At job c txn .empty c.store c.budget s)
    (hreserved : c.budget.reserved = 0) :
    Prog.wp (prepareRound job admission)
      (fun r t => PrepareEnd job admission c txn t r) s := by
  have hrelease : c.budget.releaseReserved = c.budget := by
    rw [BudgetLedger.releaseReserved, ← hreserved]
  have haborted : ∀ {store} {t : Session W C Cand State Obj} (error : PyExc),
      At job c txn .empty store c.budget t →
      Prog.wp (abortAndRaise job error : RunM W C Cand State Obj (Preparation Cand State Obj))
        (fun r u => PrepareEnd job admission c txn u r) t := by
    intro store t error ht
    refine Prog.wp_mono (ht.abortAndRaise error (TxnPhase.aborted_mem Trail.phase_empty_open)) ?_
    rintro r u ⟨hended, raised, rfl⟩
    exact .failed (.inl ⟨rfl, rfl⟩) hended
  unfold prepareRound
  refine Prog.wp_attempt_bind h.beginCache ?_
  rintro (error | _) t ⟨begun, ht, hbegun⟩
  · exact haborted error ht
  refine Prog.wp_attempt_bind (onCache_spec t _) ?_
  rintro (error | lookup) u ⟨store, hu, hlookup⟩
  all_goals
    rw [ht.store_eq] at hlookup
    have hu' := ht.quiet hu (.looked hlookup)
  · refine Prog.wp_bind_of hu'.rollbackPreservingError ?_ (by rintro e v ⟨-, _, ⟨⟩⟩)
    rintro cleanup v ⟨⟨store', hv⟩, -⟩
    exact haborted error hv
  rw [Prog.wp_read_bind]
  refine Prog.wp_ite (fun _ => ?_) (fun hfresh => ?_)
  · refine Prog.wp_bind_of (interruptPreparation_spec admission hu' _ (by decide)
      (.inr ⟨rfl, .inl rfl⟩)) ?_ ?_
    · exact fun _ _ hend => hend
    · exact fun _ _ hend => hend
  have hgeneration : lookup.generation = store.2.expectedGeneration := by
    rw [not_ne_iff] at hfresh
    rw [hfresh, ← hu'.store_eq]
    rfl
  refine Prog.wp_attempt_bind (reserveMisses_spec hu') ?_
  rintro (error | ⟨prepared, reservation⟩) v hv
  · refine Prog.wp_bind_of hv.rollbackPreservingError ?_ (by rintro e w ⟨-, _, ⟨⟩⟩)
    rintro cleanup w ⟨⟨store', hw⟩, -⟩
    refine Prog.wp_bind_of hw.releaseReserved ?_ (by rintro e x ⟨⟨⟩, -⟩)
    rintro - x ⟨-, hx⟩
    exact haborted error (hrelease ▸ hx)
  · obtain ⟨hv, rfl, hadmitted, hvalues, hmissing, hwork, hremaining, hstarted⟩ := hv
    refine Prog.wp_ite (fun hdenied => ?_) (fun hgranted => ?_)
    · rw [BudgetLedger.reserve_granted] at hdenied
      rw [BudgetLedger.reserve_of_not_grants _ hdenied] at hv
      refine Prog.wp_bind_of (interruptPreparation_spec admission hv _ (by decide)
        (.inr ⟨rfl, .inr ⟨_, _, _, rfl⟩⟩)) ?_ ?_
      · exact fun _ _ hend => hend
      · exact fun _ _ hend => hend
    · rw [BudgetLedger.reserve_granted, Bool.not_eq_false] at hgranted
      rw [BudgetLedger.reserve_of_grants _ hgranted] at hv
      refine .ready ⟨⟨begun, lookup, hbegun rfl, hlookup, hgeneration, hvalues⟩, hadmitted, ?_,
        hwork, hgranted, hremaining, hstarted⟩ hv
      rw [hvalues, hmissing]

end

end TxnOpt
