import TxnOpt.Runtime.IntegerDomain
import TxnOpt.Runtime.Proof.Run

/-!
# Bounded waste

Every waste audit of a run is within its T4 bounds. The audit computes the bounds' cost in floating
point, which converts them from integers, so it raises exactly when one of them is too large for that.
-/

namespace TxnOpt

/-- `W * Qmax`. -/
def AuditCall.windowCapacity (call : AuditCall) : Nat :=
  call.workUnits.length * call.workUnits.foldl max 0

/-- T4 for one audit: the observed waste is within its bounds, and the audit raises nothing. -/
structure AuditCall.Holds (call : AuditCall) : Prop where
  discarded : call.observedDiscardedWorkUnits ≤
    min call.remainingBudgetBefore.toNat call.windowCapacity
  postBoundary : call.observedPostBoundaryWorkUnits ≤
    min call.postBoundaryCapacityUnits call.windowCapacity
  passes : call.error = none

/-- Both bounds of the audit can be converted to `float`. -/
def AuditCall.Convertible (call : AuditCall) : Prop :=
  min call.remainingBudgetBefore.toNat call.windowCapacity < floatOverflow ∧
    min call.postBoundaryCapacityUnits call.windowCapacity < floatOverflow

/-- An audit of waste that is within its bounds raises exactly when a bound is too large to convert. -/
theorem auditWaste_isOk_iff {remaining discarded post : Int} {window requests capacity : Nat}
    (hremaining : 0 ≤ remaining) (hdiscarded : 0 ≤ discarded) (hpost : 0 ≤ post)
    (hdiscardedBound : discarded ≤ min remaining.toNat (window * requests))
    (hpostBound : post ≤ min capacity (window * requests)) :
    (auditWaste remaining window requests capacity discarded post).isOk = true ↔
      min remaining.toNat (window * requests) < floatOverflow ∧
        min capacity (window * requests) < floatOverflow := by
  have hbound : boundedWaste remaining window requests capacity =
      (unitCost (min remaining.toNat (window * requests)) >>= fun _ =>
        unitCost (min capacity (window * requests)) >>= fun _ =>
          .ok ⟨min remaining.toNat (window * requests), min capacity (window * requests)⟩) := by
    unfold boundedWaste
    rw [if_neg (by omega)]
    rfl
  unfold auditWaste
  rw [if_neg (by omega), hbound]
  by_cases hfirst : min remaining.toNat (window * requests) < floatOverflow
  · by_cases hsecond : min capacity (window * requests) < floatOverflow
    · simp only [unitCost, if_pos hfirst, if_pos hsecond]
      dsimp only [bind, Except.bind, pure, Except.pure]
      rw [if_neg (not_lt.mpr hdiscardedBound), if_neg (not_lt.mpr hpostBound)]
      exact ⟨fun _ => ⟨hfirst, hsecond⟩, fun _ => rfl⟩
    · simp only [unitCost, if_pos hfirst, if_neg hsecond]
      exact ⟨by rintro ⟨⟩, fun h => absurd h.2 hsecond⟩
  · simp only [unitCost, if_neg hfirst]
    exact ⟨by rintro ⟨⟩, fun h => absurd h.1 hfirst⟩

theorem auditRefusal_eq_none_iff {remaining discarded post : Int} {workUnits : List Nat}
    {capacity : Nat} (h : workUnits ≠ []) :
    auditRefusal (some remaining) workUnits discarded post capacity = none ↔
      (auditWaste remaining workUnits.length (workUnits.foldl max 0) capacity discarded
        post).isOk = true := by
  obtain ⟨first, rest, rfl⟩ := List.exists_cons_of_ne_nil h
  unfold auditRefusal
  dsimp only
  split
  case h_1 audit haudit =>
    rw [haudit]
    exact ⟨fun _ => rfl, fun _ => rfl⟩
  case h_2 error haudit =>
    rw [haudit]
    constructor <;> rintro ⟨⟩

theorem sum_le_windowCapacity (workUnits : List Nat) :
    workUnits.sum ≤ workUnits.length * workUnits.foldl max 0 := by
  have h := List.sum_le_card_nsmul workUnits (workUnits.foldl max 0) fun work hwork => le_foldl_max workUnits (.inr hwork)
  exact h

section

variable {W C Cand State Obj : Type} {job : Job W C Cand State Obj}

/-- The audits of one transaction: what it has started fits its reservation, and what is still running
fits what it has started. -/
theorem Worked.audit_holds_iff {admission : Admission Cand} {opened : Core C State Obj}
    {prepared : Prepared Cand State} {looked : C × CacheTxn State} {work : Nat}
    {trail : Trail C State} (hreserved : Reserved job admission opened prepared looked)
    (hworked : Worked opened prepared work trail) {call : AuditCall} (hcall : call ∈ trail.audits) :
    call.Holds ↔ call.Convertible := by
  obtain ⟨post, capacity, hcapacity, hpost, hlogged⟩ := hworked.audits call hcall
  have hgranted := hreserved.granted
  have herror := error_of_mem_loggedAudits hlogged
  unfold loggedAudits at hlogged
  split at hlogged
  case h_2 => cases hlogged
  case h_1 remaining first rest hremaining hwork =>
    rw [BudgetLedger.grants, hremaining, Option.all_some, decide_eq_true_eq] at hgranted
    rw [List.mem_singleton] at hlogged
    have hcapacity' := sum_le_windowCapacity prepared.missingWork
    have hle := hworked.work_le
    obtain ⟨hremaining', hwork', hcap, hdiscarded, hpost'⟩ :
        call.remainingBudgetBefore = remaining ∧ call.workUnits = prepared.missingWork ∧
        call.postBoundaryCapacityUnits = capacity ∧ call.observedDiscardedWorkUnits = work ∧
        call.observedPostBoundaryWorkUnits = post := by
      rw [hlogged]
      exact ⟨rfl, rfl, rfl, rfl, rfl⟩
    have hbounds : call.observedDiscardedWorkUnits ≤
          min call.remainingBudgetBefore.toNat call.windowCapacity ∧
        call.observedPostBoundaryWorkUnits ≤
          min call.postBoundaryCapacityUnits call.windowCapacity := by
      rw [AuditCall.windowCapacity, hdiscarded, hremaining', hwork', hcap, hpost']
      omega
    have hpasses : call.error = none ↔ call.Convertible := by
      rw [hdiscarded, hremaining', AuditCall.windowCapacity, hwork', hcap, hpost'] at hbounds
      have hne : prepared.missingWork ≠ [] := by
        rw [hwork]
        exact List.cons_ne_nil _ _
      rw [herror, hremaining, auditRefusal_eq_none_iff hne, AuditCall.Convertible,
        AuditCall.windowCapacity, hremaining', hwork', hcap]
      exact auditWaste_isOk_iff (by omega) (Int.natCast_nonneg _) (Int.natCast_nonneg _)
        hbounds.1 hbounds.2
    exact ⟨fun h => hpasses.mp h.passes, fun h => ⟨hbounds.1, hbounds.2, hpasses.mpr h⟩⟩

variable [DecidableEq State]

variable {initialState : State} {world : W} {outcome : Except PyExc (RunResult State Obj)}
  {final : Session W C Cand State Obj}

/-- The logged audits of a run are audits of its transactions. -/
theorem logged_audit_holds_iff (hrun : run job initialState world = .ended outcome final)
    {call : AuditCall} (hcall : .audit call ∈ final.log) : call.Holds ↔ call.Convertible := by
  refine log_invariant (P := fun observation => ∀ call, observation = .audit call →
    (call.Holds ↔ call.Convertible)) hrun ?_ _ hcall call rfl
  rintro admission opened prepared looked work trail - hreserved hworked observation hmem call rfl
  have hcall : call ∈ trail.audits := by
    simpa [Trail.log] using hmem
  exact hworked.audit_holds_iff hreserved hcall

/-- Over every run, T4 holds of an audit exactly when its bounds can be converted to `float`. -/
theorem run_waste_bounded_iff (hrun : run job initialState world = .ended outcome final) :
    ∀ call, .audit call ∈ final.log → (call.Holds ↔ call.Convertible) :=
  fun _ hcall => logged_audit_holds_iff hrun hcall

end

/-! ### A run whose audit overflows -/

/-- A run of the increment kernel whose only candidate costs `work`, all of its budget, and whose
worker crashes. -/
def crashingJob (work : Nat) (hwork : 0 < work) :
    Job Unit (InMemoryCacheStore Int) Int Int Int where
  runtime := IntegerDomain.runtime (InMemoryCacheStore.ops none) .new fun _ => []
  kernel := IntegerDomain.kernel [1]
  oracle := IntegerDomain.oracle (fun _ => work) fun _ => Prog.raise IntegerDomain.workerCrash
  config := IntegerDomain.serialConfig work 1 hwork Nat.one_pos

/-- Whether an audit with the given error status is in the log. -/
def hasAudit (raised : Bool) (log : List (Observation (InMemoryCacheStore Int) Int)) : Bool :=
  log.any fun
    | .audit call => call.error.isSome == raised
    | _ => false

theorem hasAudit_of_mem {log : List (Observation (InMemoryCacheStore Int) Int)} {call : AuditCall}
    (h : .audit call ∈ log) : hasAudit call.error.isSome log = true :=
  List.any_eq_true.mpr ⟨.audit call, h, beq_self_eq_true _⟩

theorem exists_of_hasAudit {raised : Bool} {log : List (Observation (InMemoryCacheStore Int) Int)}
    (h : hasAudit raised log = true) :
    ∃ call, .audit call ∈ log ∧ call.error.isSome = raised := by
  obtain ⟨observation, hmem, hraised⟩ := List.any_eq_true.mp h
  cases observation with
  | audit call => exact ⟨call, hmem, beq_iff_eq.mp hraised⟩
  | _ => cases hraised

/-- At a work count of `2 ^ 1024` the audit of a crashed worker raises `OverflowError`. -/
theorem run_waste_audit_overflows :
    ¬∀ outcome final, run (crashingJob (2 ^ 1024) (Nat.two_pow_pos 1024)) 0 () =
        .ended outcome final →
      ∀ call, .audit call ∈ final.log → call.Holds := by
  have hraises : (run (crashingJob (2 ^ 1024) (Nat.two_pow_pos 1024)) 0 ()).final.any
      (fun final => hasAudit true final.log) = true := by decide +kernel
  obtain ⟨outcome, final, hrun, haudit⟩ := RunEnd.exists_final hraises
  obtain ⟨call, hcall, herror⟩ := exists_of_hasAudit haudit
  intro h
  rw [(h outcome final hrun call hcall).passes] at herror
  cases herror

/-- A crashed worker that cost one unit: its audit is logged, and T4 holds of it. -/
theorem run_waste_bounded_crash : ∃ outcome final call,
    run (crashingJob 1 Nat.one_pos) 0 () = .ended outcome final ∧ .audit call ∈ final.log ∧
      (call.Holds ↔ call.Convertible) := by
  have haudited : (run (crashingJob 1 Nat.one_pos) 0 ()).final.any
      (fun final => hasAudit false final.log) = true := by decide +kernel
  obtain ⟨outcome, final, hrun, haudit⟩ := RunEnd.exists_final haudited
  obtain ⟨call, hcall, -⟩ := exists_of_hasAudit haudit
  exact ⟨outcome, final, call, hrun, hcall, run_waste_bounded_iff hrun call hcall⟩

end TxnOpt
