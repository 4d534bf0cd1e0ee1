import TxnOpt.Rcpsp.Proof.Repair
import TxnOpt.Rcpsp.Search
import TxnOpt.Runtime.Proof.Descent

/-!
# What an RCPSP search ends with

The kernel never moves to a longer schedule, and every schedule in the store is a shortest one for its candidate.
So a run, however it ends, ends with a feasible schedule that is no longer than the initial one and than any
feasible schedule of a candidate that it has stored.
-/

namespace TxnOpt.Rcpsp

/-! ### The decision -/

theorem makespan_le_of_decisionKey {first second : RCPSPSchedule} (h : decisionKey first ≤ decisionKey second) :
    first.makespan ≤ second.makespan := by
  unfold decisionKey at h
  obtain hlt | ⟨hsame, -⟩ := Prod.Lex.toLex_le_toLex.mp h
  · exact le_of_lt hlt
  · exact le_of_eq hsame

theorem argmin_getD {snapshot best : RCPSPSchedule} {evaluatedStates : List RCPSPSchedule}
    (h : (evaluatedStates.argmin decisionKey).getD snapshot = best) :
    (best = snapshot ∨ best ∈ evaluatedStates) ∧ ∀ state ∈ evaluatedStates, best.makespan ≤ state.makespan := by
  cases hbest : evaluatedStates.argmin decisionKey with
  | none =>
      rw [hbest] at h
      rw [List.argmin_eq_none.mp hbest]
      exact ⟨.inl h.symm, fun state hstate => by cases hstate⟩
  | some first =>
      rw [hbest] at h
      obtain rfl : first = best := h
      refine ⟨.inr (List.argmin_mem hbest), ?_⟩
      intro state hstate
      exact makespan_le_of_decisionKey (List.le_of_mem_argmin hstate hbest)

namespace RCPSPSearchKernel

theorem decideBest_spec {snapshot next : RCPSPSchedule} {candidates : List RCPSPState}
    {evaluatedStates : List RCPSPSchedule} (h : decideBest snapshot candidates evaluatedStates = .ok next) :
    (next = snapshot ∨ next ∈ evaluatedStates) ∧ next.makespan ≤ snapshot.makespan ∧
      ∀ state ∈ evaluatedStates, next.makespan ≤ state.makespan := by
  unfold decideBest at h
  split at h
  · cases h
  · dsimp only at h
    generalize hbest : (evaluatedStates.argmin decisionKey).getD snapshot = best at h
    obtain ⟨hsource, hleast⟩ := argmin_getD hbest
    by_cases hbetter : best.makespan < snapshot.makespan
    · rw [if_pos hbetter] at h
      cases h
      exact ⟨hsource, le_of_lt hbetter, hleast⟩
    · rw [if_neg hbetter] at h
      cases h
      exact ⟨.inl rfl, le_refl _, fun state hstate => (not_lt.mp hbetter).trans (hleast state hstate)⟩

theorem searchKernel_descends {W : Type} (kernel : RCPSPSearchKernel) :
    Descends (kernel.searchKernel (W := W)) RCPSPSchedule.makespan fun _ => True := by
  intro snapshot admitted resolved roundId next hcall
  obtain ⟨hsource, hsnapshot, hleast⟩ := decideBest_spec hcall.of_resume
  exact ⟨hsource.imp_right fun hmem => ⟨hmem, trivial⟩, hsnapshot, fun state hstate _ => hleast state hstate⟩

end RCPSPSearchKernel

/-! ### The evaluation -/

namespace RCPSPOracle

variable {W : Type} {oracle : RCPSPOracle} {sha : Sha256} {machine : Machine W}

/-- A shortest feasible schedule of the candidate. -/
structure Repaired (oracle : RCPSPOracle) (candidate : RCPSPState) (schedule : RCPSPSchedule) : Prop where
  state : schedule.state = candidate
  feasible : (validateSchedule oracle.inst schedule).feasible = true
  least : IsLeast (validMakespans oracle candidate) schedule.makespan

theorem solve_repaired {solver : CpSolver} {now : Int} {candidate : RCPSPState} {deadlineNs : Option Int}
    {schedule : RCPSPSchedule} (hsolver : CpSolver.Documented solver)
    (h : oracle.solve solver now candidate deadlineNs = .ok schedule) : Repaired oracle candidate schedule := by
  obtain ⟨answer⟩ := solver
  rw [RCPSPOracle.solve] at h
  split at h
  · cases h
  · rename_i hscreened
    have hfound := screenOne_iff.mp (Bool.eq_true_of_not_eq_false hscreened)
    dsimp only at h
    split at h
    · cases h
    · rcases hanswer : answer oracle.seed (deadlineNs.map (· - now)) (oracle.model candidate) with ⟨status, value⟩
      rw [hanswer] at h
      dsimp only at h
      by_cases hstatus : status = .optimal
      · subst hstatus
        rw [if_neg (not_not.mpr rfl)] at h
        have hoptimum := hsolver _ _ _ _ hanswer
        obtain ⟨built, hbuilt, hstate, hfeasible, hmakespan⟩ :=
          exists_schedule_of_solution hfound.arranged hoptimum.solution
        rw [hbuilt] at h
        have hvalid : oracle.validate built = .ok () := if_pos hfeasible
        change (oracle.validate built).bind (fun _ => .ok built) = .ok schedule at h
        rw [hvalid] at h
        cases h
        refine ⟨hstate, hfeasible, ?_⟩
        rw [hmakespan]
        exact isLeast_validMakespans hfound hoptimum.isLeast
      · rw [if_pos hstatus] at h
        split at h
        · cases h
        · cases h

theorem solveOn_repaired {candidate : RCPSPState} {deadlineNs : Option Int} {w : W} {schedule : RCPSPSchedule}
    (hsolver : ∀ w, CpSolver.Documented (machine.solver w).1)
    (h : (oracle.solveOn machine deadlineNs candidate w).1 = .ok schedule) : Repaired oracle candidate schedule := by
  unfold solveOn at h
  split at h
  · exact solve_repaired (hsolver _) h
  · exact solve_repaired (hsolver _) h

theorem evaluateNext_repaired {candidate : RCPSPState} {deadlineNs : Option Int} {w : W} {schedule : RCPSPSchedule}
    (hsolver : ∀ w, CpSolver.Documented (machine.solver w).1)
    (h : (oracle.evaluateNext machine deadlineNs candidate w).1 = .ok schedule) :
    Repaired oracle candidate schedule := by
  unfold evaluateNext at h
  split at h
  · exact solveOn_repaired hsolver h
  · dsimp only at h
    split at h
    · cases h
    · exact solveOn_repaired hsolver h

theorem searchOracle_evaluates (hsolver : ∀ w, CpSolver.Documented (machine.solver w).1) :
    Evaluates (oracle.searchOracle sha machine) (Repaired oracle) := by
  intro batch workBudget deadlineNs w states h
  change (oracle.evaluateBatch machine batch workBudget deadlineNs w).1 = .ok states at h
  unfold evaluateBatch at h
  split at h
  · cases h
  · refine Prog.collect_forall₂ ?_ h
    intro candidate w schedule hrun
    exact evaluateNext_repaired hsolver hrun

/-! ### Runs -/

variable {job : Job W (InMemoryCacheStore RCPSPSchedule) RCPSPState RCPSPSchedule ℕ} {kernel : RCPSPSearchKernel}
  {onCommit : Option (PyDict RCPSPSchedule → Prog W PyExc Unit)}

theorem feasible_of_validate {state : RCPSPSchedule}
    (h : Called ((oracle.searchOracle sha machine).validate state) (.ok ())) :
    (validateSchedule oracle.inst state).feasible = true := by
  have hvalid : oracle.validate state = .ok () := Called.of_resume h
  unfold validate at hvalid
  dsimp only at hvalid
  split at hvalid
  · assumption
  · cases hvalid

theorem objective_eq {state : RCPSPSchedule} {value : ℕ}
    (h : Called ((oracle.searchOracle sha machine).objective state) (.ok value)) : value = state.makespan := by
  have hvalue : oracle.objective state = .ok value := Called.of_resume h
  unfold objective at hvalue
  cases hvalid : oracle.validate state with
  | error error =>
      rw [hvalid] at hvalue
      cases hvalue
  | ok _ =>
      rw [hvalid] at hvalue
      cases hvalue
      rfl

theorem optimum_of_single {candidate : RCPSPState} {activityId : Int} (h : Screened oracle candidate)
    (horder : candidate.activityOrder = [activityId]) :
    (oracle.model candidate).Optimum (serialValues oracle candidate) := by
  refine ⟨solution_iff.mpr h.serial_timetable, ?_⟩
  intro other hother
  have htimetable := solution_iff.mp hother
  have hmem : activityId ∈ candidate.activityOrder := by
    rw [horder]
    exact List.mem_singleton_self _
  have hstart := (htimetable.bounds activityId hmem).1.1
  have hfinish : other (.finish activityId) ≤ other .makespan := htimetable.makespan.2 ⟨activityId, hmem, rfl⟩
  have htimed := htimetable.timed activityId hmem
  have hhorizon : oracle.horizon candidate = oracle.duration candidate activityId := by
    unfold horizon
    rw [horder]
    exact Nat.add_zero _
  change (oracle.horizon candidate : Int) ≤ other .makespan
  rw [hhorizon]
  omega

/-- A solver that knows the optimum of one candidate. -/
def soloSolver (oracle : RCPSPOracle) (candidate : RCPSPState) : CpSolver where
  solve := fun _ _ model =>
    if model = oracle.model candidate then (.optimal, serialValues oracle candidate) else (.unknown, fun _ => 0)

theorem soloSolver_documented {candidate : RCPSPState} {activityId : Int} (h : Screened oracle candidate)
    (horder : candidate.activityOrder = [activityId]) : CpSolver.Documented (soloSolver oracle candidate) := by
  intro seed limit model value hanswer
  by_cases hmodel : model = oracle.model candidate
  · simp only [soloSolver, if_pos hmodel] at hanswer
    rw [← (Prod.mk.inj hanswer).2, hmodel]
    exact optimum_of_single h horder
  · simp only [soloSolver, if_neg hmodel] at hanswer
    cases (Prod.mk.inj hanswer).1

theorem choice_width : ∀ mode ∈ [ActivityMode.mk 2 [1], ⟨1, [1]⟩], ∀ other ∈ [ActivityMode.mk 2 [1], ⟨1, [1]⟩],
    mode.renewableDemands.length = other.renewableDemands.length := by decide

def choiceActivity : Activity :=
  { Activity.free 0 ⟨2, [1]⟩ with
    modes := [⟨2, [1]⟩, ⟨1, [1]⟩]
    modesNonempty := List.cons_ne_nil _ _
    sharedWidth := choice_width }

theorem choice_known : ∀ activity ∈ [choiceActivity], ∀ predecessor ∈ activity.predecessors,
    predecessor ∈ [choiceActivity].map Activity.activityId := by decide

theorem choice_demands : ∀ activity ∈ [choiceActivity], ∀ mode ∈ activity.modes,
    mode.renewableDemands.length = 1 := by decide

theorem choice_name : "choice" ≠ "" := by decide

def choiceOracle : RCPSPOracle where
  inst := .oneResource "choice" [choiceActivity] choice_name (List.cons_ne_nil _ _) (List.nodup_singleton _)
    choice_known choice_demands
  seed := 0

theorem choiceOrder_nonempty : [(0 : Int)] ≠ [] := List.cons_ne_nil _ _

theorem choiceOrder_nodup : [(0 : Int)].Nodup := List.nodup_singleton _

/-- The activity in the mode with the index. -/
def choiceState (modeIndex : ℕ) : RCPSPState where
  activityOrder := [0]
  modeVector := [modeIndex]
  orderNonempty := choiceOrder_nonempty
  orderNodup := choiceOrder_nodup
  orderNonneg := fun _ h => le_of_eq (List.mem_singleton.mp h).symm
  aligned := rfl

def choiceSchedule : RCPSPSchedule where
  state := choiceState 0
  activities := [⟨0, 0, 0, 2⟩]
  makespan := 2
  activitiesNodup := List.nodup_singleton _

theorem choice_size : 0 < 3 := Nat.succ_pos 2

theorem choice_candidates : 0 < 64 := Nat.succ_pos 63

def choiceKernel : RCPSPSearchKernel := ⟨choiceOracle.inst, 3, 64, choice_size, choice_candidates⟩

def choiceDigest : String := String.ofList (List.replicate 64 '0')

theorem choiceDigest_isSha256 : IsSha256 choiceDigest := by decide +kernel

def choiceSha : Sha256 := ⟨fun _ => choiceDigest, fun _ => choiceDigest_isSha256⟩

def choiceMachine : Machine ℕ := ⟨fun w => (0, w), fun w => (soloSolver choiceOracle (choiceState 1), w + 1)⟩

theorem choice_work : 0 < 5 := Nat.succ_pos 4

def choiceJob : Job ℕ (InMemoryCacheStore RCPSPSchedule) RCPSPState RCPSPSchedule ℕ where
  runtime :=
    { clockNs := fun w => (0, w)
      costClockNs := fun w => (0, w)
      cacheOps := InMemoryCacheStore.ops none
      cacheFactory := pure .new
      semanticEventSink := true
      physicalEventSink := false
      schedule := fun _ => []
      sha256 := fun events => toString events.length }
  kernel := choiceKernel.searchKernel
  oracle := choiceOracle.searchOracle choiceSha choiceMachine
  config := IntegerDomain.serialConfig 5 1 choice_work Nat.one_pos

end RCPSPOracle

end TxnOpt.Rcpsp
