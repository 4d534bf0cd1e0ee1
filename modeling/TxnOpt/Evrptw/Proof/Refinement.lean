import TxnOpt.Evrptw.Proof.Agreement
import TxnOpt.Evrptw.Proof.Native
import TxnOpt.Evrptw.Proof.Output
import TxnOpt.Evrptw.Proof.Termination

/-!
# The native batch refines the Python search

A turn of a route is one or more passes of its Python search. So the rows of a completed route are what the
Python queue loop ends with, and the native loop ends when all the Python loops do.
-/

namespace TxnOpt.Evrptw.Native

section Routes

variable {K : Type} [Field K] [LinearOrder K] {inst : Instance K} {distance : Node K → Node K → K}
  {epsilon : K}

theorem serve_all_completed {tables : Tables K} :
    ∀ (pending : List ExactRequest) (state : ExactSearchState K),
      (pending.foldl (serve tables epsilon) state).completed = state.completed := by
  intro pending
  induction pending with
  | nil => exact fun _ => rfl
  | cons request rest ih => exact fun state => (ih _).trans (serve_completed state request)

/-- The Python search of a route after its native turns: it has taken at least as many passes, and a
completed route has emptied its queue. -/
structure Reached (inst : Instance K) (distance : Node K → Node K → K) (epsilon : K) (order : List ℕ)
    (rounds count : ℕ) (state : ExactSearchState K) (search : SearchState K) : Prop where
  passes : (inst.withDistance distance epsilon).Passes (order.map inst.node) count
    (inst.withDistance distance epsilon).initialState search
  stands : Stands inst state search
  order_eq : state.order = order
  ended : state.completed = true → search.queue = []
  paced : state.completed = false → rounds ≤ count

/-- The turns of a route, one after another, are passes of its Python search. -/
theorem Reached.turn {order : List ℕ} (hcustomers : CustomerOrder inst order) {rounds count : ℕ}
    {state : ExactSearchState K} {search : SearchState K}
    (h : Reached inst distance epsilon order rounds count state search) :
    ∃ later next, Reached inst distance epsilon order (rounds + 1) later
      (turn (inst.tables distance) epsilon state) next := by
  by_cases hcompleted : state.completed = true
  · refine ⟨count, search, ?_⟩
    rw [turn_completed hcompleted]
    refine ⟨h.passes, h.stands, h.order_eq, h.ended, ?_⟩
    intro hopen
    rw [hcompleted] at hopen
    exact absurd hopen (by decide)
  · have hopen : state.completed = false := by simpa using hcompleted
    have hpaced := h.paced hopen
    obtain ⟨more, next, hmore, hcases⟩ :=
      h.stands.popped (inst.withDistance distance epsilon) (order.map inst.node) state.queue rfl
    rcases hcases with ⟨hpop, hnext⟩ | ⟨entry, rest, hpop, hlive, hnext⟩
    · refine ⟨count + more, next, h.passes.append hmore, ?_, ?_, ?_, ?_⟩
      · rw [turn_none hopen hpop]
        exact hnext.counted rfl rfl List.suffix_rfl rfl rfl rfl hnext.queue rfl rfl hnext.generated
          hnext.expanded hnext.pruned
      · rw [turn_none hopen hpop]
        exact h.order_eq
      · exact fun _ => hnext.queue
      · intro hcontra
        rw [turn_none hopen hpop] at hcontra
        exact absurd hcontra (by simp)
    · have hpasses := h.passes.append hmore
      by_cases hbest : state.best.any
          (fun best => (state.label entry.labelIndex).distance ≥ best.distance - epsilon) = true
      · obtain ⟨after, hstep, hafter⟩ := hnext.pruned_pass distance hlive
          (order.map inst.node) hbest
        refine ⟨count + more + 1, after, hpasses.pass hstep, ?_, ?_, ?_, ?_⟩
        · rw [turn_pruned hopen hpop hbest]
          exact hafter
        · rw [turn_pruned hopen hpop hbest]
          exact h.order_eq
        · intro hcontra
          rw [turn_pruned hopen hpop hbest] at hcontra
          exact absurd (hopen.symm.trans hcontra) (by decide)
        · intro _
          omega
      · obtain ⟨label, start, hstep, hserving⟩ :=
          hnext.expanded_pass distance hlive hcustomers h.order_eq 0 hbest
        have hserved := hserving.all distance epsilon
        refine ⟨count + more + 1, _, hpasses.pass hstep, ?_, ?_, ?_, ?_⟩
        · rw [turn_expanded hopen hpop hbest]
          exact hserved.toStands
        · rw [turn_expanded hopen hpop hbest]
          exact hserved.order_eq
        · intro hcontra
          rw [turn_expanded hopen hpop hbest, serve_all_completed] at hcontra
          exact absurd (hopen.symm.trans hcontra) (by decide)
        · intro _
          omega

variable (distance epsilon) in
theorem after_reached {order : List ℕ} (hcustomers : CustomerOrder inst order) (rounds : ℕ) :
    ∃ count search, Reached inst distance epsilon order rounds count
      (after (inst.tables distance) epsilon order rounds) search := by
  induction rounds with
  | zero =>
      refine ⟨0, _, .refl _, stands_start order, rfl, ?_, fun _ => le_refl _⟩
      intro h
      exact absurd h (by simp [after, startState])
  | succ rounds ih =>
      obtain ⟨count, search, h⟩ := ih
      rw [after_succ]
      exact h.turn hcustomers

/-- A completed route has ended its Python search. -/
theorem completed_queueLoop {order : List ℕ} (hcustomers : CustomerOrder inst order) {rounds : ℕ}
    (h : (after (inst.tables distance) epsilon order rounds).completed = true) :
    ∃ pops final, (inst.withDistance distance epsilon).queueLoop (order.map inst.node) pops
        (inst.withDistance distance epsilon).initialState = some final ∧
      Stands inst (after (inst.tables distance) epsilon order rounds) final := by
  obtain ⟨count, search, hreached⟩ := after_reached distance epsilon
    hcustomers rounds
  exact ⟨count + 1, search, hreached.passes.loop (hreached.ended h), hreached.stands⟩

/-- A route completes when its Python search ends. -/
theorem queueLoop_completed {order : List ℕ} (hcustomers : CustomerOrder inst order) {pops : ℕ}
    {final : SearchState K}
    (h : (inst.withDistance distance epsilon).queueLoop (order.map inst.node) pops
      (inst.withDistance distance epsilon).initialState = some final) :
    (after (inst.tables distance) epsilon order pops).completed = true := by
  obtain ⟨count, search, hreached⟩ := after_reached distance epsilon
    hcustomers pops
  by_contra hopen
  have hpaced := hreached.paced (by simpa using hopen)
  have hlt := (hreached.passes.remaining h).1
  omega

end Routes

section Runs

variable {K : Type} [Field K] [LinearOrder K] (inst : Instance K) (distance : Node K → Node K → K)
  (epsilon : K)

/-- The customers of a route. -/
def routeNodes (inst : Instance K) (orderOffsets orderIndices : List ℕ) (route : ℕ) : List (Node K) :=
  (routeOrder orderOffsets orderIndices route).map inst.node

/-- The rows of a route say what the Python queue loop ended with. -/
def Reports (inst : Instance K) (output : ExactBatchOutput K) (route : ℕ) (final : SearchState K) : Prop :=
  output.labelCounters[route]? = some ⟨final.generated, final.expanded, final.pruned⟩ ∧
    match final.best with
    | none =>
        output.statuses[route]? = some infeasibleStatus ∧
          output.reasons[route]? = some noFeasiblePatternReason ∧
          output.metrics[route]? = some ⟨⊤, 0, 0, 0⟩ ∧ output.path route = []
    | some best =>
        output.statuses[route]? = some feasibleStatus ∧ output.reasons[route]? = some noFailureReason ∧
          output.metrics[route]? =
            some ⟨best.distance, best.totalEnergy, best.chargedEnergy, best.chargingTime⟩ ∧
          (output.path route).map inst.node = best.path

variable {inst}

theorem ExactBatchOutput.Row.reports {output : ExactBatchOutput K} {route : ℕ}
    {state : ExactSearchState K} {final : SearchState K} (h : output.Row route state)
    (hcompleted : state.completed = true) (hstands : Stands inst state final) :
    Reports inst output route final := by
  obtain ⟨hstatus, hreason, hmetrics, hcounters, hpath⟩ := h
  rw [Reports, hstatus, hreason, hmetrics, hcounters, hpath, hstands.best]
  refine ⟨?_, ?_⟩
  · rw [countersOf, hstands.generated, hstands.expanded, hstands.pruned]
  · cases hbest : state.best with
    | none =>
        simp [statusOf, reasonOf, metricsOf, pathOf, hcompleted, hbest]
    | some best =>
        simp [statusOf, reasonOf, metricsOf, pathOf, hcompleted, hbest, view]

variable (inst) {expired : ℕ → Bool} {batchSize routeCount : ℕ} {orderOffsets orderIndices : List ℕ}

/-- Every route of a batch that is not interrupted has the result of the Python queue loop alone on it, and
without a deadline the batch ends when all the Python loops do. -/
theorem runExactChargingBatch_refines (hsize : 0 < batchSize)
    (hclock : ∀ first second, first ≤ second → expired first = true → expired second = true)
    (hcustomers : ∀ route < routeCount, CustomerOrder inst (routeOrder orderOffsets orderIndices route)) :
    (∀ fuel output,
        runExactChargingBatch (inst.tables distance) epsilon expired batchSize orderOffsets orderIndices
          routeCount fuel = some output →
        ∀ route < routeCount,
          (output.statuses[route]? = some interruptedStatus ∧ ∃ check, expired check = true) ∨
            ∃ pops final, (inst.withDistance distance epsilon).queueLoop
                (routeNodes inst orderOffsets orderIndices route) pops
                (inst.withDistance distance epsilon).initialState = some final ∧
              Reports inst output route final) ∧
      ((∀ check, expired check = false) →
        (∀ route < routeCount, ∃ pops final, (inst.withDistance distance epsilon).queueLoop
          (routeNodes inst orderOffsets orderIndices route) pops
          (inst.withDistance distance epsilon).initialState = some final) →
        ∃ fuel output, runExactChargingBatch (inst.tables distance) epsilon expired batchSize orderOffsets
          orderIndices routeCount fuel = some output) := by
  constructor
  · intro fuel output hrun route hroute
    rcases run_row hsize hclock hrun hroute with hinterrupted | ⟨rounds, hcompleted, hrow⟩
    · exact .inl hinterrupted
    · obtain ⟨pops, final, hloop, hstands⟩ := completed_queueLoop (hcustomers route hroute) hcompleted
      exact .inr ⟨pops, final, hloop, hrow.reports hcompleted hstands⟩
  · intro hforever hends
    apply run_ends hsize hforever
    intro route hroute
    obtain ⟨pops, final, hloop⟩ := hends route hroute
    exact ⟨pops, queueLoop_completed (hcustomers route hroute) hloop⟩

end Runs

/-! ### On the line -/

section Line

open Problem

/-- The distances of the line. -/
def lineDistance (origin destination : Node ℚ) : ℚ :=
  origin.distanceTo (axisHypot ℚ) destination

/-- Two routes to the one customer, with a deadline at the given check. -/
def lineRun (deadline : ℕ) : Option (ExactBatchOutput ℚ) :=
  runExactChargingBatch ((lineInstance ℚ 8).tables lineDistance) (1 / 10 ^ 9)
    (fun check => decide (deadline ≤ check)) 2 [0, 1, 2] [2, 2] 2 20

theorem lineRun_customers :
    ∀ route < 2, CustomerOrder (lineInstance ℚ 8) (routeOrder [0, 1, 2] [2, 2] route) := by
  unfold CustomerOrder
  decide +kernel

theorem lineRun_feasible : ∃ output, lineRun 100 = some output ∧
    output.statuses[1]? = some feasibleStatus := by
  have hrun : (lineRun 100).map (fun output => output.statuses[1]?) = some (some feasibleStatus) := by
    decide +kernel
  exact Option.map_eq_some_iff.mp hrun

/-- A deadline late enough leaves the second route of the line its result. -/
theorem runExactChargingBatch_refines_line : ∃ output pops final, lineRun 100 = some output ∧
    ((lineInstance ℚ 8).withDistance lineDistance (1 / 10 ^ 9)).queueLoop
        (routeNodes (lineInstance ℚ 8) [0, 1, 2] [2, 2] 1) pops
        ((lineInstance ℚ 8).withDistance lineDistance (1 / 10 ^ 9)).initialState = some final ∧
      Reports (lineInstance ℚ 8) output 1 final := by
  obtain ⟨output, hrun, hstatus⟩ := lineRun_feasible
  have hclock : ∀ first second : ℕ, first ≤ second → decide (100 ≤ first) = true →
      decide (100 ≤ second) = true := by
    intro first second hle hexpired
    simp only [decide_eq_true_eq] at hexpired ⊢
    omega
  have hrefines := (runExactChargingBatch_refines (lineInstance ℚ 8) lineDistance (1 / 10 ^ 9)
    (by decide : 0 < 2) hclock lineRun_customers).1 20 output hrun 1 (by decide)
  rcases hrefines with ⟨hinterrupted, -⟩ | ⟨pops, final, hloop, hreports⟩
  · rw [hstatus] at hinterrupted
    exact absurd hinterrupted (by decide)
  · exact ⟨output, pops, final, hrun, hloop, hreports⟩

end Line

/-! ### Termination -/

section Termination

variable {K : Type} [Field K] [LinearOrder K] [IsStrictOrderedRing K] [Archimedean K]

omit [IsStrictOrderedRing K] [Archimedean K] in
theorem CustomerOrder.nodes {inst : Instance K} {order : List ℕ} (h : CustomerOrder inst order) :
    ∀ customer ∈ order.map inst.node, customer ∈ inst.nodes ∧ customer.kind = .customer := by
  intro customer hmem
  obtain ⟨index, hindex, hnode⟩ := List.mem_map.mp hmem
  obtain ⟨hlt, hkind⟩ := h index hindex
  rw [← hnode]
  exact ⟨inst.node_mem hlt, hkind⟩

open Problem

end Termination

end TxnOpt.Evrptw.Native
