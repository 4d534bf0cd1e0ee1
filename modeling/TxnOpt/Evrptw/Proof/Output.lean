import TxnOpt.Evrptw.Proof.Batch
import TxnOpt.Lib.Offsets

/-!
# The output of a batch

The arrays of the output, row by row: each row is a function of the state its route ended in, and the paths
lie one after another.
-/

namespace TxnOpt.Evrptw.Native

variable {K : Type} [Field K]

/-! ### The rows of one route -/

def statusOf (state : ExactSearchState K) : ℤ :=
  if state.completed then
    match state.best with
    | none => infeasibleStatus
    | some _ => feasibleStatus
  else interruptedStatus

def reasonOf (state : ExactSearchState K) : ℤ :=
  if state.completed then
    match state.best with
    | none => noFeasiblePatternReason
    | some _ => noFailureReason
  else deadlineReason

def metricsOf (state : ExactSearchState K) : Metrics K :=
  if state.completed then
    match state.best with
    | none => ⟨⊤, 0, 0, 0⟩
    | some best => ⟨best.distance, best.totalEnergy, best.chargedEnergy, best.chargingTime⟩
  else ⟨0, 0, 0, 0⟩

def pathOf (state : ExactSearchState K) : List ℕ :=
  if state.completed then
    match state.best with
    | none => []
    | some best => reconstructExactPath state best
  else []

def countersOf (state : ExactSearchState K) : LabelCounters :=
  ⟨state.generated, state.expanded, state.pruned⟩

/-- The round of a route, `-1` when it was interrupted. -/
def Batch.roundOf (batch : Batch K) (route : ℕ) : ℤ :=
  match batch.completionRounds route with
  | none => -1
  | some completion => completion

theorem path_pos (state : ExactSearchState K) (label : ExactLabel K) :
    0 < (reconstructExactPath state label).length := by
  simp [reconstructExactPath]

/-- What a batch that has ended is ready to report: a route without the flag was interrupted, and one with
it is recorded. -/
structure Reported (batch : Batch K) : Prop where
  interrupted : ∀ (route : ℕ) (state : ExactSearchState K), batch.states[route]? = some state →
    state.completed = false → batch.deadlineHit = true
  recorded : ∀ (route : ℕ) (state : ExactSearchState K), batch.states[route]? = some state →
    (state.completed = true ↔ (batch.completionRounds route).isSome = true)

/-- One more row. -/
def Results.add (batch : Batch K) (results : Results K) (route : ℕ) (state : ExactSearchState K) :
    Results K :=
  { rawOffsets := results.rawOffsets ++
      [if pathOf state = [] then 0 else results.pathIndices.length + (pathOf state).length]
    pathIndices := results.pathIndices ++ pathOf state
    statuses := results.statuses ++ [statusOf state]
    reasons := results.reasons ++ [reasonOf state]
    metrics := results.metrics ++ [metricsOf state]
    labelCounters := results.labelCounters ++ [countersOf state]
    completed := results.completed + if state.completed then 1 else 0
    completionOrder := results.completionOrder
    completionRounds := results.completionRounds ++ [batch.roundOf route] }

theorem classify_add {batch : Batch K} (results : Results K) {route : ℕ} {state : ExactSearchState K}
    (hinterrupted : state.completed = false → batch.deadlineHit = true)
    (hrecorded : state.completed = true ↔ (batch.completionRounds route).isSome = true) :
    classify batch results route state = results.add batch route state := by
  unfold classify Results.add
  by_cases hcompleted : state.completed = true
  · obtain ⟨completion, hcompletion⟩ := Option.isSome_iff_exists.mp (hrecorded.mp hcompleted)
    cases hbest : state.best with
    | none =>
        simp [hcompleted, hcompletion, hbest, statusOf, reasonOf, metricsOf, pathOf, countersOf,
          Batch.roundOf]
    | some best =>
        have hpath : reconstructExactPath state best ≠ [] := by
          rw [← List.length_pos_iff]
          exact path_pos state best
        simp [hcompleted, hcompletion, hbest, statusOf, reasonOf, metricsOf, pathOf, countersOf,
          Batch.roundOf, hpath]
  · have hopen : state.completed = false := by simpa using hcompleted
    have hnone : batch.completionRounds route = none := by
      rw [← Option.not_isSome_iff_eq_none]
      exact fun hsome => hcompleted (hrecorded.mpr hsome)
    simp [hopen, hinterrupted hopen, hnone, statusOf, reasonOf, metricsOf, pathOf, countersOf,
      Batch.roundOf]

/-! ### All rows -/

/-- The raw offsets of the paths: zero for an empty one. -/
def rawOf (base : ℕ) : List (List ℕ) → List ℕ
  | [] => []
  | path :: rest =>
      (if path = [] then 0 else base + path.length) :: rawOf (base + path.length) rest

theorem carry_rawOf (paths : List (List ℕ)) (base : ℕ) :
    carryOffsets base (rawOf base paths) = rowEnds base paths := by
  induction paths generalizing base with
  | nil => rfl
  | cons path rest ih =>
      have hcarried : (if (if path = [] then 0 else base + path.length) = 0 then base
          else if path = [] then 0 else base + path.length) = base + path.length := by
        by_cases hpath : path = []
        · simp [hpath]
        · have hpos : 0 < path.length := List.length_pos_iff.mpr hpath
          rw [if_neg hpath, if_neg (by omega)]
      simp only [rawOf, carryOffsets, rowEnds, hcarried, ih]

theorem classifyAll_rows {batch : Batch K} :
    ∀ (states : List (ExactSearchState K)) (results : Results K) (route : ℕ),
      (∀ (index : ℕ) (state : ExactSearchState K), states[index]? = some state →
        (state.completed = false → batch.deadlineHit = true) ∧
          (state.completed = true ↔ (batch.completionRounds (route + index)).isSome = true)) →
      classifyAll batch results route states =
        { rawOffsets := results.rawOffsets ++ rawOf results.pathIndices.length (states.map pathOf)
          pathIndices := results.pathIndices ++ (states.map pathOf).flatten
          statuses := results.statuses ++ states.map statusOf
          reasons := results.reasons ++ states.map reasonOf
          metrics := results.metrics ++ states.map metricsOf
          labelCounters := results.labelCounters ++ states.map countersOf
          completed := results.completed + states.countP (fun state => state.completed)
          completionOrder := results.completionOrder
          completionRounds := results.completionRounds ++
            (List.range states.length).map (fun index => batch.roundOf (route + index)) } := by
  intro states
  induction states with
  | nil =>
      intro results route _
      simp [classifyAll, rawOf]
  | cons state rest ih =>
      intro results route h
      obtain ⟨hinterrupted, hrecorded⟩ := h 0 state rfl
      have hrest : ∀ (index : ℕ) (other : ExactSearchState K), rest[index]? = some other →
          (other.completed = false → batch.deadlineHit = true) ∧
            (other.completed = true ↔ (batch.completionRounds (route + 1 + index)).isSome = true) := by
        intro index other hother
        have hshift := h (index + 1) other hother
        rw [Nat.add_assoc, Nat.add_comm 1 index]
        exact hshift
      rw [Nat.add_zero] at hrecorded
      have hrounds : (List.range (state :: rest).length).map (fun index => batch.roundOf (route + index)) =
          batch.roundOf route ::
            (List.range rest.length).map (fun index => batch.roundOf (route + 1 + index)) := by
        rw [List.length_cons, List.range_succ_eq_map, List.map_cons, List.map_map, Nat.add_zero]
        congr 1
        apply List.map_congr_left
        intro index _
        simp only [Function.comp_apply, Nat.succ_eq_add_one]
        congr 1
        omega
      rw [classifyAll, classify_add results hinterrupted hrecorded, ih _ _ hrest, hrounds]
      simp only [Results.add, List.map_cons, List.flatten_cons, rawOf, List.length_append,
        List.append_assoc, List.cons_append, List.nil_append, List.countP_cons, Results.mk.injEq,
        true_and, and_true]
      omega

/-- The output of a batch that is ready to report, row by row. -/
theorem outputOf_rows {batch : Batch K} (h : Reported batch) (batchSize : ℕ) :
    outputOf batchSize batch =
      { pathOffsets := rowOffsets (batch.states.map pathOf)
        pathIndices := (batch.states.map pathOf).flatten
        statuses := batch.states.map statusOf
        reasons := batch.states.map reasonOf
        metrics := batch.states.map metricsOf
        labelCounters := batch.states.map countersOf
        batchCounters :=
          { requested := batch.states.length
            started := batch.states.length
            completed := batch.states.countP (fun state => state.completed)
            interrupted := batch.states.length - batch.states.countP (fun state => state.completed)
            calls := if batch.states.length = 0 then 0 else 1
            chunks := batch.chunks
            requests := batch.requested
            checks := batch.checks
            dispatches := if batch.states.length = 0 then 0 else 1
            batchSize := batchSize }
        completionOrder := batch.completionOrder
        completionRounds := (List.range batch.states.length).map batch.roundOf
        physicalCompletionOrder := []
        physicalTaskReceipts := [] } := by
  have hall := classifyAll_rows batch.states ⟨[], [], [], [], [], [], 0, batch.completionOrder, []⟩ 0
    (fun index state hstate => ⟨h.interrupted index state hstate, by
      rw [Nat.zero_add]
      exact h.recorded index state hstate⟩)
  simp only [outputOf, hall, List.nil_append, List.length_nil, carry_rawOf, Nat.zero_add, rowOffsets]

/-! ### The rows of a run -/

/-- The path of a route, cut out of the flat array. -/
def ExactBatchOutput.path (output : ExactBatchOutput K) (route : ℕ) : List ℕ :=
  let first := output.pathOffsets.getD route 0
  (output.pathIndices.drop first).take (output.pathOffsets.getD (route + 1) 0 - first)

/-- The rows of a route are those of a state. -/
structure ExactBatchOutput.Row (output : ExactBatchOutput K) (route : ℕ) (state : ExactSearchState K) :
    Prop where
  status : output.statuses[route]? = some (statusOf state)
  reason : output.reasons[route]? = some (reasonOf state)
  metrics : output.metrics[route]? = some (metricsOf state)
  counters : output.labelCounters[route]? = some (countersOf state)
  path : output.path route = pathOf state

theorem outputOf_row {batch : Batch K} (h : Reported batch) (batchSize : ℕ) {route : ℕ}
    {state : ExactSearchState K} (hstate : batch.states[route]? = some state) :
    (outputOf batchSize batch).Row route state := by
  rw [outputOf_rows h]
  obtain ⟨hlt, hget⟩ := List.getElem?_eq_some_iff.mp hstate
  have hpaths : (batch.states.map pathOf).length = batch.states.length := List.length_map _
  refine ⟨by simp [hstate], by simp [hstate], by simp [hstate], by simp [hstate], ?_⟩
  simp only [ExactBatchOutput.path, List.getD_eq_getElem?_getD]
  rw [rowOffsets_getElem? _ _ (by omega), rowOffsets_getElem? _ _ (by omega), Option.getD_some,
    Option.getD_some, slice_row _ (by omega), List.getElem_map, hget]

variable [LinearOrder K] {tables : Tables K} {epsilon : K} {expired : ℕ → Bool}
  {orders : List (List ℕ)}

theorem Rested.reported {finished : ℕ} {batch : Batch K} {left : List ExactRequest}
    (h : Rested tables epsilon expired orders finished batch left)
    (hall : batch.deadlineHit = false → AllCompleted batch) : Reported batch := by
  refine ⟨?_, h.recorded.flagged⟩
  intro route state hstate hopen
  by_contra hclear
  have hcompleted := hall (by simpa using hclear) route state hstate
  rw [hopen] at hcompleted
  exact absurd hcompleted (by decide)

omit [Field K] [LinearOrder K] in
theorem firstExpired_some {first : ℕ} :
    ∀ (count : ℕ) {check : ℕ}, firstExpired expired first count = some check → expired check = true := by
  intro count
  induction count generalizing first with
  | zero =>
      intro check h
      simp [firstExpired] at h
  | succ count ih =>
      intro check h
      simp only [firstExpired] at h
      split_ifs at h with hexpired
      · rw [← Option.some.inj h]
        exact hexpired
      · exact ih h

section Runs

variable {batchSize routeCount fuel : ℕ} {orderOffsets orderIndices : List ℕ} {output : ExactBatchOutput K}

/-- The batch the search loop starts with. -/
def startBatch (tables : Tables K) (expired : ℕ → Bool) (orderOffsets orderIndices : List ℕ)
    (routeCount : ℕ) : Batch K :=
  Batch.check expired
    ⟨(List.range routeCount).map
        (fun route => startState tables (routeOrder orderOffsets orderIndices route)),
      0, 0, routeCount + 1, 0, [], fun _ => none, false⟩

theorem startBatch_rested :
    Rested tables epsilon expired ((List.range routeCount).map (routeOrder orderOffsets orderIndices)) 0
      (startBatch tables expired orderOffsets orderIndices routeCount) [] := by
  constructor
  · refine ⟨by simp [startBatch, Batch.check], ?_, ?_⟩
    · intro route order state horder hstate
      simp only [List.getElem?_map, Option.map_eq_some_iff] at horder
      obtain ⟨index, hindex, horder⟩ := horder
      simp only [startBatch, Batch.check, List.getElem?_map, hindex, Option.map_some,
        Option.some.injEq] at hstate
      rw [← hstate, horder]
      exact Alone.start.mono (fun h => absurd h (by decide))
    · intro hhit
      exact ⟨routeCount + 1, Nat.lt_succ_self _, hhit⟩
  · constructor
    · intro route completion h
      simp [startBatch, Batch.check] at h
    · intro route state hstate
      simp only [startBatch, Batch.check, List.getElem?_map, Option.map_eq_some_iff] at hstate
      obtain ⟨index, -, hstate⟩ := hstate
      rw [← hstate]
      simp [startState, startBatch, Batch.check]
    · simp [startBatch, Batch.check]
    · simp [startBatch, Batch.check]
  · rfl
  · exact fun _ => rfl

/-- A run either stops before its search, or reports a batch whose routes have taken their turns. -/
theorem run_cases (hsize : 0 < batchSize)
    (hclock : ∀ first second, first ≤ second → expired first = true → expired second = true)
    (h : runExactChargingBatch tables epsilon expired batchSize orderOffsets orderIndices routeCount fuel =
      some output) :
    (∃ check, expired check = true ∧ output = untouched routeCount batchSize (check + 1)) ∨
      ∃ batch finished left, Rested tables epsilon expired
          ((List.range routeCount).map (routeOrder orderOffsets orderIndices)) finished batch left ∧
        Reported batch ∧ output = outputOf batchSize batch := by
  unfold runExactChargingBatch at h
  cases hfirst : firstExpired expired 0 (routeCount + 1) with
  | some check =>
      rw [hfirst] at h
      exact .inl ⟨check, firstExpired_some _ hfirst, (Option.some.inj h).symm⟩
  | none =>
      rw [hfirst] at h
      obtain ⟨batch, hloop, houtput⟩ := Option.map_eq_some_iff.mp h
      obtain ⟨finished, left, hrested, hall⟩ :=
        searchLoop_rested hsize hclock fuel startBatch_rested hloop
      exact .inr ⟨batch, finished, left, hrested, hrested.reported hall, houtput.symm⟩

/-- Every route a run does not report interrupted has the rows of the state its own turns end in. -/
theorem run_row (hsize : 0 < batchSize)
    (hclock : ∀ first second, first ≤ second → expired first = true → expired second = true)
    (h : runExactChargingBatch tables epsilon expired batchSize orderOffsets orderIndices routeCount fuel =
      some output) {route : ℕ} (hroute : route < routeCount) :
    (output.statuses[route]? = some interruptedStatus ∧ ∃ check, expired check = true) ∨
      ∃ rounds, (after tables epsilon (routeOrder orderOffsets orderIndices route) rounds).completed = true ∧
        output.Row route (after tables epsilon (routeOrder orderOffsets orderIndices route) rounds) := by
  rcases run_cases hsize hclock h with ⟨check, hexpired, houtput⟩ |
    ⟨batch, finished, left, hrested, hreported, houtput⟩
  · refine .inl ⟨?_, check, hexpired⟩
    rw [houtput]
    simp [untouched, hroute]
  · have hlt : route < batch.states.length := by
      rw [hrested.kept.length]
      simpa using hroute
    have hstate : batch.states[route]? = some batch.states[route] := List.getElem?_eq_getElem hlt
    have hrow := outputOf_row hreported batchSize hstate
    rw [← houtput] at hrow
    by_cases hcompleted : batch.states[route].completed = true
    · have horder : ((List.range routeCount).map (routeOrder orderOffsets orderIndices))[route]? =
          some (routeOrder orderOffsets orderIndices route) := by
        simp [hroute]
      obtain ⟨-, hafter⟩ := (hrested.kept.routes route _ _ horder hstate).completed hcompleted
      rw [hafter] at hrow hcompleted
      exact .inr ⟨finished, hcompleted, hrow⟩
    · have hopen : batch.states[route].completed = false := by simpa using hcompleted
      obtain ⟨check, -, hexpired⟩ := hrested.kept.clock (hreported.interrupted route _ hstate hopen)
      refine .inl ⟨?_, check, hexpired⟩
      rw [hrow.status, statusOf, if_neg hcompleted]

variable (tables epsilon) in
theorem exists_common_bound :
    ∀ (orders : List (List ℕ)),
      (∀ order ∈ orders, ∃ rounds, (after tables epsilon order rounds).completed = true) →
        ∃ bound, ∀ order ∈ orders, (after tables epsilon order bound).completed = true := by
  intro orders
  induction orders with
  | nil => exact fun _ => ⟨0, by simp⟩
  | cons order rest ih =>
      intro h
      obtain ⟨rounds, hrounds⟩ := h order List.mem_cons_self
      obtain ⟨bound, hbound⟩ := ih (fun other hmem => h other (List.mem_cons_of_mem order hmem))
      refine ⟨max rounds bound, ?_⟩
      intro other hmem
      rcases List.mem_cons.mp hmem with hsame | hrest
      · rw [hsame, after_completed hrounds (le_max_left _ _)]
        exact hrounds
      · rw [after_completed (hbound other hrest) (le_max_right _ _)]
        exact hbound other hrest

/-- Without a deadline a run ends as soon as every one of its routes completes on its own. -/
theorem run_ends (hsize : 0 < batchSize) (hforever : ∀ check, expired check = false)
    (h : ∀ route < routeCount, ∃ rounds,
      (after tables epsilon (routeOrder orderOffsets orderIndices route) rounds).completed = true) :
    ∃ fuel output, runExactChargingBatch tables epsilon expired batchSize orderOffsets orderIndices
      routeCount fuel = some output := by
  obtain ⟨bound, hbound⟩ := exists_common_bound tables epsilon
    ((List.range routeCount).map (routeOrder orderOffsets orderIndices)) (by
      intro order hmem
      obtain ⟨route, hroute, horder⟩ := List.mem_map.mp hmem
      rw [← horder]
      exact h route (List.mem_range.mp hroute))
  have hclear : (startBatch tables expired orderOffsets orderIndices routeCount).deadlineHit = false :=
    hforever _
  obtain ⟨final, hfinal⟩ := searchLoop_ends hsize hforever hbound bound (by omega) startBatch_rested hclear
  have hnone : firstExpired expired 0 (routeCount + 1) = none := by
    cases hfirst : firstExpired expired 0 (routeCount + 1) with
    | none => rfl
    | some check =>
        have hexpired := firstExpired_some _ hfirst
        rw [hforever check] at hexpired
        exact absurd hexpired (by decide)
  refine ⟨bound + 1, outputOf batchSize final, ?_⟩
  simp only [runExactChargingBatch, hnone]
  exact Option.map_eq_some_iff.mpr ⟨final, hfinal, rfl⟩

end Runs

end TxnOpt.Evrptw.Native
