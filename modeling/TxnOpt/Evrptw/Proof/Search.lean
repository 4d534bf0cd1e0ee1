import TxnOpt.Evrptw.Proof.Extend
import TxnOpt.Lib.Transition

/-!
# The queue loop as a transition system

One case analysis of a pass of the loop, and the rule for predicates that every extension keeps.
-/

namespace TxnOpt.Evrptw

variable {K : Type}

theorem mem_heappush [LinearOrder K] {queue : List (QueueEntry K)} {entry other : QueueEntry K} :
    other ∈ heappush queue entry ↔ other = entry ∨ other ∈ queue := by
  simp [heappush, List.mem_orderedInsert]

namespace Problem

variable [CommRing K] [LinearOrder K] (problem : Problem K) (order : List (Node K))

/-- The queue loop of one order. -/
def search : System (SearchState K) :=
  { init := fun state => state = problem.initialState
    next := fun state next => problem.step order state = some next }

theorem step_of_queue {state : SearchState K} {entry : QueueEntry K} {rest : List (QueueEntry K)}
    (hqueue : state.queue = entry :: rest) : ∃ next, problem.step order state = some next := by
  simp only [step, hqueue]
  split_ifs <;> exact ⟨_, rfl⟩

theorem queueLoop_reachable {fuel : ℕ} {state final : SearchState K}
    (hstate : (problem.search order).Reachable state)
    (h : problem.queueLoop order fuel state = some final) :
    (problem.search order).Reachable final ∧ final.queue = [] := by
  induction fuel generalizing state with
  | zero => simp [queueLoop] at h
  | succ fuel ih =>
      cases hstep : problem.step order state with
      | none =>
          simp only [queueLoop, hstep, Option.some.injEq] at h
          subst h
          refine ⟨hstate, ?_⟩
          cases hqueue : state.queue with
          | nil => rfl
          | cons entry rest =>
              obtain ⟨next, hnext⟩ := problem.step_of_queue order hqueue
              rw [hstep] at hnext
              exact absurd hnext (by simp)
      | some next =>
          simp only [queueLoop, hstep] at h
          exact ih (.step hstate hstep) h

/-- The state after the given number of passes. -/
inductive Passes : ℕ → SearchState K → SearchState K → Prop
  | refl (state : SearchState K) : Passes 0 state state
  | pass {count : ℕ} {state middle final : SearchState K} : Passes count state middle →
      problem.step order middle = some final → Passes (count + 1) state final

variable {problem order}

theorem Passes.append {first second : ℕ} {state middle final : SearchState K}
    (h : problem.Passes order first state middle) (h' : problem.Passes order second middle final) :
    problem.Passes order (first + second) state final := by
  induction h' with
  | refl middle => exact h
  | pass _ hstep ih => exact (ih h).pass hstep

/-- A loop that ends, ends after any number of its passes. -/
theorem Passes.remaining {count fuel : ℕ} {state middle final : SearchState K}
    (h : problem.Passes order count state middle)
    (hloop : problem.queueLoop order fuel state = some final) :
    count < fuel ∧ problem.queueLoop order (fuel - count) middle = some final := by
  induction h with
  | refl state =>
      cases fuel with
      | zero => simp [queueLoop] at hloop
      | succ fuel => exact ⟨by omega, hloop⟩
  | @pass count state middle next hpasses hstep ih =>
      obtain ⟨hlt, hrest⟩ := ih hloop
      obtain ⟨left, hleft⟩ : ∃ left, fuel - count = left + 1 := ⟨fuel - count - 1, by omega⟩
      rw [hleft, queueLoop, hstep] at hrest
      cases left with
      | zero => simp [queueLoop] at hrest
      | succ left =>
          have hfuel : fuel - (count + 1) = left + 1 := by omega
          exact ⟨by omega, by rw [hfuel]; exact hrest⟩

/-- A loop that ends in a state the passes reach, ends there from the start. -/
theorem Passes.loop {count : ℕ} {state final : SearchState K}
    (h : problem.Passes order count state final) (hqueue : final.queue = []) :
    problem.queueLoop order (count + 1) state = some final := by
  have hfinal : problem.queueLoop order 1 final = some final := by
    simp [queueLoop, step, hqueue]
  have hextend : ∀ {count fuel : ℕ} {state middle : SearchState K},
      problem.Passes order count state middle →
        problem.queueLoop order (count + fuel) state = problem.queueLoop order fuel middle := by
    intro count fuel state middle hpasses
    induction hpasses generalizing fuel with
    | refl state => rw [Nat.zero_add]
    | @pass count state middle next _ hstep ih =>
        rw [Nat.add_right_comm, Nat.add_assoc, ih, queueLoop, hstep]
  rw [hextend h, hfinal]

variable (problem order)

/-- The candidate of this successor closes the route. -/
def Closes (successor : Node K × ℕ) : Prop :=
  successor.2 = order.length ∧ successor.1.kind = .depot

/-- What the loop body does with one successor, the counters aside. -/
inductive Visited (label : ChargingLabel K) (successor : Node K × ℕ) (state next : SearchState K) : Prop
  | rejected : problem.extend label successor.1 successor.2 = none →
      next.labels = state.labels → next.queue = state.queue → next.best = state.best → Visited label successor state next
  | closing (candidate : ChargingLabel K) :
      problem.extend label successor.1 successor.2 = some candidate → Closes order successor →
      next.labels = state.labels → next.queue = state.queue →
      ((next.best = some candidate ∧ ∀ incumbent ∈ state.best, betterTerminal candidate incumbent) ∨
        (next.best = state.best ∧ ∃ incumbent ∈ state.best, ¬ betterTerminal candidate incumbent)) →
      Visited label successor state next
  | dominated (candidate existing : ChargingLabel K) :
      problem.extend label successor.1 successor.2 = some candidate → ¬ Closes order successor →
      existing ∈ state.labels candidate.key → problem.dominates existing candidate →
      next.labels = state.labels → next.queue = state.queue → next.best = state.best → Visited label successor state next
  | kept (candidate : ChargingLabel K) :
      problem.extend label successor.1 successor.2 = some candidate → ¬ Closes order successor →
      (∀ existing ∈ state.labels candidate.key, ¬ problem.dominates existing candidate) →
      next.labels = Function.update state.labels candidate.key
        ((state.labels candidate.key).filter (fun existing => ¬ problem.dominates candidate existing) ++
          [candidate]) →
      next.queue = heappush state.queue ⟨state.serial, candidate⟩ →
      next.best = state.best → Visited label successor state next

theorem visit_visited (label : ChargingLabel K) (successor : Node K × ℕ) (state : SearchState K) :
    problem.Visited order label successor state (problem.visit order label state successor) := by
  cases hextend : problem.extend label successor.1 successor.2 with
  | none =>
      apply Visited.rejected hextend <;> simp [visit, hextend]
  | some candidate =>
      by_cases hcloses : Closes order successor
      · have hvisit : problem.visit order label state successor =
            offerTerminal { state with generated := state.generated + 1 } candidate := by
          simp only [visit, hextend]
          exact if_pos hcloses
        rw [hvisit]
        by_cases hbetter : ∀ incumbent ∈ state.best, betterTerminal candidate incumbent
        · have hoffer : offerTerminal { state with generated := state.generated + 1 } candidate =
              { state with generated := state.generated + 1, best := some candidate } :=
            if_pos hbetter
          rw [hoffer]
          exact .closing candidate hextend hcloses rfl rfl (.inl ⟨rfl, hbetter⟩)
        · have hoffer : offerTerminal { state with generated := state.generated + 1 } candidate =
              { state with generated := state.generated + 1 } :=
            if_neg hbetter
          rw [hoffer]
          refine .closing candidate hextend hcloses rfl rfl (.inr ⟨rfl, ?_⟩)
          push Not at hbetter
          exact hbetter
      · have hvisit : problem.visit order label state successor =
            problem.offerLabel { state with generated := state.generated + 1 } candidate := by
          simp only [visit, hextend]
          exact if_neg hcloses
        rw [hvisit]
        by_cases hdominated : ∃ existing ∈ state.labels candidate.key,
            problem.dominates existing candidate
        · have hoffer : problem.offerLabel { state with generated := state.generated + 1 } candidate =
              { state with generated := state.generated + 1, pruned := state.pruned + 1 } :=
            if_pos hdominated
          rw [hoffer]
          obtain ⟨existing, hmem, hdominates⟩ := hdominated
          exact .dominated candidate existing hextend hcloses hmem hdominates rfl rfl rfl
        · have hkept : ∀ existing ∈ state.labels candidate.key,
              ¬ problem.dominates existing candidate := by
            push Not at hdominated
            exact hdominated
          apply Visited.kept candidate hextend hcloses hkept <;>
            simp only [offerLabel, if_neg hdominated]

/-- One pass of the queue loop: the popped label is stale, pruned by the incumbent, or expanded. -/
theorem step_cases {state next : SearchState K} (h : problem.step order state = some next) :
    ∃ entry rest, state.queue = entry :: rest ∧
      ((entry.label ∉ state.labels entry.label.key ∧ next = { state with queue := rest }) ∨
        (entry.label ∈ state.labels entry.label.key ∧
          (∃ incumbent ∈ state.best, entry.label.distance ≥ incumbent.distance - problem.epsilon) ∧
          next = { state with queue := rest, pruned := state.pruned + 1 }) ∨
        (entry.label ∈ state.labels entry.label.key ∧
          (∀ incumbent ∈ state.best, ¬ entry.label.distance ≥ incumbent.distance - problem.epsilon) ∧
          next = problem.expand order { state with queue := rest } entry.label)) := by
  cases hqueue : state.queue with
  | nil => simp [step, hqueue] at h
  | cons entry rest =>
      refine ⟨entry, rest, rfl, ?_⟩
      simp only [step, hqueue] at h
      split_ifs at h with hlive hpruned
      · exact .inr (.inl ⟨hlive, hpruned, (Option.some.inj h).symm⟩)
      · refine .inr (.inr ⟨hlive, ?_, (Option.some.inj h).symm⟩)
        push Not at hpruned
        intro incumbent hbest
        exact not_le.mpr (hpruned incumbent hbest)
      · exact .inl ⟨hlive, (Option.some.inj h).symm⟩

/-- A relation between states that every visit keeps holds after an expansion. -/
theorem expand_induction {motive : SearchState K → List (Node K × ℕ) → Prop}
    {state : SearchState K} {label : ChargingLabel K}
    (hstart : motive { state with expanded := state.expanded + 1 } [])
    (hvisit : ∀ current next done successor, done ++ [successor] <+: problem.successors order label →
      motive current done → problem.Visited order label successor current next →
      motive next (done ++ [successor])) :
    motive (problem.expand order state label) (problem.successors order label) := by
  have hfold : ∀ remaining done current, done ++ remaining = problem.successors order label →
      motive current done →
      motive (remaining.foldl (problem.visit order label) current) (done ++ remaining) := by
    intro remaining
    induction remaining with
    | nil =>
        intro done current _ hcurrent
        simpa using hcurrent
    | cons successor rest ih =>
        intro done current hsplit hcurrent
        have hinitial : done ++ [successor] <+: problem.successors order label := by
          rw [← hsplit]
          exact ⟨rest, by simp⟩
        have hnext := hvisit current _ done successor hinitial hcurrent
          (problem.visit_visited order label successor current)
        have hrest := ih (done ++ [successor]) _ (by simpa using hsplit) hnext
        simpa using hrest
  exact hfold _ [] _ rfl hstart

/-- Every label of the state has the property, and the incumbent closes a label that has it. -/
structure Every (property : ChargingLabel K → Prop) (state : SearchState K) : Prop where
  live : ∀ key, ∀ label ∈ state.labels key, label.key = key ∧ property label
  queued : ∀ entry ∈ state.queue, property entry.label
  closed : ∀ best ∈ state.best, ∃ label successor, property label ∧
    successor ∈ problem.successors order label ∧
    problem.extend label successor.1 successor.2 = some best ∧ Closes order successor

theorem Every.imp {property weaker : ChargingLabel K → Prop} {state : SearchState K}
    (h : problem.Every order property state) (himp : ∀ label, property label → weaker label) :
    problem.Every order weaker state := by
  refine ⟨?_, ?_, ?_⟩
  · intro key label hmem
    exact ⟨(h.live key label hmem).1, himp label (h.live key label hmem).2⟩
  · intro entry hmem
    exact himp entry.label (h.queued entry hmem)
  · intro best hmem
    obtain ⟨label, successor, hlabel, hclosed⟩ := h.closed best hmem
    exact ⟨label, successor, himp label hlabel, hclosed⟩

theorem Every.visited {property : ChargingLabel K → Prop} {label : ChargingLabel K}
    {successor : Node K × ℕ} {state next : SearchState K}
    (hstep : ∀ candidate, ¬ Closes order successor →
      problem.extend label successor.1 successor.2 = some candidate → property candidate)
    (hlabel : property label) (hsuccessor : successor ∈ problem.successors order label)
    (hstate : problem.Every order property state)
    (hvisited : problem.Visited order label successor state next) :
    problem.Every order property next := by
  cases hvisited with
  | rejected _ hlabels hqueue hbest =>
      exact ⟨hlabels ▸ hstate.live, hqueue ▸ hstate.queued, hbest ▸ hstate.closed⟩
  | closing candidate hextend hcloses hlabels hqueue hbest =>
      refine ⟨hlabels ▸ hstate.live, hqueue ▸ hstate.queued, ?_⟩
      rcases hbest with ⟨hbest, -⟩ | ⟨hbest, -⟩
      · intro best hmem
        rw [hbest] at hmem
        obtain rfl := Option.mem_some_iff.mp hmem
        exact ⟨label, successor, hlabel, hsuccessor, hextend, hcloses⟩
      · exact hbest ▸ hstate.closed
  | dominated _ _ _ _ _ _ hlabels hqueue hbest =>
      exact ⟨hlabels ▸ hstate.live, hqueue ▸ hstate.queued, hbest ▸ hstate.closed⟩
  | kept candidate hextend hopen _ hlabels hqueue hbest =>
      have hcandidate := hstep candidate hopen hextend
      refine ⟨?_, ?_, hbest ▸ hstate.closed⟩
      · intro key other hmem
        rw [hlabels] at hmem
        by_cases hkey : key = candidate.key
        · subst hkey
          simp only [Function.update_self, List.mem_append, List.mem_filter, List.mem_singleton] at hmem
          rcases hmem with ⟨hold, -⟩ | rfl
          · exact hstate.live _ other hold
          · exact ⟨rfl, hcandidate⟩
        · rw [Function.update_of_ne hkey] at hmem
          exact hstate.live key other hmem
      · intro entry hmem
        rw [hqueue, mem_heappush] at hmem
        rcases hmem with rfl | hold
        · exact hcandidate
        · exact hstate.queued entry hold

/-- The label that a pass from this state expands. -/
def Expands (state : SearchState K) (label : ChargingLabel K) : Prop :=
  ∃ entry rest, state.queue = entry :: rest ∧ entry.label = label ∧ label ∈ state.labels label.key ∧
    ∀ incumbent ∈ state.best, ¬ label.distance ≥ incumbent.distance - problem.epsilon

theorem every_initialState (property : ChargingLabel K → Prop) (hinitial : property problem.initialLabel) :
    problem.Every order property problem.initialState := by
  refine ⟨?_, ?_, ?_⟩
  · intro key label hmem
    by_cases hkey : key = (0, problem.depot.name)
    · subst hkey
      simp only [initialState, Function.update_self, List.mem_singleton] at hmem
      subst hmem
      exact ⟨rfl, hinitial⟩
    · simp [initialState, Function.update_of_ne hkey] at hmem
  · intro entry hmem
    simp only [initialState, List.mem_singleton] at hmem
    subst hmem
    exact hinitial
  · intro best hmem
    simp [initialState] at hmem

/-- One pass keeps what the extensions of the label that it expands keep. -/
theorem Every.step {property : ChargingLabel K → Prop} {state next : SearchState K}
    (hstep : ∀ label successor candidate, problem.Expands state label → property label →
      successor ∈ problem.successors order label → ¬ Closes order successor →
      problem.extend label successor.1 successor.2 = some candidate → property candidate)
    (hstate : problem.Every order property state) (h : problem.step order state = some next) :
    problem.Every order property next := by
  obtain ⟨entry, rest, hqueue, hcases⟩ := problem.step_cases order h
  have hentry : property entry.label := hstate.queued entry (by simp [hqueue])
  have hrest : ∀ other ∈ rest, property other.label := by
    intro other hmem
    exact hstate.queued other (by simp [hqueue, hmem])
  rcases hcases with ⟨-, rfl⟩ | ⟨-, -, rfl⟩ | ⟨hlive, hbest, rfl⟩
  · exact ⟨hstate.live, hrest, hstate.closed⟩
  · exact ⟨hstate.live, hrest, hstate.closed⟩
  · refine problem.expand_induction order
      (motive := fun current _ => problem.Every order property current)
      ⟨hstate.live, hrest, hstate.closed⟩ ?_
    intro current next _ successor hinitial hcurrent hvisited
    have hmember : successor ∈ problem.successors order entry.label := hinitial.subset (by simp)
    apply hcurrent.visited problem order ?_ hentry hmember hvisited
    intro candidate hopen hextend
    exact hstep entry.label successor candidate ⟨entry, rest, hqueue, rfl, hlive, hbest⟩ hentry hmember hopen hextend

/-- The rule for labels: what the first label has and every extension keeps, every label has. -/
theorem every_of_reachable (property : ChargingLabel K → Prop) (hinitial : property problem.initialLabel)
    (hstep : ∀ label successor candidate, property label → successor ∈ problem.successors order label →
      ¬ Closes order successor → problem.extend label successor.1 successor.2 = some candidate →
      property candidate)
    {state : SearchState K} (h : (problem.search order).Reachable state) :
    problem.Every order property state := by
  refine h.invariant ?_ ?_
  · intro s hs
    subst hs
    exact problem.every_initialState order property hinitial
  · intro s t hs hnext
    apply hs.step problem order ?_ hnext
    intro label successor candidate _
    exact hstep label successor candidate

/-! ### Which labels an expansion keeps -/

/-- The successors of a label have different keys. -/
theorem successors_keys_nodup (label : ChargingLabel K) :
    ((problem.successors order label).map (fun successor => (successor.2, successor.1.name))).Nodup := by
  have hstations : ((problem.stations.filter (fun station => station.name ≠ label.node.name)).map
      (fun station => (label.progress, station.name))).Nodup := by
    have hnames : ((problem.stations.filter
        (fun station => station.name ≠ label.node.name)).map Node.name).Nodup := by
      apply List.Nodup.sublist ?_ problem.uniqueNames
      exact (List.filter_sublist.trans List.filter_sublist).map _
    have hpair : Function.Injective (fun name : String => (label.progress, name)) := by
      intro first second h
      exact congrArg Prod.snd h
    have hmap := hnames.map hpair
    rwa [List.map_map] at hmap
  rw [successors, List.map_cons, List.map_map, List.nodup_cons]
  refine ⟨?_, hstations⟩
  intro hmem
  obtain ⟨station, hstation, hkey⟩ := List.mem_map.mp hmem
  simp only [List.mem_filter, Instance.mem_stations, decide_eq_true_eq] at hstation
  cases hnext : order[label.progress]? with
  | none =>
      rw [hnext] at hkey
      have hname : station.name = problem.depot.name := congrArg Prod.snd hkey
      have hsame := problem.eq_of_name_eq hstation.1.1 problem.depot_mem.1 hname
      have hkind := hstation.1.2
      rw [hsame, problem.depot_mem.2] at hkind
      exact absurd hkind (by decide)
  | some customer =>
      rw [hnext] at hkey
      have hprogress : label.progress = label.progress + 1 := congrArg Prod.fst hkey
      omega

/-- The candidate of this successor that the expansion of `label` from `state` keeps. -/
structure Kept (state : SearchState K) (label : ChargingLabel K) (successor : Node K × ℕ)
    (candidate : ChargingLabel K) : Prop where
  member : successor ∈ problem.successors order label
  extended : problem.extend label successor.1 successor.2 = some candidate
  opened : ¬ Closes order successor
  undominated : ∀ existing ∈ state.labels candidate.key, ¬ problem.dominates existing candidate

/-- The rule for expansions: what holds at the start, and after every candidate that is kept. -/
theorem expand_rule {motive : SearchState K → List (Node K × ℕ) → Prop}
    {state : SearchState K} {label : ChargingLabel K}
    (hstart : motive { state with expanded := state.expanded + 1 } [])
    (hquiet : ∀ current next done successor, motive current done → next.labels = current.labels →
      next.queue = current.queue → motive next (done ++ [successor]))
    (hkept : ∀ current next done successor candidate, motive current done →
      problem.Kept order state label successor candidate →
      current.labels candidate.key = state.labels candidate.key →
      next.labels = Function.update current.labels candidate.key
        ((state.labels candidate.key).filter (fun existing => ¬ problem.dominates candidate existing) ++
          [candidate]) →
      next.queue = heappush current.queue ⟨current.serial, candidate⟩ →
      motive next (done ++ [successor])) :
    motive (problem.expand order state label) (problem.successors order label) := by
  have hrule : motive (problem.expand order state label) (problem.successors order label) ∧
      ∀ key, key ∉ (problem.successors order label).map
          (fun successor => (successor.2, successor.1.name)) →
        (problem.expand order state label).labels key = state.labels key := by
    refine problem.expand_induction order
      (motive := fun current done => motive current done ∧
        ∀ key, key ∉ done.map (fun successor => (successor.2, successor.1.name)) →
          current.labels key = state.labels key) ⟨hstart, fun _ _ => rfl⟩ ?_
    intro current next done successor hinitial hcurrent hvisited
    obtain ⟨hmotive, hlabels⟩ := hcurrent
    have hfresh : ∀ key, key ∉ (done ++ [successor]).map
        (fun successor => (successor.2, successor.1.name)) →
          key ∉ done.map (fun successor => (successor.2, successor.1.name)) ∧
            key ≠ (successor.2, successor.1.name) := by
      intro key hkey
      rw [List.map_append, List.mem_append, not_or] at hkey
      exact ⟨hkey.1, by simpa using hkey.2⟩
    have hsame : next.labels = current.labels → next.queue = current.queue →
        motive next (done ++ [successor]) ∧
          ∀ key, key ∉ (done ++ [successor]).map (fun successor => (successor.2, successor.1.name)) →
            next.labels key = state.labels key := by
      intro hnextLabels hnextQueue
      refine ⟨hquiet current next done successor hmotive hnextLabels hnextQueue, ?_⟩
      intro key hkey
      rw [hnextLabels]
      exact hlabels key (hfresh key hkey).1
    cases hvisited with
    | rejected _ hnextLabels hnextQueue _ => exact hsame hnextLabels hnextQueue
    | closing _ _ _ hnextLabels hnextQueue _ => exact hsame hnextLabels hnextQueue
    | dominated _ _ _ _ _ _ hnextLabels hnextQueue _ => exact hsame hnextLabels hnextQueue
    | kept candidate hextend hopen hfree hnextLabels hnextQueue _ =>
        obtain ⟨hprogress, hnode⟩ := problem.extend_progress hextend
        have hcandidate : candidate.key = (successor.2, successor.1.name) := by
          simp [ChargingLabel.key, hprogress, hnode]
        -- the key of the candidate has not been touched by the successors before it
        have huntouched : current.labels candidate.key = state.labels candidate.key := by
          apply hlabels
          rw [hcandidate]
          have hnodup := (hinitial.sublist.map
            (fun successor : Node K × ℕ => (successor.2, successor.1.name))).nodup
            (problem.successors_keys_nodup order label)
          rw [List.map_append, List.nodup_append] at hnodup
          intro hmem
          exact hnodup.2.2 _ hmem _ (by simp) rfl
        rw [huntouched] at hfree
        rw [huntouched] at hnextLabels
        refine ⟨hkept current next done successor candidate hmotive
          ⟨hinitial.subset (by simp), hextend, hopen, hfree⟩ huntouched hnextLabels hnextQueue, ?_⟩
        intro key hkey
        obtain ⟨hold, hne⟩ := hfresh key hkey
        rw [hnextLabels, Function.update_of_ne (by rw [hcandidate]; exact hne)]
        exact hlabels key hold
  exact hrule.1

end Problem

end TxnOpt.Evrptw
