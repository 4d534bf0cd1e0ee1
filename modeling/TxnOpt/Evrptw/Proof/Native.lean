import TxnOpt.Evrptw.Native
import TxnOpt.Evrptw.Proof.Exactness

/-!
# One native search against the Python one

The view of a native label is the label of the Python search at the same node, its path read off along the
parents. Under that view every native state stands for a state of the Python search: the groups are its
live labels, the queue its queue, and serving one request is visiting one successor.
-/

namespace TxnOpt.Evrptw

namespace Instance

variable {K : Type} [Field K] [LinearOrder K] (inst : Instance K)

theorem node_eq_getElem {index : ℕ} (h : index < inst.nodes.length) :
    inst.node index = inst.nodes[index] := by
  simp [node, h]

theorem node_mem {index : ℕ} (h : index < inst.nodes.length) : inst.node index ∈ inst.nodes := by
  rw [inst.node_eq_getElem h]
  exact List.getElem_mem h

theorem node_injective {first second : ℕ} (hfirst : first < inst.nodes.length)
    (hsecond : second < inst.nodes.length) (h : (inst.node first).name = (inst.node second).name) :
    first = second := by
  have hnames := inst.uniqueNames
  rw [List.nodup_iff_injective_get] at hnames
  rw [inst.node_eq_getElem hfirst, inst.node_eq_getElem hsecond] at h
  have hsame := @hnames ⟨first, by simpa using hfirst⟩ ⟨second, by simpa using hsecond⟩ (by simpa using h)
  exact congrArg Fin.val hsame

variable (distance : Node K → Node K → K)

theorem tables_depot : (inst.tables distance).depot < inst.nodes.length ∧
    inst.node (inst.tables distance).depot = inst.depot := by
  have hexists : ∃ node ∈ inst.nodes, decide (node.kind = .depot) = true :=
    ⟨inst.depot, inst.depot_mem.1, by simp [inst.depot_mem.2]⟩
  have hlt : (inst.tables distance).depot < inst.nodes.length :=
    List.findIdx_lt_length_of_exists hexists
  refine ⟨hlt, ?_⟩
  apply inst.eq_depot (inst.node_mem hlt)
  have hkind : decide ((inst.nodes[(inst.tables distance).depot]).kind = .depot) = true :=
    List.findIdx_getElem (w := hlt)
  rw [inst.node_eq_getElem hlt]
  exact of_decide_eq_true hkind

theorem mem_tables_stations {index : ℕ} : index ∈ (inst.tables distance).stations ↔
    index < inst.nodes.length ∧ (inst.node index).kind = .station := by
  simp [tables]

/-- The station indices list the stations in their order. -/
theorem tables_stations : (inst.tables distance).stations.map inst.node = inst.stations := by
  have hnodes : (List.range inst.nodes.length).map inst.node = inst.nodes := by
    apply List.ext_getElem
    · simp
    · intro index hfirst hsecond
      rw [List.getElem_map, List.getElem_range]
      exact inst.node_eq_getElem hsecond
  calc
    (inst.tables distance).stations.map inst.node =
        ((List.range inst.nodes.length).map inst.node).filter (fun node => node.kind = .station) := by
      rw [List.filter_map]
      rfl
    _ = inst.stations := by rw [hnodes]; rfl

end Instance

namespace Native

section Paths

variable {K : Type} [Field K]

/-! ### Paths along the parents -/

/-- A label with the flag left out of account. -/
def ExactLabel.body (label : ExactLabel K) : ExactLabel K :=
  { label with live := true }

omit [Field K] in
theorem ExactLabel.body_eq_iff {label other : ExactLabel K} : label.body = other.body ↔
    label.node = other.node ∧ label.progress = other.progress ∧
      label.elapsedTime = other.elapsedTime ∧ label.battery = other.battery ∧
      label.distance = other.distance ∧ label.totalEnergy = other.totalEnergy ∧
      label.chargedEnergy = other.chargedEnergy ∧ label.chargingTime = other.chargingTime ∧
      label.parent = other.parent := by
  cases label
  cases other
  simp only [ExactLabel.body, ExactLabel.mk.injEq]
  tauto

/-- Every parent is an older label. -/
def Rooted (state : ExactSearchState K) : Prop :=
  ∀ index < state.labels.length, ∀ parent ∈ (state.label index).parent, parent < index

/-- `next` has the labels of `state`, up to their flags, and perhaps more. -/
structure Grown (state next : ExactSearchState K) : Prop where
  length : state.labels.length ≤ next.labels.length
  body : ∀ index < state.labels.length, (next.label index).body = (state.label index).body

theorem Grown.refl (state : ExactSearchState K) : Grown state state :=
  ⟨le_refl _, fun _ _ => rfl⟩

theorem Grown.trans {first second third : ExactSearchState K} (h : Grown first second)
    (h' : Grown second third) : Grown first third :=
  ⟨h.length.trans h'.length,
    fun index hlt => (h'.body index (hlt.trans_le h.length)).trans (h.body index hlt)⟩

theorem ancestry_stable {state : ExactSearchState K} (h : Rooted state) :
    ∀ (fuel fuel' index : ℕ), index < state.labels.length → index < fuel → index < fuel' →
      ancestry state fuel (some index) = ancestry state fuel' (some index) := by
  intro fuel
  induction fuel with
  | zero =>
      intro fuel' index _ hlt _
      omega
  | succ fuel ih =>
      intro fuel' index hindex hlt hlt'
      cases fuel' with
      | zero => omega
      | succ fuel' =>
          simp only [ancestry]
          congr 1
          cases hparent : (state.label index).parent with
          | none => cases fuel <;> cases fuel' <;> rfl
          | some parent =>
              have hold := h index hindex parent hparent
              exact ih fuel' parent (by omega) (by omega) (by omega)

theorem ancestry_grown {state next : ExactSearchState K} (h : Rooted state) (hgrown : Grown state next) :
    ∀ (fuel index : ℕ), index < state.labels.length →
      ancestry next fuel (some index) = ancestry state fuel (some index) := by
  intro fuel
  induction fuel with
  | zero => exact fun _ _ => rfl
  | succ fuel ih =>
      intro index hindex
      have hbody := hgrown.body index hindex
      rw [ExactLabel.body_eq_iff] at hbody
      obtain ⟨hnode, -, -, -, -, -, -, -, hparents⟩ := hbody
      simp only [ancestry, hnode, hparents]
      congr 1
      cases hparent : (state.label index).parent with
      | none => cases fuel <;> rfl
      | some parent =>
          have hold := h index hindex parent hparent
          exact ih parent (by omega)

/-- The path of a label does not change as the search goes on. -/
theorem path_grown {state next : ExactSearchState K} (h : Rooted state) (hnext : Rooted next)
    (hgrown : Grown state next) {label : ExactLabel K}
    (hparent : ∀ parent ∈ label.parent, parent < state.labels.length) :
    reconstructExactPath next label = reconstructExactPath state label := by
  unfold reconstructExactPath
  congr 2
  cases hcase : label.parent with
  | none => cases next.labels.length <;> cases state.labels.length <;> rfl
  | some parent =>
      have hlt := hparent parent hcase
      rw [← ancestry_grown h hgrown _ parent hlt]
      exact ancestry_stable hnext _ _ parent (hlt.trans_le hgrown.length) (hlt.trans_le hgrown.length) hlt

/-- The path of a child is the path of its parent and the node of the child. -/
theorem path_child {state : ExactSearchState K} (h : Rooted state) {label : ExactLabel K} {parent : ℕ}
    (hparent : label.parent = some parent) (hlt : parent < state.labels.length) :
    reconstructExactPath state label =
      reconstructExactPath state (state.label parent) ++ [label.node] := by
  have hunfold : ancestry state state.labels.length (some parent) =
      (state.label parent).node :: ancestry state state.labels.length (state.label parent).parent := by
    rw [ancestry_stable h _ (state.labels.length + 1) parent hlt hlt (by omega)]
    rfl
  rw [reconstructExactPath, hparent, hunfold, List.reverse_cons]
  rfl

/-- The Python label a native label stands for. -/
def view [LinearOrder K] (inst : Instance K) (state : ExactSearchState K) (label : ExactLabel K) :
    ChargingLabel K :=
  { progress := label.progress
    node := inst.node label.node
    elapsedTime := label.elapsedTime
    battery := label.battery
    distance := label.distance
    totalEnergy := label.totalEnergy
    chargedEnergy := label.chargedEnergy
    chargingTime := label.chargingTime
    path := (reconstructExactPath state label).map inst.node }

variable [LinearOrder K] {inst : Instance K}

omit [LinearOrder K] in
theorem label_congr {state next : ExactSearchState K} (h : next.labels = state.labels) :
    next.label = state.label := by
  funext index
  rw [ExactSearchState.label, ExactSearchState.label, h]

omit [LinearOrder K] in
theorem ancestry_congr {state next : ExactSearchState K} (h : next.labels = state.labels) :
    ∀ fuel index, ancestry next fuel index = ancestry state fuel index := by
  intro fuel
  induction fuel with
  | zero => exact fun _ => rfl
  | succ fuel ih =>
      intro index
      cases index with
      | none => rfl
      | some index => simp only [ancestry, label_congr h, ih]

theorem view_congr {state next : ExactSearchState K} (h : next.labels = state.labels) :
    view inst next = view inst state := by
  funext label
  simp only [view, reconstructExactPath, h, ancestry_congr h]

theorem view_body (state : ExactSearchState K) (label : ExactLabel K) :
    view inst state label.body = view inst state label :=
  rfl

theorem view_grown {state next : ExactSearchState K} (h : Rooted state) (hnext : Rooted next)
    (hgrown : Grown state next) {label : ExactLabel K}
    (hparent : ∀ parent ∈ label.parent, parent < state.labels.length) :
    view inst next label = view inst state label := by
  simp only [view, path_grown h hnext hgrown hparent]

theorem view_label_grown {state next : ExactSearchState K} (h : Rooted state) (hnext : Rooted next)
    (hgrown : Grown state next) {index : ℕ} (hindex : index < state.labels.length) :
    view inst next (next.label index) = view inst state (state.label index) := by
  rw [← view_body next, hgrown.body index hindex, view_body]
  apply view_grown h hnext hgrown
  intro parent hparent
  exact (h index hindex parent hparent).trans hindex

end Paths

section Simulation

variable {K : Type} [Field K] [LinearOrder K]

/-! ### One state for the other -/

def ExactLabel.key (label : ExactLabel K) : ℕ × ℕ :=
  (label.progress, label.node)

/-- What holds of the labels, the groups and the queue of a native state. -/
structure Formed (inst : Instance K) (state : ExactSearchState K) : Prop where
  rooted : Rooted state
  node_lt : ∀ index < state.labels.length, (state.label index).node < inst.nodes.length
  grouped : ∀ group, ∀ index ∈ state.stateLabels group,
    index < state.labels.length ∧ (state.label index).key = group
  live : ∀ index < state.labels.length,
    ((state.label index).live = true ↔ index ∈ state.stateLabels (state.label index).key)
  queued : ∀ entry ∈ state.queue, entry.labelIndex < state.labels.length ∧
    entry.distance = (state.label entry.labelIndex).distance ∧
    entry.elapsedTime = (state.label entry.labelIndex).elapsedTime ∧
    entry.negativeProgress = -((state.label entry.labelIndex).progress : ℤ) ∧
    entry.serial ≠ 1 ∧ entry.serial ≤ state.serial
  once : (state.queue.map ExactQueueEntry.labelIndex).Nodup
  fresh : ∀ index < state.labels.length, ∀ parent ∈ (state.label index).parent,
    parent ∉ state.queue.map ExactQueueEntry.labelIndex
  distinct : ∀ first < state.labels.length, ∀ second < state.labels.length,
    (view inst state (state.label first)).path = (view inst state (state.label second)).path →
      first = second
  closed : ∀ best ∈ state.best, ∀ parent ∈ best.parent, parent < state.labels.length
  started : 0 < state.serial

/-- The queue entry of the Python search. -/
def viewEntry (inst : Instance K) (state : ExactSearchState K) (entry : ExactQueueEntry K) :
    QueueEntry K :=
  ⟨entry.serial - 1, view inst state (state.label entry.labelIndex)⟩

/-- The native state stands for the state of the Python search. -/
structure Stands (inst : Instance K) (state : ExactSearchState K) (search : SearchState K) : Prop
    extends Formed inst state where
  labels : ∀ progress node, node < inst.nodes.length →
    search.labels (progress, (inst.node node).name) =
      (state.stateLabels (progress, node)).map (fun index => view inst state (state.label index))
  queue : search.queue = state.queue.map (viewEntry inst state)
  best : search.best = state.best.map (view inst state)
  generated : search.generated = state.generated
  expanded : search.expanded = state.expanded
  pruned : search.pruned = state.pruned
  serial : search.serial = state.serial

variable {inst : Instance K} {distance : Node K → Node K → K} {epsilon : K}

theorem view_key (state : ExactSearchState K) (label : ExactLabel K) :
    (view inst state label).key = (label.progress, (inst.node label.node).name) :=
  rfl

variable (epsilon) in
theorem view_start (order : List ℕ) :
    view inst (startState (inst.tables distance) order)
      ((startState (inst.tables distance) order).label 0) =
        (inst.withDistance distance epsilon).initialLabel := by
  have hdepot := (inst.tables_depot distance).2
  have hready : (inst.tables distance).ready (inst.tables distance).depot = inst.depot.readyTime := by
    rw [← hdepot]
    rfl
  simp only [view, startState, ExactSearchState.label, reconstructExactPath, ancestry,
    Problem.initialLabel, Instance.withDistance, List.getD_cons_zero, List.length_singleton,
    List.reverse_singleton, List.map_singleton, hdepot, hready]
  rfl

theorem stands_start (order : List ℕ) :
    Stands inst (startState (inst.tables distance) order)
      (inst.withDistance distance epsilon).initialState := by
  obtain ⟨hlt, hdepot⟩ := inst.tables_depot distance
  have hzero : ∀ index < (startState (inst.tables distance) order).labels.length, index = 0 := by
    intro index h
    simpa [startState] using h
  have hgroup : ∀ group index, index ∈ (startState (inst.tables distance) order).stateLabels group ↔
      group = (0, (inst.tables distance).depot) ∧ index = 0 := by
    intro group index
    by_cases h : group = (0, (inst.tables distance).depot)
    · simp [startState, h]
    · simp [startState, h]
  constructor
  · constructor
    · intro index h parent hparent
      rw [hzero index h] at hparent
      simp [startState, ExactSearchState.label] at hparent
    · intro index h
      rw [hzero index h]
      exact hlt
    · intro group index h
      rw [hgroup] at h
      rw [h.1, h.2]
      exact ⟨by simp [startState], rfl⟩
    · intro index h
      rw [hgroup, hzero index h]
      simp [startState, ExactSearchState.label, ExactLabel.key]
    · intro entry h
      simp only [startState, List.mem_singleton] at h
      rw [h]
      simp [startState, ExactSearchState.label]
    · simp [startState]
    · intro index h parent hparent
      rw [hzero index h] at hparent
      simp [startState, ExactSearchState.label] at hparent
    · intro first hfirst second hsecond _
      rw [hzero first hfirst, hzero second hsecond]
    · intro best h
      simp [startState] at h
    · exact Nat.one_pos
  · intro progress node hnode
    by_cases h : progress = 0 ∧ node = (inst.tables distance).depot
    · obtain ⟨hprogress, hsame⟩ := h
      have hname : (inst.node node).name = inst.depot.name := by rw [hsame, hdepot]
      have hgroup : (startState (inst.tables distance) order).stateLabels (progress, node) = [0] := by
        simp [startState, hprogress, hsame]
      rw [hgroup, hname, hprogress, List.map_singleton, view_start epsilon]
      simp [Problem.initialState, Instance.withDistance]
    · have hne : (progress, node) ≠ (0, (inst.tables distance).depot) := by
        simpa using h
      have hname : (progress, (inst.node node).name) ≠ (0, inst.depot.name) := by
        intro hsame
        obtain ⟨hprogress, hname⟩ := Prod.mk.inj hsame
        rw [← hdepot] at hname
        exact h ⟨hprogress, inst.node_injective hnode hlt hname⟩
      have hgroup : (startState (inst.tables distance) order).stateLabels (progress, node) = [] := by
        simp [startState, Function.update_of_ne hne]
      rw [hgroup]
      change Function.update (fun _ => []) (0, inst.depot.name) _ (progress, _) = []
      rw [Function.update_of_ne hname]
  · change [_] = [_]
    rw [viewEntry, view_start epsilon]
    rfl
  · rfl
  · rfl
  · rfl
  · rfl
  · rfl

theorem Stands.live_iff {state : ExactSearchState K} {search : SearchState K}
    (h : Stands inst state search) {index : ℕ} (hindex : index < state.labels.length) :
    (state.label index).live = true ↔
      view inst state (state.label index) ∈ search.labels (view inst state (state.label index)).key := by
  rw [view_key, h.labels _ _ (h.node_lt index hindex), List.mem_map, h.live index hindex]
  constructor
  · intro hmem
    exact ⟨index, hmem, rfl⟩
  · intro hmem
    obtain ⟨other, hother, hview⟩ := hmem
    have hlt := (h.grouped _ other hother).1
    have hsame := h.distinct other hlt index hindex (congrArg ChargingLabel.path hview)
    rw [hsame] at hother
    exact hother

/-- The counters play no part, nor do entries already popped. -/
theorem Formed.trimmed {state next : ExactSearchState K} (h : Formed inst state)
    (hlabels : next.labels = state.labels) (hgroups : next.stateLabels = state.stateLabels)
    (hqueue : next.queue <:+ state.queue) (hbest : next.best = state.best)
    (hserial : next.serial = state.serial) : Formed inst next := by
  have hlabel := label_congr hlabels
  have hview : view inst next = view inst state := view_congr hlabels
  have hindices : next.queue.map ExactQueueEntry.labelIndex <:+
      state.queue.map ExactQueueEntry.labelIndex := hqueue.map _
  constructor
  · intro index hindex parent hparent
    rw [hlabels] at hindex
    rw [hlabel] at hparent
    exact h.rooted index hindex parent hparent
  · rw [hlabels, hlabel]
    exact h.node_lt
  · rw [hlabels, hlabel, hgroups]
    exact h.grouped
  · rw [hlabels, hlabel, hgroups]
    exact h.live
  · rw [hlabels, hlabel, hserial]
    exact fun entry hmem => h.queued entry (hqueue.subset hmem)
  · exact h.once.sublist hindices.sublist
  · rw [hlabels, hlabel]
    exact fun index hindex parent hparent hmem =>
      h.fresh index hindex parent hparent (hindices.subset hmem)
  · rw [hlabels, hlabel, hview]
    exact h.distinct
  · rw [hlabels, hbest]
    exact h.closed
  · rw [hserial]
    exact h.started

theorem viewEntry_congr {state next : ExactSearchState K} (hlabels : next.labels = state.labels) :
    viewEntry inst next = viewEntry inst state := by
  funext entry
  rw [viewEntry, viewEntry, label_congr hlabels, view_congr hlabels]

/-- A change of counters, made on both sides, and of the queue. -/
theorem Stands.counted {state next : ExactSearchState K} {search after : SearchState K}
    (h : Stands inst state search) (hlabels : next.labels = state.labels)
    (hgroups : next.stateLabels = state.stateLabels) (hqueue : next.queue <:+ state.queue)
    (hbest : next.best = state.best) (hserial : next.serial = state.serial)
    (hafterLabels : after.labels = search.labels)
    (hafterQueue : after.queue = next.queue.map (viewEntry inst state))
    (hafterBest : after.best = search.best) (hafterSerial : after.serial = search.serial)
    (hgenerated : after.generated = next.generated) (hexpanded : after.expanded = next.expanded)
    (hpruned : after.pruned = next.pruned) : Stands inst next after := by
  refine ⟨h.toFormed.trimmed hlabels hgroups hqueue hbest hserial, ?_, ?_, ?_, hgenerated, hexpanded,
    hpruned, ?_⟩
  · rw [hafterLabels, hgroups, label_congr hlabels, view_congr hlabels]
    exact h.labels
  · rw [hafterQueue, viewEntry_congr hlabels]
  · rw [hafterBest, hbest, view_congr hlabels]
    exact h.best
  · rw [hafterSerial, hserial]
    exact h.serial

/-- A stale entry is dropped by both. -/
theorem Stands.dropped {state : ExactSearchState K} {search : SearchState K}
    (h : Stands inst state search) {entry : ExactQueueEntry K} {rest : List (ExactQueueEntry K)}
    (hqueue : state.queue = entry :: rest) :
    Stands inst { state with queue := rest } { search with queue := rest.map (viewEntry inst state) } := by
  have hsuffix : rest <:+ state.queue := by
    rw [hqueue]
    exact List.suffix_cons entry rest
  exact h.counted rfl rfl hsuffix rfl rfl rfl rfl rfl rfl h.generated h.expanded h.pruned

omit [LinearOrder K] in
theorem popLive_congr {state next : ExactSearchState K} (h : next.labels = state.labels) :
    ∀ queue, popLive next queue = popLive state queue := by
  intro queue
  induction queue with
  | nil => rfl
  | cons entry rest ih => simp only [popLive, label_congr h, ih]

/-- The native search pops up to the first live label; the Python search takes a pass for each stale one. -/
theorem Stands.popped (problem : Problem K) (order : List (Node K)) :
    ∀ (queue : List (ExactQueueEntry K)) {state : ExactSearchState K} {search : SearchState K},
      state.queue = queue → Stands inst state search →
        ∃ count next, problem.Passes order count search next ∧
          ((popLive state queue = (none, []) ∧ Stands inst { state with queue := [] } next) ∨
            ∃ entry rest, popLive state queue = (some entry.labelIndex, rest) ∧
              (state.label entry.labelIndex).live = true ∧
              Stands inst { state with queue := entry :: rest } next) := by
  intro queue
  induction queue with
  | nil =>
      intro state search hqueue h
      refine ⟨0, search, .refl search, .inl ⟨rfl, ?_⟩⟩
      rw [← hqueue]
      exact h
  | cons entry rest ih =>
      intro state search hqueue h
      by_cases hlive : (state.label entry.labelIndex).live = true
      · refine ⟨0, search, .refl search, .inr ⟨entry, rest, if_pos hlive, hlive, ?_⟩⟩
        rw [← hqueue]
        exact h
      · have hindex := (h.queued entry (by simp [hqueue])).1
        have hstale := mt (h.live_iff hindex).mpr hlive
        have hhead : search.queue = viewEntry inst state entry :: rest.map (viewEntry inst state) := by
          rw [h.queue, hqueue, List.map_cons]
        have hstep : problem.step order search =
            some { search with queue := rest.map (viewEntry inst state) } := by
          simp only [Problem.step, hhead]
          exact if_pos hstale
        have hpop : popLive state (entry :: rest) = popLive { state with queue := rest } rest := by
          have hcongr : popLive { state with queue := rest } rest = popLive state rest := by
            apply popLive_congr
            rfl
          rw [hcongr]
          exact if_neg hlive
        obtain ⟨count, next, hpasses, hnext⟩ := ih rfl (h.dropped hqueue)
        refine ⟨1 + count, next, ((Problem.Passes.refl search).pass hstep).append hpasses, ?_⟩
        rw [hpop]
        exact hnext

/-! ### Serving a request is visiting a successor -/

theorem candidate_some {label reached : ExactLabel K} {request : ExactRequest} {tables : Tables K}
    (h : candidate tables epsilon label request = some reached) :
    reached.parent = some request.labelIndex ∧ reached.node = request.destination ∧
      reached.progress = request.progress ∧ reached.live = true := by
  cases hkind : tables.nodeKinds request.destination with
  | customer =>
      simp only [candidate, hkind] at h
      split_ifs at h
      rw [← Option.some.inj h]
      exact ⟨rfl, rfl, rfl, rfl⟩
  | station =>
      simp only [candidate, hkind] at h
      split_ifs at h
      rw [← Option.some.inj h]
      exact ⟨rfl, rfl, rfl, rfl⟩
  | depot =>
      simp only [candidate, hkind] at h
      split_ifs at h
      rw [← Option.some.inj h]
      exact ⟨rfl, rfl, rfl, rfl⟩

variable (inst distance epsilon) in
theorem candidate_view {state : ExactSearchState K} (h : Rooted state) {request : ExactRequest}
    (hindex : request.labelIndex < state.labels.length) :
    (candidate (inst.tables distance) epsilon (state.label request.labelIndex) request).map
        (view inst state) =
      (inst.withDistance distance epsilon).extend (view inst state (state.label request.labelIndex))
        (inst.node request.destination) request.progress := by
  let tables := inst.tables distance
  let label := state.label request.labelIndex
  let legDistance := tables.distances label.node request.destination
  have hmoved : ∀ elapsed battery charged chargingTime : K,
      view inst state
          ⟨request.progress, request.destination, elapsed, battery, label.distance + legDistance,
            label.totalEnergy + legDistance * tables.vehicle.consumptionRate,
            label.chargedEnergy + charged, label.chargingTime + chargingTime,
            some request.labelIndex, true⟩ =
        Problem.moved (view inst state label) (inst.node request.destination) request.progress
          ((inst.withDistance distance epsilon).leg (inst.node label.node)
            (inst.node request.destination))
          elapsed battery charged chargingTime := by
    intro elapsed battery charged chargingTime
    rw [view, path_child h rfl hindex, List.map_append]
    rfl
  cases hkind : (inst.node request.destination).kind with
  | customer =>
      have hkinds : (inst.tables distance).nodeKinds request.destination = .customer := hkind
      simp only [candidate, Problem.extend, Problem.extendWithTransition, hkind, hkinds,
        apply_ite (Option.map (view inst state)), Option.map_none, Option.map_some, hmoved, tables,
        label, legDistance]
      rfl
  | station =>
      have hkinds : (inst.tables distance).nodeKinds request.destination = .station := hkind
      simp only [candidate, Problem.extend, Problem.extendWithTransition, hkind, hkinds,
        apply_ite (Option.map (view inst state)), Option.map_none, Option.map_some, hmoved, tables,
        label, legDistance]
      rfl
  | depot =>
      have hkinds : (inst.tables distance).nodeKinds request.destination = .depot := hkind
      simp only [candidate, Problem.extend, Problem.extendWithTransition, hkind, hkinds,
        apply_ite (Option.map (view inst state)), Option.map_none, Option.map_some, hmoved, tables,
        label, legDistance]
      rfl

theorem exactDominates_iff (state : ExactSearchState K) (left right : ExactLabel K) :
    exactDominates epsilon left right = true ↔
      (inst.withDistance distance epsilon).dominates (view inst state left) (view inst state right) := by
  rw [exactDominates, decide_eq_true_iff]
  rfl

/-- The labels a candidate dominates in its group. -/
def beaten (epsilon : K) (state : ExactSearchState K) (label : ExactLabel K) : List ℕ :=
  (state.stateLabels label.key).filter
    (fun existing => exactDominates epsilon label (state.label existing))

def survivors (epsilon : K) (state : ExactSearchState K) (label : ExactLabel K) : List ℕ :=
  (state.stateLabels label.key).filter
    (fun existing => !exactDominates epsilon label (state.label existing))

/-- A candidate joins the labels. -/
structure Inserted (epsilon : K) (state : ExactSearchState K) (label : ExactLabel K)
    (next : ExactSearchState K) : Prop where
  length : next.labels.length = state.labels.length + 1
  new : next.label state.labels.length = label
  old : ∀ index < state.labels.length, next.label index =
    if index ∈ beaten epsilon state label then { state.label index with live := false }
    else state.label index
  groups : next.stateLabels = Function.update state.stateLabels label.key
    (survivors epsilon state label ++ [state.labels.length])
  queue : next.queue = state.queue.orderedInsert (fun left right => left.key ≤ right.key)
    ⟨label.distance, label.elapsedTime, -(label.progress : ℤ), state.serial + 1, state.labels.length⟩
  best : next.best = state.best
  generated : next.generated = state.generated
  expanded : next.expanded = state.expanded
  pruned : next.pruned = state.pruned + (beaten epsilon state label).length
  serial : next.serial = state.serial + 1
  order : next.order = state.order
  completed : next.completed = state.completed

variable (epsilon) in
theorem insert_cases (state : ExactSearchState K) (label : ExactLabel K) :
    ((∃ existing ∈ state.stateLabels label.key, exactDominates epsilon (state.label existing) label) ∧
        insert epsilon state label = { state with pruned := state.pruned + 1 }) ∨
      ((∀ existing ∈ state.stateLabels label.key,
          ¬ exactDominates epsilon (state.label existing) label) ∧
        Inserted epsilon state label (insert epsilon state label)) := by
  by_cases hdominated : (state.stateLabels label.key).any
      (fun existing => exactDominates epsilon (state.label existing) label) = true
  · refine .inl ⟨by simpa using hdominated, if_pos hdominated⟩
  · refine .inr ⟨by simpa using hdominated, ?_⟩
    have hinsert : insert epsilon state label =
        { state with
          labels := kill state.labels (beaten epsilon state label) ++ [label]
          stateLabels := Function.update state.stateLabels label.key
            (survivors epsilon state label ++ [state.labels.length])
          queue := state.queue.orderedInsert (fun left right => left.key ≤ right.key)
            ⟨label.distance, label.elapsedTime, -(label.progress : ℤ), state.serial + 1,
              state.labels.length⟩
          pruned := state.pruned + (beaten epsilon state label).length
          serial := state.serial + 1 } :=
      if_neg hdominated
    have hkill : (kill state.labels (beaten epsilon state label)).length = state.labels.length := by
      simp [kill]
    rw [hinsert]
    constructor
    · simp [hkill]
    · simp [ExactSearchState.label, hkill]
    · intro index hindex
      simp only [ExactSearchState.label, List.getD_eq_getElem?_getD]
      rw [List.getElem?_append_left (by rw [hkill]; exact hindex)]
      simp only [kill, List.getElem?_mapIdx, List.getElem?_eq_getElem hindex, Option.map_some,
        Option.getD_some]
    all_goals rfl

/-- What `insert` relies on in a candidate. -/
structure Insertable (inst : Instance K) (state : ExactSearchState K) (label : ExactLabel K) : Prop where
  live : label.live = true
  node_lt : label.node < inst.nodes.length
  parent : ∃ parent < state.labels.length, label.parent = some parent ∧
    parent ∉ state.queue.map ExactQueueEntry.labelIndex
  new : ∀ index < state.labels.length,
    (view inst state (state.label index)).path ≠ (view inst state label).path

theorem Inserted.grown {state next : ExactSearchState K} {label : ExactLabel K}
    (h : Inserted epsilon state label next) : Grown state next := by
  refine ⟨by rw [h.length]; omega, ?_⟩
  intro index hindex
  rw [h.old index hindex]
  split_ifs <;> rfl

theorem Inserted.key {state next : ExactSearchState K} {label : ExactLabel K}
    (h : Inserted epsilon state label next) {index : ℕ} (hindex : index < state.labels.length) :
    (next.label index).key = (state.label index).key := by
  rw [h.old index hindex]
  split_ifs <;> rfl

theorem Inserted.rooted {state next : ExactSearchState K} {label : ExactLabel K}
    (h : Inserted epsilon state label next) (hstate : Rooted state)
    (hlabel : Insertable inst state label) : Rooted next := by
  intro index hindex parent hparent
  rw [h.length] at hindex
  by_cases hold : index < state.labels.length
  · have hbody := h.grown.body index hold
    rw [ExactLabel.body_eq_iff] at hbody
    obtain ⟨-, -, -, -, -, -, -, -, hparents⟩ := hbody
    rw [hparents] at hparent
    exact hstate index hold parent hparent
  · have hlast : index = state.labels.length := by omega
    rw [hlast, h.new] at hparent
    obtain ⟨known, hknown, hsome, -⟩ := hlabel.parent
    rw [hsome, Option.mem_some_iff] at hparent
    omega

/-- The views of old labels, and of the candidate, do not change. -/
theorem Inserted.views {state next : ExactSearchState K} {label : ExactLabel K}
    (h : Inserted epsilon state label next) (hstate : Formed inst state)
    (hlabel : Insertable inst state label) :
    (∀ index < state.labels.length,
        view inst next (next.label index) = view inst state (state.label index)) ∧
      view inst next (next.label state.labels.length) = view inst state label := by
  have hrooted := h.rooted hstate.rooted hlabel
  constructor
  · intro index hindex
    exact view_label_grown hstate.rooted hrooted h.grown hindex
  · rw [h.new]
    apply view_grown hstate.rooted hrooted h.grown
    intro parent hparent
    obtain ⟨known, hknown, hsome, -⟩ := hlabel.parent
    rw [hsome, Option.mem_some_iff] at hparent
    omega

theorem mem_survivors {state : ExactSearchState K} {label : ExactLabel K} {index : ℕ} :
    index ∈ survivors epsilon state label ↔
      index ∈ state.stateLabels label.key ∧ index ∉ beaten epsilon state label := by
  simp only [survivors, beaten, List.mem_filter]
  by_cases h : exactDominates epsilon label (state.label index) <;> simp [h]

theorem Inserted.formed {state next : ExactSearchState K} {label : ExactLabel K}
    (h : Inserted epsilon state label next) (hstate : Formed inst state)
    (hlabel : Insertable inst state label) : Formed inst next := by
  obtain ⟨hold, hnew⟩ := h.views hstate hlabel
  obtain ⟨parent, hparent, hsome, hunqueued⟩ := hlabel.parent
  -- the labels of the next state are the old ones and the candidate
  have hcases : ∀ index < next.labels.length,
      index < state.labels.length ∨ index = state.labels.length := by
    intro index hindex
    rw [h.length] at hindex
    omega
  have hparents : ∀ index < state.labels.length, (next.label index).parent = (state.label index).parent := by
    intro index hindex
    rw [h.old index hindex]
    split_ifs <;> rfl
  have hqueue : (next.queue.map ExactQueueEntry.labelIndex).Perm
      (state.labels.length :: state.queue.map ExactQueueEntry.labelIndex) := by
    rw [h.queue]
    exact (List.perm_orderedInsert _ _ _).map ExactQueueEntry.labelIndex
  have hbounded : ∀ index ∈ state.queue.map ExactQueueEntry.labelIndex, index < state.labels.length := by
    intro index hmem
    obtain ⟨entry, hentry, hindex⟩ := List.mem_map.mp hmem
    rw [← hindex]
    exact (hstate.queued entry hentry).1
  constructor
  · exact h.rooted hstate.rooted hlabel
  · intro index hindex
    rcases hcases index hindex with hlt | hlast
    · have hnode : (next.label index).node = (state.label index).node :=
        congrArg Prod.snd (h.key hlt)
      rw [hnode]
      exact hstate.node_lt index hlt
    · rw [hlast, h.new]
      exact hlabel.node_lt
  · intro group index hmem
    rw [h.groups] at hmem
    have holdGroup : index ∈ state.stateLabels group →
        index < next.labels.length ∧ (next.label index).key = group := by
      intro hgroup
      obtain ⟨hlt, hkey⟩ := hstate.grouped group index hgroup
      exact ⟨by rw [h.length]; omega, (h.key hlt).trans hkey⟩
    by_cases hkey : group = label.key
    · rw [hkey, Function.update_self, List.mem_append, List.mem_singleton] at hmem
      rcases hmem with hsurvivor | hlast
      · rw [hkey]
        rw [hkey] at holdGroup
        exact holdGroup (mem_survivors.mp hsurvivor).1
      · rw [hlast, h.new, h.length]
        exact ⟨by omega, hkey.symm⟩
    · rw [Function.update_of_ne hkey] at hmem
      exact holdGroup hmem
  · intro index hindex
    rw [h.groups]
    rcases hcases index hindex with hlt | hlast
    · rw [h.key hlt]
      have hbeaten : index ∈ beaten epsilon state label → (state.label index).key = label.key := by
        intro hmem
        exact (hstate.grouped _ index (List.mem_filter.mp hmem).1).2
      have hlive : (next.label index).live = true ↔
          (state.label index).live = true ∧ index ∉ beaten epsilon state label := by
        rw [h.old index hlt]
        split_ifs with hmem <;> simp [hmem]
      rw [hlive, hstate.live index hlt]
      by_cases hkey : (state.label index).key = label.key
      · rw [hkey, Function.update_self, List.mem_append, mem_survivors, List.mem_singleton]
        constructor
        · exact Or.inl
        · intro hmem
          rcases hmem with hmem | hlast
          · exact hmem
          · omega
      · rw [Function.update_of_ne hkey]
        constructor
        · exact And.left
        · intro hmem
          exact ⟨hmem, fun hdead => hkey (hbeaten hdead)⟩
    · rw [hlast, h.new]
      simp [hlabel.live]
  · intro entry hmem
    rw [h.queue, List.mem_orderedInsert] at hmem
    rw [h.length, h.serial]
    rcases hmem with hlast | hmem
    · rw [hlast, h.new]
      have := hstate.started
      exact ⟨by simp, rfl, rfl, rfl, by simp; omega, le_refl _⟩
    · obtain ⟨hlt, hdistance, helapsed, hprogress, hserial, hbound⟩ := hstate.queued entry hmem
      have hbody := h.grown.body entry.labelIndex hlt
      rw [ExactLabel.body_eq_iff] at hbody
      obtain ⟨-, hsameProgress, hsameElapsed, -, hsameDistance, -⟩ := hbody
      rw [hsameProgress, hsameElapsed, hsameDistance]
      exact ⟨by omega, hdistance, helapsed, hprogress, hserial, by omega⟩
  · rw [hqueue.nodup_iff, List.nodup_cons]
    refine ⟨?_, hstate.once⟩
    intro hmem
    exact absurd (hbounded _ hmem) (lt_irrefl _)
  · intro index hindex child hchild hmem
    rw [hqueue.mem_iff, List.mem_cons] at hmem
    rcases hcases index hindex with hlt | hlast
    · rw [hparents index hlt] at hchild
      have hyoung := hstate.rooted index hlt child hchild
      rcases hmem with hlast | hmem
      · omega
      · exact hstate.fresh index hlt child hchild hmem
    · rw [hlast, h.new, hsome, Option.mem_some_iff] at hchild
      rcases hmem with hlast | hmem
      · omega
      · rw [← hchild] at hmem
        exact hunqueued hmem
  · intro first hfirst second hsecond hpath
    rcases hcases first hfirst with hfirstLt | hfirstLast
    · rcases hcases second hsecond with hsecondLt | hsecondLast
      · rw [hold first hfirstLt, hold second hsecondLt] at hpath
        exact hstate.distinct first hfirstLt second hsecondLt hpath
      · rw [hold first hfirstLt, hsecondLast, hnew] at hpath
        exact absurd hpath (hlabel.new first hfirstLt)
    · rcases hcases second hsecond with hsecondLt | hsecondLast
      · rw [hfirstLast, hnew, hold second hsecondLt] at hpath
        exact absurd hpath.symm (hlabel.new second hsecondLt)
      · rw [hfirstLast, hsecondLast]
  · intro best hbest known hknown
    rw [h.best] at hbest
    have := hstate.closed best hbest known hknown
    rw [h.length]
    omega
  · rw [h.serial]
    omega

theorem Stands.labels_key {state : ExactSearchState K} {search : SearchState K}
    (h : Stands inst state search) {label : ExactLabel K} (hnode : label.node < inst.nodes.length) :
    search.labels (view inst state label).key =
      (state.stateLabels label.key).map (fun index => view inst state (state.label index)) :=
  h.labels label.progress label.node hnode

/-- The native queue and the Python queue order a new entry alike. -/
theorem priority_iff {state next : ExactSearchState K} {label : ExactLabel K}
    (h : Inserted epsilon state label next) (hstate : Formed inst state)
    (hlabel : Insertable inst state label) {entry : ExactQueueEntry K} (hentry : entry ∈ state.queue)
    {new : ExactQueueEntry K} (hnew : new = ⟨label.distance, label.elapsedTime,
      -(label.progress : ℤ), state.serial + 1, state.labels.length⟩) :
    (entry.key ≤ new.key ↔
        (viewEntry inst next entry).priority ≤ (viewEntry inst next new).priority) ∧
      (new.key ≤ entry.key ↔
        (viewEntry inst next new).priority ≤ (viewEntry inst next entry).priority) := by
  obtain ⟨hlt, hdistance, helapsed, hprogress, hserial, hbound⟩ := hstate.queued entry hentry
  obtain ⟨hold, hlast⟩ := h.views hstate hlabel
  have hstarted := hstate.started
  have hafter : entry.serial ≤ state.serial + 1 ∧ entry.serial - 1 ≤ state.serial + 1 - 1 := by
    omega
  have hbefore : ¬ state.serial + 1 ≤ entry.serial ∧ ¬ state.serial + 1 - 1 ≤ entry.serial - 1 := by
    omega
  subst hnew
  constructor
  · simp only [ExactQueueEntry.key, viewEntry, QueueEntry.priority, Prod.Lex.toLex_le_toLex, hdistance,
      helapsed, hprogress, hold entry.labelIndex hlt, hlast, hafter.1, hafter.2]
    exact Iff.rfl
  · simp only [ExactQueueEntry.key, viewEntry, QueueEntry.priority, Prod.Lex.toLex_le_toLex, hdistance,
      helapsed, hprogress, hold entry.labelIndex hlt, hlast, hbefore.1, hbefore.2]
    exact Iff.rfl

theorem Inserted.stands {state next : ExactSearchState K} {search : SearchState K}
    {label : ExactLabel K} (h : Inserted epsilon state label next) (hstate : Stands inst state search)
    (hlabel : Insertable inst state label)
    (hopen : ∀ existing ∈ state.stateLabels label.key,
      ¬ exactDominates epsilon (state.label existing) label) :
    Stands inst next
      ((inst.withDistance distance epsilon).offerLabel search (view inst state label)) := by
  obtain ⟨hold, hnew⟩ := h.views hstate.toFormed hlabel
  have hkey := hstate.labels_key hlabel.node_lt
  have hundominated : ¬ ∃ existing ∈ search.labels (view inst state label).key,
      (inst.withDistance distance epsilon).dominates existing (view inst state label) := by
    intro hexists
    obtain ⟨existing, hmem, hdominates⟩ := hexists
    rw [hkey, List.mem_map] at hmem
    obtain ⟨index, hindex, hview⟩ := hmem
    rw [← hview, ← exactDominates_iff] at hdominates
    exact hopen index hindex hdominates
  -- the labels that survive on either side
  have hsurvivors : (search.labels (view inst state label).key).filter
        (fun existing => ¬ (inst.withDistance distance epsilon).dominates (view inst state label)
          existing) =
      (survivors epsilon state label).map (fun index => view inst state (state.label index)) := by
    rw [hkey, List.filter_map, survivors]
    congr 1
    apply List.filter_congr
    intro index _
    simp [← exactDominates_iff]
  have hlengths : (state.stateLabels label.key).length =
      (beaten epsilon state label).length + (survivors epsilon state label).length :=
    List.length_eq_length_filter_add _
  rw [Problem.offerLabel]
  simp only
  rw [if_neg hundominated]
  refine ⟨h.formed hstate.toFormed hlabel, ?_, ?_, ?_, ?_, ?_, ?_, ?_⟩
  · intro progress node hnode
    have hgroupOld : ∀ group : List ℕ, (∀ index ∈ group, index < state.labels.length) →
        group.map (fun index => view inst next (next.label index)) =
          group.map (fun index => view inst state (state.label index)) := by
      intro group hgroup
      apply List.map_congr_left
      intro index hmem
      exact hold index (hgroup index hmem)
    have hcurrent : ∀ group, ∀ index ∈ state.stateLabels group, index < state.labels.length :=
      fun group index hmem => (hstate.grouped group index hmem).1
    rw [h.groups]
    by_cases hsame : (progress, node) = label.key
    · obtain ⟨hprogress, hnodes⟩ := Prod.mk.inj hsame
      rw [hsame, Function.update_self, List.map_append, List.map_singleton, hnew, hgroupOld _ ?_,
        hprogress, hnodes]
      · rw [← hsurvivors]
        exact Function.update_self _ _ _
      · intro index hmem
        exact hcurrent _ index (mem_survivors.mp hmem).1
    · have hname : (progress, (inst.node node).name) ≠ (view inst state label).key := by
        intro hsameName
        obtain ⟨hprogress, hnames⟩ := Prod.mk.inj hsameName
        apply hsame
        rw [hprogress, inst.node_injective hnode hlabel.node_lt hnames]
        rfl
      rw [Function.update_of_ne hsame, hgroupOld _ (hcurrent _), ← hstate.labels progress node hnode]
      exact Function.update_of_ne hname _ _
  · let new : ExactQueueEntry K :=
      ⟨label.distance, label.elapsedTime, -(label.progress : ℤ), state.serial + 1, state.labels.length⟩
    have hentries : state.queue.map (viewEntry inst next) = state.queue.map (viewEntry inst state) := by
      apply List.map_congr_left
      intro entry hmem
      rw [viewEntry, viewEntry, hold entry.labelIndex (hstate.queued entry hmem).1]
    have hentry : viewEntry inst next new = ⟨search.serial, view inst state label⟩ := by
      rw [viewEntry, hnew, hstate.serial]
      rfl
    have hpush : (state.queue.orderedInsert (fun left right => left.key ≤ right.key) new).map
          (viewEntry inst next) =
        (state.queue.map (viewEntry inst next)).orderedInsert
          (fun left right => left.priority ≤ right.priority) (viewEntry inst next new) := by
      apply List.map_orderedInsert
      · intro entry hmem
        exact (priority_iff h hstate.toFormed hlabel hmem rfl).1
      · intro entry hmem
        exact (priority_iff h hstate.toFormed hlabel hmem rfl).2
    rw [hentries, hentry] at hpush
    rw [h.queue, hstate.queue]
    exact hpush.symm
  · rw [h.best, hstate.best]
    cases hbest : state.best with
    | none => rfl
    | some best =>
        have hview : view inst next best = view inst state best :=
          view_grown hstate.rooted (h.rooted hstate.rooted hlabel) h.grown (hstate.closed best hbest)
        rw [Option.map_some, Option.map_some, hview]
  · rw [h.generated]
    exact hstate.generated
  · rw [h.expanded]
    exact hstate.expanded
  · have hdropped : (state.stateLabels label.key).length - (survivors epsilon state label).length =
        (beaten epsilon state label).length := by
      omega
    rw [h.pruned, hstate.pruned, hsurvivors, hkey, List.length_map, List.length_map, hdropped]
  · rw [h.serial, hstate.serial]

/-- The label `index` is being expanded: the Python search is inside its `for` loop, with the successors
of the pending requests still to visit. -/
structure Serving (inst : Instance K) (order : List ℕ) (index : ℕ) (label : ChargingLabel K)
    (pending : List ExactRequest) (state : ExactSearchState K) (search : SearchState K) : Prop
    extends Stands inst state search where
  order_eq : state.order = order
  index_lt : index < state.labels.length
  label_eq : view inst state (state.label index) = label
  own : ∀ request ∈ pending, request.labelIndex = index ∧ request.destination < inst.nodes.length
  apart : (pending.map ExactRequest.destination).Nodup
  unqueued : index ∉ state.queue.map ExactQueueEntry.labelIndex
  unserved : ∀ child < state.labels.length, (state.label child).parent = some index →
    ∀ request ∈ pending, request.destination ≠ (state.label child).node

theorem path_ne_nil {state : ExactSearchState K} {label : ExactLabel K} :
    (view inst state label).path ≠ [] := by
  simp [view, reconstructExactPath]

/-- A pending candidate is new: only its own request makes a child of `index` at its node. -/
theorem Serving.insertable {order : List ℕ} {index : ℕ} {label : ChargingLabel K} {request : ExactRequest}
    {rest : List ExactRequest} {state : ExactSearchState K} {search : SearchState K}
    (h : Serving inst order index label (request :: rest) state search) {tables : Tables K}
    {reached : ExactLabel K}
    (hreached : candidate tables epsilon (state.label request.labelIndex) request = some reached) :
    Insertable inst state reached := by
  obtain ⟨hparent, hnode, -, hlive⟩ := candidate_some hreached
  obtain ⟨howner, hdestination⟩ := h.own request (by simp)
  rw [howner] at hparent
  refine ⟨hlive, by rw [hnode]; exact hdestination, ⟨index, h.index_lt, hparent, h.unqueued⟩, ?_⟩
  intro child hchild hpath
  have hpathReached : (view inst state reached).path =
      (view inst state (state.label index)).path ++ [inst.node request.destination] := by
    rw [view, path_child h.rooted hparent h.index_lt, List.map_append, hnode]
    rfl
  rw [hpathReached] at hpath
  cases hroot : (state.label child).parent with
  | none =>
      have hsingle : (view inst state (state.label child)).path = [] ++ [inst.node (state.label child).node] := by
        rw [view, reconstructExactPath, hroot]
        cases state.labels.length <;> rfl
      rw [hsingle] at hpath
      exact path_ne_nil (List.append_inj_left' hpath rfl).symm
  | some parent =>
      have hparentLt := (h.rooted child hchild parent hroot).trans hchild
      have hpathChild : (view inst state (state.label child)).path =
          (view inst state (state.label parent)).path ++ [inst.node (state.label child).node] := by
        rw [view, path_child h.rooted hroot hparentLt, List.map_append]
        rfl
      rw [hpathChild] at hpath
      have hsame := h.distinct parent hparentLt index h.index_lt (List.append_inj_left' hpath rfl)
      have hnodes : inst.node (state.label child).node = inst.node request.destination := by
        simpa using List.append_inj_right' hpath rfl
      rw [hsame] at hroot
      apply h.unserved child hchild hroot request (by simp)
      exact (inst.node_injective (h.node_lt child hchild) hdestination (congrArg Node.name hnodes)).symm

/-- The candidate becomes the incumbent on both sides. -/
theorem Stands.crowned {state : ExactSearchState K} {search : SearchState K}
    (h : Stands inst state search) {reached : ExactLabel K}
    (hparent : ∀ parent ∈ reached.parent, parent < state.labels.length) :
    Stands inst { state with best := some reached }
      { search with best := some (view inst state reached) } := by
  have hview : view inst { state with best := some reached } = view inst state := by
    apply view_congr
    rfl
  have hentry : viewEntry inst { state with best := some reached } = viewEntry inst state := by
    apply viewEntry_congr
    rfl
  refine ⟨?_, ?_, ?_, ?_, h.generated, h.expanded, h.pruned, h.serial⟩
  · refine ⟨h.rooted, h.node_lt, h.grouped, h.live, h.queued, h.once, h.fresh, ?_, ?_, h.started⟩
    · rw [hview]
      exact h.distinct
    · intro best hbest parent hmem
      rw [Option.mem_some_iff] at hbest
      rw [← hbest] at hmem
      exact hparent parent hmem
  · rw [hview]
    exact h.labels
  · rw [hentry]
    exact h.queue
  · rw [hview]
    rfl

/-- What serving one request leaves as it was, and what it may add. -/
structure Served (epsilon : K) (state next : ExactSearchState K) (request : ExactRequest) : Prop where
  order : next.order = state.order
  completed : next.completed = state.completed
  grown : (next.labels = state.labels ∧ next.queue = state.queue) ∨
    ∃ reached, Inserted epsilon { state with generated := state.generated + 1 } reached next ∧
      reached.parent = some request.labelIndex ∧ reached.node = request.destination

/-- A candidate that did not close its route, on both sides. -/
theorem Stands.offered {state : ExactSearchState K} {search : SearchState K}
    (h : Stands inst state search) {reached : ExactLabel K} (hreached : Insertable inst state reached) :
    Stands inst (insert epsilon state reached)
      ((inst.withDistance distance epsilon).offerLabel search (view inst state reached)) := by
  rcases insert_cases epsilon state reached with ⟨hdominated, hinsert⟩ | ⟨hopen, hinserted⟩
  · obtain ⟨existing, hmem, hdominates⟩ := hdominated
    have hpython : ∃ other ∈ search.labels (view inst state reached).key,
        (inst.withDistance distance epsilon).dominates other (view inst state reached) := by
      refine ⟨view inst state (state.label existing), ?_, (exactDominates_iff state _ _).mp hdominates⟩
      rw [h.labels_key hreached.node_lt]
      exact List.mem_map_of_mem hmem
    have hoffer : (inst.withDistance distance epsilon).offerLabel search (view inst state reached) =
        { search with pruned := search.pruned + 1 } :=
      if_pos hpython
    rw [hinsert, hoffer]
    refine h.counted rfl rfl List.suffix_rfl rfl rfl rfl h.queue rfl rfl h.generated h.expanded ?_
    exact congrArg (· + 1) h.pruned
  · exact hinserted.stands h hreached hopen

theorem visit_of_extend {problem : Problem K} {order : List (Node K)} {label : ChargingLabel K}
    {search : SearchState K} {destination : Node K} {progress : ℕ} {result : Option (ChargingLabel K)} :
    problem.extend label destination progress = result →
    problem.visit order label search (destination, progress) =
      match result with
      | none => { search with generated := search.generated + 1, pruned := search.pruned + 1 }
      | some candidate =>
          if progress = order.length ∧ destination.kind = .depot then
            Problem.offerTerminal { search with generated := search.generated + 1 } candidate
          else problem.offerLabel { search with generated := search.generated + 1 } candidate := by
  intro h
  rw [← h]
  rfl

variable (distance epsilon) in
theorem Serving.stands_serve {order : List ℕ} {index : ℕ} {label : ChargingLabel K}
    {request : ExactRequest} {rest : List ExactRequest} {state : ExactSearchState K}
    {search : SearchState K} (h : Serving inst order index label (request :: rest) state search) :
    Stands inst (serve (inst.tables distance) epsilon state request)
        ((inst.withDistance distance epsilon).visit (order.map inst.node) label search
          (inst.node request.destination, request.progress)) ∧
      Served epsilon state (serve (inst.tables distance) epsilon state request) request := by
  obtain ⟨howner, hdestination⟩ := h.own request (by simp)
  let generated : ExactSearchState K := { state with generated := state.generated + 1 }
  have hcounted : Stands inst generated { search with generated := search.generated + 1 } := by
    refine h.counted rfl rfl List.suffix_rfl rfl rfl rfl h.queue rfl rfl ?_ h.expanded h.pruned
    exact congrArg (· + 1) h.generated
  have hview : view inst generated = view inst state := by
    apply view_congr
    rfl
  have hlabel : generated.label = state.label := by
    apply label_congr
    rfl
  have hindex : request.labelIndex < generated.labels.length := by
    rw [howner]
    exact h.index_lt
  have hextend := candidate_view inst distance epsilon hcounted.rooted hindex
  rw [hview, hlabel, howner, h.label_eq] at hextend
  have hserving : Serving inst order index label (request :: rest) generated
      { search with generated := search.generated + 1 } := by
    refine ⟨hcounted, h.order_eq, h.index_lt, ?_, h.own, h.apart, h.unqueued, h.unserved⟩
    rw [hview, hlabel]
    exact h.label_eq
  rw [visit_of_extend hextend.symm]
  unfold serve
  simp only
  cases hcandidate : candidate (inst.tables distance) epsilon (state.label index) request with
  | none =>
      have hnone : candidate (inst.tables distance) epsilon (generated.label request.labelIndex) request =
          none := by
        rw [howner]
        exact hcandidate
      rw [hnone]
      simp only [Option.map_none]
      refine ⟨?_, rfl, rfl, .inl ⟨rfl, rfl⟩⟩
      refine hcounted.counted rfl rfl List.suffix_rfl rfl rfl rfl hcounted.queue rfl rfl
        hcounted.generated hcounted.expanded ?_
      exact congrArg (· + 1) h.pruned
  | some reached =>
      have hsome : candidate (inst.tables distance) epsilon (generated.label request.labelIndex) request =
          some reached := by
        rw [howner]
        exact hcandidate
      obtain ⟨hparent, hnode, -, -⟩ := candidate_some hsome
      rw [hsome]
      simp only [Option.map_some]
      by_cases hcloses : request.progress = state.order.length ∧
          (inst.tables distance).nodeKinds request.destination = .depot
      · have hpython : request.progress = (order.map inst.node).length ∧
            (inst.node request.destination).kind = .depot := by
          rw [List.length_map, ← h.order_eq]
          exact hcloses
        rw [if_pos hcloses, if_pos hpython, Problem.offerTerminal]
        have hbetter : state.best.all (fun best => exactBetterTerminal reached best) = true ↔
            ∀ incumbent ∈ search.best, betterTerminal (view inst state reached) incumbent := by
          rw [h.best]
          cases state.best with
          | none => simp
          | some best => simp [exactBetterTerminal, betterTerminal, view]
        by_cases hbest : state.best.all (fun best => exactBetterTerminal reached best) = true
        · rw [if_pos hbest, if_pos (hbetter.mp hbest)]
          refine ⟨?_, rfl, rfl, .inl ⟨rfl, rfl⟩⟩
          rw [← hview]
          apply hcounted.crowned
          intro parent hmem
          rw [hparent, Option.mem_some_iff] at hmem
          rw [← hmem]
          exact hindex
        · rw [if_neg hbest, if_neg (mt hbetter.mpr hbest)]
          exact ⟨hcounted, rfl, rfl, .inl ⟨rfl, rfl⟩⟩
      · have hpython : ¬ (request.progress = (order.map inst.node).length ∧
            (inst.node request.destination).kind = .depot) := by
          rw [List.length_map, ← h.order_eq]
          exact hcloses
        rw [if_neg hcloses, if_neg hpython, ← hview]
        have hinsertable := hserving.insertable hsome
        refine ⟨hcounted.offered hinsertable, ?_⟩
        rcases insert_cases epsilon generated reached with ⟨-, hinsert⟩ | ⟨-, hinserted⟩
        · rw [hinsert]
          exact ⟨rfl, rfl, .inl ⟨rfl, rfl⟩⟩
        · exact ⟨hinserted.order, hinserted.completed, .inr ⟨reached, hinserted, hparent, hnode⟩⟩

theorem Serving.served {order : List ℕ} {index : ℕ} {label : ChargingLabel K}
    {request : ExactRequest} {rest : List ExactRequest} {state : ExactSearchState K}
    {search : SearchState K} (h : Serving inst order index label (request :: rest) state search) :
    Serving inst order index label rest (serve (inst.tables distance) epsilon state request)
      ((inst.withDistance distance epsilon).visit (order.map inst.node) label search
        (inst.node request.destination, request.progress)) := by
  obtain ⟨hstands, hserved⟩ := h.stands_serve distance epsilon
  obtain ⟨howner, -⟩ := h.own request (by simp)
  have hapart := h.apart
  rw [List.map_cons, List.nodup_cons] at hapart
  have hown : ∀ other ∈ rest, other.labelIndex = index ∧ other.destination < inst.nodes.length :=
    fun other hmem => h.own other (List.mem_cons_of_mem request hmem)
  have horder := hserved.order.trans h.order_eq
  rcases hserved.grown with ⟨hlabels, hqueue⟩ | ⟨reached, hinserted, hparent, hnode⟩
  · refine ⟨hstands, horder, by rw [hlabels]; exact h.index_lt, ?_, hown, hapart.2, ?_, ?_⟩
    · rw [view_congr hlabels, label_congr hlabels]
      exact h.label_eq
    · rw [hqueue]
      exact h.unqueued
    · rw [hlabels, label_congr hlabels]
      exact fun child hchild hchildOf other hmem =>
        h.unserved child hchild hchildOf other (List.mem_cons_of_mem request hmem)
  · have hlength := hinserted.length
    have hgrown : Grown state (serve (inst.tables distance) epsilon state request) :=
      ⟨hinserted.grown.length, hinserted.grown.body⟩
    refine ⟨hstands, horder, h.index_lt.trans_le hgrown.length, ?_, hown, hapart.2, ?_, ?_⟩
    · rw [view_label_grown h.rooted hstands.rooted hgrown h.index_lt]
      exact h.label_eq
    · intro hmem
      obtain ⟨entry, hentry, hindex⟩ := List.mem_map.mp hmem
      rw [hinserted.queue, List.mem_orderedInsert] at hentry
      rcases hentry with hnew | hold
      · have hlt := h.index_lt
        rw [hnew] at hindex
        simp only at hindex
        omega
      · apply h.unqueued
        rw [← hindex]
        exact List.mem_map_of_mem hold
    · intro child hchild hchildOf other hmem
      by_cases hold : child < state.labels.length
      · have hbody := hgrown.body child hold
        rw [ExactLabel.body_eq_iff] at hbody
        obtain ⟨hchildNode, -, -, -, -, -, -, -, hchildParent⟩ := hbody
        rw [hchildNode]
        rw [hchildParent] at hchildOf
        exact h.unserved child hold hchildOf other (List.mem_cons_of_mem request hmem)
      · have hlast : child = state.labels.length := by
          rw [hlength] at hchild
          simp only at hchild
          omega
        have hnew : (serve (inst.tables distance) epsilon state request).label child = reached := by
          rw [hlast]
          exact hinserted.new
        rw [hnew, hnode]
        intro hsame
        apply hapart.1
        rw [← hsame]
        exact List.mem_map_of_mem hmem

variable (distance epsilon) in
/-- All requests of a label served: all its successors visited. -/
theorem Serving.all {order : List ℕ} {index : ℕ} {label : ChargingLabel K} :
    ∀ (pending : List ExactRequest) {state : ExactSearchState K} {search : SearchState K},
      Serving inst order index label pending state search →
        Serving inst order index label [] (pending.foldl (serve (inst.tables distance) epsilon) state)
          ((pending.map (fun request => (inst.node request.destination, request.progress))).foldl
            ((inst.withDistance distance epsilon).visit (order.map inst.node) label) search) := by
  intro pending
  induction pending with
  | nil => exact fun h => h
  | cons request rest ih => exact fun h => ih h.served

variable (distance epsilon) in
/-- The requests of a label are its successors. -/
theorem requestsOf_successors {order : List ℕ} {state : ExactSearchState K} (route : ℕ) {index : ℕ}
    (horder : state.order = order) (hnode : (state.label index).node < inst.nodes.length) :
    (requestsOf (inst.tables distance) route index state).map
        (fun request => (inst.node request.destination, request.progress)) =
      (inst.withDistance distance epsilon).successors (order.map inst.node)
        (view inst state (state.label index)) := by
  have hstations : ((inst.tables distance).stations.filter
        (fun station => station ≠ (state.label index).node)).map inst.node =
      inst.stations.filter (fun station => station.name ≠ (inst.node (state.label index).node).name) := by
    rw [← inst.tables_stations distance, List.filter_map]
    congr 1
    apply List.filter_congr
    intro station hstation
    have hlt := ((inst.mem_tables_stations distance).mp hstation).1
    have hiff : station = (state.label index).node ↔
        (inst.node station).name = (inst.node (state.label index).node).name := by
      constructor
      · intro hsame
        rw [hsame]
      · exact inst.node_injective hlt hnode
    simp [hiff]
  have hdepot := (inst.tables_depot distance).2
  rw [requestsOf, Problem.successors, List.map_cons, List.map_map]
  congr 1
  · rw [horder]
    have hmapped : (order.map inst.node)[(view inst state (state.label index)).progress]? =
        order[(state.label index).progress]?.map inst.node := List.getElem?_map
    rw [hmapped]
    cases hnext : order[(state.label index).progress]? with
    | none => exact Prod.ext hdepot rfl
    | some customer => rfl
  · calc
      _ = (((inst.tables distance).stations.filter
            (fun station => station ≠ (state.label index).node)).map inst.node).map
            (fun station => (station, (state.label index).progress)) := by
        rw [List.map_map]
        rfl
      _ = _ := by
        rw [hstations]
        rfl

/-- An order of customer indices. -/
def CustomerOrder (inst : Instance K) (order : List ℕ) : Prop :=
  ∀ customer ∈ order, customer < inst.nodes.length ∧ (inst.node customer).kind = .customer

variable (distance) in
theorem requestsOf_destinations {order : List ℕ} (hcustomers : CustomerOrder inst order)
    {state : ExactSearchState K} (route index : ℕ) (horder : state.order = order) :
    (∀ request ∈ requestsOf (inst.tables distance) route index state,
        request.route = route ∧ request.labelIndex = index ∧ request.destination < inst.nodes.length) ∧
      ((requestsOf (inst.tables distance) route index state).map ExactRequest.destination).Nodup := by
  obtain ⟨hdepotLt, hdepot⟩ := inst.tables_depot distance
  have hstation : ∀ station ∈ (inst.tables distance).stations.filter
      (fun station => station ≠ (state.label index).node),
      station < inst.nodes.length ∧ (inst.node station).kind = .station := by
    intro station hmem
    exact (inst.mem_tables_stations distance).mp (List.mem_filter.mp hmem).1
  have hnodup : ((inst.tables distance).stations.filter
      (fun station => station ≠ (state.label index).node)).Nodup :=
    (List.nodup_range.filter _).filter _
  have hhead : ∃ first, requestsOf (inst.tables distance) route index state =
        first :: ((inst.tables distance).stations.filter
          (fun station => station ≠ (state.label index).node)).map
            (fun station => ⟨route, index, station, (state.label index).progress⟩) ∧
      first.route = route ∧ first.labelIndex = index ∧ first.destination < inst.nodes.length ∧
      (inst.node first.destination).kind ≠ .station := by
    cases hnext : order[(state.label index).progress]? with
    | none =>
        refine ⟨⟨route, index, (inst.tables distance).depot, (state.label index).progress⟩, ?_, rfl, rfl,
          hdepotLt, ?_⟩
        · simp only [requestsOf, horder, hnext]
        · rw [hdepot, inst.depot_mem.2]
          decide
    | some customer =>
        obtain ⟨hlt, hkind⟩ := hcustomers customer (List.mem_of_getElem? hnext)
        refine ⟨⟨route, index, customer, (state.label index).progress + 1⟩, ?_, rfl, rfl, hlt, ?_⟩
        · simp only [requestsOf, horder, hnext]
        · rw [hkind]
          decide
  obtain ⟨first, hfirst, hroute, howner, hdestination, hkind⟩ := hhead
  rw [hfirst, List.map_cons, List.map_map]
  constructor
  · intro request hmem
    rcases List.mem_cons.mp hmem with hsame | htail
    · rw [hsame]
      exact ⟨hroute, howner, hdestination⟩
    · obtain ⟨station, hmemStation, hsame⟩ := List.mem_map.mp htail
      rw [← hsame]
      exact ⟨rfl, rfl, (hstation station hmemStation).1⟩
  · rw [List.nodup_cons]
    constructor
    · intro hmem
      obtain ⟨station, hmemStation, hsame⟩ := List.mem_map.mp hmem
      apply hkind
      rw [← hsame]
      exact (hstation station hmemStation).2
    · have hmap : (ExactRequest.destination ∘
          fun station => (⟨route, index, station, (state.label index).progress⟩ : ExactRequest)) = id := by
        funext station
        rfl
      rw [hmap, List.map_id]
      exact hnodup

section Passes

variable {state : ExactSearchState K} {search : SearchState K} {entry : ExactQueueEntry K}
  {rest : List (ExactQueueEntry K)}

/-- The Python search is at the entry the native one has popped, which is live. -/
theorem Stands.head (h : Stands inst { state with queue := entry :: rest } search)
    (hlive : (state.label entry.labelIndex).live = true) :
    search.queue = ⟨entry.serial - 1, view inst state (state.label entry.labelIndex)⟩ ::
        rest.map (viewEntry inst state) ∧
      view inst state (state.label entry.labelIndex) ∈
        search.labels (view inst state (state.label entry.labelIndex)).key := by
  have hview : view inst { state with queue := entry :: rest } = view inst state := by
    apply view_congr
    rfl
  have hentry : viewEntry inst { state with queue := entry :: rest } = viewEntry inst state := by
    apply viewEntry_congr
    rfl
  have hindex := (h.queued entry (by simp)).1
  constructor
  · rw [h.queue, hentry]
    rfl
  · have hmem := (h.live_iff hindex).mp hlive
    rw [hview] at hmem
    exact hmem

/-- The incumbent bound prunes the label on both sides, or on neither. -/
theorem Stands.bounded (h : Stands inst { state with queue := entry :: rest } search)
    (label : ExactLabel K) :
    state.best.any (fun best => label.distance ≥ best.distance - epsilon) = true ↔
      ∃ incumbent ∈ search.best, (view inst state label).distance ≥ incumbent.distance - epsilon := by
  rw [h.best]
  cases hbest : state.best with
  | none => simp
  | some best => simp [view]

variable (distance) in
/-- A pass that prunes the popped label. -/
theorem Stands.pruned_pass (h : Stands inst { state with queue := entry :: rest } search)
    (hlive : (state.label entry.labelIndex).live = true) (order : List (Node K))
    (hbest : state.best.any
      (fun best => (state.label entry.labelIndex).distance ≥ best.distance - epsilon) = true) :
    ∃ next, (inst.withDistance distance epsilon).step order search = some next ∧
      Stands inst { state with queue := rest, pruned := state.pruned + 1 } next := by
  obtain ⟨hqueue, hmem⟩ := h.head hlive
  have hincumbent := (h.bounded (state.label entry.labelIndex)).mp hbest
  have hentry : viewEntry inst { state with queue := entry :: rest } = viewEntry inst state := by
    apply viewEntry_congr
    rfl
  refine ⟨{ search with queue := rest.map (viewEntry inst state), pruned := search.pruned + 1 }, ?_, ?_⟩
  · simp only [Problem.step, hqueue]
    rw [if_neg (not_not_intro hmem)]
    exact if_pos hincumbent
  · refine h.counted rfl rfl (List.suffix_cons entry rest) rfl rfl rfl ?_ rfl rfl h.generated h.expanded ?_
    · rw [hentry]
    · exact congrArg (· + 1) h.pruned

variable (distance) in
/-- A pass that expands the popped label: the native search has the requests of its successors to serve. -/
theorem Stands.expanded_pass (h : Stands inst { state with queue := entry :: rest } search)
    (hlive : (state.label entry.labelIndex).live = true) {order : List ℕ}
    (hcustomers : CustomerOrder inst order) (horder : state.order = order) (route : ℕ)
    (hbest : ¬ state.best.any
      (fun best => (state.label entry.labelIndex).distance ≥ best.distance - epsilon) = true) :
    ∃ label start, (inst.withDistance distance epsilon).step (order.map inst.node) search =
        some (((requestsOf (inst.tables distance) route entry.labelIndex state).map
          (fun request => (inst.node request.destination, request.progress))).foldl
            ((inst.withDistance distance epsilon).visit (order.map inst.node) label) start) ∧
      Serving inst order entry.labelIndex label
        (requestsOf (inst.tables distance) route entry.labelIndex state)
        { state with queue := rest, expanded := state.expanded + 1 } start := by
  obtain ⟨hqueue, hmem⟩ := h.head hlive
  have hopen := mt (h.bounded (state.label entry.labelIndex)).mpr hbest
  let expanded : ExactSearchState K := { state with queue := rest, expanded := state.expanded + 1 }
  let start : SearchState K :=
    { search with queue := rest.map (viewEntry inst state), expanded := search.expanded + 1 }
  have hview : view inst expanded = view inst state := by
    apply view_congr
    rfl
  have hentry : viewEntry inst { state with queue := entry :: rest } = viewEntry inst state := by
    apply viewEntry_congr
    rfl
  have hstands : Stands inst expanded start := by
    refine h.counted rfl rfl (List.suffix_cons entry rest) rfl rfl rfl ?_ rfl rfl h.generated ?_ h.pruned
    · rw [hentry]
    · exact congrArg (· + 1) h.expanded
  have hindex : entry.labelIndex < state.labels.length := (h.queued entry (by simp)).1
  obtain ⟨hrequests, hnodup⟩ := requestsOf_destinations distance hcustomers route
    entry.labelIndex horder
  refine ⟨view inst state (state.label entry.labelIndex), start, ?_, hstands, horder, hindex, ?_, ?_,
    hnodup, ?_, ?_⟩
  · rw [requestsOf_successors distance epsilon route horder (h.node_lt _ hindex)]
    simp only [Problem.step, hqueue]
    rw [if_neg (not_not_intro hmem)]
    exact if_neg hopen
  · rw [hview]
    rfl
  · exact fun request hrequest => (hrequests request hrequest).2
  · have honce := h.once
    rw [List.map_cons, List.nodup_cons] at honce
    exact honce.1
  · intro child hchild hchildOf
    exact absurd (List.mem_cons_self) (h.fresh child hchild entry.labelIndex hchildOf)

end Passes

end Simulation

end Native

end TxnOpt.Evrptw
