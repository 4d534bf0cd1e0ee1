import TxnOpt.Evrptw.Proof.Exactness
import Mathlib.Algebra.Order.Archimedean.Basic
import Mathlib.Algebra.BigOperators.Group.List.Lemmas
import Mathlib.Order.Filter.AtTopBot.Basic
import Mathlib.Order.OrderIsoNat
import Mathlib.Tactic.NormNum

/-!
# Termination of the charging search

Distances of popped labels never fall. While they stay below a bound, paths stay short unless a cycle of
stations of length zero is closed, and the queue runs dry; so in an endless run they pass every bound.
At one station, with a full battery, dominance lowers the sum of time and distance, so labels expanded late
are earlier and earlier, by more than the tolerance: time windows forbid this, stations are expanded only
finitely often, and between stations only the customers of the order remain.
-/

namespace TxnOpt.Evrptw

namespace Problem

section Cycles

variable {K : Type} [CommRing K] [LinearOrder K] (problem : Problem K) (order : List (Node K))

/-- The nodes of a path, latest first, since its last customer or its last leg of positive length. -/
def zeroTail : List (Node K) → List (Node K)
  | [] => []
  | [node] => [node]
  | node :: previous :: rest =>
      if node.kind = .customer ∨ 0 < (problem.leg previous node).distance then [node]
      else node :: zeroTail (previous :: rest)

/-- Going to `destination` closes a cycle of stations without driving any distance. -/
def ClosesZeroCycle (label : ChargingLabel K) (destination : Node K) : Prop :=
  destination.kind = .station ∧ ¬ 0 < (problem.leg label.node destination).distance ∧
    destination ∈ problem.zeroTail label.path.reverse

/-- The next pass of the queue loop keeps a label that closes such a cycle. -/
def KeepsZeroCycle (state : SearchState K) : Prop :=
  ∃ entry rest, state.queue = entry :: rest ∧ entry.label ∈ state.labels entry.label.key ∧
    (∀ incumbent ∈ state.best, ¬ entry.label.distance ≥ incumbent.distance - problem.epsilon) ∧
    ∃ successor candidate, problem.ClosesZeroCycle entry.label successor.1 ∧
      problem.Kept order state entry.label successor candidate

/-- An endless run of the queue loop. -/
structure Endless (run : ℕ → SearchState K) : Prop where
  start : run 0 = problem.initialState
  next : ∀ n, problem.step order (run n) = some (run (n + 1))

theorem endless_of_queueLoop
    (h : ∀ fuel, problem.queueLoop order fuel problem.initialState = none) :
    ∃ run, problem.Endless order run := by
  let run : ℕ → SearchState K := fun n =>
    (fun state => (problem.step order state).getD state)^[n] problem.initialState
  have hrun : ∀ n, run (n + 1) = (problem.step order (run n)).getD (run n) :=
    fun n => Function.iterate_succ_apply' _ n _
  have hloop : ∀ n, ∀ fuel, problem.queueLoop order fuel (run n) = none := by
    intro n
    induction n with
    | zero => exact h
    | succ n ih =>
        intro fuel
        have hnext := ih (fuel + 1)
        rw [hrun]
        cases hstep : problem.step order (run n) with
        | none => simp [queueLoop, hstep] at hnext
        | some next => simpa [queueLoop, hstep] using hnext
  refine ⟨run, rfl, ?_⟩
  intro n
  rw [hrun]
  cases hstep : problem.step order (run n) with
  | none =>
      have hnext := hloop n 1
      simp [queueLoop, hstep] at hnext
  | some next => rfl

variable {problem order} in
theorem Endless.reachable {run : ℕ → SearchState K} (h : problem.Endless order run) (n : ℕ) :
    (problem.search order).Reachable (run n) := by
  induction n with
  | zero => exact .init h.start
  | succ n ih => exact .step ih (h.next n)

end Cycles

/-! ### The load of the queue -/

section Load

variable {K : Type} [CommRing K] [LinearOrder K] {problem : Problem K} {order : List (Node K)}

def load (weight : ChargingLabel K → ℕ) (queue : List (QueueEntry K)) : ℕ :=
  (queue.map (fun entry => weight entry.label)).sum

omit [CommRing K] in
theorem load_heappush (weight : ChargingLabel K → ℕ) (queue : List (QueueEntry K))
    (entry : QueueEntry K) :
    load weight (heappush queue entry) = weight entry.label + load weight queue := by
  have hperm := (List.perm_orderedInsert
    (fun left right : QueueEntry K => left.priority ≤ right.priority) entry queue).map
      (fun entry => weight entry.label)
  exact hperm.sum_eq

/-- A pass lowers the load if the popped label outweighs all the labels its expansion keeps. -/
theorem load_step_lt (weight : ChargingLabel K → ℕ) {state next : SearchState K}
    (hstep : problem.step order state = some next)
    (hpositive : ∀ entry rest, state.queue = entry :: rest → 0 < weight entry.label)
    (hkept : ∀ entry rest, state.queue = entry :: rest →
      entry.label ∈ state.labels entry.label.key →
      (∀ incumbent ∈ state.best, ¬ entry.label.distance ≥ incumbent.distance - problem.epsilon) →
      ∀ successor candidate, problem.Kept order state entry.label successor candidate →
      ((problem.successors order entry.label).length + 1) * weight candidate ≤ weight entry.label) :
    load weight next.queue < load weight state.queue := by
  obtain ⟨entry, rest, hqueue, hcases⟩ := problem.step_cases order hstep
  have hpos := hpositive entry rest hqueue
  have hload : load weight state.queue = weight entry.label + load weight rest := by
    simp [hqueue, load]
  rw [hload]
  rcases hcases with ⟨-, rfl⟩ | ⟨-, -, rfl⟩ | ⟨hlive, hbest, rfl⟩
  · change load weight rest < _
    omega
  · change load weight rest < _
    omega
  · have hchild := hkept entry rest hqueue hlive hbest
    have hexpand : ((problem.successors order entry.label).length + 1) *
        load weight (problem.expand order { state with queue := rest } entry.label).queue ≤
        ((problem.successors order entry.label).length + 1) * load weight rest +
          (problem.successors order entry.label).length * weight entry.label := by
      refine problem.expand_rule order
        (motive := fun current done => ((problem.successors order entry.label).length + 1) *
          load weight current.queue ≤
          ((problem.successors order entry.label).length + 1) * load weight rest +
            done.length * weight entry.label) ?_ ?_ ?_
      · change _ * load weight rest ≤ _
        omega
      · intro current next done successor hcurrent _ hsame
        have hlength : (done ++ [successor]).length * weight entry.label =
            done.length * weight entry.label + weight entry.label := by
          rw [List.length_append, List.length_singleton, add_mul, one_mul]
        rw [hsame, hlength]
        omega
      · intro current next done successor candidate hcurrent hcandidate _ _ hpushed
        have hcandidate' := hchild successor candidate
          ⟨hcandidate.member, hcandidate.extended, hcandidate.opened, hcandidate.undominated⟩
        have hlength : (done ++ [successor]).length * weight entry.label =
            done.length * weight entry.label + weight entry.label := by
          rw [List.length_append, List.length_singleton, add_mul, one_mul]
        rw [hpushed, load_heappush, mul_add, hlength]
        change ((problem.successors order entry.label).length + 1) * weight candidate + _ ≤ _
        omega
    by_contra hle
    have hmul : ((problem.successors order entry.label).length + 1) *
        (weight entry.label + load weight rest) ≤
        ((problem.successors order entry.label).length + 1) *
          load weight (problem.expand order { state with queue := rest } entry.label).queue :=
      Nat.mul_le_mul_left _ (not_lt.mp hle)
    rw [mul_add, add_mul] at hmul
    omega

end Load

/-! ### Popped distances never fall -/

section Sorted

variable {K : Type} [CommRing K] [LinearOrder K] {problem : Problem K} {order : List (Node K)}

omit [CommRing K] in
theorem heappush_sorted {queue : List (QueueEntry K)} (entry : QueueEntry K)
    (h : queue.Pairwise (fun left right => left.priority ≤ right.priority)) :
    (heappush queue entry).Pairwise (fun left right => left.priority ≤ right.priority) := by
  have : Std.Total (fun left right : QueueEntry K => left.priority ≤ right.priority) :=
    ⟨fun left right => le_total _ _⟩
  have : IsTrans (QueueEntry K) (fun left right => left.priority ≤ right.priority) :=
    ⟨fun _ _ _ => le_trans⟩
  exact h.orderedInsert entry queue

theorem sorted_of_reachable {state : SearchState K} (h : (problem.search order).Reachable state) :
    state.queue.Pairwise (fun left right => left.priority ≤ right.priority) := by
  induction h with
  | init hinit =>
      subst hinit
      exact List.pairwise_singleton _ _
  | step _ hnext ih =>
    obtain ⟨entry, rest, hqueue, hcases⟩ := problem.step_cases order hnext
    rw [hqueue, List.pairwise_cons] at ih
    rcases hcases with ⟨-, rfl⟩ | ⟨-, -, rfl⟩ | ⟨-, -, rfl⟩
    · exact ih.2
    · exact ih.2
    · refine problem.expand_rule order
        (motive := fun current _ =>
          current.queue.Pairwise (fun left right => left.priority ≤ right.priority)) ?_ ?_ ?_
      · exact ih.2
      · intro current next _ _ hcurrent _ hsame
        rw [hsame]
        exact hcurrent
      · intro current next _ _ candidate hcurrent _ _ _ hpushed
        rw [hpushed]
        exact heappush_sorted _ hcurrent

/-- All queued labels are at least this far. -/
def AtLeast (distance : K) (state : SearchState K) : Prop :=
  ∀ entry ∈ state.queue, distance ≤ entry.label.distance

/-- The popped label is a nearest one. -/
theorem atLeast_head {state : SearchState K} (h : (problem.search order).Reachable state)
    {entry : QueueEntry K} {rest : List (QueueEntry K)} (hqueue : state.queue = entry :: rest) :
    AtLeast entry.label.distance state := by
  have hsorted := sorted_of_reachable h
  rw [hqueue, List.pairwise_cons] at hsorted
  intro other hmem
  rw [hqueue] at hmem
  rcases List.mem_cons.mp hmem with rfl | hmem
  · exact le_refl _
  · have hpriority := hsorted.1 other hmem
    rcases Prod.Lex.toLex_le_toLex.mp hpriority with hlt | ⟨heq, -⟩
    · exact le_of_lt hlt
    · exact le_of_eq heq

variable [IsStrictOrderedRing K]

theorem distance_le_extend (hdistance : ∀ origin destination, 0 ≤ (problem.leg origin destination).distance)
    {label candidate : ChargingLabel K} {destination : Node K} {progress : ℕ}
    (h : problem.extend label destination progress = some candidate) :
    label.distance ≤ candidate.distance := by
  obtain ⟨-, rfl⟩ := problem.extend_eq_some.mp h
  exact le_add_of_nonneg_right (hdistance _ _)

theorem atLeast_step (hdistance : ∀ origin destination, 0 ≤ (problem.leg origin destination).distance)
    {distance : K} {state next : SearchState K} (h : AtLeast distance state)
    (hstep : problem.step order state = some next) : AtLeast distance next := by
  obtain ⟨entry, rest, hqueue, hcases⟩ := problem.step_cases order hstep
  have hrest : ∀ other ∈ rest, distance ≤ other.label.distance := by
    intro other hmem
    exact h other (by simp [hqueue, hmem])
  have hentry : distance ≤ entry.label.distance := h entry (by simp [hqueue])
  rcases hcases with ⟨-, rfl⟩ | ⟨-, -, rfl⟩ | ⟨-, -, rfl⟩
  · exact hrest
  · exact hrest
  · refine problem.expand_rule order (motive := fun current _ => AtLeast distance current) hrest ?_ ?_
    · intro current next _ _ hcurrent _ hsame other hmem
      exact hcurrent other (hsame ▸ hmem)
    · intro current next _ _ candidate hcurrent hcandidate _ _ hpushed other hmem
      rw [hpushed, mem_heappush] at hmem
      rcases hmem with rfl | hmem
      · exact hentry.trans (distance_le_extend hdistance hcandidate.extended)
      · exact hcurrent other hmem

theorem Endless.atLeast {run : ℕ → SearchState K} (hrun : problem.Endless order run)
    (hdistance : ∀ origin destination, 0 ≤ (problem.leg origin destination).distance) {distance : K}
    {n m : ℕ} (hle : n ≤ m) (h : AtLeast distance (run n)) : AtLeast distance (run m) := by
  induction hle with
  | refl => exact h
  | step _ ih => exact atLeast_step hdistance ih (hrun.next _)

end Sorted

/-! ### Paths are short as long as distances are bounded -/

section Paths

variable {K : Type} [CommRing K] [LinearOrder K] {problem : Problem K} {order : List (Node K)}

/-- A list has a positive lower bound on its positive members. -/
theorem exists_pos_le [IsStrictOrderedRing K] (values : List K) :
    ∃ least : K, 0 < least ∧ ∀ value ∈ values, 0 < value → least ≤ value := by
  induction values with
  | nil => exact ⟨1, one_pos, by simp⟩
  | cons value rest ih =>
      obtain ⟨least, hpos, hle⟩ := ih
      by_cases hvalue : 0 < value
      · refine ⟨min value least, lt_min hvalue hpos, ?_⟩
        intro other hmem hother
        rcases List.mem_cons.mp hmem with rfl | hmem
        · exact min_le_left _ _
        · exact (min_le_right _ _).trans (hle other hmem hother)
      · refine ⟨least, hpos, ?_⟩
        intro other hmem hother
        rcases List.mem_cons.mp hmem with rfl | hmem
        · exact absurd hother hvalue
        · exact hle other hmem hother

/-- The positive legs of a path, each at least `least` long, and its length in blocks without repetition. -/
structure ShortPath (problem : Problem K) (least : K) (label : ChargingLabel K) : Prop where
  node : label.node ∈ problem.nodes
  ends : ∃ earlier, label.path.reverse = label.node :: earlier
  distinct : (problem.zeroTail label.path.reverse).Nodup
  known : ∀ node ∈ problem.zeroTail label.path.reverse, node ∈ problem.nodes
  length : ∃ positive : ℕ, positive • least ≤ label.distance ∧
    label.path.length ≤ (label.progress + positive) * problem.nodes.length +
      (problem.zeroTail label.path.reverse).length

theorem ShortPath.tail_length {least : K} {label : ChargingLabel K} (h : problem.ShortPath least label) :
    (problem.zeroTail label.path.reverse).length ≤ problem.nodes.length :=
  (List.subperm_of_subset h.distinct h.known).length_le

theorem shortPath_initial (least : K) : problem.ShortPath least problem.initialLabel := by
  refine ⟨problem.depot_mem.1, ⟨[], rfl⟩, ?_, ?_, 0, ?_, ?_⟩
  · exact List.nodup_singleton _
  · intro node hmem
    obtain rfl := List.mem_singleton.mp hmem
    exact problem.depot_mem.1
  · rw [zero_nsmul]
    exact le_refl (0 : K)
  · exact Nat.le_add_left _ _

variable [IsStrictOrderedRing K]

theorem shortPath_extend {least : K}
    (horder : ∀ customer ∈ order, customer ∈ problem.nodes ∧ customer.kind = .customer)
    (hleast : ∀ origin ∈ problem.nodes, ∀ destination ∈ problem.nodes,
      0 < (problem.leg origin destination).distance → least ≤ (problem.leg origin destination).distance)
    (hdistance : ∀ origin destination, 0 ≤ (problem.leg origin destination).distance)
    {label candidate : ChargingLabel K} {successor : Node K × ℕ} (hlabel : problem.ShortPath least label)
    (hprogress : label.progress ≤ order.length)
    (hsuccessor : successor ∈ problem.successors order label) (hopen : ¬ Closes order successor)
    (hextend : problem.extend label successor.1 successor.2 = some candidate)
    (hcycle : ¬ problem.ClosesZeroCycle label successor.1) : problem.ShortPath least candidate := by
  obtain ⟨-, rfl⟩ := problem.extend_eq_some.mp hextend
  obtain ⟨earlier, hends⟩ := hlabel.ends
  obtain ⟨positive, hpositive, hlength⟩ := hlabel.length
  have hpath : (label.path ++ [successor.1]).reverse = successor.1 :: label.node :: earlier := by
    rw [List.reverse_append, hends]
    rfl
  have htailLength := hlabel.tail_length
  have hkinds := open_successor horder hprogress hsuccessor hopen
  have hmember : successor.1 ∈ problem.nodes := by
    rcases hkinds with h | h
    · exact h.2.2
    · exact h.2.2
  by_cases hbreak : successor.1.kind = .customer ∨
      0 < (problem.leg label.node successor.1).distance
  · have htail : problem.zeroTail (label.path ++ [successor.1]).reverse = [successor.1] := by
      rw [hpath, zeroTail, if_pos hbreak]
    refine ⟨hmember, ⟨_, hpath⟩, ?_, ?_, ?_⟩
    · change (problem.zeroTail (label.path ++ [successor.1]).reverse).Nodup
      rw [htail]
      exact List.nodup_singleton _
    · change ∀ node ∈ problem.zeroTail (label.path ++ [successor.1]).reverse, node ∈ problem.nodes
      rw [htail]
      intro node hmem
      obtain rfl := List.mem_singleton.mp hmem
      exact hmember
    · change ∃ positive : ℕ,
        positive • least ≤ label.distance + (problem.leg label.node successor.1).distance ∧
          (label.path ++ [successor.1]).length ≤ (successor.2 + positive) * problem.nodes.length +
            (problem.zeroTail (label.path ++ [successor.1]).reverse).length
      rw [htail, List.length_append, List.length_singleton]
      by_cases hleg : 0 < (problem.leg label.node successor.1).distance
      · refine ⟨positive + 1, ?_, ?_⟩
        · rw [succ_nsmul]
          exact add_le_add hpositive (hleast _ hlabel.node _ hmember hleg)
        · have hmul : (label.progress + positive) * problem.nodes.length + problem.nodes.length ≤
              (successor.2 + (positive + 1)) * problem.nodes.length := by
            rw [← Nat.succ_mul]
            apply Nat.mul_le_mul_right
            rcases hkinds with ⟨-, h, -⟩ | ⟨-, h, -⟩ <;> omega
          omega
      · refine ⟨positive, hpositive.trans (le_add_of_nonneg_right (hdistance _ _)), ?_⟩
        have hcustomer := hbreak.resolve_right hleg
        have hmul : (label.progress + positive) * problem.nodes.length + problem.nodes.length ≤
            (successor.2 + positive) * problem.nodes.length := by
          rw [← Nat.succ_mul]
          apply Nat.mul_le_mul_right
          rcases hkinds with ⟨-, h, -⟩ | ⟨h, -, -⟩
          · omega
          · rw [hcustomer] at h
            exact absurd h (by decide)
        omega
  · have htail : problem.zeroTail (label.path ++ [successor.1]).reverse =
        successor.1 :: problem.zeroTail label.path.reverse := by
      rw [hpath, zeroTail, if_neg hbreak, hends]
    rw [not_or] at hbreak
    obtain ⟨hkind, hsame, -⟩ := hkinds.resolve_left (fun h => hbreak.1 h.1)
    have hfresh : successor.1 ∉ problem.zeroTail label.path.reverse :=
      fun hmem => hcycle ⟨hkind, hbreak.2, hmem⟩
    refine ⟨hmember, ⟨_, hpath⟩, ?_, ?_, positive, ?_, ?_⟩
    · change (problem.zeroTail (label.path ++ [successor.1]).reverse).Nodup
      rw [htail]
      exact List.nodup_cons.mpr ⟨hfresh, hlabel.distinct⟩
    · change ∀ node ∈ problem.zeroTail (label.path ++ [successor.1]).reverse, node ∈ problem.nodes
      rw [htail]
      intro node hmem
      rcases List.mem_cons.mp hmem with rfl | hmem
      · exact hmember
      · exact hlabel.known node hmem
    · exact hpositive.trans (le_add_of_nonneg_right (hdistance _ _))
    · change (label.path ++ [successor.1]).length ≤ (successor.2 + positive) * problem.nodes.length +
          (problem.zeroTail (label.path ++ [successor.1]).reverse).length
      rw [htail, hsame, List.length_append, List.length_singleton, List.length_cons]
      omega

end Paths

/-! ### Distances pass every bound -/

section Far

variable {K : Type} [CommRing K] [LinearOrder K] [IsStrictOrderedRing K] {problem : Problem K}
  {order : List (Node K)} {run : ℕ → SearchState K}

/-- What the endless runs of this section have in common. -/
structure Acyclic (problem : Problem K) (order : List (Node K)) (run : ℕ → SearchState K) : Prop where
  endless : problem.Endless order run
  customers : ∀ customer ∈ order, customer ∈ problem.nodes ∧ customer.kind = .customer
  distance : ∀ origin destination, 0 ≤ (problem.leg origin destination).distance
  cycles : ∀ n, ¬ problem.KeepsZeroCycle order (run n)

omit [IsStrictOrderedRing K] in
theorem Acyclic.proper (h : problem.Acyclic order run) (n : ℕ) :
    problem.Every order (problem.Proper order) (run n) :=
  every_proper (fun customer hmem => (h.customers customer hmem).1) (h.endless.reachable n)

theorem Acyclic.shortPath (h : problem.Acyclic order run) {least : K}
    (hleast : ∀ origin ∈ problem.nodes, ∀ destination ∈ problem.nodes,
      0 < (problem.leg origin destination).distance → least ≤ (problem.leg origin destination).distance)
    (n : ℕ) : ∀ entry ∈ (run n).queue, problem.ShortPath least entry.label := by
  induction n with
  | zero =>
      intro entry hmem
      rw [h.endless.start] at hmem
      obtain rfl := List.mem_singleton.mp hmem
      exact shortPath_initial least
  | succ n ih =>
      obtain ⟨entry, rest, hqueue, hcases⟩ := problem.step_cases order (h.endless.next n)
      have hrest : ∀ other ∈ rest, problem.ShortPath least other.label := by
        intro other hmem
        exact ih other (by simp [hqueue, hmem])
      rcases hcases with ⟨-, hnext⟩ | ⟨-, -, hnext⟩ | ⟨hlive, hbest, hnext⟩
      · rw [hnext]
        exact hrest
      · rw [hnext]
        exact hrest
      · rw [hnext]
        refine problem.expand_rule order
          (motive := fun current _ => ∀ other ∈ current.queue, problem.ShortPath least other.label)
          ?_ ?_ ?_
        · exact hrest
        · intro current next _ _ hcurrent _ hsame other hmem
          exact hcurrent other (hsame ▸ hmem)
        · intro current next _ successor candidate hcurrent hkept _ _ hpushed other hmem
          rw [hpushed, mem_heappush] at hmem
          rcases hmem with rfl | hmem
          · have hentry := ih entry (by simp [hqueue])
            have hprogress := ((h.proper n).queued entry (by simp [hqueue])).progress
            apply shortPath_extend h.customers hleast h.distance hentry hprogress hkept.member hkept.opened
              hkept.extended
            intro hcycle
            exact h.cycles n ⟨entry, rest, hqueue, hlive, hbest, successor, candidate, hcycle,
              ⟨hkept.member, hkept.extended, hkept.opened, hkept.undominated⟩⟩
          · exact hcurrent other hmem

variable (problem order) in
omit [IsStrictOrderedRing K] in
theorem successors_length (label : ChargingLabel K) :
    (problem.successors order label).length ≤ problem.stations.length + 1 := by
  rw [successors, List.length_cons, List.length_map]
  have := List.length_filter_le (fun station => decide (station.name ≠ label.node.name))
    problem.stations
  omega

omit [IsStrictOrderedRing K] in
/-- No weight of labels can fall at every pass. -/
theorem Endless.not_load_lt (_h : problem.Endless order run) (weight : ChargingLabel K → ℕ) (start : ℕ)
    (hfalls : ∀ n, start ≤ n → load weight (run (n + 1)).queue < load weight (run n).queue) : False := by
  apply not_strictAnti_of_wellFoundedLT (fun k => load weight (run (start + k)).queue)
  apply strictAnti_nat_of_succ_lt
  intro k
  exact hfalls (start + k) (Nat.le_add_right _ _)

variable [Archimedean K]

/-- The lengths of paths up to a distance are bounded. -/
theorem Acyclic.path_length (h : problem.Acyclic order run) (bound : K) :
    ∃ longest : ℕ, ∀ n entry rest successor candidate, (run n).queue = entry :: rest →
      entry.label ∈ (run n).labels entry.label.key →
      (∀ incumbent ∈ (run n).best,
        ¬ entry.label.distance ≥ incumbent.distance - problem.epsilon) →
      problem.Kept order (run n) entry.label successor candidate → candidate.distance ≤ bound →
      candidate.path.length ≤ longest := by
  obtain ⟨least, hpos, hbelow⟩ := exists_pos_le
    (problem.nodes.flatMap (fun origin => problem.nodes.map
      (fun destination => (problem.leg origin destination).distance)))
  have hleast : ∀ origin ∈ problem.nodes, ∀ destination ∈ problem.nodes,
      0 < (problem.leg origin destination).distance →
        least ≤ (problem.leg origin destination).distance := by
    intro origin horigin destination hdestination
    apply hbelow
    rw [List.mem_flatMap]
    exact ⟨origin, horigin, List.mem_map_of_mem hdestination⟩
  obtain ⟨count, hcount⟩ := Archimedean.arch bound hpos
  refine ⟨(order.length + count) * problem.nodes.length + problem.nodes.length, ?_⟩
  intro n entry rest successor candidate hqueue hlive hbest hkept hle
  have hentry := h.shortPath hleast n entry (by simp [hqueue])
  have hproper := (h.proper n).queued entry (by simp [hqueue])
  have hcandidate : problem.ShortPath least candidate := by
    apply shortPath_extend h.customers hleast h.distance hentry hproper.progress hkept.member hkept.opened
      hkept.extended
    intro hcycle
    exact h.cycles n ⟨entry, rest, hqueue, hlive, hbest, successor, candidate, hcycle, hkept⟩
  have hprogress := (proper_extend (fun customer hmem => (h.customers customer hmem).1) hproper
    hkept.member hkept.extended).progress
  obtain ⟨positive, hpositive, hlength⟩ := hcandidate.length
  have hfew : positive ≤ count := by
    by_contra hmore
    have hlt := nsmul_left_strictMono hpos (not_le.mp hmore)
    exact absurd ((hpositive.trans hle).trans hcount) (not_le.mpr hlt)
  have htail := hcandidate.tail_length
  have hmul : (candidate.progress + positive) * problem.nodes.length ≤
      (order.length + count) * problem.nodes.length :=
    Nat.mul_le_mul_right _ (Nat.add_le_add hprogress hfew)
  omega

/-- In an endless run the queued distances pass every bound. -/
theorem Acyclic.far (h : problem.Acyclic order run) (bound : K) :
    ∃ start, ∀ n, start ≤ n → ∀ entry ∈ (run n).queue, bound < entry.label.distance := by
  by_contra hnear
  -- otherwise every popped label is within the bound
  have hpopped : ∀ n entry rest, (run n).queue = entry :: rest → entry.label.distance ≤ bound := by
    intro n entry rest hqueue
    by_contra hfar
    apply hnear
    refine ⟨n, ?_⟩
    intro m hle other hmem
    have hhead := atLeast_head (h.endless.reachable n) hqueue
    exact lt_of_lt_of_le (not_le.mp hfar) (h.endless.atLeast h.distance hle hhead other hmem)
  obtain ⟨longest, hlongest⟩ := h.path_length bound
  let weight : ChargingLabel K → ℕ := fun label =>
    if label.distance ≤ bound then (problem.stations.length + 2) ^ (longest - label.path.length) else 0
  have hweight : ∀ label, label.distance ≤ bound →
      weight label = (problem.stations.length + 2) ^ (longest - label.path.length) :=
    fun label hle => if_pos hle
  apply h.endless.not_load_lt weight 0
  intro n _
  apply load_step_lt weight (h.endless.next n)
  · intro entry rest hqueue
    rw [hweight _ (hpopped n entry rest hqueue)]
    exact Nat.pow_pos (Nat.succ_pos _)
  · intro entry rest hqueue hlive hbest successor candidate hkept
    by_cases hle : candidate.distance ≤ bound
    · have hshort := hlongest n entry rest successor candidate hqueue hlive hbest hkept hle
      have hpath : candidate.path.length = entry.label.path.length + 1 := by
        obtain ⟨-, hreached⟩ := problem.extend_eq_some.mp hkept.extended
        rw [hreached]
        exact List.length_append
      have hexponent : longest - entry.label.path.length =
          (longest - candidate.path.length) + 1 := by
        omega
      rw [hweight _ hle, hweight _ (hpopped n entry rest hqueue), hexponent, pow_succ, mul_comm]
      apply Nat.mul_le_mul_left
      have := successors_length problem order entry.label
      omega
    · have hzero : weight candidate = 0 := if_neg hle
      rw [hzero, Nat.mul_zero]
      exact Nat.zero_le _

end Far

/-! ### Time at the stations -/

section Times

variable {K : Type} [CommRing K] [LinearOrder K] [IsStrictOrderedRing K] {problem : Problem K}
  {order : List (Node K)}

omit [CommRing K] [IsStrictOrderedRing K] in
theorem exists_le_of_list [Nonempty K] (values : List K) : ∃ bound, ∀ value ∈ values, value ≤ bound := by
  induction values with
  | nil => exact ⟨Classical.arbitrary K, by simp⟩
  | cons value rest ih =>
      obtain ⟨bound, hbound⟩ := ih
      refine ⟨max value bound, ?_⟩
      intro other hmem
      rcases List.mem_cons.mp hmem with rfl | hmem
      · exact le_max_left _ _
      · exact (hbound other hmem).trans (le_max_right _ _)

/-- Charge grows by at most `gain` at a customer; at a station the clock stays within `bound`. -/
structure Timed (problem : Problem K) (gain bound : K) (label : ChargingLabel K) : Prop where
  battery : label.battery ≤ |problem.vehicle.batteryCapacity| + label.progress • gain
  clock : label.node.kind = .station → -bound ≤ label.elapsedTime ∧ label.elapsedTime ≤ bound

/-- The clocks of all labels at stations are bounded, whatever the signs of the rates. -/
theorem exists_clock_bound
    (horder : ∀ customer ∈ order, customer ∈ problem.nodes ∧ customer.kind = .customer) :
    ∃ bound, ∀ {state : SearchState K}, (problem.search order).Reachable state →
      problem.Every order (fun label => label.node.kind = .station →
        -bound ≤ label.elapsedTime ∧ label.elapsedTime ≤ bound) state := by
  obtain ⟨gain, hgain⟩ := exists_le_of_list (0 :: problem.nodes.flatMap (fun origin =>
    problem.nodes.map (fun destination => -(problem.leg origin destination).energy)))
  obtain ⟨window, hwindow⟩ := exists_le_of_list
    (problem.nodes.map (fun node => -node.readyTime) ++ problem.nodes.map Node.dueDate)
  have hnonneg : 0 ≤ gain := hgain 0 (by simp)
  have henergy : ∀ origin ∈ problem.nodes, ∀ destination ∈ problem.nodes,
      -(problem.leg origin destination).energy ≤ gain := by
    intro origin horigin destination hdestination
    apply hgain
    rw [List.mem_cons, List.mem_flatMap]
    exact .inr ⟨origin, horigin, List.mem_map_of_mem hdestination⟩
  let capacity := |problem.vehicle.batteryCapacity|
  let rate := |problem.vehicle.inverseRefuelingRate|
  let longest := (capacity + (capacity + (order.length + 1) • gain)) * rate
  let bound := window + |problem.epsilon| + longest
  refine ⟨bound, ?_⟩
  have hstep : ∀ label successor candidate,
      (problem.Proper order label ∧ problem.Timed gain bound label) →
      successor ∈ problem.successors order label → ¬ Closes order successor →
      problem.extend label successor.1 successor.2 = some candidate →
      problem.Proper order candidate ∧ problem.Timed gain bound candidate := by
    intro label successor candidate ⟨hproper, htimed⟩ hsuccessor hopen hextend
    have hcandidate := proper_extend (fun customer hmem => (horder customer hmem).1) hproper
      hsuccessor hextend
    refine ⟨hcandidate, ?_⟩
    obtain ⟨haccepts, rfl⟩ := problem.extend_eq_some.mp hextend
    have hmember : successor.1 ∈ problem.nodes := hcandidate.node
    have hused := henergy _ hproper.node _ hmember
    have hcapacity : 0 ≤ capacity := abs_nonneg _
    have hlevel : remaining label.battery (problem.leg label.node successor.1) ≤
        capacity + (label.progress + 1) • gain := by
      apply max_le
      · exact add_nonneg hcapacity (nsmul_nonneg hnonneg _)
      · have hbattery := htimed.battery
        rw [succ_nsmul]
        change label.battery - _ ≤ |problem.vehicle.batteryCapacity| + _
        linarith
    have hleveled : 0 ≤ remaining label.battery (problem.leg label.node successor.1) :=
      le_max_left _ _
    by_cases hkind : successor.1.kind = .station
    · have hfull := hcandidate.full hkind
      refine ⟨?_, fun _ => ⟨?_, ?_⟩⟩
      · rw [hfull]
        exact (le_abs_self _).trans (le_add_of_nonneg_right (nsmul_nonneg hnonneg _))
      · have hready : -successor.1.readyTime ≤ window := by
          apply hwindow
          rw [List.mem_append]
          exact .inl (List.mem_map_of_mem (f := fun node : Node K => -node.readyTime) hmember)
        have harrival : successor.1.readyTime ≤
            arrival label.elapsedTime (problem.leg label.node successor.1) successor.1 :=
          le_max_right _ _
        have hprogress : (label.progress + 1) • gain ≤ (order.length + 1) • gain :=
          nsmul_le_nsmul_left hnonneg (Nat.add_le_add_right hproper.progress 1)
        have hcharge : |problem.vehicle.batteryCapacity -
            remaining label.battery (problem.leg label.node successor.1)| ≤
              capacity + (capacity + (order.length + 1) • gain) := by
          rw [abs_le]
          have hself := le_abs_self problem.vehicle.batteryCapacity
          have hneg := neg_abs_le problem.vehicle.batteryCapacity
          have hgains : 0 ≤ (order.length + 1) • gain := nsmul_nonneg hnonneg _
          change 0 ≤ |problem.vehicle.batteryCapacity| at hcapacity
          change _ ≤ |problem.vehicle.batteryCapacity| + _ at hlevel
          change -(|problem.vehicle.batteryCapacity| +
              (|problem.vehicle.batteryCapacity| + (order.length + 1) • gain)) ≤ _ ∧
            _ ≤ |problem.vehicle.batteryCapacity| +
              (|problem.vehicle.batteryCapacity| + (order.length + 1) • gain)
          constructor <;> linarith
        have hstay : -longest ≤ problem.stay successor.1
            (remaining label.battery (problem.leg label.node successor.1)) := by
          have habs := mul_le_mul_of_nonneg_right hcharge
            (abs_nonneg problem.vehicle.inverseRefuelingRate)
          rw [← abs_mul] at habs
          have hlower := (abs_le.mp habs).1
          have hrecharge : problem.stay successor.1
              (remaining label.battery (problem.leg label.node successor.1)) =
                (problem.vehicle.batteryCapacity -
                  remaining label.battery (problem.leg label.node successor.1)) *
                    problem.vehicle.inverseRefuelingRate := by
            simp [stay, chargeTime, hkind]
          rw [hrecharge]
          exact hlower
        have htolerance := abs_nonneg problem.epsilon
        change -(window + |problem.epsilon| + longest) ≤ arrival _ _ _ + problem.stay _ _
        linarith
      · have hdue : successor.1.dueDate ≤ window := by
          apply hwindow
          rw [List.mem_append]
          exact .inr (List.mem_map_of_mem hmember)
        have hrecharged := haccepts.recharges hkind
        have htolerance := le_abs_self problem.epsilon
        have hlongest : 0 ≤ longest := by
          apply mul_nonneg
          · exact add_nonneg hcapacity (add_nonneg hcapacity (nsmul_nonneg hnonneg _))
          · exact abs_nonneg _
        change arrival _ _ _ + problem.stay _ _ ≤ window + |problem.epsilon| + longest
        linarith
    · refine ⟨?_, fun hstation => absurd hstation hkind⟩
      have hcustomer : successor.2 = label.progress + 1 := by
        rcases open_successor horder hproper.progress hsuccessor hopen with ⟨-, h, -⟩ | ⟨h, -, -⟩
        · exact h
        · exact absurd h hkind
      change remaining _ _ + problem.charge _ _ ≤ capacity + successor.2 • gain
      rw [charge_of_ne _ hkind, add_zero, hcustomer]
      exact hlevel
  intro state hreachable
  have hevery := problem.every_of_reachable order
    (fun label => problem.Proper order label ∧ problem.Timed gain bound label) ?_ hstep hreachable
  · exact hevery.imp problem order (fun label hlabel => hlabel.2.clock)
  · refine ⟨⟨Nat.zero_le _, problem.depot_mem.1, ?_⟩, ?_, ?_⟩
    · intro hdepot
      have hkind : problem.initialLabel.node.kind = .depot := problem.depot_mem.2
      simp [hkind] at hdepot
    · change problem.vehicle.batteryCapacity ≤ _
      exact (le_abs_self _).trans (le_add_of_nonneg_right (nsmul_nonneg hnonneg _))
    · intro hdepot
      have hkind : problem.initialLabel.node.kind = .depot := problem.depot_mem.2
      simp [hkind] at hdepot

end Times

/-! ### Late labels are earlier -/

section Late

variable {K : Type} [CommRing K] [LinearOrder K] [IsStrictOrderedRing K] {problem : Problem K}
  {order : List (Node K)} {run : ℕ → SearchState K}

/-- No live label dominates another one at its key. -/
theorem antichain_of_reachable (htolerance : 0 < problem.epsilon) {state : SearchState K}
    (h : (problem.search order).Reachable state) :
    ∀ key, ∀ first ∈ state.labels key, ∀ second ∈ state.labels key,
      ¬ problem.dominates first second := by
  have hself : ∀ label, ¬ problem.dominates label label := by
    rintro label ⟨-, h | h | h⟩ <;> linarith
  induction h with
  | init hinit =>
      intro key first hfirst second hsecond
      subst hinit
      by_cases hkey : key = (0, problem.depot.name)
      · subst hkey
        simp only [initialState, Function.update_self, List.mem_singleton] at hfirst hsecond
        rw [hfirst, hsecond]
        exact hself _
      · simp [initialState, Function.update_of_ne hkey] at hfirst
  | @step state next _ hnext ih =>
      obtain ⟨entry, rest, -, hcases⟩ := problem.step_cases order hnext
      rcases hcases with ⟨-, rfl⟩ | ⟨-, -, rfl⟩ | ⟨-, -, rfl⟩
      · exact ih
      · exact ih
      · refine problem.expand_rule order
          (motive := fun current _ => ∀ key, ∀ first ∈ current.labels key,
            ∀ second ∈ current.labels key, ¬ problem.dominates first second) ?_ ?_ ?_
        · exact ih
        · intro current next _ _ hcurrent hsame _
          rw [hsame]
          exact hcurrent
        · intro current next _ _ candidate hcurrent hkept _ hlabels _ key first hfirst second hsecond
          rw [hlabels] at hfirst hsecond
          by_cases hkey : key = candidate.key
          · subst hkey
            simp only [Function.update_self, List.mem_append, List.mem_filter, List.mem_singleton,
              decide_eq_true_eq] at hfirst hsecond
            rcases hfirst with ⟨hfirst, -⟩ | rfl
            · rcases hsecond with ⟨hsecond, -⟩ | rfl
              · exact ih _ first hfirst second hsecond
              · exact hkept.undominated first hfirst
            · rcases hsecond with ⟨-, hfree⟩ | rfl
              · exact hfree
              · exact hself _
          · rw [Function.update_of_ne hkey] at hfirst hsecond
            exact hcurrent key first hfirst second hsecond

/-- At a station dominance lowers the sum of time and distance. -/
theorem sum_lt_of_dominates {first second : ChargingLabel K} (hbattery : first.battery = second.battery)
    (htolerance : 0 < problem.epsilon) (h : problem.dominates first second) :
    first.elapsedTime + first.distance < second.elapsedTime + second.distance := by
  obtain ⟨⟨helapsed, -, hdistance⟩, hstrict | hstrict | hstrict⟩ := h
  · linarith
  · linarith
  · linarith

/-- The popped label is live. -/
def PopsLive (state : SearchState K) (label : ChargingLabel K) : Prop :=
  label ∈ state.labels label.key ∧ ∃ entry rest, state.queue = entry :: rest ∧ entry.label = label

/-- A label popped at a station is from then on stood in for by a live label that is no later, and not
farther by more than it is earlier. -/
theorem Acyclic.stands_in (h : problem.Acyclic order run) (htolerance : 0 < problem.epsilon)
    {start : ℕ} {label : ChargingLabel K} (hpops : PopsLive (run start) label)
    (hkind : label.node.kind = .station) {n : ℕ} (hle : start ≤ n) :
    ∃ other ∈ (run n).labels label.key,
      other.elapsedTime + other.distance ≤ label.elapsedTime + label.distance ∧
        label.distance ≤ other.distance := by
  have hnode := (((h.proper start).live _ label hpops.1).2).node
  have hfull : ∀ other : ChargingLabel K, problem.Proper order other → other.key = label.key →
      other.battery = problem.vehicle.batteryCapacity := by
    intro other hother hkey
    apply hother.full
    rw [problem.eq_of_name_eq hother.node hnode (congrArg Prod.snd hkey)]
    exact hkind
  induction hle with
  | refl => exact ⟨label, hpops.1, le_refl _, le_refl _⟩
  | @step n hle ih =>
      obtain ⟨entry, rest, hqueue, hcases⟩ := problem.step_cases order (h.endless.next n)
      rcases hcases with ⟨-, hnext⟩ | ⟨-, -, hnext⟩ | ⟨-, -, hnext⟩
      · rw [hnext]
        exact ih
      · rw [hnext]
        exact ih
      · have hentry : label.distance ≤ entry.label.distance := by
          obtain ⟨-, first, others, hfirst, rfl⟩ := hpops
          exact h.endless.atLeast h.distance hle (atLeast_head (h.endless.reachable start) hfirst) entry
            (by simp [hqueue])
        rw [hnext]
        refine problem.expand_rule order
          (motive := fun current _ => ∃ other ∈ current.labels label.key,
            other.elapsedTime + other.distance ≤ label.elapsedTime + label.distance ∧
              label.distance ≤ other.distance) ?_ ?_ ?_
        · exact ih
        · intro current next _ _ hcurrent hsame _
          rw [hsame]
          exact hcurrent
        · intro current next _ successor candidate hcurrent hkept huntouched hlabels _
          obtain ⟨other, hother, hsum, hfar⟩ := hcurrent
          rw [hlabels]
          by_cases hkey : label.key = candidate.key
          · by_cases hdominates : problem.dominates candidate other
            · rw [hkey, huntouched] at hother
              have hcandidate := proper_extend (fun customer hmem => (h.customers customer hmem).1)
                ((h.proper n).queued entry (by simp [hqueue])) hkept.member hkept.extended
              obtain ⟨hotherKey, hotherProper⟩ := (h.proper n).live _ other hother
              have hlower := sum_lt_of_dominates
                ((hfull candidate hcandidate hkey.symm).trans
                  (hfull other hotherProper (hotherKey.trans hkey.symm)).symm) htolerance hdominates
              refine ⟨candidate, ?_, ?_, ?_⟩
              · rw [hkey, Function.update_self]
                simp
              · exact (le_of_lt hlower).trans hsum
              · exact hentry.trans (distance_le_extend h.distance hkept.extended)
            · refine ⟨other, ?_, hsum, hfar⟩
              rw [hkey, huntouched] at hother
              rw [hkey, Function.update_self]
              simp [hother, hdominates]
          · refine ⟨other, ?_, hsum, hfar⟩
            rw [Function.update_of_ne hkey]
            exact hother

variable [Archimedean K]

/-- Labels popped late enough at one station are earlier by any number of tolerances. -/
theorem Acyclic.descends (h : problem.Acyclic order run) (htolerance : 0 < problem.epsilon)
    {station : Node K} (hkind : station.kind = .station) (progress : ℕ) {bound : K}
    (hbound : ∀ n, problem.Every order (fun label => label.node.kind = .station →
      -bound ≤ label.elapsedTime ∧ label.elapsedTime ≤ bound) (run n))
    (count : ℕ) :
    ∃ start, ∀ n, start ≤ n → ∀ label, PopsLive (run n) label → label.progress = progress →
      label.node = station → label.elapsedTime + count • problem.epsilon ≤ bound := by
  have hclock : ∀ n label, PopsLive (run n) label → label.node = station →
      -bound ≤ label.elapsedTime ∧ label.elapsedTime ≤ bound := by
    intro n label hpops hnode
    exact ((hbound n).live _ label hpops.1).2 (by rw [hnode]; exact hkind)
  induction count with
  | zero =>
      refine ⟨0, ?_⟩
      intro n _ label hpops _ hnode
      rw [zero_nsmul, add_zero]
      exact (hclock n label hpops hnode).2
  | succ count ih =>
      obtain ⟨start, hstart⟩ := ih
      by_cases hmore : ∃ n, start ≤ n ∧ ∃ label, PopsLive (run n) label ∧
          label.progress = progress ∧ label.node = station
      · obtain ⟨first, hfirst, label, hpops, hprogress, hnode⟩ := hmore
        obtain ⟨far, hfar⟩ := h.far (label.elapsedTime + label.distance + bound + problem.epsilon)
        refine ⟨max first far, ?_⟩
        intro n hn later hlater hlaterProgress hlaterNode
        have hkeys : later.key = label.key := by
          simp [ChargingLabel.key, hprogress, hnode, hlaterProgress, hlaterNode]
        have hstation : label.node.kind = .station := by
          rw [hnode]
          exact hkind
        obtain ⟨other, hother, hsum, hotherFar⟩ := h.stands_in htolerance hpops hstation
          ((le_max_left _ _).trans hn)
        obtain ⟨hotherKey, hotherProper⟩ := (h.proper n).live _ other hother
        have hlabelProper := ((h.proper first).live _ label hpops.1).2
        have hlaterProper := ((h.proper n).live _ later hlater.1).2
        have hotherNode : other.node = label.node :=
          problem.eq_of_name_eq hotherProper.node hlabelProper.node (congrArg Prod.snd hotherKey)
        have hotherStation : other.node.kind = .station := by
          rw [hotherNode]
          exact hstation
        have hbattery : other.battery = later.battery := by
          rw [hotherProper.full hotherStation, hlaterProper.full (by rw [hlaterNode]; exact hkind)]
        have hclockOther := ((hbound n).live _ other hother).2 hotherStation
        have hlaterFar : label.elapsedTime + label.distance + bound + problem.epsilon < later.distance := by
          obtain ⟨-, entry, rest, hqueue, rfl⟩ := hlater
          exact hfar n ((le_max_right _ _).trans hn) entry (by simp [hqueue])
        have hfree := antichain_of_reachable htolerance (h.endless.reachable n) label.key other hother
          later (hkeys ▸ hlater.1)
        -- `other` is nearer by more than the tolerance, so it must be later by more than that
        have hearlier : later.elapsedTime + problem.epsilon < other.elapsedTime := by
          by_contra hnot
          apply hfree
          refine ⟨⟨not_lt.mp hnot, ?_, ?_⟩, .inr (.inr ?_)⟩
          · rw [hbattery]
            linarith
          · linarith
          · linarith
        have hprevious := hstart first hfirst label hpops hprogress hnode
        rw [succ_nsmul]
        linarith
      · refine ⟨start, ?_⟩
        intro n hn label hpops hprogress hnode
        exact absurd ⟨n, hn, label, hpops, hprogress, hnode⟩ hmore

/-- From some pass on no station label is expanded. -/
theorem Acyclic.stations_end (h : problem.Acyclic order run) (htolerance : 0 < problem.epsilon) :
    ∃ start, ∀ n, start ≤ n → ∀ label, PopsLive (run n) label → label.node.kind ≠ .station := by
  obtain ⟨bound, hbound⟩ := exists_clock_bound h.customers
  have htimes := fun n => hbound (h.endless.reachable n)
  obtain ⟨count, hcount⟩ := Archimedean.arch (bound + bound + problem.epsilon) htolerance
  -- one station and one progress
  have hone : ∀ key ∈ (List.range (order.length + 1)) ×ˢ problem.stations, ∃ start, ∀ n, start ≤ n →
      ∀ label, PopsLive (run n) label → ¬ (label.progress = key.1 ∧ label.node = key.2) := by
    intro key hkey
    have hkind := (problem.mem_stations.mp (List.mem_product.mp hkey).2).2
    obtain ⟨start, hstart⟩ := h.descends htolerance hkind key.1 htimes count
    refine ⟨start, ?_⟩
    rintro n hn label hpops ⟨hprogress, hnode⟩
    have hlate := hstart n hn label hpops hprogress hnode
    have hclock := (((htimes n).live _ label hpops.1).2 (by rw [hnode]; exact hkind)).1
    linarith
  -- the latest of the finitely many starts
  have hall : ∀ keys : List (ℕ × Node K), (∀ key ∈ keys, ∃ start, ∀ n, start ≤ n →
      ∀ label, PopsLive (run n) label → ¬ (label.progress = key.1 ∧ label.node = key.2)) →
      ∃ start, ∀ n, start ≤ n → ∀ label, PopsLive (run n) label →
        ∀ key ∈ keys, ¬ (label.progress = key.1 ∧ label.node = key.2) := by
    intro keys
    induction keys with
    | nil => exact fun _ => ⟨0, fun _ _ _ _ key hmem => absurd hmem List.not_mem_nil⟩
    | cons key rest ih =>
        intro hkeys
        obtain ⟨first, hfirst⟩ := hkeys key (by simp)
        obtain ⟨second, hsecond⟩ := ih (fun other hmem => hkeys other (by simp [hmem]))
        refine ⟨max first second, ?_⟩
        intro n hn label hpops other hmem
        rcases List.mem_cons.mp hmem with rfl | hmem
        · exact hfirst n ((le_max_left _ _).trans hn) label hpops
        · exact hsecond n ((le_max_right _ _).trans hn) label hpops other hmem
  obtain ⟨start, hstart⟩ := hall _ hone
  refine ⟨start, ?_⟩
  intro n hn label hpops hkind
  have hproper := ((h.proper n).live _ label hpops.1).2
  apply hstart n hn label hpops (label.progress, label.node) _ ⟨rfl, rfl⟩
  apply List.mem_product.mpr
  refine ⟨List.mem_range.mpr ?_, problem.mem_stations.mpr ⟨hproper.node, hkind⟩⟩
  have := hproper.progress
  omega

/-- There is no endless run that closes no cycle of length zero. -/
theorem Acyclic.absurd (h : problem.Acyclic order run) (htolerance : 0 < problem.epsilon) : False := by
  obtain ⟨start, hstart⟩ := h.stations_end htolerance
  let weight : ChargingLabel K → ℕ := fun label =>
    if label.node.kind = .station then 1
    else (problem.stations.length + 2) ^ (order.length - label.progress + 1)
  have hpositive : ∀ label, 0 < weight label := by
    intro label
    change 0 < ite _ _ _
    split_ifs
    · exact Nat.one_pos
    · exact Nat.pow_pos (Nat.succ_pos _)
  apply h.endless.not_load_lt weight start
  intro n hn
  apply load_step_lt weight (h.endless.next n)
  · intro entry _ _
    exact hpositive entry.label
  · intro entry rest hqueue hlive _ successor candidate hkept
    have hopen : entry.label.node.kind ≠ .station :=
      hstart n hn entry.label ⟨hlive, entry, rest, hqueue, rfl⟩
    have hweight : weight entry.label =
        (problem.stations.length + 2) ^ (order.length - entry.label.progress + 1) := if_neg hopen
    have hcount := successors_length problem order entry.label
    have hproper := ((h.proper n).queued entry (by simp [hqueue])).progress
    obtain ⟨hprogress, hnode⟩ := problem.extend_progress hkept.extended
    rw [hweight, pow_succ, mul_comm]
    apply Nat.mul_le_mul ?_ (by omega)
    rcases open_successor h.customers hproper hkept.member hkept.opened with
      ⟨hcustomer, hnext, -⟩ | ⟨hstation, -, -⟩
    · have hcandidate : weight candidate =
          (problem.stations.length + 2) ^ (order.length - candidate.progress + 1) := by
        apply if_neg
        rw [hnode, hcustomer]
        decide
      have hbelow := (proper_extend (fun customer hmem => (h.customers customer hmem).1)
        ((h.proper n).queued entry (by simp [hqueue])) hkept.member hkept.extended).progress
      have hexponent : order.length - candidate.progress + 1 = order.length - entry.label.progress := by
        omega
      rw [hcandidate, hexponent]
    · have hcandidate : weight candidate = 1 := if_pos (by rw [hnode]; exact hstation)
      rw [hcandidate]
      exact Nat.pow_pos (Nat.succ_pos _)

/-- The queue loop ends in every run none of whose passes keeps a label that closes a cycle of stations of
length zero. -/
theorem queueLoop_ends (htolerance : 0 < problem.epsilon)
    (horder : ∀ customer ∈ order, customer ∈ problem.nodes ∧ customer.kind = .customer)
    (hdistance : ∀ origin destination, 0 ≤ (problem.leg origin destination).distance)
    (hcycles : ∀ state, (problem.search order).Reachable state → ¬ problem.KeepsZeroCycle order state) :
    ∃ fuel final, problem.queueLoop order fuel problem.initialState = some final := by
  by_contra hnever
  obtain ⟨run, hrun⟩ := problem.endless_of_queueLoop order (by
    intro fuel
    by_contra hends
    obtain ⟨final, hfinal⟩ := Option.ne_none_iff_exists'.mp hends
    exact hnever ⟨fuel, final, hfinal⟩)
  have hacyclic : problem.Acyclic order run :=
    ⟨hrun, horder, hdistance, fun n => hcycles _ (hrun.reachable n)⟩
  exact hacyclic.absurd htolerance

end Late

/-! ### Stations apart -/

section Apart

variable {K : Type} [CommRing K] [LinearOrder K] {problem : Problem K} {order : List (Node K)}

/-- Where a label may stand: at the depot it started from, or at a customer or a station. -/
structure Departed (problem : Problem K) (order : List (Node K)) (label : ChargingLabel K) : Prop where
  progress : label.progress ≤ order.length
  node : label.node ∈ problem.nodes
  path : label.path = [problem.depot] ∨
    ((∃ earlier, label.path.reverse = label.node :: earlier) ∧ label.node.kind ≠ .depot)

theorem every_departed (horder : ∀ customer ∈ order, customer ∈ problem.nodes ∧ customer.kind = .customer)
    {state : SearchState K} (h : (problem.search order).Reachable state) :
    problem.Every order (Departed problem order) state := by
  apply problem.every_of_reachable order (Departed problem order) ?_ ?_ h
  · exact ⟨Nat.zero_le _, problem.depot_mem.1, .inl rfl⟩
  · intro label successor candidate hlabel hsuccessor hopen hextend
    obtain ⟨-, hcandidate⟩ := problem.extend_eq_some.mp hextend
    have hkinds := open_successor horder hlabel.progress hsuccessor hopen
    have hprogress : successor.2 ≤ order.length := by
      rcases mem_successors.mp hsuccessor with ⟨_, hnext, hsame⟩ | ⟨-, hsame⟩ | ⟨_, -, -, hsame⟩
      · have hlt := (List.getElem?_eq_some_iff.mp hnext).1
        rw [hsame]
        exact hlt
      · rw [hsame]
        exact hlabel.progress
      · rw [hsame]
        exact hlabel.progress
    have hreverse : (label.path ++ [successor.1]).reverse = successor.1 :: label.path.reverse := by
      simp
    rw [hcandidate]
    rcases hkinds with ⟨hkind, -, hmember⟩ | ⟨hkind, -, hmember⟩
    · exact ⟨hprogress, hmember, .inr ⟨⟨_, hreverse⟩, by simp [Problem.reached, moved, hkind]⟩⟩
    · exact ⟨hprogress, hmember, .inr ⟨⟨_, hreverse⟩, by simp [Problem.reached, moved, hkind]⟩⟩

/-- Stations that lie apart from each other leave no cycle of length zero to close. -/
theorem no_zero_cycle_of_apart
    (horder : ∀ customer ∈ order, customer ∈ problem.nodes ∧ customer.kind = .customer)
    (hapart : ∀ first ∈ problem.stations, ∀ second ∈ problem.stations, first.name ≠ second.name →
      0 < (problem.leg first second).distance)
    {state : SearchState K} (h : (problem.search order).Reachable state) :
    ¬ problem.KeepsZeroCycle order state := by
  intro hkeeps
  obtain ⟨entry, rest, hqueue, -, -, successor, candidate, hcloses, hkept⟩ := hkeeps
  obtain ⟨hkind, hzero, htail⟩ := hcloses
  have hentry := (every_departed horder h).queued entry (by simp [hqueue])
  have hdepot : problem.depot.kind = .depot := problem.depot_mem.2
  rcases hentry.path with hpath | ⟨⟨earlier, hpath⟩, hplace⟩
  · -- the path is the depot alone
    rw [hpath] at htail
    have hsame : successor.1 = problem.depot := List.mem_singleton.mp htail
    rw [hsame, hdepot] at hkind
    exact absurd hkind (by decide)
  · rw [hpath] at htail
    cases hnode : entry.label.node.kind with
    | depot => exact hplace hnode
    | customer =>
        have hsingle : problem.zeroTail (entry.label.node :: earlier) = [entry.label.node] := by
          cases earlier with
          | nil => rfl
          | cons previous earlier => rw [zeroTail, if_pos (.inl hnode)]
        rw [hsingle] at htail
        have hsame : successor.1 = entry.label.node := List.mem_singleton.mp htail
        rw [hsame, hnode] at hkind
        exact absurd hkind (by decide)
    | station =>
        have hhere : entry.label.node ∈ problem.stations :=
          problem.mem_stations.mpr ⟨hentry.node, hnode⟩
        rcases mem_successors.mp hkept.member with ⟨customer, hnext, hsame⟩ | ⟨-, hsame⟩ |
          ⟨station, hstation, hname, hsame⟩
        · have hcustomer := (horder customer (List.mem_of_getElem? hnext)).2
          rw [hsame, hcustomer] at hkind
          exact absurd hkind (by decide)
        · rw [hsame, hdepot] at hkind
          exact absurd hkind (by decide)
        · rw [hsame] at hzero
          exact hzero (hapart _ hhere station hstation (fun hsameName => hname hsameName.symm))

end Apart

/-! ### Twin stations -/

section Twins

/-- The depot at 0, two stations at 4, a customer at 8; a charge lasts for 12. -/
def twinInstance : Instance ℚ where
  nodes :=
    [⟨"D", .depot, 0, 0, 0, 0, 100, 0⟩, ⟨"S", .station, 4, 0, 0, 0, 100, 0⟩,
      ⟨"T", .station, 4, 0, 0, 0, 100, 0⟩, ⟨"C", .customer, 8, 0, 1, 0, 100, 0⟩]
  vehicle := ⟨12, 1, 1, 1, 1⟩
  depot := ⟨"D", .depot, 0, 0, 0, 0, 100, 0⟩
  oneDepot := rfl
  uniqueNames := (by decide : ["D", "S", "T", "C"].Nodup)
  positiveVelocity := one_pos

def twinProblem : Problem ℚ :=
  twinInstance.problem (fun x y => |x| + |y|) (1 / 10 ^ 9)

def twinOrder : List (Node ℚ) :=
  [⟨"C", .customer, 8, 0, 1, 0, 100, 0⟩]

/-- Before the customer is served, a label at a twin station has the same time, charge and distance,
however often the vehicle has gone from one to the other. -/
def AtTwin (label : ChargingLabel ℚ) : Prop :=
  label.progress = 0 ∧ label.node ∈ twinProblem.stations ∧ label.elapsedTime = 8 ∧
    label.battery = 12 ∧ label.distance = 4

def AtStart (label : ChargingLabel ℚ) : Prop :=
  label.progress = 0 ∧ label.node = twinProblem.depot ∧ label.elapsedTime = 0 ∧ label.battery = 12 ∧
    label.distance = 0

def TwinLabel (label : ChargingLabel ℚ) : Prop :=
  AtStart label ∨ AtTwin label ∨ (1 ≤ label.progress ∧ 8 ≤ label.distance)

theorem twin_stations {node : Node ℚ} : node ∈ twinProblem.stations ↔
    node = ⟨"S", .station, 4, 0, 0, 0, 100, 0⟩ ∨ node = ⟨"T", .station, 4, 0, 0, 0, 100, 0⟩ := by
  have h : twinProblem.stations =
      [⟨"S", .station, 4, 0, 0, 0, 100, 0⟩, ⟨"T", .station, 4, 0, 0, 0, 100, 0⟩] := rfl
  simp [h]

theorem twin_station_shape {node : Node ℚ} (h : node ∈ twinProblem.stations) :
    node.kind = .station ∧ node.x = 4 ∧ node.y = 0 ∧ node.readyTime = 0 ∧ node.dueDate = 100 := by
  rcases twin_stations.mp h with rfl | rfl
  · exact ⟨rfl, rfl, rfl, rfl, rfl⟩
  · exact ⟨rfl, rfl, rfl, rfl, rfl⟩

theorem twin_leg (origin destination : Node ℚ) :
    twinProblem.leg origin destination =
      ⟨|origin.x - destination.x| + |origin.y - destination.y|,
        |origin.x - destination.x| + |origin.y - destination.y|,
        |origin.x - destination.x| + |origin.y - destination.y|⟩ := by
  simp [twinProblem, Instance.problem, Instance.withDistance, Node.distanceTo, twinInstance]

/-- A twin station is reached from the depot, and from its twin, with the same values. -/
theorem twin_reached {label : ChargingLabel ℚ} {station : Node ℚ}
    (hlabel : AtStart label ∨ AtTwin label)
    (hstation : station ∈ twinProblem.stations) :
    ∃ candidate, twinProblem.extend label station label.progress = some candidate ∧
      AtTwin candidate ∧ candidate.node = station := by
  obtain ⟨hkind, hx, hy, hready, hdue⟩ := twin_station_shape hstation
  have hvehicle : twinProblem.vehicle = ⟨12, 1, 1, 1, 1⟩ := rfl
  have hepsilon : twinProblem.epsilon = 1 / 10 ^ 9 := rfl
  have hstay : ∀ level, twinProblem.stay station level = 12 - level := by
    intro level
    simp [stay, chargeTime, hkind, hvehicle]
  have hleg : ∃ x, twinProblem.leg label.node station = ⟨x, x, x⟩ ∧ label.progress = 0 ∧
      ((x = 4 ∧ label.elapsedTime = 0 ∧ label.battery = 12 ∧ label.distance = 0) ∨
        (x = 0 ∧ label.elapsedTime = 8 ∧ label.battery = 12 ∧ label.distance = 4)) := by
    rw [twin_leg]
    refine ⟨_, rfl, ?_⟩
    rcases hlabel with ⟨hprogress, hnode, helapsed, hbattery, hdistance⟩ |
      ⟨hprogress, hnode, helapsed, hbattery, hdistance⟩
    · refine ⟨hprogress, .inl ⟨?_, helapsed, hbattery, hdistance⟩⟩
      have hdepot : label.node.x = 0 ∧ label.node.y = 0 := by
        rw [hnode]
        exact ⟨rfl, rfl⟩
      rw [hx, hy, hdepot.1, hdepot.2]
      norm_num
    · refine ⟨hprogress, .inr ⟨?_, helapsed, hbattery, hdistance⟩⟩
      obtain ⟨-, hx', hy', -, -⟩ := twin_station_shape hnode
      rw [hx, hy, hx', hy']
      norm_num
  obtain ⟨x, hleg, hprogress, hvalues⟩ := hleg
  refine ⟨_, twinProblem.extend_eq_some.mpr ⟨?_, rfl⟩, ?_, rfl⟩
  · rw [hleg]
    rcases hvalues with ⟨rfl, helapsed, hbattery, hdistance⟩ | ⟨rfl, helapsed, hbattery, hdistance⟩
    · constructor <;>
        norm_num [arrival, remaining, hstay, helapsed, hbattery, hready, hdue, hkind, hepsilon]
    · constructor <;>
        norm_num [arrival, remaining, hstay, helapsed, hbattery, hready, hdue, hkind, hepsilon]
  · rw [hleg]
    rcases hvalues with ⟨rfl, helapsed, hbattery, hdistance⟩ | ⟨rfl, helapsed, hbattery, hdistance⟩
    · refine ⟨hprogress, hstation, ?_, ?_, ?_⟩ <;>
        norm_num [reached, moved, arrival, remaining, hstay, helapsed, hbattery, hdistance, hready, hkind,
          hvehicle]
    · refine ⟨hprogress, hstation, ?_, ?_, ?_⟩ <;>
        norm_num [reached, moved, arrival, remaining, hstay, helapsed, hbattery, hdistance, hready, hkind,
          hvehicle]

theorem twin_step {label candidate : ChargingLabel ℚ} {successor : Node ℚ × ℕ} (hlabel : TwinLabel label)
    (hsuccessor : successor ∈ twinProblem.successors twinOrder label)
    (hextend : twinProblem.extend label successor.1 successor.2 = some candidate) :
    TwinLabel candidate := by
  have hdistance : candidate.distance =
      label.distance + (|label.node.x - successor.1.x| + |label.node.y - successor.1.y|) := by
    obtain ⟨-, rfl⟩ := twinProblem.extend_eq_some.mp hextend
    rw [twin_leg]
    rfl
  obtain ⟨hprogress, hnode⟩ := twinProblem.extend_progress hextend
  have hfarther : candidate.progress = label.progress → 1 ≤ label.progress ∧ 8 ≤ label.distance →
      1 ≤ candidate.progress ∧ 8 ≤ candidate.distance := by
    intro hsame hone
    refine ⟨by rw [hsame]; exact hone.1, ?_⟩
    rw [hdistance]
    have hx := abs_nonneg (label.node.x - successor.1.x)
    have hy := abs_nonneg (label.node.y - successor.1.y)
    linarith [hone.2]
  rcases mem_successors.mp hsuccessor with ⟨customer, hget, rfl⟩ | ⟨hdone, rfl⟩ |
    ⟨station, hstation, -, rfl⟩
  · right; right
    have hfirst : label.progress = 0 ∧ customer = ⟨"C", .customer, 8, 0, 1, 0, 100, 0⟩ := by
      cases hzero : label.progress with
      | zero =>
          rw [hzero] at hget
          exact ⟨rfl, (Option.some.inj hget).symm⟩
      | succ n =>
          rw [hzero] at hget
          simp [twinOrder] at hget
    obtain ⟨hzero, rfl⟩ := hfirst
    refine ⟨by rw [hprogress, hzero], ?_⟩
    rw [hdistance]
    rcases hlabel with ⟨-, hdepot, -, -, hfar⟩ | ⟨-, hstation, -, -, hfar⟩ | ⟨hone, -⟩
    · have hx : label.node.x = 0 ∧ label.node.y = 0 := by
        rw [hdepot]
        exact ⟨rfl, rfl⟩
      rw [hfar, hx.1, hx.2]
      norm_num
    · obtain ⟨-, hx, hy, -, -⟩ := twin_station_shape hstation
      rw [hfar, hx, hy]
      norm_num
    · omega
  · have hle := List.getElem?_eq_none_iff.mp hdone
    rcases hlabel with ⟨hzero, -⟩ | ⟨hzero, -⟩ | hone
    · rw [hzero] at hle
      exact absurd hle (by decide)
    · rw [hzero] at hle
      exact absurd hle (by decide)
    · exact .inr (.inr (hfarther hprogress hone))
  · by_cases hone : 1 ≤ label.progress ∧ 8 ≤ label.distance
    · exact .inr (.inr (hfarther hprogress hone))
    · right; left
      obtain ⟨reached, hreached, htwin, -⟩ := twin_reached
        (hlabel.imp_right (fun h => h.resolve_right hone)) hstation
      obtain rfl := Option.some.inj (hextend.symm.trans hreached)
      exact htwin

theorem twin_every {state : SearchState ℚ} (h : (twinProblem.search twinOrder).Reachable state) :
    twinProblem.Every twinOrder TwinLabel state := by
  apply twinProblem.every_of_reachable twinOrder TwinLabel ?_ ?_ h
  · exact .inl ⟨rfl, rfl, rfl, rfl, rfl⟩
  · intro label successor candidate hlabel hsuccessor _ hextend
    exact twin_step hlabel hsuccessor hextend

/-- A live label at a twin station waits in the queue. -/
def TwinWaits (state : SearchState ℚ) : Prop :=
  ∃ entry ∈ state.queue, entry.label ∈ state.labels entry.label.key ∧ AtTwin entry.label

theorem AtTwin.not_dominates {first second : ChargingLabel ℚ} (hfirst : AtTwin first)
    (hsecond : AtTwin second) : ¬ twinProblem.dominates first second := by
  have hepsilon : twinProblem.epsilon = 1 / 10 ^ 9 := rfl
  obtain ⟨-, -, helapsed, hbattery, hdistance⟩ := hfirst
  obtain ⟨-, -, helapsed', hbattery', hdistance'⟩ := hsecond
  rintro ⟨-, h | h | h⟩
  · rw [helapsed, helapsed', hepsilon] at h
    norm_num at h
  · rw [hbattery, hbattery', hepsilon] at h
    norm_num at h
  · rw [hdistance, hdistance', hepsilon] at h
    norm_num at h

/-- The live labels at a twin station before the customer. -/
theorem twin_live {state : SearchState ℚ} (h : twinProblem.Every twinOrder TwinLabel state)
    {label : ChargingLabel ℚ} {station : Node ℚ} (hstation : station ∈ twinProblem.stations)
    (hlive : label ∈ state.labels (0, station.name)) : AtTwin label := by
  obtain ⟨hkey, hlabel⟩ := h.live _ label hlive
  have hprogress : label.progress = 0 := congrArg Prod.fst hkey
  have hname : label.node.name = station.name := congrArg Prod.snd hkey
  rcases hlabel with ⟨-, hdepot, -⟩ | htwin | ⟨hone, -⟩
  · rw [hdepot] at hname
    rcases twin_stations.mp hstation with rfl | rfl
    · exact absurd hname (by decide)
    · exact absurd hname (by decide)
  · exact htwin
  · omega

/-- A waiting twin label is not lost by one more successor. -/
theorem TwinWaits.visited {label : ChargingLabel ℚ} {successor : Node ℚ × ℕ}
    {state next : SearchState ℚ} (hwaits : TwinWaits state)
    (hevery : twinProblem.Every twinOrder TwinLabel next)
    (h : twinProblem.Visited twinOrder label successor state next) : TwinWaits next := by
  obtain ⟨entry, hqueued, hlive, htwin⟩ := hwaits
  cases h with
  | rejected _ hlabels hqueue _ => exact ⟨entry, hqueue ▸ hqueued, hlabels ▸ hlive, htwin⟩
  | closing _ _ _ hlabels hqueue _ => exact ⟨entry, hqueue ▸ hqueued, hlabels ▸ hlive, htwin⟩
  | dominated _ _ _ _ _ _ hlabels hqueue _ => exact ⟨entry, hqueue ▸ hqueued, hlabels ▸ hlive, htwin⟩
  | kept candidate _ _ _ hlabels hqueue _ =>
      refine ⟨entry, by rw [hqueue, mem_heappush]; exact .inr hqueued, ?_, htwin⟩
      by_cases hkey : entry.label.key = candidate.key
      · have hcandidate : AtTwin candidate := by
          apply twin_live hevery htwin.2.1
          have hsame : (0, entry.label.node.name) = candidate.key := by
            rw [← hkey, ChargingLabel.key, htwin.1]
          rw [hsame, hlabels, Function.update_self]
          simp
        rw [hlabels, hkey, Function.update_self]
        rw [hkey] at hlive
        simp [hlive, hcandidate.not_dominates htwin]
      · rw [hlabels, Function.update_of_ne hkey]
        exact hlive

theorem twin_expand {state : SearchState ℚ} {label : ChargingLabel ℚ}
    (hevery : twinProblem.Every twinOrder TwinLabel state) (hlabel : TwinLabel label)
    (hwaits : TwinWaits state ∨ AtStart label ∨ AtTwin label) :
    TwinWaits (twinProblem.expand twinOrder state label) := by
  have hnext : ∀ current next done successor,
      done ++ [successor] <+: twinProblem.successors twinOrder label →
      twinProblem.Every twinOrder TwinLabel current →
      twinProblem.Visited twinOrder label successor current next →
      twinProblem.Every twinOrder TwinLabel next := by
    intro current next done successor hinitial hcurrent hvisited
    have hmember : successor ∈ twinProblem.successors twinOrder label := hinitial.subset (by simp)
    exact hcurrent.visited twinProblem twinOrder (fun _ _ hextend => twin_step hlabel hmember hextend) hlabel
      hmember hvisited
  rcases hwaits with hwaits | htwin
  · refine (twinProblem.expand_induction twinOrder
      (motive := fun current _ => twinProblem.Every twinOrder TwinLabel current ∧ TwinWaits current)
      ⟨⟨hevery.live, hevery.queued, hevery.closed⟩, hwaits⟩ ?_).2
    intro current next done successor hinitial hcurrent hvisited
    have hevery' := hnext current next done successor hinitial hcurrent.1 hvisited
    exact ⟨hevery', hcurrent.2.visited hevery' hvisited⟩
  · -- the other twin is a successor, and its candidate is always kept
    have hother : ∃ twin ∈ twinProblem.stations, twin.name ≠ label.node.name := by
      rcases htwin with ⟨-, h, -⟩ | ⟨-, hstation, -⟩
      · exact ⟨⟨"T", .station, 4, 0, 0, 0, 100, 0⟩, twin_stations.mpr (.inr rfl), by rw [h]; decide⟩
      rcases twin_stations.mp hstation with h | h
      · exact ⟨⟨"T", .station, 4, 0, 0, 0, 100, 0⟩, twin_stations.mpr (.inr rfl), by rw [h]; decide⟩
      · exact ⟨⟨"S", .station, 4, 0, 0, 0, 100, 0⟩, twin_stations.mpr (.inl rfl), by rw [h]; decide⟩
    obtain ⟨twin, hstation, hname⟩ := hother
    have hmember : (twin, label.progress) ∈ twinProblem.successors twinOrder label :=
      mem_successors.mpr (.inr (.inr ⟨twin, hstation, hname, rfl⟩))
    obtain ⟨candidate, hextend, hcandidate, hnode⟩ := twin_reached htwin hstation
    suffices hrule : twinProblem.Every twinOrder TwinLabel (twinProblem.expand twinOrder state label) ∧
        ((twin, label.progress) ∈ twinProblem.successors twinOrder label →
          TwinWaits (twinProblem.expand twinOrder state label)) from hrule.2 hmember
    refine twinProblem.expand_induction twinOrder
      (motive := fun current done => twinProblem.Every twinOrder TwinLabel current ∧
        ((twin, label.progress) ∈ done → TwinWaits current))
      ⟨⟨hevery.live, hevery.queued, hevery.closed⟩, fun hmem => absurd hmem List.not_mem_nil⟩ ?_
    intro current next done successor hinitial hcurrent hvisited
    have hevery' := hnext current next done successor hinitial hcurrent.1 hvisited
    refine ⟨hevery', ?_⟩
    intro hmem
    by_cases hdone : (twin, label.progress) ∈ done
    · exact (hcurrent.2 hdone).visited hevery' hvisited
    · obtain rfl : (twin, label.progress) = successor := by
        simpa [hdone] using hmem
      cases hvisited with
      | rejected hnone _ _ _ =>
          rw [hextend] at hnone
          exact absurd hnone (by simp)
      | closing _ _ hcloses _ _ _ =>
          have hkind := (twin_station_shape hstation).1
          have hdepot : twin.kind = .depot := hcloses.2
          rw [hkind] at hdepot
          exact absurd hdepot (by decide)
      | dominated found existing hfound _ hexisting hdominates _ _ _ =>
          obtain rfl := Option.some.inj (hextend.symm.trans hfound)
          have hkey : candidate.key = (0, twin.name) := by
            rw [ChargingLabel.key, hcandidate.1, hnode]
          rw [hkey] at hexisting
          exact absurd hdominates
            ((twin_live hcurrent.1 hstation hexisting).not_dominates hcandidate)
      | kept found hfound _ _ hlabels hqueue _ =>
          obtain rfl := Option.some.inj (hextend.symm.trans hfound)
          refine ⟨⟨current.serial, candidate⟩, ?_, ?_, hcandidate⟩
          · rw [hqueue, mem_heappush]
            exact .inl rfl
          · simp [hlabels]

theorem twin_waits_step {state : SearchState ℚ} (h : (twinProblem.search twinOrder).Reachable state)
    (hwaits : TwinWaits state) :
    ∃ next, twinProblem.step twinOrder state = some next ∧ TwinWaits next := by
  have hevery := twin_every h
  obtain ⟨waiting, hqueued, hlive, htwin⟩ := hwaits
  cases hsplit : state.queue with
  | nil => simp [hsplit] at hqueued
  | cons _ _ =>
      obtain ⟨next, hstep⟩ := twinProblem.step_of_queue twinOrder hsplit
      refine ⟨next, hstep, ?_⟩
      obtain ⟨entry, rest, hqueue, hcases⟩ := twinProblem.step_cases twinOrder hstep
      rw [hqueue] at hqueued
      have hrest : waiting.label ≠ entry.label → waiting ∈ rest := by
        intro hne
        rcases List.mem_cons.mp hqueued with rfl | hmem
        · exact absurd rfl hne
        · exact hmem
      rcases hcases with ⟨hstale, rfl⟩ | ⟨-, ⟨best, hbest, hpruned⟩, rfl⟩ | ⟨-, -, rfl⟩
      · have hne : waiting.label ≠ entry.label := by
          intro heq
          rw [heq] at hlive
          exact hstale hlive
        exact ⟨waiting, hrest hne, hlive, htwin⟩
      · have hfar : 8 ≤ best.distance := by
          obtain ⟨label, successor, hlabel, hsuccessor, hextend, hprogress, hdepot⟩ :=
            hevery.closed best hbest
          have hbestLabel := twin_step hlabel hsuccessor hextend
          obtain ⟨hbestProgress, -⟩ := twinProblem.extend_progress hextend
          have hone : best.progress = 1 := hbestProgress.trans hprogress
          rcases hbestLabel with ⟨hzero, -⟩ | ⟨hzero, -⟩ | ⟨-, hfar⟩
          · omega
          · omega
          · exact hfar
        have hne : waiting.label ≠ entry.label := by
          intro heq
          have hepsilon : twinProblem.epsilon = 1 / 10 ^ 9 := rfl
          rw [← heq, htwin.2.2.2.2, hepsilon] at hpruned
          norm_num at hpruned
          linarith
        exact ⟨waiting, hrest hne, hlive, htwin⟩
      · apply twin_expand
        · refine ⟨hevery.live, ?_, hevery.closed⟩
          intro other hmem
          exact hevery.queued other (by simp [hqueue, hmem])
        · exact hevery.queued entry (by simp [hqueue])
        · by_cases heq : waiting.label = entry.label
          · exact .inr (.inr (heq ▸ htwin))
          · exact .inl ⟨waiting, hrest heq, hlive, htwin⟩

/-- The search goes from one twin station to the other for ever. -/
theorem twin_queueLoop (fuel : ℕ) :
    twinProblem.queueLoop twinOrder fuel twinProblem.initialState = none := by
  have hwaiting : ∀ fuel state, (twinProblem.search twinOrder).Reachable state → TwinWaits state →
      twinProblem.queueLoop twinOrder fuel state = none := by
    intro fuel
    induction fuel with
    | zero => exact fun _ _ _ => rfl
    | succ fuel ih =>
        intro state hstate hwaits
        obtain ⟨next, hstep, hnext⟩ := twin_waits_step hstate hwaits
        rw [queueLoop, hstep]
        exact ih next (.step hstate hstep) hnext
  cases fuel with
  | zero => rfl
  | succ fuel =>
      have hreachable : (twinProblem.search twinOrder).Reachable twinProblem.initialState := .init rfl
      have hevery := twin_every hreachable
      obtain ⟨next, hstep⟩ := twinProblem.step_of_queue twinOrder
        (rfl : twinProblem.initialState.queue = _ :: _)
      rw [queueLoop, hstep]
      apply hwaiting fuel next (.step hreachable hstep)
      obtain ⟨entry, rest, hqueue, hcases⟩ := twinProblem.step_cases twinOrder hstep
      obtain ⟨rfl, rfl⟩ : (⟨0, twinProblem.initialLabel⟩ : QueueEntry ℚ) = entry ∧ [] = rest :=
        List.cons.inj hqueue
      rcases hcases with ⟨hstale, -⟩ | ⟨-, ⟨best, hbest, -⟩, -⟩ | ⟨-, -, rfl⟩
      · exact absurd (by simp [initialState, ChargingLabel.key, initialLabel]) hstale
      · exact absurd hbest (by simp [initialState])
      · refine twin_expand ?_ ?_ ?_
        · exact ⟨hevery.live, fun _ hmem => absurd hmem List.not_mem_nil, hevery.closed⟩
        · exact .inl ⟨rfl, rfl, rfl, rfl, rfl⟩
        · exact .inr (.inl ⟨rfl, rfl, rfl, rfl, rfl⟩)

end Twins

end Problem

end TxnOpt.Evrptw
