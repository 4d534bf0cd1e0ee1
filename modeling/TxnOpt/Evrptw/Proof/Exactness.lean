import TxnOpt.Evrptw.Proof.Search
import Mathlib.Algebra.Order.Ring.Defs

/-!
# Exactness of the charging search

With exact comparisons and non-negative data, dominance and the incumbent bound lose no optimum. Every
live label is queued, beaten by the incumbent, or explored: each of its successors was rejected, closed a
route no better than the incumbent, or has a live label that is no worse. Along any accepted insertion
some live label is then no worse than the insertion's own, until the incumbent beats it.
-/

namespace TxnOpt.Evrptw

namespace Problem

variable {K : Type} [CommRing K] [LinearOrder K]

/-- Exact comparisons, non-negative legs, capacity and recharge rate. -/
structure Exact (problem : Problem K) : Prop where
  tolerance : problem.epsilon = 0
  distance : ∀ origin destination, 0 ≤ (problem.leg origin destination).distance
  energy : ∀ origin destination, 0 ≤ (problem.leg origin destination).energy
  travelTime : ∀ origin destination, 0 ≤ (problem.leg origin destination).travelTime
  capacity : 0 ≤ problem.vehicle.batteryCapacity
  recharge : 0 ≤ problem.vehicle.inverseRefuelingRate

variable {problem : Problem K} {order : List (Node K)}

section Dominance

variable (hexact : problem.Exact)

include hexact

theorem Exact.noWorse_iff {left right : ChargingLabel K} :
    problem.noWorse left right ↔ left.elapsedTime ≤ right.elapsedTime ∧
      right.battery ≤ left.battery ∧ left.distance ≤ right.distance := by
  simp [noWorse, hexact.tolerance]

theorem Exact.noWorse_refl (label : ChargingLabel K) : problem.noWorse label label := by
  rw [hexact.noWorse_iff]
  exact ⟨le_refl _, le_refl _, le_refl _⟩

theorem Exact.noWorse_trans {first second third : ChargingLabel K}
    (h : problem.noWorse first second) (h' : problem.noWorse second third) :
    problem.noWorse first third := by
  rw [hexact.noWorse_iff] at h h' ⊢
  exact ⟨h.1.trans h'.1, h'.2.1.trans h.2.1, h.2.2.trans h'.2.2⟩

variable [IsStrictOrderedRing K]

omit hexact in
theorem remaining_mono {left right : K} (h : right ≤ left) (leg : Leg K) :
    remaining right leg ≤ remaining left leg :=
  max_le_max (le_refl 0) (by linarith)

/-- A label that is no worse takes every leg the other one takes, and stays no worse. -/
theorem Exact.reached_noWorse {left right : ChargingLabel K} {destination : Node K} (progress : ℕ)
    {leg : Leg K} (h : problem.noWorse left right)
    (haccepts : problem.Accepts right.elapsedTime right.battery leg destination) :
    problem.Accepts left.elapsedTime left.battery leg destination ∧
      problem.noWorse (problem.reached left destination progress leg)
        (problem.reached right destination progress leg) := by
  rw [hexact.noWorse_iff] at h
  obtain ⟨helapsed, hbattery, hdistance⟩ := h
  have harrival : arrival left.elapsedTime leg destination ≤ arrival right.elapsedTime leg destination :=
    max_le_max (by linarith) (le_refl _)
  have hlevel := remaining_mono hbattery leg
  have hcharge : problem.charge destination (remaining left.battery leg) ≤
      problem.charge destination (remaining right.battery leg) := by
    unfold charge
    split_ifs
    · linarith
    · exact le_refl 0
  have hstay : problem.stay destination (remaining left.battery leg) ≤
      problem.stay destination (remaining right.battery leg) := by
    unfold stay
    split_ifs
    · exact le_refl _
    · exact mul_le_mul_of_nonneg_right hcharge hexact.recharge
  have hafter : remaining right.battery leg + problem.charge destination (remaining right.battery leg) ≤
      remaining left.battery leg + problem.charge destination (remaining left.battery leg) := by
    unfold charge
    split_ifs <;> linarith
  constructor
  · refine ⟨?_, harrival.trans haccepts.arrives, ?_⟩
    · have := haccepts.energy
      linarith
    · intro hstation
      have := haccepts.recharges hstation
      linarith
  · rw [hexact.noWorse_iff]
    refine ⟨?_, hafter, ?_⟩
    · exact add_le_add harrival hstay
    · exact add_le_add hdistance (le_refl _)

/-- Recharging a full battery at the same station gains nothing. -/
theorem Exact.noWorse_reached_self {left right : ChargingLabel K} {destination : Node K}
    {progress : ℕ} (h : problem.noWorse left right) (hkind : destination.kind = .station)
    (hfull : left.battery = problem.vehicle.batteryCapacity) :
    problem.noWorse left
      (problem.reached right destination progress (problem.leg right.node destination)) := by
  rw [hexact.noWorse_iff] at h
  obtain ⟨helapsed, hbattery, hdistance⟩ := h
  have henergy := hexact.energy right.node destination
  have htravel := hexact.travelTime right.node destination
  have hleg := hexact.distance right.node destination
  have hlevel : remaining right.battery (problem.leg right.node destination) ≤
      problem.vehicle.batteryCapacity := by
    apply max_le hexact.capacity
    linarith
  have harrival : right.elapsedTime ≤
      arrival right.elapsedTime (problem.leg right.node destination) destination :=
    le_max_of_le_left (by linarith)
  have hstay : 0 ≤ problem.stay destination
      (remaining right.battery (problem.leg right.node destination)) := by
    have hnonneg := mul_nonneg (sub_nonneg.mpr hlevel) hexact.recharge
    simpa [stay, chargeTime, hkind] using hnonneg
  rw [hexact.noWorse_iff]
  refine ⟨?_, ?_, ?_⟩
  · calc
      left.elapsedTime ≤ right.elapsedTime := helapsed
      _ ≤ _ := harrival
      _ ≤ _ := le_add_of_nonneg_right hstay
  · simp [reached, moved, hkind, hfull]
  · calc
      left.distance ≤ right.distance := hdistance
      _ ≤ _ := le_add_of_nonneg_right hleg

end Dominance

/-! ### Coverage of the live labels -/

/-- The incumbent is no longer than `distance`. -/
def Beaten (state : SearchState K) (distance : K) : Prop :=
  ∃ best ∈ state.best, best.distance ≤ distance

omit [CommRing K] in
theorem Beaten.mono {state : SearchState K} {left right : K} (h : Beaten state left)
    (hle : left ≤ right) : Beaten state right := by
  obtain ⟨best, hmem, hbest⟩ := h
  exact ⟨best, hmem, hbest.trans hle⟩

/-- The candidate of this successor, if there is one, can be done without. -/
structure Settled (problem : Problem K) (order : List (Node K)) (state : SearchState K)
    (successor : Node K × ℕ) (candidate : ChargingLabel K) : Prop where
  closes : Closes order successor → Beaten state candidate.distance
  kept : ¬ Closes order successor →
    ∃ other ∈ state.labels candidate.key, problem.noWorse other candidate

/-- Every extension of the label is settled. -/
def Explored (problem : Problem K) (order : List (Node K)) (state : SearchState K)
    (label : ChargingLabel K) (successors : List (Node K × ℕ)) : Prop :=
  ∀ successor ∈ successors, ∀ candidate,
    problem.extend label successor.1 successor.2 = some candidate →
      problem.Settled order state successor candidate

/-- From `state` to `next` nothing is lost: every label keeps one that is no worse, and what is new is
queued. -/
structure Grows (problem : Problem K) (state next : SearchState K) : Prop where
  best : ∀ best ∈ state.best, Beaten next best.distance
  kept : ∀ key, ∀ label ∈ state.labels key, ∃ other ∈ next.labels key, problem.noWorse other label
  fresh : ∀ key, ∀ label ∈ next.labels key,
    label ∈ state.labels key ∨ ∃ entry ∈ next.queue, entry.label = label
  queued : ∀ entry ∈ state.queue, entry ∈ next.queue

theorem Grows.beaten {state next : SearchState K} (h : problem.Grows state next) {distance : K}
    (hbeaten : Beaten state distance) : Beaten next distance := by
  obtain ⟨best, hmem, hbest⟩ := hbeaten
  exact (h.best best hmem).mono hbest

omit [CommRing K] in
theorem betterTerminal_distance {candidate incumbent : ChargingLabel K} :
    (betterTerminal candidate incumbent → candidate.distance ≤ incumbent.distance) ∧
      (¬ betterTerminal candidate incumbent → incumbent.distance ≤ candidate.distance) := by
  unfold betterTerminal
  constructor
  · intro h
    rcases (Prod.Lex.toLex_lt_toLex).mp h with hlt | ⟨heq, -⟩
    · exact le_of_lt hlt
    · exact le_of_eq heq
  · intro h
    by_contra hlt
    exact h ((Prod.Lex.toLex_lt_toLex).mpr (.inl (not_le.mp hlt)))

section Coverage

variable (hexact : problem.Exact)

include hexact

theorem Exact.grows_of_eq {state next : SearchState K} (hlabels : next.labels = state.labels)
    (hqueue : next.queue = state.queue) (hbest : next.best = state.best) :
    problem.Grows state next := by
  refine ⟨?_, ?_, ?_, ?_⟩
  · intro best hmem
    exact ⟨best, hbest ▸ hmem, le_refl _⟩
  · intro key label hmem
    exact ⟨label, hlabels ▸ hmem, hexact.noWorse_refl label⟩
  · intro key label hmem
    exact .inl (hlabels ▸ hmem)
  · intro entry hmem
    exact hqueue ▸ hmem

theorem Exact.grows_trans {first second third : SearchState K} (h : problem.Grows first second)
    (h' : problem.Grows second third) : problem.Grows first third := by
  refine ⟨?_, ?_, ?_, ?_⟩
  · intro best hmem
    exact h'.beaten (h.best best hmem)
  · intro key label hmem
    obtain ⟨other, hother, hle⟩ := h.kept key label hmem
    obtain ⟨last, hlast, hle'⟩ := h'.kept key other hother
    exact ⟨last, hlast, hexact.noWorse_trans hle' hle⟩
  · intro key label hmem
    rcases h'.fresh key label hmem with hold | hnew
    · rcases h.fresh key label hold with holder | ⟨entry, hentry, hlabel⟩
      · exact .inl holder
      · exact .inr ⟨entry, h'.queued entry hentry, hlabel⟩
    · exact .inr hnew
  · intro entry hmem
    exact h'.queued entry (h.queued entry hmem)

theorem Exact.explored_of_grows {state next : SearchState K} (h : problem.Grows state next)
    {label : ChargingLabel K} {successors : List (Node K × ℕ)}
    (hexplored : problem.Explored order state label successors) :
    problem.Explored order next label successors := by
  intro successor hmem candidate hextend
  have hsettled := hexplored successor hmem candidate hextend
  refine ⟨fun hcloses => h.beaten (hsettled.closes hcloses), ?_⟩
  intro hcloses
  obtain ⟨other, hother, hle⟩ := hsettled.kept hcloses
  obtain ⟨last, hlast, hle'⟩ := h.kept _ other hother
  exact ⟨last, hlast, hexact.noWorse_trans hle' hle⟩

/-- One successor: nothing is lost and its candidate is settled. -/
theorem Exact.grows_of_visited {label : ChargingLabel K} {successor : Node K × ℕ}
    {state next : SearchState K} (h : problem.Visited order label successor state next) :
    problem.Grows state next ∧ problem.Explored order next label [successor] := by
  cases h with
  | rejected hnone hlabels hqueue hbest =>
      refine ⟨hexact.grows_of_eq hlabels hqueue hbest, ?_⟩
      intro other hmem candidate hextend
      obtain rfl := List.mem_singleton.mp hmem
      simp [hnone] at hextend
  | closing candidate hextend hcloses hlabels hqueue hbest =>
      have hgrows : problem.Grows state next := by
        have hsame : problem.Grows { state with best := next.best } next :=
          hexact.grows_of_eq hlabels hqueue rfl
        refine ⟨?_, hsame.kept, hsame.fresh, hsame.queued⟩
        intro incumbent hmem
        rcases hbest with ⟨hnew, hbetter⟩ | ⟨hold, -⟩
        · exact ⟨candidate, by simp [hnew], betterTerminal_distance.1 (hbetter incumbent hmem)⟩
        · exact ⟨incumbent, hold ▸ hmem, le_refl _⟩
      refine ⟨hgrows, ?_⟩
      intro other hmem found hfound
      obtain rfl := List.mem_singleton.mp hmem
      obtain rfl : candidate = found := Option.some.inj (hextend.symm.trans hfound)
      refine ⟨fun _ => ?_, fun hopen => absurd hcloses hopen⟩
      rcases hbest with ⟨hnew, -⟩ | ⟨hold, incumbent, hincumbent, hworse⟩
      · exact ⟨candidate, by simp [hnew], le_refl _⟩
      · exact ⟨incumbent, hold ▸ hincumbent, betterTerminal_distance.2 hworse⟩
  | dominated candidate existing hextend hopen hexisting hdominates hlabels hqueue hbest =>
      refine ⟨hexact.grows_of_eq hlabels hqueue hbest, ?_⟩
      intro other hmem found hfound
      obtain rfl := List.mem_singleton.mp hmem
      obtain rfl : candidate = found := Option.some.inj (hextend.symm.trans hfound)
      refine ⟨fun hcloses => absurd hcloses hopen, fun _ => ?_⟩
      exact ⟨existing, hlabels ▸ hexisting, hdominates.1⟩
  | kept candidate hextend hopen _ hlabels hqueue hbest =>
      have hmember : candidate ∈ next.labels candidate.key := by
        simp [hlabels]
      constructor
      · refine ⟨fun best hmem => ⟨best, hbest ▸ hmem, le_refl _⟩, ?_, ?_, ?_⟩
        · intro key label hmem
          by_cases hkey : key = candidate.key
          · subst hkey
            by_cases hdominates : problem.dominates candidate label
            · exact ⟨candidate, hmember, hdominates.1⟩
            · refine ⟨label, ?_, hexact.noWorse_refl label⟩
              simp [hlabels, hmem, hdominates]
          · refine ⟨label, ?_, hexact.noWorse_refl label⟩
            rw [hlabels, Function.update_of_ne hkey]
            exact hmem
        · intro key label hmem
          rw [hlabels] at hmem
          by_cases hkey : key = candidate.key
          · subst hkey
            simp only [Function.update_self, List.mem_append, List.mem_filter, List.mem_singleton] at hmem
            rcases hmem with ⟨hold, -⟩ | rfl
            · exact .inl hold
            · refine .inr ⟨⟨state.serial, label⟩, ?_, rfl⟩
              rw [hqueue, mem_heappush]
              exact .inl rfl
          · rw [Function.update_of_ne hkey] at hmem
            exact .inl hmem
        · intro entry hmem
          rw [hqueue, mem_heappush]
          exact .inr hmem
      · intro other hmem found hfound
        obtain rfl := List.mem_singleton.mp hmem
        obtain rfl : candidate = found := Option.some.inj (hextend.symm.trans hfound)
        exact ⟨fun hcloses => absurd hcloses hopen,
          fun _ => ⟨candidate, hmember, hexact.noWorse_refl candidate⟩⟩

theorem Exact.grows_of_expand (order : List (Node K)) (state : SearchState K) (label : ChargingLabel K) :
    problem.Grows state (problem.expand order state label) ∧
      problem.Explored order (problem.expand order state label) label
        (problem.successors order label) := by
  refine problem.expand_induction order
    (motive := fun current done =>
      problem.Grows state current ∧ problem.Explored order current label done) ?_ ?_
  · refine ⟨hexact.grows_of_eq rfl rfl rfl, ?_⟩
    intro successor hmem
    simp at hmem
  · intro current next done successor _ hcurrent hvisited
    obtain ⟨hgrows, hexplored⟩ := hexact.grows_of_visited hvisited
    refine ⟨hexact.grows_trans hcurrent.1 hgrows, ?_⟩
    intro other hmem
    rcases List.mem_append.mp hmem with hold | hnew
    · exact hexact.explored_of_grows hgrows hcurrent.2 other hold
    · exact hexplored other hnew

end Coverage

/-- Every live label is queued, beaten or explored. -/
def Covered (problem : Problem K) (order : List (Node K)) (state : SearchState K) : Prop :=
  ∀ key, ∀ label ∈ state.labels key,
    (∃ entry ∈ state.queue, entry.label = label) ∨ Beaten state label.distance ∨
      problem.Explored order state label (problem.successors order label)

/-- Beaten and explored do not look at the queue. -/
theorem done_of_eq (state next : SearchState K) (hlabels : next.labels = state.labels)
    (hbest : next.best = state.best) {label : ChargingLabel K}
    (h : Beaten state label.distance ∨
      problem.Explored order state label (problem.successors order label)) :
    Beaten next label.distance ∨
      problem.Explored order next label (problem.successors order label) := by
  rcases h with ⟨best, hmem, hle⟩ | hexplored
  · exact .inl ⟨best, hbest ▸ hmem, hle⟩
  · refine .inr ?_
    intro successor hmem candidate hextend
    have hsettled := hexplored successor hmem candidate hextend
    refine ⟨fun hcloses => ?_, fun hopen => ?_⟩
    · obtain ⟨best, hbestmem, hle⟩ := hsettled.closes hcloses
      exact ⟨best, hbest ▸ hbestmem, hle⟩
    · exact hlabels ▸ hsettled.kept hopen

theorem Exact.covered_of_step (hexact : problem.Exact) {state next : SearchState K}
    (hkeys : ∀ key, ∀ label ∈ state.labels key, label.key = key)
    (hcovered : problem.Covered order state) (hstep : problem.step order state = some next) :
    problem.Covered order next := by
  obtain ⟨entry, rest, hqueue, hcases⟩ := problem.step_cases order hstep
  -- a queued label other than the popped one is still queued
  have hrest : ∀ label, (∃ other ∈ state.queue, other.label = label) → label ≠ entry.label →
      ∃ other ∈ rest, other.label = label := by
    intro label hmem hne
    obtain ⟨other, hother, hlabel⟩ := hmem
    rw [hqueue, List.mem_cons] at hother
    rcases hother with rfl | hother
    · exact absurd hlabel.symm hne
    · exact ⟨other, hother, hlabel⟩
  intro key label hmem
  rcases hcases with ⟨hstale, rfl⟩ | ⟨-, hpruned, rfl⟩ | ⟨-, -, rfl⟩
  · have hne : label ≠ entry.label := by
      rintro rfl
      rw [hkeys key _ hmem] at hstale
      exact hstale hmem
    rcases hcovered key label hmem with hqueued | hdone
    · exact .inl (hrest label hqueued hne)
    · exact .inr (done_of_eq state { state with queue := rest } rfl rfl hdone)
  · by_cases heq : label = entry.label
    · obtain ⟨incumbent, hincumbent, hle⟩ := hpruned
      rw [hexact.tolerance, sub_zero] at hle
      exact .inr (.inl ⟨incumbent, hincumbent, heq ▸ hle⟩)
    · rcases hcovered key label hmem with hqueued | hdone
      · exact .inl (hrest label hqueued heq)
      · exact .inr (done_of_eq state { state with queue := rest, pruned := state.pruned + 1 } rfl rfl hdone)
  · obtain ⟨hgrows, hexplored⟩ :=
      hexact.grows_of_expand order { state with queue := rest } entry.label
    by_cases heq : label = entry.label
    · exact .inr (.inr (heq ▸ hexplored))
    rcases hgrows.fresh key label hmem with hold | hnew
    · rcases hcovered key label hold with hqueued | hdone
      · obtain ⟨other, hother, hlabel⟩ := hrest label hqueued heq
        exact .inl ⟨other, hgrows.queued other hother, hlabel⟩
      · rcases done_of_eq state { state with queue := rest } rfl rfl hdone with hbeaten | hdone
        · exact .inr (.inl (hgrows.beaten hbeaten))
        · exact .inr (.inr (hexact.explored_of_grows hgrows hdone))
    · exact .inl hnew

/-! ### From the covered labels to every insertion -/

/-- What holds of every label the search makes. -/
structure Proper (problem : Problem K) (order : List (Node K)) (label : ChargingLabel K) : Prop where
  progress : label.progress ≤ order.length
  node : label.node ∈ problem.nodes
  full : label.node.kind = .station → label.battery = problem.vehicle.batteryCapacity

/-- The two shapes of a successor. -/
theorem mem_successors {label : ChargingLabel K} {successor : Node K × ℕ} :
    successor ∈ problem.successors order label ↔
      (∃ customer, order[label.progress]? = some customer ∧
        successor = (customer, label.progress + 1)) ∨
      (order[label.progress]? = none ∧ successor = (problem.depot, label.progress)) ∨
      ∃ station ∈ problem.stations, station.name ≠ label.node.name ∧
        successor = (station, label.progress) := by
  have hstations : successor ∈ (problem.stations.filter
        (fun station => station.name ≠ label.node.name)).map
          (fun station => (station, label.progress)) ↔
      ∃ station ∈ problem.stations, station.name ≠ label.node.name ∧
        successor = (station, label.progress) := by
    simp only [List.mem_map, List.mem_filter, decide_eq_true_eq]
    constructor
    · rintro ⟨station, ⟨hmem, hname⟩, rfl⟩
      exact ⟨station, hmem, hname, rfl⟩
    · rintro ⟨station, hmem, hname, rfl⟩
      exact ⟨station, ⟨hmem, hname⟩, rfl⟩
  rw [successors, List.mem_cons, hstations]
  cases order[label.progress]? with
  | none => simp
  | some customer => simp

/-- A successor that does not close the route: the next customer or a station. -/
theorem open_successor (horder : ∀ customer ∈ order, customer ∈ problem.nodes ∧ customer.kind = .customer)
    {label : ChargingLabel K} {successor : Node K × ℕ} (hprogress : label.progress ≤ order.length)
    (hsuccessor : successor ∈ problem.successors order label) (hopen : ¬ Closes order successor) :
    (successor.1.kind = .customer ∧ successor.2 = label.progress + 1 ∧ successor.1 ∈ problem.nodes) ∨
      (successor.1.kind = .station ∧ successor.2 = label.progress ∧ successor.1 ∈ problem.nodes) := by
  rcases mem_successors.mp hsuccessor with ⟨customer, hget, rfl⟩ | ⟨hdone, rfl⟩ |
    ⟨station, hstation, -, rfl⟩
  · obtain ⟨hmember, hkind⟩ := horder customer (List.mem_of_getElem? hget)
    exact .inl ⟨hkind, rfl, hmember⟩
  · exfalso
    apply hopen
    have hle := List.getElem?_eq_none_iff.mp hdone
    exact ⟨le_antisymm hprogress hle, problem.depot_mem.2⟩
  · obtain ⟨hmember, hkind⟩ := problem.mem_stations.mp hstation
    exact .inr ⟨hkind, rfl, hmember⟩

theorem proper_extend (horder : ∀ customer ∈ order, customer ∈ problem.nodes)
    {label candidate : ChargingLabel K} {successor : Node K × ℕ} (hlabel : problem.Proper order label)
    (hsuccessor : successor ∈ problem.successors order label)
    (hextend : problem.extend label successor.1 successor.2 = some candidate) :
    problem.Proper order candidate := by
  obtain ⟨-, rfl⟩ := problem.extend_eq_some.mp hextend
  refine ⟨?_, ?_, ?_⟩
  · change successor.2 ≤ order.length
    rcases mem_successors.mp hsuccessor with ⟨_, hnext, rfl⟩ | ⟨-, rfl⟩ | ⟨_, -, -, rfl⟩
    · have hlt := (List.getElem?_eq_some_iff.mp hnext).1
      exact hlt
    · exact hlabel.progress
    · exact hlabel.progress
  · change successor.1 ∈ problem.nodes
    rcases mem_successors.mp hsuccessor with ⟨_, hnext, rfl⟩ | ⟨-, rfl⟩ | ⟨_, hstation, -, rfl⟩
    · exact horder _ (List.mem_of_getElem? hnext)
    · exact problem.depot_mem.1
    · exact (problem.mem_stations.mp hstation).1
  · intro hstation
    have hkind : successor.1.kind = .station := hstation
    simp [reached, moved, hkind]

theorem every_proper (horder : ∀ customer ∈ order, customer ∈ problem.nodes) {state : SearchState K}
    (h : (problem.search order).Reachable state) :
    problem.Every order (problem.Proper order) state := by
  apply problem.every_of_reachable order (problem.Proper order) ?_ ?_ h
  · refine ⟨Nat.zero_le _, problem.depot_mem.1, ?_⟩
    intro hstation
    have hdepot : problem.initialLabel.node.kind = .depot := problem.depot_mem.2
    simp [hdepot] at hstation
  · intro label successor candidate hlabel hsuccessor _ hextend
    exact proper_extend horder hlabel hsuccessor hextend

theorem Exact.covered_of_reachable (hexact : problem.Exact)
    (horder : ∀ customer ∈ order, customer ∈ problem.nodes) {state : SearchState K}
    (h : (problem.search order).Reachable state) : problem.Covered order state := by
  induction h with
  | init hinit =>
      intro key label hmem
      subst hinit
      by_cases hkey : key = (0, problem.depot.name)
      · subst hkey
        simp only [initialState, Function.update_self, List.mem_singleton] at hmem
        exact .inl ⟨⟨0, problem.initialLabel⟩, by simp [initialState], hmem.symm⟩
      · simp [initialState, Function.update_of_ne hkey] at hmem
  | step hs hnext ih =>
      have hkeys := (every_proper horder hs).live
      exact hexact.covered_of_step (fun key label hmem => (hkeys key label hmem).1) ih hnext

section Completeness

variable [IsStrictOrderedRing K]

theorem Exact.distance_le_follow (hexact : problem.Exact) {walk : List (Node K)} :
    ∀ {label final : ChargingLabel K}, problem.follow label walk = some final →
      label.distance ≤ final.distance := by
  induction walk with
  | nil =>
      intro label final h
      obtain rfl := Option.some.inj h
      exact le_refl _
  | cons destination rest ih =>
      intro label final h
      obtain ⟨next, hnext, hrest⟩ := Option.bind_eq_some_iff.mp h
      obtain ⟨-, hreached⟩ := problem.extend_eq_some.mp hnext
      calc
        label.distance ≤ next.distance := by
          rw [hreached]
          exact le_add_of_nonneg_right (hexact.distance _ _)
        _ ≤ final.distance := ih hrest

/-- A covered label that is no worse takes the leg as well: the incumbent beats the result, or a live
label at its node is no worse. -/
theorem Exact.advance (hexact : problem.Exact) {state : SearchState K}
    (hcovered : problem.Covered order state) (hempty : state.queue = [])
    (hproper : problem.Every order (problem.Proper order) state)
    {label other next : ChargingLabel K} {successor : Node K × ℕ}
    (hlive : label ∈ state.labels label.key) (hnode : label.node = other.node)
    (hle : problem.noWorse label other) (hsuccessor : successor ∈ problem.successors order label)
    (hmember : successor.1 ∈ problem.nodes)
    (hnext : problem.extend other successor.1 successor.2 = some next) :
    Beaten state next.distance ∨ (¬ Closes order successor ∧
      ∃ last ∈ state.labels last.key, last.progress = successor.2 ∧ last.node = successor.1 ∧
        problem.noWorse last next) := by
  obtain ⟨haccepts, rfl⟩ := problem.extend_eq_some.mp hnext
  rcases hcovered _ label hlive with ⟨entry, hentry, -⟩ | hbeaten | hexplored
  · simp [hempty] at hentry
  · refine .inl (hbeaten.mono ?_)
    calc
      label.distance ≤ other.distance := (hexact.noWorse_iff.mp hle).2.2
      _ ≤ _ := le_add_of_nonneg_right (hexact.distance _ _)
  · rw [← hnode] at haccepts
    obtain ⟨hextends, hbetter⟩ := hexact.reached_noWorse successor.2 hle haccepts
    have hcandidate : problem.extend label successor.1 successor.2 =
        some (problem.reached label successor.1 successor.2 (problem.leg label.node successor.1)) :=
      problem.extend_eq_some.mpr ⟨hextends, rfl⟩
    have hsettled := hexplored successor hsuccessor _ hcandidate
    rw [← hnode]
    by_cases hcloses : Closes order successor
    · exact .inl ((hsettled.closes hcloses).mono (hexact.noWorse_iff.mp hbetter).2.2)
    · obtain ⟨last, hlast, hlastle⟩ := hsettled.kept hcloses
      obtain ⟨hkey, hlastproper⟩ := hproper.live _ last hlast
      have hprogress : last.progress = successor.2 := congrArg Prod.fst hkey
      have hname : last.node.name = successor.1.name := congrArg Prod.snd hkey
      refine .inr ⟨hcloses, last, hkey.symm ▸ hlast, hprogress, ?_, hexact.noWorse_trans hlastle hbetter⟩
      exact problem.eq_of_name_eq hlastproper.node hmember hname

/-- When the queue is empty, the incumbent is no longer than any accepted insertion. -/
theorem Exact.beaten_of_follow (hexact : problem.Exact) {state : SearchState K}
    (horder : ∀ customer ∈ order, customer ∈ problem.nodes ∧ customer.kind = .customer)
    (hcovered : problem.Covered order state) (hempty : state.queue = [])
    (hproper : problem.Every order (problem.Proper order) state)
    {rest walk : List (Node K)} (hwalk : problem.Insertion rest walk) :
    ∀ {label other final : ChargingLabel K}, label ∈ state.labels label.key →
      label.progress = other.progress → label.node = other.node → rest = order.drop other.progress →
      problem.noWorse label other → problem.follow other walk = some final →
      Beaten state final.distance := by
  induction hwalk with
  | close =>
      intro label other final hlive hprogress hnode hrest hle hfollow
      obtain ⟨next, hnext, hfinal⟩ := Option.bind_eq_some_iff.mp hfollow
      obtain rfl := Option.some.inj hfinal
      have hkind := problem.depot_mem.2
      simp only [nextProgress, hkind, reduceCtorEq, if_false] at hnext
      have hlabel := (hproper.live _ label hlive).2
      have hdone : other.progress = order.length := by
        have hlen := List.drop_eq_nil_iff.mp hrest.symm
        have := hlabel.progress
        omega
      have hsuccessor : (problem.depot, other.progress) ∈ problem.successors order label := by
        apply mem_successors.mpr
        refine .inr (.inl ⟨?_, by rw [hprogress]⟩)
        rw [hprogress, hdone]
        simp
      rcases hexact.advance hcovered hempty hproper hlive hnode hle hsuccessor
        problem.depot_mem.1 hnext with hbeaten | ⟨hopen, -⟩
      · exact hbeaten
      · exact absurd ⟨hdone, hkind⟩ hopen
  | @station served tail station hstation _ ih =>
      intro label other final hlive hprogress hnode hrest hle hfollow
      obtain ⟨next, hnext, hfinal⟩ := Option.bind_eq_some_iff.mp hfollow
      obtain ⟨hmember, hkind⟩ := problem.mem_stations.mp hstation
      simp only [nextProgress, hkind, reduceCtorEq, if_false] at hnext
      obtain ⟨hnextProgress, hnextNode⟩ := problem.extend_progress hnext
      by_cases hname : station.name = label.node.name
      · have hlabel := (hproper.live _ label hlive).2
        have hsame : station = label.node := problem.eq_of_name_eq hmember hlabel.node hname
        obtain ⟨-, hreached⟩ := problem.extend_eq_some.mp hnext
        apply ih hlive (hprogress.trans hnextProgress.symm) (hsame.symm.trans hnextNode.symm)
          (by rw [hnextProgress]; exact hrest) ?_ hfinal
        rw [hreached]
        exact hexact.noWorse_reached_self hle hkind (hlabel.full (hsame ▸ hkind))
      · have hsuccessor : (station, other.progress) ∈ problem.successors order label := by
          apply mem_successors.mpr
          exact .inr (.inr ⟨station, hstation, hname, by rw [hprogress]⟩)
        rcases hexact.advance hcovered hempty hproper hlive hnode hle hsuccessor hmember hnext with
          hbeaten | ⟨-, last, hlast, hlastProgress, hlastNode, hlastle⟩
        · exact hbeaten.mono (hexact.distance_le_follow hfinal)
        · exact ih hlast (hlastProgress.trans hnextProgress.symm) (hlastNode.trans hnextNode.symm)
            (by rw [hnextProgress]; exact hrest) hlastle hfinal
  | @customer served tail customer _ ih =>
      intro label other final hlive hprogress hnode hrest hle hfollow
      obtain ⟨next, hnext, hfinal⟩ := Option.bind_eq_some_iff.mp hfollow
      have hget : order[other.progress]? = some customer := by
        have hhead := congrArg List.head? hrest
        simpa [List.head?_drop] using hhead.symm
      have hdrop : served = order.drop (other.progress + 1) := by
        have htail := congrArg List.tail hrest
        simpa [List.tail_drop] using htail
      obtain ⟨hmember, hkind⟩ := horder customer (List.mem_of_getElem? hget)
      simp only [nextProgress, hkind, if_true] at hnext
      obtain ⟨hnextProgress, hnextNode⟩ := problem.extend_progress hnext
      have hsuccessor : (customer, other.progress + 1) ∈ problem.successors order label := by
        apply mem_successors.mpr
        exact .inl ⟨customer, by rw [hprogress]; exact hget, by rw [hprogress]⟩
      rcases hexact.advance hcovered hempty hproper hlive hnode hle hsuccessor hmember hnext with
        hbeaten | ⟨-, last, hlast, hlastProgress, hlastNode, hlastle⟩
      · exact hbeaten.mono (hexact.distance_le_follow hfinal)
      · exact ih hlast (hlastProgress.trans hnextProgress.symm) (hlastNode.trans hnextNode.symm)
          (by rw [hnextProgress]; exact hdrop) hlastle hfinal

end Completeness

/-! ### Every label comes from a walk -/

theorem follow_append {walk last : List (Node K)} :
    ∀ {label : ChargingLabel K}, problem.follow label (walk ++ last) =
      (problem.follow label walk).bind (fun next => problem.follow next last) := by
  induction walk with
  | nil =>
      intro label
      rfl
  | cons destination rest ih =>
      intro label
      simp only [List.cons_append, follow, Option.bind_assoc]
      congr 1
      funext next
      exact ih

/-- The label is reached by a walk that every insertion into the rest of the order completes. -/
def Attained (problem : Problem K) (order : List (Node K)) (label : ChargingLabel K) : Prop :=
  ∃ walk, problem.follow problem.initialLabel walk = some label ∧
    ∀ rest, problem.Insertion (order.drop label.progress) rest → problem.Insertion order (walk ++ rest)

/-- The walk of a label goes on to every candidate that is kept open. -/
theorem attained_walk (horder : ∀ customer ∈ order, customer ∈ problem.nodes ∧ customer.kind = .customer)
    {label candidate : ChargingLabel K} {successor : Node K × ℕ} {walk : List (Node K)}
    (hwalk : problem.follow problem.initialLabel walk = some label)
    (hinsert : ∀ rest, problem.Insertion (order.drop label.progress) rest → problem.Insertion order (walk ++ rest))
    (hsuccessor : successor ∈ problem.successors order label)
    (hopen : ¬ Closes order successor) (hprogress : label.progress ≤ order.length)
    (hextend : problem.extend label successor.1 successor.2 = some candidate) :
    problem.follow problem.initialLabel (walk ++ [successor.1]) = some candidate ∧
      ∀ rest, problem.Insertion (order.drop candidate.progress) rest →
        problem.Insertion order (walk ++ [successor.1] ++ rest) := by
  obtain ⟨hcandidate, -⟩ := problem.extend_progress hextend
  have hnext : nextProgress label successor.1 = successor.2 →
      problem.follow problem.initialLabel (walk ++ [successor.1]) = some candidate := by
    intro h
    simp [follow_append, hwalk, follow, h, hextend]
  rcases mem_successors.mp hsuccessor with ⟨customer, hget, rfl⟩ | ⟨hdone, rfl⟩ |
    ⟨station, hstation, -, rfl⟩
  · have hkind := (horder customer (List.mem_of_getElem? hget)).2
    refine ⟨hnext (by simp [nextProgress, hkind]), ?_⟩
    intro rest hrest
    rw [List.append_assoc]
    apply hinsert
    have hdrop : order.drop label.progress = customer :: order.drop (label.progress + 1) := by
      obtain ⟨hlt, hcustomer⟩ := List.getElem?_eq_some_iff.mp hget
      rw [List.drop_eq_getElem_cons hlt, hcustomer]
    rw [hdrop]
    rw [hcandidate] at hrest
    exact .customer hrest
  · exfalso
    apply hopen
    refine ⟨?_, problem.depot_mem.2⟩
    have hle := List.getElem?_eq_none_iff.mp hdone
    change label.progress = order.length
    omega
  · have hkind := (problem.mem_stations.mp hstation).2
    refine ⟨hnext (by simp [nextProgress, hkind]), ?_⟩
    intro rest hrest
    rw [List.append_assoc]
    apply hinsert
    rw [hcandidate] at hrest
    exact .station hstation hrest

theorem attained_extend (horder : ∀ customer ∈ order, customer ∈ problem.nodes ∧ customer.kind = .customer)
    {label candidate : ChargingLabel K} {successor : Node K × ℕ} (hlabel : problem.Attained order label)
    (hsuccessor : successor ∈ problem.successors order label)
    (hopen : ¬ Closes order successor) (hprogress : label.progress ≤ order.length)
    (hextend : problem.extend label successor.1 successor.2 = some candidate) :
    problem.Attained order candidate := by
  obtain ⟨walk, hwalk, hinsert⟩ := hlabel
  exact ⟨walk ++ [successor.1], attained_walk horder hwalk hinsert hsuccessor hopen hprogress hextend⟩

/-- A candidate that closes the route completes the walk of its label at the depot. -/
theorem closing_walk (horder : ∀ customer ∈ order, customer ∈ problem.nodes ∧ customer.kind = .customer)
    {label best : ChargingLabel K} {successor : Node K × ℕ} {walk : List (Node K)}
    (hwalk : problem.follow problem.initialLabel walk = some label)
    (hinsert : ∀ rest, problem.Insertion (order.drop label.progress) rest → problem.Insertion order (walk ++ rest))
    (hsuccessor : successor ∈ problem.successors order label) (hcloses : Closes order successor)
    (hextend : problem.extend label successor.1 successor.2 = some best) :
    successor.1 = problem.depot ∧ problem.Insertion order (walk ++ [problem.depot]) ∧
      problem.follow problem.initialLabel (walk ++ [problem.depot]) = some best := by
  obtain ⟨hprogress, hkind⟩ := hcloses
  have hclosing : label.progress = order.length ∧ successor = (problem.depot, label.progress) := by
    rcases mem_successors.mp hsuccessor with ⟨customer, hget, rfl⟩ | ⟨-, rfl⟩ |
      ⟨station, hstation, -, rfl⟩
    · have hcustomer := (horder customer (List.mem_of_getElem? hget)).2
      simp [hcustomer] at hkind
    · exact ⟨hprogress, rfl⟩
    · simp [(problem.mem_stations.mp hstation).2] at hkind
  obtain ⟨hdone, rfl⟩ := hclosing
  refine ⟨rfl, ?_, ?_⟩
  · apply hinsert
    rw [hdone, List.drop_length]
    exact .close
  · have hnext : nextProgress label problem.depot = label.progress := by
      simp [nextProgress, problem.depot_mem.2]
    simp [follow_append, hwalk, follow, hnext, hextend]

/-- The incumbent is the last label of an accepted insertion. -/
theorem best_attained (horder : ∀ customer ∈ order, customer ∈ problem.nodes ∧ customer.kind = .customer)
    {state : SearchState K} (h : (problem.search order).Reachable state) {best : ChargingLabel K}
    (hbest : best ∈ state.best) :
    ∃ walk, problem.Insertion order walk ∧ problem.follow problem.initialLabel walk = some best := by
  have hevery := problem.every_of_reachable order
    (fun label => problem.Proper order label ∧ problem.Attained order label) ?_ ?_ h
  · obtain ⟨label, successor, ⟨-, walk, hwalk, hinsert⟩, hsuccessor, hextend, hcloses⟩ := hevery.closed best hbest
    obtain ⟨-, hinsertion, hfollow⟩ := closing_walk horder hwalk hinsert hsuccessor hcloses hextend
    exact ⟨walk ++ [problem.depot], hinsertion, hfollow⟩
  · refine ⟨⟨Nat.zero_le _, problem.depot_mem.1, ?_⟩, [], rfl, ?_⟩
    · intro hstation
      have hdepot : problem.initialLabel.node.kind = .depot := problem.depot_mem.2
      simp [hdepot] at hstation
    · intro rest hrest
      exact hrest
  · intro label successor candidate hlabel hsuccessor hopen hextend
    exact ⟨proper_extend (fun customer hmem => (horder customer hmem).1) hlabel.1 hsuccessor hextend,
      attained_extend horder hlabel.2 hsuccessor hopen hlabel.1.progress hextend⟩

/-- The first label, or one that is no worse, stays. -/
theorem Exact.start_kept (hexact : problem.Exact) {state : SearchState K}
    (h : (problem.search order).Reachable state) :
    ∃ label ∈ state.labels (0, problem.depot.name), problem.noWorse label problem.initialLabel := by
  induction h with
  | init hinit =>
      subst hinit
      exact ⟨problem.initialLabel, by simp [initialState], hexact.noWorse_refl _⟩
  | @step state next _ hnext ih =>
      obtain ⟨label, hmem, hle⟩ := ih
      obtain ⟨entry, rest, -, hcases⟩ := problem.step_cases order hnext
      rcases hcases with ⟨-, rfl⟩ | ⟨-, -, rfl⟩ | ⟨-, -, rfl⟩
      · exact ⟨label, hmem, hle⟩
      · exact ⟨label, hmem, hle⟩
      · obtain ⟨hgrows, -⟩ := hexact.grows_of_expand order { state with queue := rest } entry.label
        obtain ⟨other, hother, hbetter⟩ := hgrows.kept _ label hmem
        exact ⟨other, hother, hexact.noWorse_trans hbetter hle⟩

section Completeness

variable [IsStrictOrderedRing K]

/-- When the queue loop has ended, the incumbent is a shortest accepted insertion, and there is none
without an incumbent. -/
theorem Exact.isLeast_best (hexact : problem.Exact)
    (horder : ∀ customer ∈ order, customer ∈ problem.nodes ∧ customer.kind = .customer)
    {fuel : ℕ} {final : SearchState K}
    (h : problem.queueLoop order fuel problem.initialState = some final) :
    (final.best = none → ∀ walk, problem.Insertion order walk →
      problem.follow problem.initialLabel walk = none) ∧
    ∀ best ∈ final.best,
      IsLeast {distance | ∃ walk label, problem.Insertion order walk ∧
        problem.follow problem.initialLabel walk = some label ∧ label.distance = distance}
        best.distance := by
  obtain ⟨hreachable, hempty⟩ :=
    problem.queueLoop_reachable order (.init rfl) h
  have hmembers : ∀ customer ∈ order, customer ∈ problem.nodes :=
    fun customer hmem => (horder customer hmem).1
  have hproper := every_proper hmembers hreachable
  have hcovered := hexact.covered_of_reachable hmembers hreachable
  obtain ⟨label, hmem, hle⟩ := hexact.start_kept hreachable
  obtain ⟨hkey, hlabel⟩ := hproper.live _ label hmem
  have hlive : label ∈ final.labels label.key := hkey.symm ▸ hmem
  have hprogress : label.progress = 0 := congrArg Prod.fst hkey
  have hnode : label.node = problem.depot :=
    problem.eq_of_name_eq hlabel.node problem.depot_mem.1 (congrArg Prod.snd hkey)
  have hbeaten : ∀ walk final', problem.Insertion order walk →
      problem.follow problem.initialLabel walk = some final' → Beaten final final'.distance := by
    intro walk final' hwalk hfollow
    exact hexact.beaten_of_follow horder hcovered hempty hproper hwalk hlive hprogress hnode rfl hle hfollow
  constructor
  · intro hnone walk hwalk
    by_contra hsome
    obtain ⟨final', hfollow⟩ := Option.ne_none_iff_exists'.mp hsome
    obtain ⟨best, hbest, -⟩ := hbeaten walk final' hwalk hfollow
    simp [hnone] at hbest
  · intro best hbest
    constructor
    · obtain ⟨walk, hwalk, hfollow⟩ := best_attained horder hreachable hbest
      exact ⟨walk, best, hwalk, hfollow, rfl⟩
    · rintro distance ⟨walk, label', hwalk, hfollow, rfl⟩
      obtain ⟨incumbent, hincumbent, hle'⟩ := hbeaten walk label' hwalk hfollow
      obtain rfl := Option.mem_unique hbest hincumbent
      exact hle'

end Completeness

end Problem

end TxnOpt.Evrptw
