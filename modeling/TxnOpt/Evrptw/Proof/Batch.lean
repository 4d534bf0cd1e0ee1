import TxnOpt.Evrptw.Native
import TxnOpt.Lib.Transition

/-!
# The routes of a batch, one by one

A route of a batch takes one turn a round, and its turns do not depend on the other routes, on where the
chunks are cut or, until the deadline, on the clock. The batch keeps, for every route, the state after its
turns and the round in which it completed.
-/

namespace TxnOpt.Evrptw.Native

variable {K : Type} [Field K] [LinearOrder K]

section Turns

variable (tables : Tables K) (epsilon : K)

/-- What one round does to a route, when no deadline interrupts it. -/
def turn (state : ExactSearchState K) : ExactSearchState K :=
  if state.completed then state
  else
    match popLive state state.queue with
    | (none, queue) => { state with queue, completed := true }
    | (some index, queue) =>
        if state.best.any (fun best => (state.label index).distance ≥ best.distance - epsilon) then
          { state with queue, pruned := state.pruned + 1 }
        else
          (requestsOf tables 0 index state).foldl (serve tables epsilon)
            { state with queue, expanded := state.expanded + 1 }

/-- A route after the given number of rounds. -/
def after (order : List ℕ) (rounds : ℕ) : ExactSearchState K :=
  (turn tables epsilon)^[rounds] (startState tables order)

variable {tables epsilon}

theorem after_succ (order : List ℕ) (rounds : ℕ) :
    after tables epsilon order (rounds + 1) = turn tables epsilon (after tables epsilon order rounds) :=
  Function.iterate_succ_apply' _ _ _

theorem turn_completed {state : ExactSearchState K} (h : state.completed = true) :
    turn tables epsilon state = state :=
  if_pos h

theorem turn_none {state : ExactSearchState K} (hopen : state.completed = false)
    {queue : List (ExactQueueEntry K)} (hpop : popLive state state.queue = (none, queue)) :
    turn tables epsilon state = { state with queue, completed := true } := by
  simp only [turn, hopen, hpop, Bool.false_eq_true, if_false]

theorem turn_pruned {state : ExactSearchState K} (hopen : state.completed = false) {index : ℕ}
    {queue : List (ExactQueueEntry K)} (hpop : popLive state state.queue = (some index, queue))
    (hbest : state.best.any (fun best => (state.label index).distance ≥ best.distance - epsilon) = true) :
    turn tables epsilon state = { state with queue, pruned := state.pruned + 1 } := by
  simp only [turn, hopen, hpop, Bool.false_eq_true, if_false]
  exact if_pos hbest

theorem turn_expanded {state : ExactSearchState K} (hopen : state.completed = false) {index : ℕ}
    {queue : List (ExactQueueEntry K)} (hpop : popLive state state.queue = (some index, queue))
    (hbest : ¬ state.best.any
      (fun best => (state.label index).distance ≥ best.distance - epsilon) = true) :
    turn tables epsilon state = (requestsOf tables 0 index state).foldl (serve tables epsilon)
      { state with queue, expanded := state.expanded + 1 } := by
  simp only [turn, hopen, hpop, Bool.false_eq_true, if_false]
  exact if_neg hbest

theorem after_completed {order : List ℕ} {rounds later : ℕ}
    (h : (after tables epsilon order rounds).completed = true) (hle : rounds ≤ later) :
    after tables epsilon order later = after tables epsilon order rounds := by
  induction later, hle using Nat.le_induction with
  | base => rfl
  | succ later _ ih => rw [after_succ, ih, turn_completed h]

/-- The requests of a label do the same whatever route they name. -/
theorem serve_requestsOf (route index : ℕ) (state start : ExactSearchState K) :
    (requestsOf tables route index state).foldl (serve tables epsilon) start =
      (requestsOf tables 0 index state).foldl (serve tables epsilon) start := by
  have hrename : requestsOf tables route index state =
      (requestsOf tables 0 index state).map (fun request => { request with route := route }) := by
    simp only [requestsOf, List.map_cons, List.map_map]
    congr 1
    cases state.order[(state.label index).progress]? <;> rfl
  rw [hrename, List.foldl_map]
  rfl

omit [LinearOrder K] in
theorem requestsOf_route {route index : ℕ} {state : ExactSearchState K} :
    ∀ request ∈ requestsOf tables route index state, request.route = route := by
  intro request hmem
  simp only [requestsOf, List.mem_cons, List.mem_map] at hmem
  rcases hmem with hhead | ⟨station, -, htail⟩
  · rw [hhead]
    cases state.order[(state.label index).progress]? <;> rfl
  · rw [← htail]

theorem serve_completed (state : ExactSearchState K) (request : ExactRequest) :
    (serve tables epsilon state request).completed = state.completed := by
  unfold serve insert
  simp only
  split
  · rfl
  · split_ifs <;> rfl

end Turns

/-- The state of one route: served its pending requests, it is the state after its turns; only a deadline
can leave it elsewhere. -/
def Alone (tables : Tables K) (epsilon : K) (order : List ℕ) (rounds : ℕ) (hit : Bool)
    (state : ExactSearchState K) (pending : List ExactRequest) : Prop :=
  ((state.completed = true → pending = []) ∧
      pending.foldl (serve tables epsilon) state = after tables epsilon order rounds) ∨
    (hit = true ∧ state.completed = false)

section Routes

variable {tables : Tables K} {epsilon : K} {order : List ℕ} {rounds : ℕ} {state : ExactSearchState K}

theorem Alone.start : Alone tables epsilon order 0 false (startState tables order) [] :=
  .inl ⟨fun _ => rfl, rfl⟩

theorem Alone.eq_after {hit : Bool} (h : Alone tables epsilon order rounds hit state [])
    (hsure : hit = false ∨ state.completed = true) : state = after tables epsilon order rounds := by
  rcases h with ⟨-, hafter⟩ | ⟨hhit, hopen⟩
  · exact hafter
  · rcases hsure with hclear | hcompleted
    · rw [hclear] at hhit
      exact absurd hhit (by decide)
    · rw [hopen] at hcompleted
      exact absurd hcompleted (by decide)

theorem Alone.completed {hit : Bool} {pending : List ExactRequest}
    (h : Alone tables epsilon order rounds hit state pending) (hcompleted : state.completed = true) :
    pending = [] ∧ state = after tables epsilon order rounds := by
  rcases h with ⟨hnone, hafter⟩ | ⟨-, hopen⟩
  · have hpending := hnone hcompleted
    subst hpending
    exact ⟨rfl, hafter⟩
  · rw [hopen] at hcompleted
    exact absurd hcompleted (by decide)

theorem Alone.mono {hit hit' : Bool} {pending : List ExactRequest}
    (h : Alone tables epsilon order rounds hit state pending) (himp : hit = true → hit' = true) :
    Alone tables epsilon order rounds hit' state pending := by
  rcases h with hexact | ⟨hhit, hopen⟩
  · exact .inl hexact
  · exact .inr ⟨himp hhit, hopen⟩

/-- A completed route stays, and so does an interrupted one. -/
theorem Alone.stays {hit : Bool} {pending : List ExactRequest}
    (h : Alone tables epsilon order rounds hit state pending)
    (hstays : state.completed = true ∨ hit = true) : Alone tables epsilon order (rounds + 1) hit state pending := by
  by_cases hcompleted : state.completed = true
  · obtain ⟨hpending, hstate⟩ := h.completed hcompleted
    refine .inl ⟨fun _ => hpending, ?_⟩
    rw [hpending, after_succ, ← hstate, turn_completed hcompleted]
    rfl
  · rcases hstays with hcontra | hhit
    · exact absurd hcontra hcompleted
    · exact .inr ⟨hhit, by simpa using hcompleted⟩

theorem Alone.served {hit : Bool} {request : ExactRequest} {rest : List ExactRequest}
    (h : Alone tables epsilon order rounds hit state (request :: rest)) :
    Alone tables epsilon order rounds hit (serve tables epsilon state request) rest := by
  rcases h with ⟨hnone, hafter⟩ | ⟨hhit, hopen⟩
  · refine .inl ⟨?_, hafter⟩
    intro hcompleted
    rw [serve_completed] at hcompleted
    exact absurd (hnone hcompleted) (by simp)
  · refine .inr ⟨hhit, ?_⟩
    rw [serve_completed]
    exact hopen

end Routes

/-! ### What the loop keeps -/

/-- The requests pending for a route. -/
def pendingOf (route : ℕ) (requests : List ExactRequest) : List ExactRequest :=
  requests.filter (fun request => request.route = route)

/-- When a route completed, ties broken by its number. -/
def Batch.stamp (batch : Batch K) (route : ℕ) : ℕ ×ₗ ℕ :=
  toLex ((batch.completionRounds route).getD 0, route)

/-- Every route is where its own turns take it. -/
structure Kept (tables : Tables K) (epsilon : K) (expired : ℕ → Bool) (orders : List (List ℕ))
    (rounds : ℕ → ℕ) (batch : Batch K) (requests : List ExactRequest) : Prop where
  length : batch.states.length = orders.length
  routes : ∀ (route : ℕ) (order : List ℕ) (state : ExactSearchState K), orders[route]? = some order →
    batch.states[route]? = some state →
      Alone tables epsilon order (rounds route) batch.deadlineHit state (pendingOf route requests)
  clock : batch.deadlineHit = true → ∃ check < batch.checks, expired check = true

/-- Every completed route is recorded with the round of its last turn, in the order of completion. -/
structure Recorded (tables : Tables K) (epsilon : K) (orders : List (List ℕ)) (batch : Batch K) :
    Prop where
  round : ∀ route completion, batch.completionRounds route = some completion →
    ∃ order, orders[route]? = some order ∧ 0 < completion ∧ completion ≤ batch.searchRound ∧
      (after tables epsilon order completion).completed = true ∧
      (after tables epsilon order (completion - 1)).completed = false
  flagged : ∀ route state, batch.states[route]? = some state →
    (state.completed = true ↔ (batch.completionRounds route).isSome = true)
  members : ∀ route, route ∈ batch.completionOrder ↔ (batch.completionRounds route).isSome = true
  ordered : batch.completionOrder.Pairwise (fun first second => batch.stamp first < batch.stamp second)

section Steps

variable {tables : Tables K} {epsilon : K} {expired : ℕ → Bool} {orders : List (List ℕ)}
  {rounds rounds' : ℕ → ℕ} {batch next : Batch K} {requests own : List ExactRequest}

theorem pendingOf_append (route : ℕ) (first second : List ExactRequest) :
    pendingOf route (first ++ second) = pendingOf route first ++ pendingOf route second :=
  List.filter_append _ _

theorem pendingOf_own {route : ℕ} (h : ∀ request ∈ own, request.route = route) :
    pendingOf route own = own := by
  apply List.filter_eq_self.mpr
  intro request hmem
  simpa using h request hmem

theorem pendingOf_other {route other : ℕ} (h : ∀ request ∈ own, request.route = route)
    (hne : other ≠ route) : pendingOf other own = [] := by
  apply List.filter_eq_nil_iff.mpr
  intro request hmem hother
  have hroute := h request hmem
  simp only [decide_eq_true_eq] at hother
  exact hne (hother.symm.trans hroute)

/-- The deadline check. -/
theorem Kept.check (h : Kept tables epsilon expired orders rounds batch requests)
    (himp : batch.deadlineHit = true → (batch.check expired).deadlineHit = true) :
    Kept tables epsilon expired orders rounds (batch.check expired) requests := by
  refine ⟨h.length, ?_, ?_⟩
  · intro route order state horder hstate
    exact (h.routes route order state horder hstate).mono himp
  · intro hhit
    exact ⟨batch.checks, Nat.lt_succ_self _, hhit⟩

/-- One route changes, and its new requests wait behind the others. -/
theorem Kept.set (h : Kept tables epsilon expired orders rounds batch requests)
    (hclear : batch.deadlineHit = false) {route : ℕ} {state : ExactSearchState K}
    (hstates : next.states = batch.states.set route state) (hnone : pendingOf route requests = [])
    (hown : ∀ request ∈ own, request.route = route)
    (hclock : next.deadlineHit = true → ∃ check < next.checks, expired check = true)
    (hrounds : ∀ other, other ≠ route → rounds' other = rounds other)
    (hroute : ∀ order, orders[route]? = some order →
      Alone tables epsilon order (rounds' route) next.deadlineHit state own) :
    Kept tables epsilon expired orders rounds' next (requests ++ own) := by
  refine ⟨by rw [hstates, List.length_set]; exact h.length, ?_, hclock⟩
  intro other order otherState horder hstate
  rw [hstates] at hstate
  rw [pendingOf_append]
  by_cases hsame : other = route
  · subst hsame
    have hlt : other < batch.states.length := by
      have := (List.getElem?_eq_some_iff.mp hstate).1
      simpa using this
    rw [List.getElem?_set_self hlt, Option.some.injEq] at hstate
    rw [hnone, pendingOf_own hown, ← hstate]
    exact hroute order horder
  · rw [List.getElem?_set_ne (fun hne => hsame hne.symm)] at hstate
    have hold := h.routes other order otherState horder hstate
    rw [pendingOf_other hown hsame, List.append_nil, hrounds other hsame]
    apply hold.mono
    intro hhit
    rw [hclear] at hhit
    exact absurd hhit (by decide)

/-- Serving the first request. -/
theorem Kept.serve {request : ExactRequest} {rest : List ExactRequest}
    (h : Kept tables epsilon expired orders rounds batch (request :: rest)) :
    Kept tables epsilon expired orders rounds
      { batch with states := serveRoute tables epsilon batch.states request } rest := by
  refine ⟨by simp [serveRoute, h.length], ?_, h.clock⟩
  intro route order state horder hstate
  simp only [serveRoute, List.getElem?_modify] at hstate
  obtain ⟨old, hold, hnew⟩ := Option.map_eq_some_iff.mp hstate
  have hroute := h.routes route order old horder hold
  by_cases hsame : request.route = route
  · have hpending : pendingOf route (request :: rest) = request :: pendingOf route rest := by
      simp [pendingOf, hsame]
    rw [hpending] at hroute
    rw [if_pos hsame] at hnew
    rw [← hnew]
    exact hroute.served
  · have hpending : pendingOf route (request :: rest) = pendingOf route rest := by
      simp [pendingOf, hsame]
    rw [hpending] at hroute
    rw [if_neg hsame] at hnew
    rw [← hnew]
    exact hroute

/-- Serving a whole chunk. -/
theorem Kept.chunk :
    ∀ (chunk : List ExactRequest) {rest : List ExactRequest} {batch : Batch K},
      Kept tables epsilon expired orders rounds batch (chunk ++ rest) →
        Kept tables epsilon expired orders rounds
          { batch with states := chunk.foldl (serveRoute tables epsilon) batch.states } rest := by
  intro chunk
  induction chunk with
  | nil => exact fun h => h
  | cons request chunk ih =>
      intro rest batch h
      exact ih h.serve

/-- The record depends on the states through their flags alone. -/
theorem Recorded.of_flags (h : Recorded tables epsilon orders batch)
    (hround : batch.searchRound ≤ next.searchRound)
    (hrounds : next.completionRounds = batch.completionRounds)
    (horder : next.completionOrder = batch.completionOrder)
    (hflags : next.states.map ExactSearchState.completed = batch.states.map ExactSearchState.completed) :
    Recorded tables epsilon orders next := by
  refine ⟨?_, ?_, ?_, ?_⟩
  · intro route completion hcompletion
    rw [hrounds] at hcompletion
    obtain ⟨order, hknown, hpos, hle, hdone, hopen⟩ := h.round route completion hcompletion
    exact ⟨order, hknown, hpos, hle.trans hround, hdone, hopen⟩
  · intro route state hstate
    have hflag : (batch.states[route]?).map ExactSearchState.completed = some state.completed := by
      rw [← List.getElem?_map, ← hflags, List.getElem?_map, hstate, Option.map_some]
    obtain ⟨old, hold, hsame⟩ := Option.map_eq_some_iff.mp hflag
    rw [hrounds, ← hsame]
    exact h.flagged route old hold
  · rw [horder, hrounds]
    exact h.members
  · have hstamp : next.stamp = batch.stamp := by
      funext route
      rw [Batch.stamp, Batch.stamp, hrounds]
    rw [horder, hstamp]
    exact h.ordered

/-- A route completes: it comes last in the order so far. -/
theorem Recorded.complete (h : Recorded tables epsilon orders batch) {route : ℕ} {order : List ℕ}
    {state : ExactSearchState K} (horder : orders[route]? = some order)
    (hstates : next.states = batch.states.set route state) (hcompleted : state.completed = true)
    (hfresh : batch.completionRounds route = none)
    (hround : next.searchRound = batch.searchRound) (hpos : 0 < batch.searchRound)
    (hrounds : next.completionRounds =
      Function.update batch.completionRounds route (some batch.searchRound))
    (hnextOrder : next.completionOrder = batch.completionOrder ++ [route])
    (hdone : (after tables epsilon order batch.searchRound).completed = true)
    (hopen : (after tables epsilon order (batch.searchRound - 1)).completed = false)
    (hahead : ∀ other ∈ batch.completionOrder, batch.stamp other < toLex (batch.searchRound, route)) :
    Recorded tables epsilon orders next := by
  have hsome : ∀ other, (next.completionRounds other).isSome = true ↔
      other = route ∨ (batch.completionRounds other).isSome = true := by
    intro other
    rw [hrounds]
    by_cases hsame : other = route
    · simp [hsame]
    · simp [hsame]
  have hold : ∀ other ∈ batch.completionOrder, next.stamp other = batch.stamp other := by
    intro other hmem
    have hne : other ≠ route := by
      intro hsame
      have hrecorded := (h.members other).mp hmem
      rw [hsame, hfresh] at hrecorded
      exact absurd hrecorded (by decide)
    rw [Batch.stamp, Batch.stamp, hrounds, Function.update_of_ne hne]
  refine ⟨?_, ?_, ?_, ?_⟩
  · intro other completion hcompletion
    rw [hrounds] at hcompletion
    rw [hround]
    by_cases hsame : other = route
    · subst hsame
      rw [Function.update_self, Option.some.injEq] at hcompletion
      subst hcompletion
      exact ⟨order, horder, hpos, le_refl _, hdone, hopen⟩
    · rw [Function.update_of_ne hsame] at hcompletion
      exact h.round other completion hcompletion
  · intro other otherState hstate
    rw [hstates] at hstate
    rw [hsome]
    by_cases hsame : other = route
    · subst hsame
      have hlt : other < batch.states.length := by
        have := (List.getElem?_eq_some_iff.mp hstate).1
        simpa using this
      rw [List.getElem?_set_self hlt, Option.some.injEq] at hstate
      rw [← hstate]
      simp [hcompleted]
    · rw [List.getElem?_set_ne (fun hne => hsame hne.symm)] at hstate
      rw [h.flagged other otherState hstate]
      simp [hsame]
  · intro other
    rw [hsome, hnextOrder, List.mem_append, List.mem_singleton, h.members other]
    exact or_comm
  · rw [hnextOrder, List.pairwise_append]
    refine ⟨?_, List.pairwise_singleton _ _, ?_⟩
    · apply h.ordered.imp_of_mem
      intro first second hfirst hsecond hlt
      rw [hold first hfirst, hold second hsecond]
      exact hlt
    · intro first hfirst second hsecond
      rw [List.mem_singleton.mp hsecond, hold first hfirst]
      have hlast : next.stamp route = toLex (batch.searchRound, route) := by
        simp [Batch.stamp, hrounds]
      rw [hlast]
      exact hahead first hfirst

/-! ### One round -/

/-- What holds within the loop over the routes, with `rest` still to come. -/
structure Polled (tables : Tables K) (epsilon : K) (expired : ℕ → Bool) (orders : List (List ℕ))
    (finished : ℕ) (rest : List ℕ) (round : Round K) : Prop where
  kept : Kept tables epsilon expired orders
    (fun route => if route ∈ rest then finished else finished + 1) round.batch round.requests
  recorded : Recorded tables epsilon orders round.batch
  searchRound : round.batch.searchRound = finished + 1
  waiting : ∀ request ∈ round.requests, request.route ∉ rest
  quiet : round.progressed = false → round.batch.deadlineHit = false → ∀ route, route ∉ rest →
    ∀ state, round.batch.states[route]? = some state → state.completed = true
  ahead : ∀ route ∈ round.batch.completionOrder, ∀ other ∈ rest,
    round.batch.stamp route < toLex (finished + 1, other)

variable {finished : ℕ} {rest : List ℕ} {round : Round K}

theorem Polled.pending (h : Polled tables epsilon expired orders finished rest round) {route : ℕ}
    (hmem : route ∈ rest) : pendingOf route round.requests = [] := by
  apply List.filter_eq_nil_iff.mpr
  intro request hrequest hroute
  simp only [decide_eq_true_eq] at hroute
  rw [← hroute] at hmem
  exact h.waiting request hrequest hmem

theorem Polled.check (h : Polled tables epsilon expired orders finished rest round)
    (hclear : round.batch.deadlineHit = false) :
    Polled tables epsilon expired orders finished rest
      { round with batch := round.batch.check expired } := by
  refine ⟨h.kept.check (by simp [hclear]), ?_, h.searchRound, h.waiting, ?_, h.ahead⟩
  · exact h.recorded.of_flags (le_refl _) rfl rfl rfl
  · intro hquiet _
    exact h.quiet hquiet hclear

/-- The loop may stop at a deadline that is hit. -/
theorem Polled.stop (h : Polled tables epsilon expired orders finished rest round)
    (hhit : round.batch.deadlineHit = true) :
    Polled tables epsilon expired orders finished [] round := by
  refine ⟨⟨h.kept.length, ?_, h.kept.clock⟩, h.recorded, h.searchRound, by simp, ?_, by simp⟩
  · intro route order state horder hstate
    have hroute := h.kept.routes route order state horder hstate
    simp only [List.not_mem_nil, if_false]
    by_cases hmem : route ∈ rest
    · rw [if_pos hmem] at hroute
      exact hroute.stays (.inr hhit)
    · rw [if_neg hmem] at hroute
      exact hroute
  · intro _ hclear
    rw [hhit] at hclear
    exact absurd hclear (by decide)

/-- A completed route is passed over. -/
theorem Polled.skip {route : ℕ}
    (h : Polled tables epsilon expired orders finished (route :: rest) round)
    (hskip : ∀ state, round.batch.states[route]? = some state → state.completed = true) :
    Polled tables epsilon expired orders finished rest round := by
  refine ⟨⟨h.kept.length, ?_, h.kept.clock⟩, h.recorded, h.searchRound, ?_, ?_, ?_⟩
  · intro other order state horder hstate
    have hroute := h.kept.routes other order state horder hstate
    by_cases hmem : other ∈ rest
    · rw [if_pos (List.mem_cons_of_mem route hmem)] at hroute
      rw [if_pos hmem]
      exact hroute
    · rw [if_neg hmem]
      by_cases hsame : other = route
      · subst hsame
        rw [if_pos List.mem_cons_self] at hroute
        exact hroute.stays (.inl (hskip state hstate))
      · rw [if_neg (by simp [hsame, hmem])] at hroute
        exact hroute
  · intro request hrequest hmem
    exact h.waiting request hrequest (List.mem_cons_of_mem route hmem)
  · intro hquiet hclear other hnot state hstate
    by_cases hsame : other = route
    · subst hsame
      exact hskip state hstate
    · exact h.quiet hquiet hclear other (by simp [hsame, hnot]) state hstate
  · intro other hother later hlater
    exact h.ahead other hother later (List.mem_cons_of_mem route hlater)

omit [Field K] [LinearOrder K] in
theorem flags_set {states : List (ExactSearchState K)} {route : ℕ} {state new : ExactSearchState K}
    (hstate : states[route]? = some state) (hflag : new.completed = state.completed) :
    (states.set route new).map ExactSearchState.completed = states.map ExactSearchState.completed := by
  obtain ⟨hlt, hget⟩ := List.getElem?_eq_some_iff.mp hstate
  apply List.ext_getElem
  · simp
  · intro other hfirst hsecond
    by_cases hsame : route = other
    · subst hsame
      simp [hflag, hget]
    · simp [hsame]

/-- The route in turn changes, and does not complete. -/
theorem Polled.change {route : ℕ} {state new : ExactSearchState K} {after : Round K}
    (own : List ExactRequest) (h : Polled tables epsilon expired orders finished (route :: rest) round)
    (hclear : round.batch.deadlineHit = false) (hnot : route ∉ rest)
    (hstate : round.batch.states[route]? = some state)
    (hstates : after.batch.states = round.batch.states.set route new)
    (hflag : new.completed = state.completed)
    (hsearch : after.batch.searchRound = round.batch.searchRound)
    (hrounds : after.batch.completionRounds = round.batch.completionRounds)
    (horder : after.batch.completionOrder = round.batch.completionOrder)
    (hrequests : after.requests = round.requests ++ own) (hown : ∀ request ∈ own, request.route = route)
    (hclock : after.batch.deadlineHit = true → ∃ check < after.batch.checks, expired check = true)
    (hbusy : after.progressed = true ∨ after.batch.deadlineHit = true)
    (hroute : ∀ order, orders[route]? = some order →
      Alone tables epsilon order (finished + 1) after.batch.deadlineHit new own) :
    Polled tables epsilon expired orders finished rest after := by
  constructor
  · rw [hrequests]
    apply h.kept.set hclear hstates (h.pending List.mem_cons_self) hown hclock
    · intro other hne
      simp [hne]
    · intro order hknown
      rw [if_neg hnot]
      exact hroute order hknown
  · apply h.recorded.of_flags hsearch.ge hrounds horder
    rw [hstates]
    exact flags_set hstate hflag
  · rw [hsearch]
    exact h.searchRound
  · intro request hmem hrest
    rw [hrequests, List.mem_append] at hmem
    rcases hmem with hold | hnew
    · exact h.waiting request hold (List.mem_cons_of_mem route hrest)
    · rw [hown request hnew] at hrest
      exact hnot hrest
  · intro hquiet hafter
    rcases hbusy with hprogressed | hhit
    · rw [hquiet] at hprogressed
      exact absurd hprogressed (by decide)
    · rw [hafter] at hhit
      exact absurd hhit (by decide)
  · intro other hother later hlater
    rw [horder] at hother
    rw [Batch.stamp, hrounds]
    exact h.ahead other hother later (List.mem_cons_of_mem route hlater)

/-- The route in turn completes. -/
theorem Polled.complete {route : ℕ} {state : ExactSearchState K} {queue : List (ExactQueueEntry K)}
    (h : Polled tables epsilon expired orders finished (route :: rest) round)
    (hclear : round.batch.deadlineHit = false) (hsorted : (route :: rest).Pairwise (· < ·))
    (hstate : round.batch.states[route]? = some state) (hopen : state.completed = false)
    (hpop : popLive state state.queue = (none, queue)) {order : List ℕ}
    (hknown : orders[route]? = some order) (hafter : state = after tables epsilon order finished) :
    Polled tables epsilon expired orders finished rest
      { round with
        batch :=
          { round.batch with
            states := round.batch.states.set route { state with queue, completed := true }
            completionOrder := round.batch.completionOrder ++ [route]
            completionRounds :=
              Function.update round.batch.completionRounds route (some round.batch.searchRound) } } := by
  obtain ⟨hbefore, hsortedRest⟩ := List.pairwise_cons.mp hsorted
  have hnot : route ∉ rest := fun hmem => absurd (hbefore route hmem) (lt_irrefl _)
  have hturn : after tables epsilon order (finished + 1) = { state with queue, completed := true } := by
    rw [after_succ, ← hafter, turn_none hopen hpop]
  have hfresh : round.batch.completionRounds route = none := by
    cases hrecord : round.batch.completionRounds route with
    | none => rfl
    | some completion =>
        have hflag := (h.recorded.flagged route state hstate).mpr (by rw [hrecord]; rfl)
        rw [hopen] at hflag
        exact absurd hflag (by decide)
  constructor
  · rw [← List.append_nil round.requests]
    refine h.kept.set hclear rfl (h.pending List.mem_cons_self) (by simp) h.kept.clock ?_ ?_
    · intro other hne
      simp [hne]
    · intro other hother
      rw [hknown, Option.some.injEq] at hother
      subst hother
      rw [if_neg hnot]
      exact .inl ⟨fun _ => rfl, hturn.symm⟩
  · refine h.recorded.complete hknown rfl rfl hfresh rfl ?_ rfl rfl ?_ ?_ ?_
    · rw [h.searchRound]
      omega
    · rw [h.searchRound, hturn]
    · rw [h.searchRound, Nat.add_sub_cancel, ← hafter]
      exact hopen
    · intro other hother
      rw [h.searchRound]
      exact h.ahead other hother route List.mem_cons_self
  · exact h.searchRound
  · intro request hrequest hmem
    exact h.waiting request hrequest (List.mem_cons_of_mem route hmem)
  · intro hquiet _ other hother otherState hget
    by_cases hsame : other = route
    · subst hsame
      have hlt : other < round.batch.states.length := (List.getElem?_eq_some_iff.mp hstate).1
      simp only [List.getElem?_set_self hlt, Option.some.injEq] at hget
      rw [← hget]
    · simp only [List.getElem?_set_ne (fun hne => hsame hne.symm)] at hget
      exact h.quiet hquiet hclear other (by simp [hsame, hother]) otherState hget
  · intro other hother later hlater
    by_cases hsame : other = route
    · subst hsame
      simp only [Batch.stamp, Function.update_self, Option.getD_some, h.searchRound]
      exact Prod.Lex.toLex_lt_toLex.mpr (.inr ⟨rfl, hbefore later hlater⟩)
    · have hold : other ∈ round.batch.completionOrder := by
        simpa [hsame] using hother
      simp only [Batch.stamp, Function.update_of_ne hsame]
      exact h.ahead other hold later (List.mem_cons_of_mem route hlater)

/-- The route in turn, when it has not completed yet. -/
theorem Polled.poll {route : ℕ} {state : ExactSearchState K}
    (h : Polled tables epsilon expired orders finished (route :: rest) round)
    (hclear : round.batch.deadlineHit = false) (hsorted : (route :: rest).Pairwise (· < ·))
    (hstate : round.batch.states[route]? = some state) (hopen : state.completed = false) :
    Polled tables epsilon expired orders finished rest
      (poll tables epsilon expired round route state) := by
  have hlt : route < orders.length := by
    rw [← h.kept.length]
    exact (List.getElem?_eq_some_iff.mp hstate).1
  have hnot : route ∉ rest := fun hmem =>
    absurd ((List.pairwise_cons.mp hsorted).1 route hmem) (lt_irrefl _)
  have hknown : orders[route]? = some orders[route] := List.getElem?_eq_getElem hlt
  have hafter : state = after tables epsilon orders[route] finished := by
    have hroute := h.kept.routes route _ state hknown hstate
    rw [h.pending List.mem_cons_self, if_pos List.mem_cons_self] at hroute
    exact hroute.eq_after (.inl hclear)
  unfold Native.poll
  simp only
  cases hpop : popLive state state.queue with
  | mk popped queue =>
      cases popped with
      | none =>
          simp only
          by_cases hhit : (round.batch.check expired).deadlineHit = true
          · rw [if_pos hhit]
            refine h.change [] hclear hnot hstate rfl rfl rfl rfl rfl (by simp) (by simp) ?_ ?_ ?_
            · exact (h.check hclear).kept.clock
            · exact .inr hhit
            · intro order _
              exact .inr ⟨hhit, hopen⟩
          · rw [if_neg hhit]
            exact (h.check hclear).complete (by simpa using hhit) hsorted hstate hopen hpop hknown hafter
      | some index =>
          simp only
          by_cases hbest : state.best.any
              (fun best => (state.label index).distance ≥ best.distance - epsilon) = true
          · rw [if_pos hbest]
            refine h.change [] hclear hnot hstate rfl rfl rfl rfl rfl (by simp) (by simp)
              h.kept.clock (.inl rfl) ?_
            intro order horder
            rw [hknown, Option.some.injEq] at horder
            refine .inl ⟨fun _ => rfl, ?_⟩
            rw [after_succ, ← horder, ← hafter, turn_pruned hopen hpop hbest]
            rfl
          · rw [if_neg hbest]
            refine h.change _ hclear hnot hstate rfl rfl rfl rfl rfl rfl requestsOf_route h.kept.clock
              (.inl rfl) ?_
            intro order horder
            rw [hknown, Option.some.injEq] at horder
            refine .inl ⟨?_, ?_⟩
            · intro hcompleted
              rw [hopen] at hcompleted
              exact absurd hcompleted (by decide)
            · rw [after_succ, ← horder, ← hafter, turn_expanded hopen hpop hbest, serve_requestsOf]

theorem pollRoutes_polled :
    ∀ (rest : List ℕ) {round : Round K}, rest.Pairwise (· < ·) →
      Polled tables epsilon expired orders finished rest round → round.batch.deadlineHit = false →
        Polled tables epsilon expired orders finished [] (pollRoutes tables epsilon expired round rest) := by
  intro rest
  induction rest with
  | nil => exact fun _ h _ => h
  | cons route rest ih =>
      intro round hsorted h hclear
      have hchecked := h.check hclear
      have hrest := (List.pairwise_cons.mp hsorted).2
      simp only [pollRoutes]
      by_cases hhit : (round.batch.check expired).deadlineHit = true
      · rw [if_pos hhit]
        exact hchecked.stop hhit
      · have hstill : (round.batch.check expired).deadlineHit = false := by simpa using hhit
        rw [if_neg hhit]
        cases hstate : (round.batch.check expired).states[route]? with
        | none =>
            simp only
            apply ih hrest (hchecked.skip ?_) hstill
            intro state hsome
            simp only at hsome
            rw [hstate] at hsome
            exact absurd hsome (by simp)
        | some state =>
            simp only
            by_cases hcompleted : state.completed = true
            · rw [if_pos hcompleted]
              apply ih hrest (hchecked.skip ?_) hstill
              intro other hsome
              simp only at hsome
              rw [hstate, Option.some.injEq] at hsome
              rw [← hsome]
              exact hcompleted
            · rw [if_neg hcompleted]
              have hpolled := hchecked.poll hstill hsorted hstate (by simpa using hcompleted)
              split_ifs with hnext
              · exact hpolled.stop hnext
              · exact ih hrest hpolled (by simpa using hnext)

omit [Field K] [LinearOrder K] in
theorem check_hit (hclock : ∀ first second, first ≤ second → expired first = true → expired second = true)
    (h : batch.deadlineHit = true → ∃ check < batch.checks, expired check = true)
    (hhit : batch.deadlineHit = true) : (batch.check expired).deadlineHit = true := by
  obtain ⟨check, hlt, hexpired⟩ := h hhit
  exact hclock check batch.checks hlt.le hexpired

/-- The chunk loop serves all requests, or is interrupted. -/
theorem serveChunks_kept {batchSize : ℕ} (hsize : 0 < batchSize) :
    ∀ (fuel : ℕ) (requests : List ExactRequest) {batch : Batch K}, requests.length ≤ fuel →
      Kept tables epsilon expired orders rounds batch requests → batch.deadlineHit = false →
        ∃ left, Kept tables epsilon expired orders rounds
            (serveChunks tables epsilon expired batchSize fuel requests batch) left ∧
          ((serveChunks tables epsilon expired batchSize fuel requests batch).deadlineHit = false →
            left = []) := by
  intro fuel
  induction fuel with
  | zero =>
      intro requests batch hfuel h _
      have hnil : requests = [] := List.length_eq_zero_iff.mp (by omega)
      exact ⟨requests, h, fun _ => hnil⟩
  | succ fuel ih =>
      intro requests batch hfuel h hclear
      simp only [serveChunks]
      by_cases hempty : requests.isEmpty = true
      · rw [if_pos hempty]
        exact ⟨requests, h, fun _ => List.isEmpty_iff.mp hempty⟩
      · rw [if_neg hempty]
        by_cases hhit : (batch.check expired).deadlineHit = true
        · rw [if_pos hhit]
          refine ⟨requests, h.check (by simp [hclear]), ?_⟩
          intro hcontra
          rw [hhit] at hcontra
          exact absurd hcontra (by decide)
        · rw [if_neg hhit]
          have hsplit := h.check (by simp [hclear])
          rw [← List.take_append_drop batchSize requests] at hsplit
          have hpos : 0 < requests.length := by
            rw [List.length_pos_iff]
            exact fun hnil => hempty (by rw [hnil]; rfl)
          have hserved := hsplit.chunk
          have hchunk : Kept tables epsilon expired orders rounds
              { batch.check expired with
                states := (requests.take batchSize).foldl (serveRoute tables epsilon)
                  (batch.check expired).states
                chunks := (batch.check expired).chunks + 1
                requested := (batch.check expired).requested + (requests.take batchSize).length }
              (requests.drop batchSize) :=
            ⟨hserved.length, hserved.routes, hserved.clock⟩
          apply ih (requests.drop batchSize) ?_ hchunk (by simpa using hhit)
          rw [List.length_drop]
          omega

theorem serve_flags (request : ExactRequest) (states : List (ExactSearchState K)) :
    (serveRoute tables epsilon states request).map ExactSearchState.completed =
      states.map ExactSearchState.completed := by
  apply List.ext_getElem
  · simp [serveRoute]
  · intro route hfirst hsecond
    simp only [serveRoute, List.getElem_map, List.getElem_modify]
    split_ifs
    · exact serve_completed _ request
    · rfl

theorem chunk_flags :
    ∀ (chunk : List ExactRequest) (states : List (ExactSearchState K)),
      (chunk.foldl (serveRoute tables epsilon) states).map ExactSearchState.completed =
        states.map ExactSearchState.completed := by
  intro chunk
  induction chunk with
  | nil => exact fun _ => rfl
  | cons request chunk ih => exact fun states => (ih _).trans (serve_flags request states)

variable (tables epsilon expired) in
/-- The chunk loop completes no route. -/
theorem serveChunks_frame (batchSize : ℕ) :
    ∀ (fuel : ℕ) (requests : List ExactRequest) (batch : Batch K),
      (serveChunks tables epsilon expired batchSize fuel requests batch).searchRound = batch.searchRound ∧
        (serveChunks tables epsilon expired batchSize fuel requests batch).completionRounds =
          batch.completionRounds ∧
        (serveChunks tables epsilon expired batchSize fuel requests batch).completionOrder =
          batch.completionOrder ∧
        (serveChunks tables epsilon expired batchSize fuel requests batch).states.map
            ExactSearchState.completed = batch.states.map ExactSearchState.completed := by
  intro fuel
  induction fuel with
  | zero => exact fun _ _ => ⟨rfl, rfl, rfl, rfl⟩
  | succ fuel ih =>
      intro requests batch
      simp only [serveChunks]
      split_ifs
      · exact ⟨rfl, rfl, rfl, rfl⟩
      · exact ⟨rfl, rfl, rfl, rfl⟩
      · obtain ⟨hsearch, hrounds, horder, hflags⟩ := ih (requests.drop batchSize) _
        exact ⟨hsearch, hrounds, horder, hflags.trans (chunk_flags _ _)⟩

/-- Between two rounds: every route has had its turns, and a route that has completed is recorded. -/
structure Rested (tables : Tables K) (epsilon : K) (expired : ℕ → Bool) (orders : List (List ℕ))
    (finished : ℕ) (batch : Batch K) (left : List ExactRequest) : Prop where
  kept : Kept tables epsilon expired orders (fun _ => finished) batch left
  recorded : Recorded tables epsilon orders batch
  searchRound : batch.searchRound = finished
  nothing : batch.deadlineHit = false → left = []

/-- Every route of the batch has completed. -/
def AllCompleted (batch : Batch K) : Prop :=
  ∀ (route : ℕ) (state : ExactSearchState K), batch.states[route]? = some state → state.completed = true

theorem Rested.polled (h : Rested tables epsilon expired orders finished batch [])
    (hclear : batch.deadlineHit = false) :
    Polled tables epsilon expired orders finished []
      (pollRoutes tables epsilon expired ⟨{ batch with searchRound := batch.searchRound + 1 }, [], false⟩
        (List.range batch.states.length)) := by
  apply pollRoutes_polled _ List.pairwise_lt_range ?_ hclear
  constructor
  · refine ⟨h.kept.length, ?_, h.kept.clock⟩
    intro route order state horder hstate
    have hlt : route < batch.states.length := (List.getElem?_eq_some_iff.mp hstate).1
    simp only [List.mem_range, if_pos hlt]
    exact h.kept.routes route order state horder hstate
  · exact h.recorded.of_flags (Nat.le_succ _) rfl rfl rfl
  · exact congrArg (· + 1) h.searchRound
  · simp
  · intro _ _ route hnot state hstate
    have hlt : route < batch.states.length := (List.getElem?_eq_some_iff.mp hstate).1
    exact absurd (List.mem_range.mpr hlt) hnot
  · intro route hmem other _
    have hsome := (h.recorded.members route).mp hmem
    obtain ⟨completion, hcompletion⟩ := Option.isSome_iff_exists.mp hsome
    obtain ⟨-, -, -, hle, -⟩ := h.recorded.round route completion hcompletion
    rw [h.searchRound] at hle
    have hstamp : batch.stamp route = toLex (completion, route) := by
      rw [Batch.stamp, hcompletion, Option.getD_some]
    exact hstamp.trans_lt (Prod.Lex.toLex_lt_toLex.mpr (.inl (Nat.lt_succ_of_le hle)))

/-- One round: every route has its turn, unless the deadline is hit; the loop breaks only then or when all
routes have completed. -/
theorem Rested.rounded {batchSize : ℕ} (hsize : 0 < batchSize)
    (hclock : ∀ first second, first ≤ second → expired first = true → expired second = true)
    (h : Rested tables epsilon expired orders finished batch [])
    (hclear : batch.deadlineHit = false) {breaks : Bool}
    (hround : Native.round tables epsilon expired batchSize batch = (next, breaks)) :
    (∃ left, Rested tables epsilon expired orders (finished + 1) next left) ∧
      (next.deadlineHit = true → breaks = true) ∧
      (breaks = true → next.deadlineHit = false → AllCompleted next) := by
  have hpolled := h.polled hclear
  set polled := pollRoutes tables epsilon expired
    ⟨{ batch with searchRound := batch.searchRound + 1 }, [], false⟩ (List.range batch.states.length)
    with hdef
  have himp := check_hit hclock hpolled.kept.clock
  have hkept : Kept tables epsilon expired orders (fun _ => finished + 1) (polled.batch.check expired)
      polled.requests := by
    have hplain := hpolled.kept.check himp
    simpa using hplain
  have hrecorded : Recorded tables epsilon orders (polled.batch.check expired) :=
    hpolled.recorded.of_flags (le_refl _) rfl rfl rfl
  unfold Native.round at hround
  simp only [← hdef] at hround
  by_cases hhit : (polled.batch.check expired).deadlineHit = true
  · rw [if_pos hhit] at hround
    obtain ⟨hnext, hbreaks⟩ := Prod.mk.inj hround
    subst hnext
    refine ⟨⟨polled.requests, hkept, hrecorded, hpolled.searchRound, ?_⟩, fun _ => hbreaks.symm, ?_⟩
    · intro hfalse
      rw [hhit] at hfalse
      exact absurd hfalse (by decide)
    · intro _ hfalse
      rw [hhit] at hfalse
      exact absurd hfalse (by decide)
  · have hstill : (polled.batch.check expired).deadlineHit = false := by simpa using hhit
    rw [if_neg hhit] at hround
    by_cases hempty : polled.requests.isEmpty = true
    · rw [if_pos hempty] at hround
      obtain ⟨hnext, hbreaks⟩ := Prod.mk.inj hround
      subst hnext
      refine ⟨⟨polled.requests, hkept, hrecorded, hpolled.searchRound, ?_⟩, ?_, ?_⟩
      · exact fun _ => List.isEmpty_iff.mp hempty
      · intro hcontra
        exact absurd hcontra hhit
      · intro hstop _ route state hstate
        rw [← hbreaks] at hstop
        have hbefore : polled.batch.deadlineHit = false := by
          by_contra hcontra
          exact hhit (himp (by simpa using hcontra))
        exact hpolled.quiet (by simpa using hstop) hbefore route (by simp) state hstate
    · rw [if_neg hempty] at hround
      obtain ⟨hnext, hbreaks⟩ := Prod.mk.inj hround
      obtain ⟨left, hserved, hleft⟩ := serveChunks_kept hsize polled.requests.length polled.requests
        (le_refl _) hkept hstill
      obtain ⟨hsearch, hrounds, horder, hflags⟩ := serveChunks_frame tables epsilon expired batchSize
        polled.requests.length polled.requests (polled.batch.check expired)
      rw [hnext] at hserved hleft hsearch hrounds horder hflags hbreaks
      refine ⟨⟨left, hserved, ?_, hsearch.trans hpolled.searchRound, hleft⟩, ?_, ?_⟩
      · exact hrecorded.of_flags hsearch.ge hrounds horder hflags
      · exact fun hcontra => hbreaks.symm.trans hcontra
      · intro hstop hfalse
        rw [← hbreaks, hfalse] at hstop
        exact absurd hstop (by decide)

/-- The search loop ends with every route at its place, and all completed unless the deadline was hit. -/
theorem searchLoop_rested {batchSize : ℕ} (hsize : 0 < batchSize)
    (hclock : ∀ first second, first ≤ second → expired first = true → expired second = true) :
    ∀ (fuel : ℕ) {finished : ℕ} {batch final : Batch K},
      Rested tables epsilon expired orders finished batch [] →
        searchLoop tables epsilon expired batchSize fuel batch = some final →
          ∃ rounds left, Rested tables epsilon expired orders rounds final left ∧
            (final.deadlineHit = false → AllCompleted final) := by
  intro fuel
  induction fuel with
  | zero =>
      intro finished batch final _ hloop
      simp [searchLoop] at hloop
  | succ fuel ih =>
      intro finished batch final h hloop
      simp only [searchLoop] at hloop
      by_cases hhit : batch.deadlineHit = true
      · rw [if_pos hhit, Option.some.injEq] at hloop
        subst hloop
        refine ⟨finished, [], h, ?_⟩
        intro hclear
        rw [hhit] at hclear
        exact absurd hclear (by decide)
      · rw [if_neg hhit] at hloop
        have hclear : batch.deadlineHit = false := by simpa using hhit
        cases hround : Native.round tables epsilon expired batchSize batch with
        | mk next breaks =>
            obtain ⟨⟨left, hrested⟩, hbreaks, hall⟩ := h.rounded hsize hclock hclear hround
            rw [hround] at hloop
            cases breaks with
            | true =>
                simp only [Option.some.injEq] at hloop
                subst hloop
                exact ⟨finished + 1, left, hrested, hall rfl⟩
            | false =>
                have hopen : next.deadlineHit = false := by
                  by_contra hcontra
                  exact absurd (hbreaks (by simpa using hcontra)) (by decide)
                have hnothing := hrested.nothing hopen
                subst hnothing
                exact ih hrested hloop

variable (tables epsilon expired) in
/-- A loop over completed routes asks for nothing. -/
theorem pollRoutes_idle :
    ∀ (rest : List ℕ) {round : Round K}, AllCompleted round.batch →
      (pollRoutes tables epsilon expired round rest).requests = round.requests ∧
        (pollRoutes tables epsilon expired round rest).progressed = round.progressed := by
  intro rest
  induction rest with
  | nil => exact fun _ => ⟨rfl, rfl⟩
  | cons route rest ih =>
      intro round h
      simp only [pollRoutes]
      split_ifs with hhit
      · exact ⟨rfl, rfl⟩
      · cases hstate : (round.batch.check expired).states[route]? with
        | none => exact ih h
        | some state =>
            simp only
            rw [if_pos (h route state hstate)]
            exact ih h

variable (tables epsilon expired) in
theorem round_idle (batchSize : ℕ) (h : AllCompleted batch) :
    (Native.round tables epsilon expired batchSize batch).2 = true := by
  have hidle : ∀ start : Round K, start.batch.states = batch.states → start.requests = [] →
      start.progressed = false →
      (pollRoutes tables epsilon expired start (List.range batch.states.length)).requests = [] ∧
        (pollRoutes tables epsilon expired start (List.range batch.states.length)).progressed = false := by
    intro start hstates hrequests hprogressed
    have hall : AllCompleted start.batch := by
      rw [AllCompleted, hstates]
      exact h
    obtain ⟨hsame, hstill⟩ := pollRoutes_idle tables epsilon expired (List.range batch.states.length) hall
    exact ⟨hsame.trans hrequests, hstill.trans hprogressed⟩
  obtain ⟨hrequests, hprogressed⟩ :=
    hidle ⟨{ batch with searchRound := batch.searchRound + 1 }, [], false⟩ rfl rfl rfl
  unfold Native.round
  simp only [hrequests, hprogressed, List.isEmpty_nil, if_true, Bool.not_false]
  split_ifs <;> rfl

/-- Without a deadline the loop ends as soon as every route completes on its own. -/
theorem searchLoop_ends {batchSize : ℕ} (hsize : 0 < batchSize)
    (hforever : ∀ check, expired check = false) {bound : ℕ}
    (hbound : ∀ order ∈ orders, (after tables epsilon order bound).completed = true) :
    ∀ (missing : ℕ) {finished : ℕ} {batch : Batch K}, bound ≤ finished + missing →
      Rested tables epsilon expired orders finished batch [] → batch.deadlineHit = false →
        ∃ final, searchLoop tables epsilon expired batchSize (missing + 1) batch = some final := by
  have hclock : ∀ first second, first ≤ second → expired first = true → expired second = true := by
    intro first second _ hexpired
    rw [hforever first] at hexpired
    exact absurd hexpired (by decide)
  intro missing
  induction missing with
  | zero =>
      intro finished batch hle h hclear
      have hall : AllCompleted batch := by
        intro route state hstate
        have hlt : route < orders.length := by
          rw [← h.kept.length]
          exact (List.getElem?_eq_some_iff.mp hstate).1
        have horder : orders[route]? = some orders[route] := List.getElem?_eq_getElem hlt
        have hroute := h.kept.routes route _ state horder hstate
        rw [hroute.eq_after (.inl hclear)]
        have hdone := hbound orders[route] (List.getElem_mem hlt)
        rw [after_completed hdone (by omega)]
        exact hdone
      have hbreaks := round_idle tables epsilon expired batchSize hall
      simp only [searchLoop, hclear, Bool.false_eq_true, if_false]
      cases hround : Native.round tables epsilon expired batchSize batch with
      | mk next breaks =>
          rw [hround] at hbreaks
          simp only at hbreaks
          rw [hbreaks]
          exact ⟨next, rfl⟩
  | succ missing ih =>
      intro finished batch hle h hclear
      simp only [searchLoop, hclear, Bool.false_eq_true, if_false]
      cases hround : Native.round tables epsilon expired batchSize batch with
      | mk next breaks =>
          obtain ⟨⟨left, hrested⟩, hbreaks, -⟩ := h.rounded hsize hclock hclear hround
          cases breaks with
          | true => exact ⟨next, rfl⟩
          | false =>
              have hopen : next.deadlineHit = false := by
                by_contra hcontra
                exact absurd (hbreaks (by simpa using hcontra)) (by decide)
              have hnothing := hrested.nothing hopen
              subst hnothing
              exact ih (by omega) hrested hopen

end Steps

end TxnOpt.Evrptw.Native
