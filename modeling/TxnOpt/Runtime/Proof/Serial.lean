import TxnOpt.Runtime.Clients
import TxnOpt.Runtime.Proof.Core

/-!
# Serial commits

However the requests on open transactions interleave, the committed transactions follow one another: each
began at the generation that its commit found, and the values are their staged maps in commit order.
-/

namespace TxnOpt

variable {W V : Type} {onCommit : Option (PyDict V → Prog W PyExc Unit)}

/-! ### One method -/

namespace InMemoryCacheStore

theorem requireOpen_closed {s : CacheContext (InMemoryCacheStore V) W V} (h : s.txn.closed = true) :
    requireOpen s = (.error (.cacheCommitError "cache transaction is already closed"), s) := by
  rw [requireOpen, if_pos h]

theorem requireOpen_open {s : CacheContext (InMemoryCacheStore V) W V} (h : s.txn.closed = false) :
    requireOpen s = (.ok (), s) := by
  rw [requireOpen, h]
  rfl

/-- A stage is rejected and changes nothing, or it adds its entries to an open transaction. -/
theorem stage_cases (entries : PyDict V) (s : CacheContext (InMemoryCacheStore V) W V) :
    (∃ error, stage entries s = (.error error, s)) ∨
    (s.txn.closed = false ∧ stage entries s =
      (.ok (), { s with txn := { s.txn with staged := s.txn.staged.update entries } })) := by
  cases hclosed : s.txn.closed with
  | true =>
      left
      exact ⟨_, Prog.bind_apply_error (requireOpen_closed hclosed)⟩
  | false =>
      have hopen := requireOpen_open hclosed
      by_cases hempty : entries.keys.any (· == "") = true
      · left
        refine ⟨.valueError "cache keys cannot be empty", ?_⟩
        rw [stage, Prog.bind_apply_ok hopen, if_pos hempty]
        rfl
      · right
        refine ⟨rfl, ?_⟩
        rw [stage, Prog.bind_apply_ok hopen, if_neg hempty]
        rfl

variable (onCommit) in
/-- A commit raises, leaves the store, and closes the transaction; or it publishes the staged map of an
open transaction that no commit has overtaken. -/
theorem commit_cases (s : CacheContext (InMemoryCacheStore V) W V) :
    (∃ error t, commit onCommit s = (.error error, t) ∧ t.store = s.store ∧
      (t.txn = s.txn ∧ s.txn.closed = true ∨ t.txn = s.txn.close)) ∨
    (∃ receipt t, commit onCommit s = (.ok receipt, t) ∧ s.txn.closed = false ∧
      s.txn.expectedGeneration = s.store.generation ∧
      t.store = ⟨s.store.generation + 1, s.store.values.update s.txn.staged⟩ ∧ t.txn = s.txn.close) := by
  cases hclosed : s.txn.closed with
  | true =>
      left
      exact ⟨_, s, Prog.bind_apply_error (requireOpen_closed hclosed), rfl, .inl ⟨rfl, rfl⟩⟩
  | false =>
      have hopen := requireOpen_open hclosed
      by_cases hstale : (s.txn.expectedGeneration != s.store.generation) = true
      · left
        refine ⟨.staleCacheSnapshotError "cache generation changed before commit",
          { s with txn := s.txn.close }, ?_, rfl, .inr rfl⟩
        rw [commit, Prog.bind_apply_ok hopen, Prog.bind_apply_ok (Prog.read_apply _ s), if_pos hstale]
        rfl
      · have hfresh : s.txn.expectedGeneration = s.store.generation := by simpa using hstale
        have hcommit : commit onCommit s = (do
            publish onCommit
            let receipt ← Prog.read fun s =>
              (⟨s.store.generation, s.store.generation + 1, s.txn.staged.size⟩ : CacheCommitReceipt)
            Prog.modify fun s =>
              { s with
                store := ⟨s.store.generation + 1, s.store.values.update s.txn.staged⟩
                txn := s.txn.close }
            pure (some receipt) : Prog _ _ _) s := by
          rw [commit, Prog.bind_apply_ok hopen, Prog.bind_apply_ok (Prog.read_apply _ s), if_neg hstale]
        rw [hcommit]
        cases honCommit : onCommit with
        | none =>
            right
            exact ⟨_, _, rfl, rfl, hfresh, rfl, rfl⟩
        | some callback =>
            cases hcallback : callback s.txn.staged s.world with
            | mk outcome w =>
                cases outcome with
                | error error =>
                    left
                    refine ⟨.cacheCommitError "cache publication failed", { s with world := w, txn := s.txn.close },
                      ?_, rfl, .inr rfl⟩
                    apply Prog.bind_apply_error
                    rw [publish, hcallback]
                | ok value =>
                    right
                    have hpublish : publish (some callback) s = (.ok (), { s with world := w }) := by
                      rw [publish, hcallback]
                    rw [Prog.bind_apply_ok hpublish]
                    exact ⟨_, _, rfl, rfl, hfresh, rfl, rfl⟩

theorem rollback_eq (s : CacheContext (InMemoryCacheStore V) W V) :
    rollback s = (.ok (), if s.txn.closed then s else { s with txn := s.txn.close }) := rfl

end InMemoryCacheStore

/-! ### One request -/

/-- The staged entries of a transaction, from the requests served so far. -/
def stagedBy (events : List (StoreEvent V)) (handle : Nat) : PyDict V :=
  (events.filterMap (StoreEvent.accepted handle)).foldl PyDict.update ∅

/-- The store that an event leaves. -/
def StoreEvent.leaves (event : StoreEvent V) : InMemoryCacheStore V :=
  match event.published with
  | none => event.before
  | some staged => ⟨event.before.generation + 1, event.before.values.update staged⟩

/-- A transaction object before and after an event: its expected generation stays, and while it is open it
collects the accepted entries. -/
structure Touched (event : StoreEvent V) (handle : Nat) (txn txn' : CacheTxn V) : Prop where
  expected : txn'.expectedGeneration = txn.expectedGeneration
  staged : txn'.closed = false → txn.closed = false ∧
    txn'.staged = ((event.accepted handle).elim txn.staged fun entries => txn.staged.update entries)

theorem touched_same {event : StoreEvent V} {handle : Nat} {txn : CacheTxn V}
    (h : event.accepted handle = none) : Touched event handle txn txn := by
  refine ⟨rfl, ?_⟩
  intro hopen
  rw [h]
  exact ⟨hopen, rfl⟩

theorem touched_close {event : StoreEvent V} {handle : Nat} {txn : CacheTxn V} :
    Touched event handle txn txn.close := by
  refine ⟨rfl, ?_⟩
  intro hopen
  cases hopen

/-- What one event does, `began` aside. -/
structure Steps (event : StoreEvent V) (s t : StoreClients W V) : Prop where
  before : event.before = s.store
  after : event.after = t.store
  leaves : t.store = event.leaves
  begins : event.begins = false
  length : t.txns.length = s.txns.length
  touched : ∀ handle txn', t.txns[handle]? = some txn' →
    ∃ txn, s.txns[handle]? = some txn ∧ Touched event handle txn txn'
  unknown : ∀ handle, s.txns.length ≤ handle → event.accepted handle = none
  /-- a commit that returned found an open transaction that no commit had overtaken -/
  current : ∀ staged, event.published = some staged → ∃ handle txn,
    event.request = .commit handle ∧ s.txns[handle]? = some txn ∧ event.txn = some txn ∧
    txn.closed = false ∧ txn.staged = staged ∧ txn.expectedGeneration = s.store.generation

/-- A method that leaves the store, on the transaction object that the event found. -/
theorem steps_onTxn {request : StoreRequest V} {handle : Nat} {txn txn' : CacheTxn V} {s : StoreClients W V}
    {store : InMemoryCacheStore V} {world : W} {returned : Bool} (htxn : s.txns[handle]? = some txn)
    (hrequest : request.handle = some handle)
    (htouched : Touched ⟨request, some txn, returned, s.store, store⟩ handle txn txn')
    (hleaves : store = StoreEvent.leaves ⟨request, some txn, returned, s.store, store⟩)
    (hcurrent : ∀ staged, StoreEvent.published ⟨request, some txn, returned, s.store, store⟩ = some staged →
      txn.closed = false ∧ txn.expectedGeneration = s.store.generation) :
    Steps ⟨request, some txn, returned, s.store, store⟩ s ⟨store, world, s.txns.set handle txn'⟩ := by
  have hlt : handle < s.txns.length := (List.getElem?_eq_some_iff.mp htxn).1
  have haccepted : ∀ other, other ≠ handle →
      StoreEvent.accepted other ⟨request, some txn, returned, s.store, store⟩ = none := by
    intro other hother
    cases request with
    | stage named entries =>
        cases returned with
        | false => rfl
        | true =>
            have hnamed : named = handle := Option.some.inj hrequest
            simp [StoreEvent.accepted, hnamed, Ne.symm hother]
    | begin => cases hrequest
    | lookup keys => cases hrequest
    | commit named => rfl
    | rollback named => rfl
  constructor
  · rfl
  · rfl
  · exact hleaves
  · cases request with
    | begin => cases hrequest
    | lookup keys => rfl
    | stage named entries => rfl
    | commit named => rfl
    | rollback named => rfl
  · exact List.length_set
  · intro other found hfound
    by_cases hother : other = handle
    · rw [hother] at hfound ⊢
      rw [List.getElem?_set_self hlt] at hfound
      rw [← Option.some.inj hfound]
      exact ⟨txn, htxn, htouched⟩
    · rw [List.getElem?_set_ne (Ne.symm hother)] at hfound
      exact ⟨found, hfound, touched_same (haccepted other hother)⟩
  · intro other hother
    exact haccepted other (by omega)
  · intro staged hpublished
    obtain ⟨hopen, hexpected⟩ := hcurrent staged hpublished
    cases request with
    | commit named =>
        have hnamed : named = handle := Option.some.inj hrequest
        cases returned with
        | false => cases hpublished
        | true => exact ⟨handle, txn, by rw [hnamed], htxn, rfl, hopen, Option.some.inj hpublished, hexpected⟩
    | begin => cases hrequest
    | lookup keys => cases hrequest
    | stage named entries => cases hpublished
    | rollback named => cases hpublished

/-- A request that touches nothing. -/
theorem steps_none {event : StoreEvent V} {s : StoreClients W V} (hbefore : event.before = s.store)
    (hafter : event.after = s.store) (hpublished : event.published = none) (hbegins : event.begins = false)
    (haccepted : ∀ handle, event.accepted handle = none) : Steps event s s := by
  constructor
  · exact hbefore
  · exact hafter
  · rw [StoreEvent.leaves, hpublished, hbefore]
  · exact hbegins
  · rfl
  · intro handle txn hfound
    exact ⟨txn, hfound, touched_same (haccepted handle)⟩
  · intro handle _
    exact haccepted handle
  · intro staged hsome
    rw [hpublished] at hsome
    cases hsome

theorem onTxn_unknown {α : Type} {handle : Nat} {s : StoreClients W V}
    (call : Prog (CacheContext (InMemoryCacheStore V) W V) PyExc α) (h : s.txns[handle]? = none) :
    StoreClients.onTxn handle call s = (.error ⟨[.other "NameError"], "no such transaction"⟩, s) := by
  rw [StoreClients.onTxn, h]

theorem onTxn_known {α : Type} {handle : Nat} {s : StoreClients W V} {txn : CacheTxn V}
    {call : Prog (CacheContext (InMemoryCacheStore V) W V) PyExc α} {outcome : Except PyExc α}
    {after : CacheContext (InMemoryCacheStore V) W V} (h : s.txns[handle]? = some txn)
    (hcall : call ⟨s.store, s.world, txn⟩ = (outcome, after)) :
    StoreClients.onTxn handle call s =
      (outcome, ⟨after.store, after.world, s.txns.set handle after.txn⟩) := by
  rw [StoreClients.onTxn, h]
  simp only [hcall]

theorem eventOf_eq {request : StoreRequest V} {s t : StoreClients W V} {outcome : Except PyExc Unit}
    (h : StoreClients.perform onCommit request s = (outcome, t)) :
    eventOf onCommit request s =
      ⟨request, request.handle.bind (s.txns[·]?), outcome.isOk, s.store, t.store⟩ := by
  rw [eventOf, h]

variable (onCommit) in
theorem perform_stage_steps (handle : Nat) (entries : PyDict V) (s : StoreClients W V) :
    Steps (eventOf onCommit (.stage handle entries) s) s
      (StoreClients.perform onCommit (.stage handle entries) s).2 := by
  cases htxn : s.txns[handle]? with
  | none =>
      have hrun : StoreClients.perform onCommit (.stage handle entries) s = _ :=
        onTxn_unknown (InMemoryCacheStore.stage entries) htxn
      rw [eventOf_eq hrun, hrun]
      exact steps_none rfl rfl rfl rfl fun _ => rfl
  | some txn =>
      rcases InMemoryCacheStore.stage_cases entries ⟨s.store, s.world, txn⟩ with
        ⟨error, hstage⟩ | ⟨hopen, hstage⟩
      · have hrun : StoreClients.perform onCommit (.stage handle entries) s = _ := onTxn_known htxn hstage
        rw [eventOf_eq hrun, hrun]
        simp only [StoreRequest.handle, Option.bind_some, htxn]
        exact steps_onTxn htxn rfl (touched_same rfl) rfl (by intro staged hpublished; cases hpublished)
      · have hrun : StoreClients.perform onCommit (.stage handle entries) s = _ := onTxn_known htxn hstage
        rw [eventOf_eq hrun, hrun]
        simp only [StoreRequest.handle, Option.bind_some, htxn]
        refine steps_onTxn htxn rfl ⟨rfl, ?_⟩ rfl (by intro staged hpublished; cases hpublished)
        intro _
        refine ⟨hopen, ?_⟩
        simp [StoreEvent.accepted, Except.isOk, Except.toBool]

variable (onCommit) in
theorem perform_rollback_steps (handle : Nat) (s : StoreClients W V) :
    Steps (eventOf onCommit (.rollback handle) s) s
      (StoreClients.perform onCommit (.rollback handle) s).2 := by
  cases htxn : s.txns[handle]? with
  | none =>
      have hrun : StoreClients.perform onCommit (.rollback handle) s = _ :=
        onTxn_unknown InMemoryCacheStore.rollback htxn
      rw [eventOf_eq hrun, hrun]
      exact steps_none rfl rfl rfl rfl fun _ => rfl
  | some txn =>
      have hrun : StoreClients.perform onCommit (.rollback handle) s = _ :=
        onTxn_known htxn (InMemoryCacheStore.rollback_eq _)
      rw [eventOf_eq hrun, hrun]
      simp only [StoreRequest.handle, Option.bind_some, htxn]
      cases hclosed : txn.closed with
      | true =>
          simp only [if_true]
          exact steps_onTxn htxn rfl (touched_same rfl) rfl (by intro staged hpublished; cases hpublished)
      | false =>
          simp only [Bool.false_eq_true, if_false]
          exact steps_onTxn htxn rfl touched_close rfl (by intro staged hpublished; cases hpublished)

variable (onCommit) in
theorem perform_commit_steps (handle : Nat) (s : StoreClients W V) :
    Steps (eventOf onCommit (.commit handle) s) s
      (StoreClients.perform onCommit (.commit handle) s).2 := by
  cases htxn : s.txns[handle]? with
  | none =>
      have hrun : StoreClients.perform onCommit (.commit handle) s = _ :=
        Prog.bind_apply_error (onTxn_unknown _ htxn)
      rw [eventOf_eq hrun, hrun]
      exact steps_none rfl rfl rfl rfl fun _ => rfl
  | some txn =>
      rcases InMemoryCacheStore.commit_cases onCommit ⟨s.store, s.world, txn⟩ with
        ⟨error, t, hcommit, hstore, hended⟩ | ⟨receipt, t, hcommit, hopen, hexpected, hstore, hclosed⟩
      · have hrun : StoreClients.perform onCommit (.commit handle) s = _ :=
          Prog.bind_apply_error (onTxn_known htxn hcommit)
        rw [eventOf_eq hrun, hrun]
        simp only [StoreRequest.handle, Option.bind_some, htxn]
        refine steps_onTxn htxn rfl ?_ hstore (by intro staged hpublished; cases hpublished)
        rcases hended with ⟨hsame, -⟩ | hend
        · rw [hsame]
          exact touched_same rfl
        · rw [hend]
          exact touched_close
      · have hrun : StoreClients.perform onCommit (.commit handle) s = _ :=
          Prog.bind_apply_ok (onTxn_known htxn hcommit)
        rw [eventOf_eq hrun, hrun]
        simp only [StoreRequest.handle, Option.bind_some, htxn]
        refine steps_onTxn htxn rfl ?_ hstore ?_
        · rw [hclosed]
          exact touched_close
        · intro staged _
          exact ⟨hopen, hexpected⟩

variable (onCommit) in
theorem perform_lookup_steps (keys : List String) (s : StoreClients W V) :
    Steps (eventOf onCommit (.lookup keys) s) s
      (StoreClients.perform onCommit (.lookup keys) s).2 :=
  steps_none rfl rfl rfl rfl fun _ => rfl

/-! ### Every sequence of requests -/

/-- The store and the open transactions, as the events served so far determine them. -/
structure Serial (events : List (StoreEvent V)) (s : StoreClients W V) : Prop where
  generation : s.store.generation = (events.filterMap StoreEvent.published).length
  values : s.store.values = (events.filterMap StoreEvent.published).foldl PyDict.update ∅
  began : s.txns.map CacheTxn.expectedGeneration =
    (events.filter StoreEvent.begins).map fun event => event.before.generation
  staged : ∀ handle txn, s.txns[handle]? = some txn → txn.closed = false → txn.staged = stagedBy events handle
  unknown : ∀ handle, s.txns.length ≤ handle → stagedBy events handle = ∅

theorem serial_start (w : W) : Serial ([] : List (StoreEvent V)) (StoreClients.start w) := by
  constructor
  · rfl
  · rfl
  · rfl
  · intro handle txn hfound
    simp [StoreClients.start] at hfound
  · intro handle _
    rfl

theorem stagedBy_concat (events : List (StoreEvent V)) (event : StoreEvent V) (handle : Nat) :
    stagedBy (events ++ [event]) handle =
      (event.accepted handle).elim (stagedBy events handle) fun entries =>
        (stagedBy events handle).update entries := by
  unfold stagedBy
  rw [List.filterMap_append, List.foldl_append]
  cases haccepted : event.accepted handle with
  | none => simp [haccepted]
  | some entries => simp [haccepted]

/-- The store invariants over one more event. -/
theorem Serial.leaves {events : List (StoreEvent V)} {event : StoreEvent V} {s : StoreClients W V}
    (h : Serial events s) (hbefore : event.before = s.store) :
    event.leaves.generation = ((events ++ [event]).filterMap StoreEvent.published).length ∧
      event.leaves.values = ((events ++ [event]).filterMap StoreEvent.published).foldl PyDict.update ∅ := by
  rw [List.filterMap_append, List.length_append, List.foldl_append, ← h.generation, ← h.values,
    ← hbefore]
  cases hpublished : event.published with
  | none => simp [StoreEvent.leaves, hpublished]
  | some staged => simp [StoreEvent.leaves, hpublished]

theorem Serial.steps {events : List (StoreEvent V)} {event : StoreEvent V} {s t : StoreClients W V}
    (h : Serial events s) (hsteps : Steps event s t) : Serial (events ++ [event]) t := by
  obtain ⟨hgeneration, hvalues⟩ := h.leaves hsteps.before
  constructor
  · rw [hsteps.leaves]
    exact hgeneration
  · rw [hsteps.leaves]
    exact hvalues
  · have hsame : t.txns.map CacheTxn.expectedGeneration = s.txns.map CacheTxn.expectedGeneration := by
      apply List.ext_getElem?
      intro handle
      rw [List.getElem?_map, List.getElem?_map]
      cases hfound : t.txns[handle]? with
      | none =>
          have hout := List.getElem?_eq_none_iff.mp hfound
          rw [hsteps.length] at hout
          rw [List.getElem?_eq_none_iff.mpr hout]
      | some txn' =>
          obtain ⟨txn, htxn, htouched⟩ := hsteps.touched handle txn' hfound
          rw [htxn, Option.map_some, Option.map_some, htouched.expected]
    rw [hsame, h.began, List.filter_append, List.filter_singleton, hsteps.begins]
    simp
  · intro handle txn' hfound hopen
    obtain ⟨txn, htxn, htouched⟩ := hsteps.touched handle txn' hfound
    obtain ⟨hwas, hstaged⟩ := htouched.staged hopen
    rw [hstaged, stagedBy_concat, h.staged handle txn htxn hwas]
  · intro handle hout
    rw [hsteps.length] at hout
    rw [stagedBy_concat, hsteps.unknown handle hout]
    exact h.unknown handle hout

theorem Serial.begins {events : List (StoreEvent V)} {s : StoreClients W V} (h : Serial events s) :
    Serial (events ++ [eventOf onCommit .begin s]) (StoreClients.perform onCommit .begin s).2 := by
  have haccepted : ∀ handle, stagedBy (events ++ [eventOf onCommit .begin s]) handle = stagedBy events handle :=
    fun handle => stagedBy_concat events _ handle
  obtain ⟨hgeneration, hvalues⟩ := h.leaves (rfl : (eventOf onCommit .begin s).before = s.store)
  constructor
  · exact hgeneration
  · exact hvalues
  · change (s.txns ++ [_]).map CacheTxn.expectedGeneration = _
    rw [List.map_append, h.began, List.filter_append, List.map_append]
    rfl
  · intro handle txn hfound hopen
    rw [haccepted]
    change (s.txns ++ [⟨s.store.generation, ∅, false⟩])[handle]? = some txn at hfound
    by_cases hlt : handle < s.txns.length
    · rw [List.getElem?_append_left hlt] at hfound
      exact h.staged handle txn hfound hopen
    · rw [List.getElem?_append_right (by omega)] at hfound
      rw [h.unknown handle (by omega)]
      have hmem := List.mem_of_getElem? hfound
      rw [List.mem_singleton] at hmem
      rw [hmem]
  · intro handle hout
    rw [haccepted]
    apply h.unknown
    change (s.txns ++ [_]).length ≤ handle at hout
    rw [List.length_append] at hout
    omega

/-- What holds of an event after `earlier`. -/
structure Committed (earlier : List (StoreEvent V)) (event : StoreEvent V) : Prop where
  /-- anything but a commit that returned leaves the store -/
  quiet : event.published = none → event.after = event.before
  /-- no commit of a closed transaction returns -/
  closed : ∀ txn, event.txn = some txn → txn.closed = true → event.published = none
  /-- a commit that returned published what its transaction staged since it began, and it began at the
  generation that the commit found -/
  current : ∀ staged, event.published = some staged → ∃ handle begun,
    event.request = .commit handle ∧ staged = stagedBy earlier handle ∧
    (earlier.filter StoreEvent.begins)[handle]? = some begun ∧
    begun.before.generation = event.before.generation ∧
    event.after = ⟨event.before.generation + 1, event.before.values.update staged⟩

theorem Serial.committed {events : List (StoreEvent V)} {event : StoreEvent V} {s t : StoreClients W V}
    (h : Serial events s) (hsteps : Steps event s t) : Committed events event := by
  constructor
  · intro hpublished
    rw [hsteps.after, hsteps.leaves, StoreEvent.leaves, hpublished]
  · intro txn htxn hclosed
    cases hpublished : event.published with
    | none => rfl
    | some staged =>
        obtain ⟨handle, found, -, -, hfound, hopen, -⟩ := hsteps.current staged hpublished
        rw [htxn] at hfound
        rw [← Option.some.inj hfound, hclosed] at hopen
        cases hopen
  · intro staged hpublished
    obtain ⟨handle, txn, hrequest, htxn, -, hopen, hstaged, hexpected⟩ := hsteps.current staged hpublished
    have hbegan : ((events.filter StoreEvent.begins).map fun event => event.before.generation)[handle]? =
        some event.before.generation := by
      rw [← h.began, List.getElem?_map, htxn, hsteps.before, Option.map_some, hexpected]
    rw [List.getElem?_map, Option.map_eq_some_iff] at hbegan
    obtain ⟨begun, hbegun, hsame⟩ := hbegan
    refine ⟨handle, begun, hrequest, ?_, hbegun, hsame, ?_⟩
    · rw [← hstaged]
      exact h.staged handle txn htxn hopen
    · rw [hsteps.after, hsteps.leaves, StoreEvent.leaves, hpublished]

variable (onCommit) in
theorem Serial.perform {events : List (StoreEvent V)} {s : StoreClients W V} (h : Serial events s)
    (request : StoreRequest V) :
    Serial (events ++ [eventOf onCommit request s]) (StoreClients.perform onCommit request s).2 ∧
      Committed events (eventOf onCommit request s) := by
  cases request with
  | begin =>
      refine ⟨h.begins, ⟨fun _ => rfl, fun _ _ _ => rfl, ?_⟩⟩
      intro staged hpublished
      cases hpublished
  | lookup keys => exact ⟨h.steps (perform_lookup_steps onCommit keys s), h.committed (perform_lookup_steps onCommit keys s)⟩
  | stage handle entries =>
      have hsteps := perform_stage_steps onCommit handle entries s
      exact ⟨h.steps hsteps, h.committed hsteps⟩
  | commit handle =>
      have hsteps := perform_commit_steps onCommit handle s
      exact ⟨h.steps hsteps, h.committed hsteps⟩
  | rollback handle =>
      have hsteps := perform_rollback_steps onCommit handle s
      exact ⟨h.steps hsteps, h.committed hsteps⟩

variable (onCommit) in
theorem serveRequests_serial :
    ∀ (requests : List (StoreRequest V)) (earlier : List (StoreEvent V)) (s : StoreClients W V),
      Serial earlier s →
      Serial (earlier ++ (serveRequests onCommit requests s).1) (serveRequests onCommit requests s).2 ∧
        ∀ before event after, (serveRequests onCommit requests s).1 = before ++ event :: after →
          Committed (earlier ++ before) event := by
  intro requests
  induction requests with
  | nil =>
      intro earlier s h
      refine ⟨by simpa [serveRequests] using h, ?_⟩
      intro before event after hsplit
      simp [serveRequests] at hsplit
  | cons request later ih =>
      intro earlier s h
      obtain ⟨hserial, hcommitted⟩ := h.perform onCommit request
      obtain ⟨hfinal, hevents⟩ := ih _ _ hserial
      rw [List.append_assoc] at hfinal
      refine ⟨hfinal, ?_⟩
      intro before event after hsplit
      cases before with
      | nil =>
          obtain ⟨hevent, -⟩ := List.cons.inj hsplit
          rw [List.append_nil, ← hevent]
          exact hcommitted
      | cons first before =>
          obtain ⟨hfirst, hrest⟩ := List.cons.inj hsplit
          have hlater := hevents before event after hrest
          rw [List.append_assoc, hfirst] at hlater
          exact hlater

/-- Whatever the requests and however the callback answers, the generation counts the commits that
returned, the values are their staged maps in commit order, and every event is as `Committed` says. -/
theorem store_serializable (onCommit : Option (PyDict V → Prog W PyExc Unit)) (w : W)
    (requests : List (StoreRequest V)) :
    let (events, final) := serveRequests onCommit requests (StoreClients.start w)
    final.store.generation = (events.filterMap StoreEvent.published).length ∧
      final.store.values = (events.filterMap StoreEvent.published).foldl PyDict.update ∅ ∧
      ∀ before event after, events = before ++ event :: after → Committed before event := by
  obtain ⟨hserial, hcommitted⟩ := serveRequests_serial onCommit requests [] _ (serial_start w)
  exact ⟨hserial.generation, hserial.values, hcommitted⟩

end TxnOpt
