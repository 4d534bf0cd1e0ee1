import TxnOpt.Runtime.Proof.CommittedPrefix

/-!
# Descent

What a round resolves is what the store holds of its keys once the round has committed. So a kernel that
decides for a best one of the snapshot and the resolved states keeps, over every run with a store of its own,
a best one of all the states in the store.
-/

namespace TxnOpt

/-! ### Writing at positions -/

section

variable {α β : Type} (value : β → α) {i : ℕ}

theorem getElem?_foldl_set_of_ne : ∀ {items : List (ℕ × β)} {values : List α},
    (∀ item ∈ items, item.1 ≠ i) →
    (items.foldl (fun values item => values.set item.1 (value item.2)) values)[i]? = values[i]? := by
  intro items
  induction items with
  | nil =>
      intro values _
      rfl
  | cons item items ih =>
      intro values h
      rw [List.foldl_cons, ih fun later hlater => h later (List.mem_cons_of_mem _ hlater),
        List.getElem?_set_ne (h item List.mem_cons_self)]

theorem length_foldl_set : ∀ {items : List (ℕ × β)} {values : List α},
    (items.foldl (fun values item => values.set item.1 (value item.2)) values).length = values.length := by
  intro items
  induction items with
  | nil =>
      intro values
      rfl
  | cons item items ih =>
      intro values
      rw [List.foldl_cons, ih, List.length_set]

theorem getElem?_foldl_set_of_mem {v : α} : ∀ {items : List (ℕ × β)} {values : List α},
    i < values.length → (∃ item ∈ items, item.1 = i) → (∀ item ∈ items, item.1 = i → value item.2 = v) →
    (items.foldl (fun values item => values.set item.1 (value item.2)) values)[i]? = some v := by
  intro items
  induction items with
  | nil =>
      intro values _ h
      obtain ⟨item, hitem, -⟩ := h
      cases hitem
  | cons item items ih =>
      intro values hlt h hall
      rw [List.foldl_cons]
      have hrest : ∀ later ∈ items, later.1 = i → value later.2 = v :=
        fun later hlater => hall later (List.mem_cons_of_mem _ hlater)
      by_cases hlater : ∃ later ∈ items, later.1 = i
      · exact ih (by rwa [List.length_set]) hlater hrest
      · obtain ⟨found, hfound, hi⟩ := h
        obtain rfl | hfound := List.mem_cons.mp hfound
        · rw [getElem?_foldl_set_of_ne value fun later hmem hi => hlater ⟨later, hmem, hi⟩, ← hi,
            List.getElem?_set_self (hi ▸ hlt), hall found List.mem_cons_self hi]
        · exact absurd ⟨found, hfound, hi⟩ hlater

end

section

variable {W Cand State Obj : Type}

/-! ### What a round resolves -/

theorem mem_missesOf {keys : List String} {admitted : List Cand} {cached : String → Option State}
    {missing : List (ℕ × String × Cand)} (h : missesOf keys admitted (keys.map cached) = .ok missing) {i : ℕ}
    {key : String} (hkey : keys[i]? = some key) :
    (∀ item ∈ missing, item.1 = i → item.2.1 = key ∧ cached key = none) ∧
      (cached key = none → ∃ item ∈ missing, item.1 = i) := by
  unfold missesOf at h
  split at h
  · rename_i hlengths
    cases h
    constructor
    · intro item hitem hi
      obtain ⟨found, hfound, rfl⟩ := List.mem_map.mp hitem
      obtain ⟨hmem, hnone⟩ := List.mem_filter.mp hfound
      obtain rfl := hi
      have hget := List.mem_zipIdx_iff_getElem?.mp hmem
      obtain ⟨hfirst, hrest⟩ := List.getElem?_zip_eq_some.mp hget
      rw [hkey] at hfirst
      obtain ⟨-, hvalue⟩ := List.getElem?_zip_eq_some.mp hrest
      rw [List.getElem?_map, hkey] at hvalue
      refine ⟨(Option.some.inj hfirst).symm, ?_⟩
      rw [Option.some.inj hvalue]
      simpa using hnone
    · intro hnone
      have hlt := (List.getElem?_eq_some_iff.mp hkey).1
      have hcand : admitted[i]? = some admitted[i] := List.getElem?_eq_getElem (hlengths.1 ▸ hlt)
      refine ⟨(i, key, admitted[i]), List.mem_map.mpr ⟨((key, admitted[i], none), i), ?_, rfl⟩, rfl⟩
      rw [List.mem_filter, List.mem_zipIdx_iff_getElem?]
      refine ⟨List.getElem?_zip_eq_some.mpr ⟨hkey, List.getElem?_zip_eq_some.mpr ⟨hcand, ?_⟩⟩, rfl⟩
      rw [List.getElem?_map, hkey, ← hnone]
      rfl
  · cases h

/-- The resolved values of a round are its keys' values in the store with the staged entries. -/
theorem resolveValues_eq {keys : List String} {admitted : List Cand} {values staged : PyDict State}
    {missing : List (ℕ × String × Cand)}
    (h : missesOf keys admitted (keys.map fun key => values.lookup key) = .ok missing)
    (hstaged : ∀ key, key ∈ staged ↔ key ∈ missing.map fun item => item.2.1) :
    resolveValues (keys.map fun key => values.lookup key) missing staged =
      keys.map fun key => (values.update staged).lookup key := by
  apply List.ext_getElem?
  intro i
  unfold resolveValues
  rw [List.getElem?_map]
  cases hkey : keys[i]? with
  | none =>
      have hlength : (missing.foldl (fun values item => values.set item.1 (staged.lookup item.2.1))
          (keys.map fun key => values.lookup key)).length = keys.length := by
        rw [length_foldl_set fun item : String × Cand => staged.lookup item.1, List.length_map]
      rw [List.getElem?_eq_none (hlength.trans_le (List.getElem?_eq_none_iff.mp hkey))]
      rfl
  | some key =>
      obtain ⟨hat, hsome⟩ := mem_missesOf h hkey
      have hlt : i < (keys.map fun key => values.lookup key).length := by
        rw [List.length_map]
        exact (List.getElem?_eq_some_iff.mp hkey).1
      unfold PyDict.update
      rw [Option.map_some]
      cases hcached : values.lookup key with
      | none =>
          obtain ⟨item, hitem, hi⟩ := hsome hcached
          have hmem : key ∈ staged := (hstaged key).mpr (List.mem_map.mpr ⟨item, hitem, (hat item hitem hi).1⟩)
          rw [AList.lookup_union_left hmem]
          apply getElem?_foldl_set_of_mem (fun item : String × Cand => staged.lookup item.1) hlt ⟨item, hitem, hi⟩
          intro other hother hposition
          rw [(hat other hother hposition).1]
      | some state =>
          have hnone : ∀ item ∈ missing, item.1 ≠ i := by
            intro item hitem hi
            have hmiss := (hat item hitem hi).2
            rw [hcached] at hmiss
            cases hmiss
          have hkept : key ∉ staged := by
            intro hmem
            obtain ⟨item, hitem, rfl⟩ := List.mem_map.mp ((hstaged key).mp hmem)
            rw [(missesOf_spec h).2 item hitem] at hcached
            cases hcached
          rw [AList.lookup_union_right hkept,
            getElem?_foldl_set_of_ne (fun item : String × Cand => staged.lookup item.1) hnone, List.getElem?_map, hkey,
            hcached]
          exact congrArg some hcached

/-! ### One round -/

/-- Whatever the kernel decides for is the snapshot or a resolved state that counts, and none of them that counts
has a lower rank. -/
def Descends {R : Type} [LE R] (kernel : SearchKernel W Cand State) (rank : State → R) (counts : State → Prop) : Prop :=
  ∀ snapshot admitted resolved roundId next,
    Called (kernel.decide snapshot admitted resolved roundId) (.ok next) →
    (next = snapshot ∨ next ∈ resolved ∧ counts next) ∧ rank next ≤ rank snapshot ∧
      ∀ state ∈ resolved, counts state → rank next ≤ rank state

theorem Called.of_bind {α β : Type} {call : Prog W PyExc α} {next : α → Prog W PyExc β} {value : β}
    (h : Called (call >>= next) (.ok value)) : ∃ a, Called call (.ok a) ∧ Called (next a) (.ok value) := by
  obtain ⟨w, w', hrun⟩ := h
  rcases hcall : call w with ⟨outcome, v⟩
  cases outcome with
  | error error =>
      rw [Prog.bind_apply_error hcall] at hrun
      cases hrun
  | ok a =>
      rw [Prog.bind_apply_ok hcall] at hrun
      exact ⟨a, ⟨w, v, hcall⟩, v, w', hrun⟩

theorem Called.of_resume {α : Type} {outcome : Except PyExc α} {value : α}
    (h : Called (Prog.resume outcome : Prog W PyExc α) (.ok value)) : outcome = .ok value := by
  obtain ⟨w, w', hrun⟩ := h
  cases outcome with
  | error error => cases hrun
  | ok a =>
      cases hrun
      rfl

theorem validated_of_resolved {oracle : Oracle W Cand State Obj} {state : State} :
    ∀ {resolved : List State}, Called (validateResolved oracle resolved) (.ok ()) → state ∈ resolved →
      Called (oracle.validate state) (.ok ()) := by
  intro resolved
  induction resolved with
  | nil =>
      intro _ hstate
      cases hstate
  | cons first resolved ih =>
      intro h hstate
      obtain ⟨_, hfirst, hrest⟩ := Called.of_bind h
      obtain rfl | hstate := List.mem_cons.mp hstate
      · obtain ⟨_, hvalidated, -⟩ := Called.of_bind hfirst
        exact hvalidated
      · exact ih hrest hstate

/-! ### Evaluations -/

/-- Whatever the oracle evaluates, it makes of each candidate a state that `made` allows. -/
def Evaluates (oracle : Oracle W Cand State Obj) (made : Cand → State → Prop) : Prop :=
  ∀ batch workBudget deadlineNs w states, (oracle.evaluateBatch batch workBudget deadlineNs w).1 = .ok states →
    List.Forall₂ made batch states

/-- A state that was made of a candidate with the key. -/
def Makes (oracle : Oracle W Cand State Obj) (made : Cand → State → Prop) (key : String) (state : State) : Prop :=
  ∃ candidate, Called (oracle.stableKey candidate) (.ok key) ∧ made candidate state

section

variable {C : Type} {job : Job W C Cand State Obj} {deadlineNs : Option Int} {made : Cand → State → Prop}

theorem Evaluates.collected (h : Evaluates job.oracle made) {parts : List (List Cand)} {gathered : List (List State)}
    (hcollected : Prog.Collected (PartAnswer (Answers job deadlineNs fun _ => True)) parts (.ok gathered)) :
    List.Forall₂ made parts.flatten gathered.flatten := by
  generalize hr : Except.ok gathered = r at hcollected
  induction hcollected generalizing gathered with
  | nil =>
      cases hr
      exact .nil
  | @cons part values parts rest hpart _ ih =>
      cases hr
      cases hpart with
      | values hanswered _ =>
          obtain ⟨work, w, w', -, hcall⟩ := hanswered
          exact List.rel_append (h _ _ _ _ _ (congrArg Prod.fst hcall)) (ih rfl)
  | failed => cases hr
  | later => cases hr

theorem Evaluates.gathered (h : Evaluates job.oracle made) {candidates : List Cand} {evaluated : List State}
    (hgathered : Gathered (Answers job deadlineNs fun _ => True) candidates (.ok evaluated)) :
    List.Forall₂ made candidates evaluated := by
  generalize hr : Except.ok evaluated = r at hgathered
  cases hgathered with
  | whole hanswered =>
      cases hr
      obtain ⟨work, w, w', -, hcall⟩ := hanswered
      exact h _ _ _ _ _ (congrArg Prod.fst hcall)
  | @parts parts outcome hparts hcollected =>
      cases outcome with
      | error error => cases hr
      | ok gathered =>
          cases hr
          rw [← hparts]
          exact h.collected hcollected

end

theorem lookup_stagedOf {key : String} {state : State} :
    ∀ {missing : List (ℕ × String × Cand)} {evaluated : List State} {start : PyDict State},
      ((missing.zip evaluated).foldl (fun staged item => staged.insert item.1.2.1 item.2) start).lookup key =
        some state →
      start.lookup key = some state ∨ ∃ item, (item, state) ∈ missing.zip evaluated ∧ item.2.1 = key := by
  intro missing evaluated start h
  generalize missing.zip evaluated = pairs at h ⊢
  induction pairs generalizing start with
  | nil => exact .inl h
  | cons pair pairs ih =>
      obtain hstart | ⟨item, hitem, hkey⟩ := ih h
      · by_cases hsame : key = pair.1.2.1
        · rw [hsame, AList.lookup_insert] at hstart
          refine .inr ⟨pair.1, ?_, hsame.symm⟩
          rw [← Option.some.inj hstart]
          exact List.mem_cons_self
        · rw [AList.lookup_insert_ne hsame] at hstart
          exact .inl hstart
      · exact .inr ⟨item, List.mem_cons_of_mem _ hitem, hkey⟩

theorem mem_of_missesOf {keys : List String} {admitted : List Cand} {values : List (Option State)}
    {missing : List (ℕ × String × Cand)} (h : missesOf keys admitted values = .ok missing)
    {item : ℕ × String × Cand} (hitem : item ∈ missing) : item.2 ∈ keys.zip admitted := by
  unfold missesOf at h
  split at h
  · cases h
    obtain ⟨found, hfound, rfl⟩ := List.mem_map.mp hitem
    have hget := List.mem_zipIdx_iff_getElem?.mp (List.mem_filter.mp hfound).1
    obtain ⟨hkey, hrest⟩ := List.getElem?_zip_eq_some.mp hget
    obtain ⟨hcandidate, -⟩ := List.getElem?_zip_eq_some.mp hrest
    exact List.mem_of_getElem? (List.getElem?_zip_eq_some.mpr ⟨hkey, hcandidate⟩)
  · cases h

/-! ### One round -/

variable [DecidableEq State] {job : Job W (InMemoryCacheStore State) Cand State Obj}
  {onCommit : Option (PyDict State → Prog W PyExc Unit)} {deadlineNs : Option Int} {roundId : ℕ}
  {c t : Core (InMemoryCacheStore State) State Obj} {made : Cand → State → Prop}

/-- What a committed round does to the store and the state. -/
structure Resolves (job : Job W (InMemoryCacheStore State) Cand State Obj) (made : Cand → State → Prop) (roundId : ℕ)
    (c t : Core (InMemoryCacheStore State) State Obj) : Prop where
  kept : ∀ key state, c.cache.values.lookup key = some state → t.cache.values.lookup key = some state
  added : ∀ key state, t.cache.values.lookup key = some state →
    c.cache.values.lookup key = some state ∨ Makes job.oracle made key state
  resolved : ∃ (keys : List String) (admitted : List Cand) (resolved : List State),
    keys.map (fun key => t.cache.values.lookup key) = resolved.map some ∧
    Called (validateResolved job.oracle resolved) (.ok ()) ∧
    Called (job.kernel.decide c.state admitted resolved roundId) (.ok t.state) ∧
    ∀ key state, t.cache.values.lookup key = some state → c.cache.values.lookup key = some state ∨ state ∈ resolved
  validated : Called (job.oracle.validate t.state) (.ok ())
  objective : Called (job.oracle.objective t.state) (.ok t.objective)

theorem CommittedRound.resolves (hops : job.runtime.cacheOps = InMemoryCacheStore.ops onCommit)
    (hmade : Evaluates job.oracle made) (h : CommittedRound job deadlineNs roundId c t) :
    Resolves job made roundId c t := by
  obtain @⟨opened, txn, admission, prepared, trail, decision, staged, committed, store, hopened, hpublished, -,
    rfl⟩ := h
  obtain ⟨looked, stagedStore, snapshot, closed, evals, hprepared, hconfirmed, rfl⟩ := hpublished.round
  have hsame : opened.cache = c.cache ∧ opened.state = c.state := by
    obtain ⟨tape, events, rfl⟩ := hopened.exists_eq
    exact ⟨rfl, rfl⟩
  obtain ⟨candidates, limit, hproposed, -⟩ := hopened.proposed
  have hadmits := admitCandidates_spec hproposed.admitted
  obtain ⟨rfl, hvalues⟩ := hprepared.lookedUp_private hops
  rw [hsame.1] at hvalues
  have hmissing := hprepared.missing
  rw [hvalues] at hmissing
  have hstaged : ∀ key, key ∈ staged ↔ key ∈ prepared.missing.map fun item => item.2.1 := by
    intro key
    obtain ⟨hnone, rfl⟩ | ⟨evaluated, -, hlength, rfl⟩ := hpublished.gathered
    · rw [hnone]
      exact ⟨fun h => absurd h (AList.notMem_empty key), fun h => by cases h⟩
    · unfold stagedOf
      rw [mem_stagedOf hlength.ge]
      exact or_iff_right (AList.notMem_empty key)
  have hstore : store.1.values = c.cache.values.update staged := by
    have hcommitted := congrArg InMemoryCacheStore.values (hconfirmed.store_private hops)
    have hempty : (∅ : PyDict State).update staged = staged := AList.union_empty
    rw [hempty, hsame.1] at hcommitted
    exact hcommitted
  have hlookup : ∀ key state, store.1.values.lookup key = some state ↔
      staged.lookup key = some state ∨ key ∉ staged ∧ c.cache.values.lookup key = some state := by
    intro key state
    rw [hstore]
    exact AList.lookup_union_eq_some
  have hstagedOf : ∀ key state, staged.lookup key = some state → Makes job.oracle made key state := by
    intro key state hkey
    obtain ⟨-, rfl⟩ | ⟨evaluated, hgathered, hlength, rfl⟩ := hpublished.gathered
    · cases hkey
    · obtain hnone | ⟨item, hitem, rfl⟩ := lookup_stagedOf hkey
      · cases hnone
      · obtain ⟨pairs, hpairs, hadmitted, hkeys⟩ := hadmits.keyed
        have hmem := mem_of_missesOf hmissing (List.of_mem_zip hitem).1
        rw [hadmitted, hkeys, List.zip_map'] at hmem
        obtain ⟨pair, hpair, hsame⟩ := List.mem_map.mp hmem
        have hkeyed := (hpairs.answered pair hpair).2
        refine ⟨item.2.2, ?_, (List.forall₂_iff_zip.mp (hmade.gathered hgathered)).2 ?_⟩
        · rw [← hsame]
          exact hkeyed
        · rw [List.zip_map_left]
          exact List.mem_map.mpr ⟨_, hitem, rfl⟩
  obtain ⟨resolved, hresolved, hvalidated, hdecide, -⟩ := hpublished.decided.resolved
  rw [hvalues, resolveValues_eq hmissing hstaged, ← hstore] at hresolved
  rw [hsame.2] at hdecide
  refine ⟨?_, ?_, ⟨admission.admittedKeys, prepared.admitted, resolved, hresolved, hvalidated, hdecide, ?_⟩,
    hpublished.decided.validated, hpublished.decided.objective⟩
  · intro key state hkey
    refine (hlookup key state).mpr (.inr ⟨?_, hkey⟩)
    intro hmem
    obtain ⟨item, hitem, rfl⟩ := List.mem_map.mp ((hstaged key).mp hmem)
    rw [(missesOf_spec hmissing).2 item hitem] at hkey
    cases hkey
  · intro key state hkey
    obtain hkey | ⟨-, hkey⟩ := (hlookup key state).mp hkey
    · exact .inr (hstagedOf key state hkey)
    · exact .inl hkey
  · intro key state hkey
    obtain hadded | ⟨-, hkey⟩ := (hlookup key state).mp hkey
    · have hmem : key ∈ admission.admittedKeys :=
        (missesOf_spec hmissing).1.subset ((hstaged key).mp (AList.lookup_isSome.mp (by rw [hadded]; rfl)))
      have hfound : some state ∈ resolved.map some := by
        rw [← hresolved]
        exact List.mem_map.mpr ⟨key, hmem, hkey⟩
      obtain ⟨other, hother, hsame⟩ := List.mem_map.mp hfound
      exact .inr (Option.some.inj hsame ▸ hother)
    · exact .inl hkey

/-! ### Runs -/

variable {R : Type} [Preorder R] {rank : State → R} {counts : State → Prop} {initialState : State}

/-- Where the state of a run comes from, and how it ranks, when the store held nothing at first. -/
structure BestOfStore (job : Job W (InMemoryCacheStore State) Cand State Obj) (made : Cand → State → Prop)
    (rank : State → R) (counts : State → Prop) (initialState : State)
    (c : Core (InMemoryCacheStore State) State Obj) : Prop where
  origin : c.state = initialState ∨ counts c.state ∧ ∃ key, c.cache.values.lookup key = some c.state
  initial : rank c.state ≤ rank initialState
  least : ∀ key state, c.cache.values.lookup key = some state → counts state → rank c.state ≤ rank state
  stored : ∀ key state, c.cache.values.lookup key = some state →
    Called (job.oracle.validate state) (.ok ()) ∧ Makes job.oracle made key state
  validated : Called (job.oracle.validate c.state) (.ok ())
  objective : Called (job.oracle.objective c.state) (.ok c.objective)

omit [DecidableEq State] in
theorem BestOfStore.resolves (hdescends : Descends job.kernel rank counts)
    (hc : BestOfStore job made rank counts initialState c) (h : Resolves job made roundId c t) :
    BestOfStore job made rank counts initialState t := by
  obtain ⟨keys, admitted, resolved, hresolved, hvalidated, hdecide, hnew⟩ := h.resolved
  obtain ⟨hchosen, hsnapshot, hleast⟩ := hdescends _ _ _ _ _ hdecide
  refine ⟨?_, hsnapshot.trans hc.initial, ?_, ?_, h.validated, h.objective⟩
  · obtain hsame | ⟨hmem, hcounts⟩ := hchosen
    · rw [hsame]
      obtain horigin | ⟨hcounts, key, hkey⟩ := hc.origin
      · exact .inl horigin
      · exact .inr ⟨hcounts, key, h.kept key _ hkey⟩
    · have hfound : some t.state ∈ keys.map fun key => t.cache.values.lookup key := by
        rw [hresolved]
        exact List.mem_map.mpr ⟨_, hmem, rfl⟩
      obtain ⟨key, -, hkey⟩ := List.mem_map.mp hfound
      exact .inr ⟨hcounts, key, hkey⟩
  · intro key state hkey hcounts
    obtain hold | hmem := hnew key state hkey
    · exact hsnapshot.trans (hc.least key state hold hcounts)
    · exact hleast state hmem hcounts
  · intro key state hkey
    constructor
    · obtain hold | hmem := hnew key state hkey
      · exact (hc.stored key state hold).1
      · exact validated_of_resolved hvalidated hmem
    · obtain hold | hmakes := h.added key state hkey
      · exact (hc.stored key state hold).2
      · exact hmakes

omit [DecidableEq State] in
theorem OpenedRun.best {c : Core (InMemoryCacheStore State) State Obj}
    (hempty : ∀ cache, Called job.runtime.cacheFactory (.ok cache) → cache.values = ∅)
    (h : OpenedRun job initialState deadlineNs c) : BestOfStore job made rank counts initialState c := by
  have hnone : ∀ key, c.cache.values.lookup key = none := by
    intro key
    rw [hempty _ h.cache, AList.lookup_empty]
  have hstate : c.state = initialState := by
    rw [h.core]
  refine ⟨.inl hstate, hstate ▸ le_refl _, ?_, ?_, hstate ▸ h.validated, hstate ▸ h.objective⟩
  · intro key state hkey
    rw [hnone key] at hkey
    cases hkey
  · intro key state hkey
    rw [hnone key] at hkey
    cases hkey

/-- However a run ends whose kernel descends, its state is a best one of the initial state and of the stored ones. -/
theorem run_descends {world : W} {outcome : Except PyExc (RunResult State Obj)}
    {final : Session W (InMemoryCacheStore State) Cand State Obj}
    (hops : job.runtime.cacheOps = InMemoryCacheStore.ops onCommit)
    (hempty : ∀ cache, Called job.runtime.cacheFactory (.ok cache) → cache.values = ∅)
    (hdescends : Descends job.kernel rank counts) (hmade : Evaluates job.oracle made)
    (hrun : run job initialState world = .ended outcome final) :
    BestOfStore job made rank counts initialState final.core ∧
      ∀ result, outcome = .ok result →
        result.lastCommittedState = final.state ∧ result.objective = final.objective := by
  obtain ⟨deadlineNs, first, left, rounds, s, -, hopened, hs, -, hvisible, -⟩ := run_shows hops hrun
  have hbest : BestOfStore job made rank counts initialState s.core :=
    hs.invariant (fun _ => BestOfStore job made rank counts initialState) hopened.between (hopened.best hempty)
      fun _ _ _ _ hc hround => hc.resolves hdescends (hround.resolves hops hmade)
  have hcache : final.core.cache = s.core.cache := congrArg Visible.cache hvisible
  have hstate : final.core.state = s.core.state := congrArg Visible.state hvisible
  have hobjective : final.core.objective = s.core.objective := congrArg Visible.objective hvisible
  constructor
  · obtain ⟨horigin, hinitial, hleast, hstored, hvalidated, hvalue⟩ := hbest
    rw [← hstate] at horigin hinitial hvalidated hvalue
    rw [← hcache] at horigin
    rw [← hobjective] at hvalue
    refine ⟨horigin, hinitial, ?_, ?_, hvalidated, hvalue⟩
    · intro key state hkey
      rw [hcache] at hkey
      rw [hstate]
      exact hleast key state hkey
    · intro key state hkey
      rw [hcache] at hkey
      exact hstored key state hkey
  · intro result houtcome
    rw [houtcome] at hrun
    exact run_returns hrun

end

end TxnOpt
