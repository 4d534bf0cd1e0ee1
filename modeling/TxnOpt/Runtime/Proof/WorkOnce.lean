import TxnOpt.Runtime.Proof.Run
import TxnOpt.Runtime.Proof.Store
import TxnOpt.Runtime.IntegerDomain

/-!
# No work is done twice

With a store of its own, a run evaluates no key twice and none that the store held before: the misses of a
round are not in the store, and a round that goes on puts all of them there. The work it hands to the oracle
is started in the ledger, and the ledger keeps its limit.
-/

namespace TxnOpt

/-- The calls of `evaluate_batch` in a log. -/
def evaluations {C State : Type} (log : List (Observation C State)) : List EvaluateCall :=
  log.filterMap fun
    | .evaluate call => some call
    | _ => none

def evaluatedKeys {C State : Type} (log : List (Observation C State)) : List String :=
  (evaluations log).flatMap EvaluateCall.keys

theorem evaluations_append {C State : Type} (first second : List (Observation C State)) :
    evaluations (first ++ second) = evaluations first ++ evaluations second := List.filterMap_append

theorem evaluations_trail {C State : Type} (trail : Trail C State) : evaluations trail.log = trail.evals := by
  unfold evaluations Trail.log
  simp [List.filterMap_append, List.filterMap_map]

theorem handedWork_append (first second : List EvaluateCall) :
    handedWork (first ++ second) = handedWork first + handedWork second := by
  rw [handedWork, List.map_append, List.sum_append]
  rfl

/-! ### Misses -/

theorem value_of_mem_zip {α β γ : Type} (f : α → γ) {a : α} {b : β} {c : γ} :
    ∀ {keys : List α} {items : List β}, (a, b, c) ∈ keys.zip (items.zip (keys.map f)) → c = f a := by
  intro keys
  induction keys with
  | nil =>
      intro items h
      cases h
  | cons key keys ih =>
      intro items h
      cases items with
      | nil => cases h
      | cons item items =>
          simp only [List.map_cons, List.zip_cons_cons, List.mem_cons, Prod.mk.injEq] at h
          obtain ⟨rfl, rfl, rfl⟩ | hlater := h
          · rfl
          · exact ih hlater

section

variable {W Cand State Obj : Type}

/-- The misses of a lookup have keys of the round, each once, and no cached value. -/
theorem missesOf_spec {keys : List String} {admitted : List Cand} {cached : String → Option State}
    {missing : List (Nat × String × Cand)} (h : missesOf keys admitted (keys.map cached) = .ok missing) :
    (missing.map fun item => item.2.1).Sublist keys ∧ ∀ item ∈ missing, cached item.2.1 = none := by
  unfold missesOf at h
  split at h
  · cases h
    constructor
    · rw [List.map_map]
      refine List.Sublist.trans (List.Sublist.map _ List.filter_sublist) ?_
      have hkeys : (((keys.zip (admitted.zip (keys.map cached))).zipIdx).map
          ((fun item : Nat × String × Cand => item.2.1) ∘ fun item => (item.2, item.1.1, item.1.2.1))) =
          (keys.zip (admitted.zip (keys.map cached))).map Prod.fst := by
        rw [← List.zipIdx_map_fst 0 (keys.zip (admitted.zip (keys.map cached))), List.map_map]
        simp [Function.comp_def]
      rw [hkeys]
      exact map_fst_zip_sublist _ _
    · intro item hitem
      obtain ⟨found, hfound, rfl⟩ := List.mem_map.mp hitem
      obtain ⟨hmem, hnone⟩ := List.mem_filter.mp hfound
      have hzip : (found.1.1, found.1.2.1, found.1.2.2) ∈ keys.zip (admitted.zip (keys.map cached)) :=
        List.fst_mem_of_mem_zipIdx hmem
      rw [← value_of_mem_zip cached hzip]
      simpa using hnone
  · cases h

theorem mem_stagedOf {key : String} :
    ∀ {missing : List (Nat × String × Cand)} {evaluated : List State} {start : PyDict State},
      missing.length ≤ evaluated.length →
      (key ∈ (missing.zip evaluated).foldl (fun staged item => staged.insert item.1.2.1 item.2) start ↔
        key ∈ start ∨ key ∈ missing.map fun item => item.2.1) := by
  intro missing
  induction missing with
  | nil =>
      intro evaluated start _
      simp
  | cons item missing ih =>
      intro evaluated start hlength
      cases evaluated with
      | nil => exact absurd hlength (Nat.not_succ_le_zero _)
      | cons value evaluated =>
          rw [List.zip_cons_cons, List.foldl_cons, ih (Nat.le_of_succ_le_succ hlength), AList.mem_insert,
            List.map_cons, List.mem_cons]
          tauto

/-! ### The store of the run -/

variable [DecidableEq State] {job : Job W (InMemoryCacheStore State) Cand State Obj}
  {onCommit : Option (PyDict State → Prog W PyExc Unit)} {deadlineNs : Option Int} {roundId : Nat}
  {admission : Admission Cand} {c t opened : Core (InMemoryCacheStore State) State Obj} {txn : CandidateTxn}
  {prepared : Prepared Cand State} {looked : InMemoryCacheStore State × CacheTxn State}

omit [DecidableEq State] in
/-- A preparation looks its keys up in the store that the round found. -/
theorem Reserved.lookedUp_private (hops : job.runtime.cacheOps = InMemoryCacheStore.ops onCommit)
    (h : Reserved job admission c prepared looked) :
    looked = (c.cache, ⟨c.cache.generation, ∅, false⟩) ∧
      prepared.values = admission.admittedKeys.map fun key => c.cache.values.lookup key := by
  obtain ⟨⟨cache, begun⟩, lookup, ⟨w, w', hbegin⟩, ⟨v, v', hlookup⟩, -, hvalues⟩ := h.lookedUp
  rw [hops] at hbegin hlookup
  cases hbegin
  obtain ⟨cache', after⟩ := looked
  cases hlookup
  exact ⟨rfl, hvalues⟩

omit [DecidableEq State] in
theorem Reserved.misses_private (hops : job.runtime.cacheOps = InMemoryCacheStore.ops onCommit)
    (hadmits : Admits job.oracle admission) (h : Reserved job admission c prepared looked) :
    (prepared.missing.map fun item => item.2.1).Nodup ∧
      ∀ key ∈ prepared.missing.map fun item => item.2.1, key ∉ c.cache.values := by
  have hmissing := h.missing
  rw [(h.lookedUp_private hops).2] at hmissing
  obtain ⟨hsub, hnone⟩ := missesOf_spec hmissing
  refine ⟨hsub.nodup hadmits.nodup, ?_⟩
  intro key hkey
  obtain ⟨item, hitem, rfl⟩ := List.mem_map.mp hkey
  rw [← AList.lookup_isSome, hnone item hitem]
  exact Bool.false_ne_true

/-- A confirmed commit adds the staged entries to the store that the round found. -/
theorem Confirmed.store_private {staged : PyDict State}
    {stagedStore committed store : InMemoryCacheStore State × CacheTxn State} {snapshot : Nat × PyDict State}
    (hops : job.runtime.cacheOps = InMemoryCacheStore.ops onCommit)
    (h : Confirmed job staged looked stagedStore committed store snapshot) :
    store.1 = ⟨looked.1.generation + 1, looked.1.values.update (looked.2.staged.update staged)⟩ := by
  obtain ⟨⟨w, w', hstage⟩, ⟨receipt, v, v', hcommit⟩, ⟨u, u', hverify⟩, -⟩ := h
  rw [hops] at hstage hcommit hverify
  have hstaged := Prog.wp_of_run (InMemoryCacheStore.stage_spec staged _) hstage
  have hcommitted := Prog.wp_of_run (InMemoryCacheStore.commit_spec _) hcommit
  have hsame : committed.1 = store.1 := congrArg (fun ended => ended.2.store) hverify
  obtain ⟨hstore, -, -, hentries⟩ := hstaged
  obtain ⟨-, -, -, hpublished⟩ := hcommitted
  have hadded := hentries rfl
  dsimp only at hstore hadded hpublished
  rw [← hsame, hpublished, hstore, hadded]

/-- What a pass that started work has done: its new calls and the work that it moved in the ledger. -/
structure Spends (c t : Core (InMemoryCacheStore State) State Obj) (evals : List EvaluateCall) (work : ℕ) :
    Prop where
  evaluations : evaluations t.log = TxnOpt.evaluations c.log ++ evals
  nodup : (evals.flatMap EvaluateCall.keys).Nodup
  fresh : ∀ key ∈ evals.flatMap EvaluateCall.keys, key ∉ c.cache.values
  handed : handedWork evals ≤ work
  budget : t.budget = c.budget.spent work
  limited : ∀ limit, c.budget.limit = some limit → c.budget.started + work ≤ limit

omit [DecidableEq State] in
theorem Worked.spends {trail : Trail (InMemoryCacheStore State) State} {work : ℕ}
    (hops : job.runtime.cacheOps = InMemoryCacheStore.ops onCommit) (hreserved : c.budget.reserved = 0)
    (hopened : Opened job roundId c opened txn admission) (hprepared : Reserved job admission opened prepared looked)
    (hworked : Worked opened prepared work trail) (hlog : t.log = opened.log ++ trail.log)
    (hbudget : t.budget = opened.budget.spent work) : Spends c t trail.evals work := by
  have hadmits : Admits job.oracle admission := by
    obtain ⟨candidates, limit, hproposed, -⟩ := hopened.proposed
    exact admitCandidates_spec hproposed.admitted
  obtain ⟨hnodup, hfresh⟩ := hprepared.misses_private hops hadmits
  have hcache : opened.cache = c.cache := by
    obtain ⟨tape, events, rfl⟩ := hopened.exists_eq
    rfl
  rw [hcache] at hfresh
  obtain ⟨keys, hperm, hsub⟩ := hworked.keys
  refine ⟨?_, hperm.nodup_iff.mp (hsub.nodup hnodup),
    fun key hkey => hfresh key (hworked.keys.subset hkey), hworked.handed, hopened.budget ▸ hbudget, ?_⟩
  · rw [hlog, evaluations_append, evaluations_trail, hopened.log]
  · intro limit hlimit
    have hgranted := BudgetLedger.le_of_grants _ hprepared.granted (hopened.budget ▸ hlimit)
    rw [hopened.budget, hreserved] at hgranted
    have hle := hworked.work_le
    omega

/-- A pass that starts no work, or the work of one transaction. -/
def Idles (c t : Core (InMemoryCacheStore State) State Obj) : Prop :=
  evaluations t.log = evaluations c.log ∧ t.budget = c.budget

theorem CommittedRound.spends (hops : job.runtime.cacheOps = InMemoryCacheStore.ops onCommit)
    (hreserved : c.budget.reserved = 0) (h : CommittedRound job deadlineNs roundId c t) :
    ∃ evals work, Spends c t evals work ∧ (∀ key ∈ c.cache.values, key ∈ t.cache.values) ∧
      ∀ key ∈ evals.flatMap EvaluateCall.keys, key ∈ t.cache.values := by
  obtain @⟨opened, txn, admission, prepared, trail, decision, staged, committed, store, hopened, hpublished, -,
    rfl⟩ := h
  obtain ⟨looked, stagedStore, snapshot, closed, evals, hprepared, hconfirmed, rfl⟩ := hpublished.round
  refine ⟨evals, _, hpublished.worked.spends hops hreserved hopened hprepared rfl rfl, ?_⟩
  have hcache : opened.cache = c.cache := by
    obtain ⟨tape, events, rfl⟩ := hopened.exists_eq
    rfl
  have hstore := hconfirmed.store_private hops
  rw [(hprepared.lookedUp_private hops).1, hcache] at hstore
  have hmem : ∀ key, key ∈ store.1.values ↔ key ∈ staged ∨ key ∈ c.cache.values := by
    intro key
    rw [hstore]
    simp [PyDict.update, AList.mem_union]
  constructor
  · intro key hkey
    exact (hmem key).mpr (.inr hkey)
  · intro key hkey
    have hmissing := hpublished.worked.keys.subset hkey
    refine (hmem key).mpr (.inl ?_)
    obtain ⟨hnone, -⟩ | ⟨evaluated, -, hlength, rfl⟩ := hpublished.gathered
    · rw [hnone] at hmissing
      cases hmissing
    · exact (mem_stagedOf hlength.ge).mpr (.inr hmissing)

theorem RoundEnd.spends {s t : Session W (InMemoryCacheStore State) Cand State Obj}
    {r : Except PyExc (RoundExit State Obj)} (hops : job.runtime.cacheOps = InMemoryCacheStore.ops onCommit)
    (hreserved : s.core.budget.reserved = 0) (h : RoundEnd job deadlineNs roundId s t r) :
    Idles s.core t.core ∨ ∃ evals work, Spends s.core t.core evals work := by
  cases h with
  | unproposed _ ht =>
      obtain ⟨tape, -, hdrawn⟩ := s.core.drawn_eq
      rw [ht, hdrawn]
      exact .inl ⟨rfl, rfl⟩
  | stopped hlast ht _ =>
      obtain ⟨tape, -, hdrawn⟩ := s.core.drawn_eq
      rw [hdrawn] at hlast
      rw [ht]
      obtain ⟨rfl, -, -⟩ | ⟨rfl, -, -⟩ := hlast
      · exact .inl ⟨rfl, rfl⟩
      · exact .inl ⟨rfl, rfl⟩
  | inadmissible _ _ ht _ =>
      obtain ⟨tape, -, hdrawn⟩ := s.core.drawn_eq
      rw [ht, hdrawn]
      exact .inl ⟨rfl, rfl⟩
  | unprepared hopened _ hended _ =>
      refine .inl ⟨?_, ?_⟩
      · rw [hended.core, ← hopened.log]
        exact congrArg evaluations (List.append_nil _)
      · rw [hended.core, ← hopened.budget]
        rfl
  | concluded hopened hprepared hconcluded =>
      refine .inr ?_
      cases hconcluded with
      | closed hworked _ _ _ hended _ =>
          exact ⟨_, _, hworked.spends hops hreserved hopened hprepared (by rw [hended.core]; rfl)
            (by rw [hended.core]; rfl)⟩
      | unknown hworked _ _ hended =>
          exact ⟨_, _, hworked.spends hops hreserved hopened hprepared (by rw [hended.core]; rfl)
            (by rw [hended.core]; rfl)⟩
      | reconstructed hpublished _ ht =>
          exact ⟨_, _, hpublished.worked.spends hops hreserved hopened hprepared (by rw [ht]; rfl)
            (by rw [ht]; rfl)⟩
      | unsealed hworked _ _ _ _ hat =>
          exact ⟨_, _, hworked.spends hops hreserved hopened hprepared (by rw [hat.core]; rfl)
            (by rw [hat.core]; rfl)⟩
  | committed hround =>
      obtain ⟨evals, work, hspends, -⟩ := hround.spends hops hreserved
      exact .inr ⟨evals, work, hspends⟩

/-- What the calls of a run have done when its store was `start` and its limit `limit` at first. -/
structure WorkedOnce (start : InMemoryCacheStore State) (limit : Option ℕ)
    (c : Core (InMemoryCacheStore State) State Obj) : Prop where
  nodup : (evaluatedKeys c.log).Nodup
  fresh : ∀ key ∈ evaluatedKeys c.log, key ∉ start.values
  handed : handedWork (evaluations c.log) ≤ c.budget.started
  reserved : c.budget.reserved = 0
  limit_eq : c.budget.limit = limit
  limited : ∀ value, limit = some value → c.budget.started ≤ value

/-- Between rounds, all that was evaluated is in the store. -/
structure HeldOnce (start : InMemoryCacheStore State) (limit : Option ℕ)
    (c : Core (InMemoryCacheStore State) State Obj) : Prop extends WorkedOnce start limit c where
  kept : ∀ key ∈ start.values, key ∈ c.cache.values
  held : ∀ key ∈ evaluatedKeys c.log, key ∈ c.cache.values

variable {start : InMemoryCacheStore State} {limit : Option ℕ}

omit [DecidableEq State] in
theorem WorkedOnce.idles (h : WorkedOnce start limit c) (hidle : Idles c t) : WorkedOnce start limit t := by
  obtain ⟨hevaluations, hbudget⟩ := hidle
  have hkeys : evaluatedKeys t.log = evaluatedKeys c.log := by
    rw [evaluatedKeys, hevaluations]
    rfl
  exact ⟨hkeys ▸ h.nodup, hkeys ▸ h.fresh, by rw [hevaluations, hbudget]; exact h.handed,
    by rw [hbudget]; exact h.reserved,
    by rw [hbudget]; exact h.limit_eq, by rw [hbudget]; exact h.limited⟩

omit [DecidableEq State] in
theorem Spends.keys {evals : List EvaluateCall} {work : ℕ} (h : Spends c t evals work) :
    evaluatedKeys t.log = evaluatedKeys c.log ++ evals.flatMap EvaluateCall.keys := by
  rw [evaluatedKeys, h.evaluations, List.flatMap_append]
  rfl

omit [DecidableEq State] in
theorem HeldOnce.spends {evals : List EvaluateCall} {work : ℕ} (h : HeldOnce start limit c)
    (hspends : Spends c t evals work) : WorkedOnce start limit t := by
  constructor
  · rw [hspends.keys]
    refine h.nodup.append hspends.nodup fun key hold hnew => ?_
    exact hspends.fresh key hnew (h.held key hold)
  · intro key hkey
    rw [hspends.keys, List.mem_append] at hkey
    obtain hold | hnew := hkey
    · exact h.fresh key hold
    · exact fun hstart => hspends.fresh key hnew (h.kept key hstart)
  · rw [hspends.evaluations, handedWork_append, hspends.budget]
    exact Nat.add_le_add h.handed hspends.handed
  · rw [hspends.budget]
    rfl
  · rw [hspends.budget]
    exact h.limit_eq
  · intro value hvalue
    rw [hspends.budget]
    exact hspends.limited value (h.limit_eq.trans hvalue)

omit [DecidableEq State] in
theorem OpenedRun.heldOnce {initialState : State} (h : OpenedRun job initialState deadlineNs c) :
    HeldOnce c.cache job.config.fixedWork c := by
  have hlog : c.log = [] := by rw [h.core]
  have hbudget : c.budget = .new job.config.fixedWork := by rw [h.core]
  refine ⟨⟨?_, ?_, ?_, ?_, ?_, ?_⟩, fun key hkey => hkey, ?_⟩
  · rw [hlog]
    exact List.nodup_nil
  · rw [hlog]
    rintro key ⟨⟩
  · rw [hlog]
    exact Nat.zero_le _
  · rw [hbudget]
    rfl
  · rw [hbudget]
    rfl
  · intro value hvalue
    rw [hbudget]
    exact Nat.zero_le _
  · rw [hlog]
    rintro key ⟨⟩

theorem RoundStart.heldOnce {first s : Session W (InMemoryCacheStore State) Cand State Obj}
    (hops : job.runtime.cacheOps = InMemoryCacheStore.ops onCommit) (hfirst : Between first.core)
    (hinit : HeldOnce first.cache job.config.fixedWork first.core) (hs : RoundStart job deadlineNs first roundId s) :
    HeldOnce first.cache job.config.fixedWork s.core := by
  refine hs.invariant (fun _ c => HeldOnce first.cache job.config.fixedWork c) hfirst hinit ?_
  intro roundId c t hbetween hc hround
  obtain ⟨evals, work, hspends, hkept, hnew⟩ := hround.spends hops hbetween.reserved
  refine ⟨hc.spends hspends, fun key hkey => hkept key (hc.kept key hkey), ?_⟩
  intro key hkey
  rw [hspends.keys, List.mem_append] at hkey
  exact hkey.elim (fun hold => hkept key (hc.held key hold)) (hnew key)

/-- However a run ends, and in every mode and schedule: no key was evaluated twice, none that the store held at
first, the work handed to the oracle was started in the ledger, nothing is reserved, and the limit is kept. -/
theorem evaluated_once {initialState : State} {world : W} {outcome : Except PyExc (RunResult State Obj)}
    {final : Session W (InMemoryCacheStore State) Cand State Obj}
    (hops : job.runtime.cacheOps = InMemoryCacheStore.ops onCommit)
    (hrun : run job initialState world = .ended outcome final) :
    ∃ start, Called job.runtime.cacheFactory (.ok start) ∧ (evaluatedKeys final.log).Nodup ∧
      (∀ key ∈ evaluatedKeys final.log, start.values.lookup key = none) ∧
      handedWork (evaluations final.log) ≤ final.budget.started ∧ final.budget.reserved = 0 ∧
      ∀ limit, job.config.fixedWork = some limit → final.budget.started ≤ limit := by
  obtain ⟨deadlineNs, first, -, roundId, s, -, hopened, hs, hlast⟩ := run_ended hrun
  have hheld := hs.heldOnce hops hopened.between hopened.heldOnce
  have hbetween := hs.between hopened.between
  have hfinal : WorkedOnce first.cache job.config.fixedWork final.core := by
    cases hlast with
    | limit _ hfinal _ => exact hheld.idles ⟨by rw [hfinal]; rfl, by rw [hfinal]; rfl⟩
    | round _ _ hend =>
        obtain hidle | ⟨evals, work, hspends⟩ := hend.spends hops hbetween.reserved
        · exact hheld.idles hidle
        · exact hheld.spends hspends
  refine ⟨first.cache, hopened.cache, hfinal.nodup, fun key hkey => ?_, hfinal.handed, hfinal.reserved, hfinal.limited⟩
  exact AList.lookup_eq_none.mpr (hfinal.fresh key hkey)

end

/-! ### Two rounds in ordered mode

The second round proposes 2 again, which the first one has evaluated, and 3.
-/

def orderedConfig (maxRounds : ℕ) (hrounds : 0 < maxRounds) : RunConfig where
  seed := 0
  workers := 2
  executionMode := .ordered
  fixedWork := some 3
  deadlineNs := none
  speculationWindow := 2
  tracePolicy := .semantic
  maxRounds
  workers_pos := Nat.two_pos
  serial_workers := by rintro ⟨⟩
  serial_window := by rintro ⟨⟩
  ordered_window := fun _ => Nat.two_pos
  one_limit := ⟨fun _ => rfl, fun _ => rfl⟩
  fixedWork_pos := by
    rintro _ ⟨⟩
    exact Nat.succ_pos 2
  maxRounds_pos := hrounds

/-- The workers finish the second candidate before the first. -/
def overlappingJob : Job Unit (InMemoryCacheStore Int) Int Int Int where
  runtime := IntegerDomain.runtime (InMemoryCacheStore.ops none) .new fun _ => [.enter 1, .leave 1]
  kernel := IntegerDomain.kernel [1, 2]
  oracle := IntegerDomain.oracle (fun _ => 1) pure
  config := orderedConfig 2 Nat.two_pos

theorem evaluated_once_overlapping : ∃ outcome final, run overlappingJob 0 () = .ended outcome final ∧
    (evaluatedKeys final.log).Nodup ∧ (evaluatedKeys final.log).length = 3 := by
  have hcounted : (run overlappingJob 0 ()).final.any
      (fun final => decide ((evaluatedKeys final.log).length = 3)) = true := by decide +kernel
  obtain ⟨outcome, final, hrun, hlength⟩ := RunEnd.exists_final hcounted
  obtain ⟨start, -, hnodup, -⟩ := evaluated_once rfl hrun
  exact ⟨outcome, final, hrun, hnodup, of_decide_eq_true hlength⟩

end TxnOpt
