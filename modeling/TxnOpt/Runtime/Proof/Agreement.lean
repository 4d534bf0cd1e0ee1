import TxnOpt.Lib.Steady
import TxnOpt.Runtime.Proof.CommittedPrefix

/-!
# Runs that search alike agree

Two runs with one kernel, one oracle, one seed and one initial state may differ in their execution mode, worker
count, window, schedule, work limit and deadline, in their callbacks and in the world around them. They go through
the same rounds, as far as both of them commit.
-/

namespace TxnOpt

open Prog

section

variable {W Cand State Obj : Type}

/-- What the methods return depends on their arguments only, and an evaluation is `value` of each candidate. They
may raise whenever they like. -/
structure SteadyClients (kernel : SearchKernel W Cand State) (oracle : Oracle W Cand State Obj)
    (value : Cand → State) : Prop where
  propose : ∀ state roundId words, Steady (kernel.propose state roundId words)
  decide : ∀ state admitted resolved roundId, Steady (kernel.decide state admitted resolved roundId)
  admissionLimit : ∀ limit, kernel.admissionLimit = some limit → Steady limit
  stableKey : ∀ candidate, Steady (oracle.stableKey candidate)
  workUnits : ∀ candidate, Steady (oracle.workUnits candidate)
  stateDigest : ∀ state, Steady (oracle.stateDigest state)
  screen : ∀ batch, Steady (oracle.screen batch)
  objective : ∀ state, Steady (oracle.objective state)
  evaluateBatch : ∀ batch workBudget deadlineNs w values,
    (oracle.evaluateBatch batch workBudget deadlineNs w).1 = .ok values → values.length = batch.length →
      values = batch.map value

variable {kernel : SearchKernel W Cand State} {oracle : Oracle W Cand State Obj} {value : Cand → State}

theorem Called.unique {α : Type} {call : Prog W PyExc α} {a b : α} (hcall : Steady call) (ha : Called call (.ok a))
    (hb : Called call (.ok b)) : a = b := by
  obtain ⟨w, w', ha⟩ := ha
  obtain ⟨v, v', hb⟩ := hb
  exact hcall w v a b (congrArg Prod.fst ha) (congrArg Prod.fst hb)

theorem steady_takeBatch (h : ∀ candidate, Steady (oracle.stableKey candidate)) (size : ℕ) :
    ∀ (candidates : List Cand) (seen : List String) (batch : List (String × Cand)),
      Steady (takeBatch oracle size candidates seen batch) := by
  intro candidates
  induction candidates with
  | nil =>
      intro seen batch
      exact steady_pure
  | cons candidate rest ih =>
      intro seen batch
      unfold takeBatch
      refine Steady.ite ((h candidate).bind fun key => ?_) steady_pure
      exact Steady.ite steady_raise (Steady.ite (ih _ _) (ih _ _))

theorem steady_screenBatch (h : ∀ batch, Steady (oracle.screen batch)) (batch : List Cand) :
    Steady (screenBatch oracle batch) := (h batch).bind fun _ => Steady.ite steady_pure steady_raise

theorem steady_admitLoop (hkey : ∀ candidate, Steady (oracle.stableKey candidate))
    (hscreen : ∀ batch, Steady (oracle.screen batch)) (limit : Option ℕ) :
    ∀ (passes : ℕ) (acc : Admitting Cand), Steady (admitLoop oracle limit passes acc) := by
  intro passes
  induction passes with
  | zero =>
      intro acc
      exact steady_pure
  | succ passes ih =>
      intro acc
      unfold admitLoop
      refine Steady.ite ((steady_takeBatch hkey _ _ _ _).bind fun taken => ?_) steady_pure
      exact Steady.ite (ih _) ((steady_screenBatch hscreen _).bind fun _ => ih _)

theorem SteadyClients.admitCandidates (h : SteadyClients kernel oracle value) (candidates : List Cand)
    (limit : Option ℕ) : Steady (admitCandidates oracle candidates limit) :=
  (steady_admitLoop h.stableKey h.screen limit _ _).bind fun _ => Steady.ite steady_raise steady_pure

theorem SteadyClients.checkedLimit (h : SteadyClients kernel oracle value) : Steady (TxnOpt.admissionLimit kernel) := by
  unfold TxnOpt.admissionLimit
  split
  · exact steady_pure
  · rename_i limit hlimit
    refine (h.admissionLimit limit hlimit).bind fun raw => ?_
    split
    · exact steady_pure
    · exact steady_raise

theorem SteadyClients.validatedWorkUnits (h : SteadyClients kernel oracle value) (candidate : Cand) :
    Steady (validatedWorkUnits oracle candidate) := by
  refine (h.workUnits candidate).bind fun work => ?_
  split
  · exact steady_pure
  · exact steady_raise

theorem SteadyClients.validatedStateDigest (h : SteadyClients kernel oracle value) (state : State) :
    Steady (validatedStateDigest oracle state) :=
  (h.stateDigest state).bind fun _ => Steady.ite steady_pure steady_raise

/-! ### What an evaluation gathers -/

variable {job : Job W (InMemoryCacheStore State) Cand State Obj} {deadlineNs : Option Int}

theorem SteadyClients.collected (h : SteadyClients kernel job.oracle value) {parts : List (List Cand)}
    {gathered : List (List State)}
    (hcollected : Prog.Collected (PartAnswer (Answers job deadlineNs fun _ => True)) parts (.ok gathered)) :
    gathered.flatten = parts.flatten.map value := by
  generalize hr : Except.ok gathered = r at hcollected
  induction hcollected generalizing gathered with
  | nil =>
      cases hr
      rfl
  | @cons part values parts rest hpart _ ih =>
      cases hr
      cases hpart with
      | values hanswered hlength =>
          obtain ⟨work, w, w', -, hcall⟩ := hanswered
          rw [List.flatten_cons, List.flatten_cons, List.map_append, ih rfl,
            h.evaluateBatch _ _ _ _ _ (congrArg Prod.fst hcall) hlength]
  | failed => cases hr
  | later => cases hr

theorem SteadyClients.gathered (h : SteadyClients kernel job.oracle value) {candidates : List Cand}
    {evaluated : List State} (hgathered : Gathered (Answers job deadlineNs fun _ => True) candidates (.ok evaluated))
    (hlength : evaluated.length = candidates.length) : evaluated = candidates.map value := by
  generalize hr : Except.ok evaluated = r at hgathered
  cases hgathered with
  | whole hanswered =>
      cases hr
      obtain ⟨work, w, w', -, hcall⟩ := hanswered
      exact h.evaluateBatch _ _ _ _ _ (congrArg Prod.fst hcall) hlength
  | @parts parts outcome hparts hcollected =>
      cases outcome with
      | error error => cases hr
      | ok gathered =>
          cases hr
          rw [← hparts]
          exact h.collected hcollected

/-! ### One round -/

theorem SteadyClients.staged (h : SteadyClients kernel job.oracle value) {prepared : Prepared Cand State}
    {staged : PyDict State} (hstaged : Staged job deadlineNs prepared staged) :
    staged = stagedOf prepared.missing (prepared.missing.map fun item => value item.2.2) := by
  obtain ⟨hnone, rfl⟩ | ⟨evaluated, hgathered, hlength, rfl⟩ := hstaged
  · rw [hnone]
    rfl
  · rw [h.gathered hgathered (by rw [hlength, List.length_map]), List.map_map]
    rfl

/-- Equal but for the log, the cache transaction and the work limit. -/
structure Agree (c c' : Core (InMemoryCacheStore State) State Obj) : Prop where
  cache : c'.cache = c.cache
  state : c'.state = c.state
  stateDigest : c'.stateDigest = c.stateDigest
  objective : c'.objective = c.objective
  randomTape : c'.randomTape = c.randomTape
  started : c'.budget.started = c.budget.started
  semanticEvents : c'.semanticEvents = c.semanticEvents

variable [DecidableEq State] {job' : Job W (InMemoryCacheStore State) Cand State Obj} {deadlineNs' : Option Int}
  {onCommit onCommit' : Option (PyDict State → Prog W PyExc Unit)} {roundId : ℕ}
  {c c' t t' opened opened' : Core (InMemoryCacheStore State) State Obj} {txn txn' : CandidateTxn}
  {admission admission' : Admission Cand} {prepared prepared' : Prepared Cand State}
  {looked looked' : InMemoryCacheStore State × CacheTxn State}

omit [DecidableEq State] in
theorem OpensTxn.unique {digest : String} {keys : List String} (h : OpensTxn roundId digest keys txn)
    (h' : OpensTxn roundId digest keys txn') : txn' = txn := by
  obtain ⟨hid, hdigest, hkeys, hphase⟩ := h
  obtain ⟨hid', hdigest', hkeys', hphase'⟩ := h'
  cases txn
  cases txn'
  simp_all

omit [DecidableEq State] in
/-- The two runs open the same transaction. -/
theorem Opened.agree (hclients : SteadyClients job.kernel job.oracle value) (hkernel : job'.kernel = job.kernel)
    (horacle : job'.oracle = job.oracle) (hc : Agree c c') (h : Opened job roundId c opened txn admission)
    (h' : Opened job' roundId c' opened' txn' admission') :
    admission' = admission ∧ txn' = txn ∧ Agree opened opened' := by
  obtain ⟨candidates, limit, hproposed, rfl⟩ := h.proposed
  obtain ⟨candidates', limit', hproposed', rfl⟩ := h'.proposed
  have hproposal := hproposed'.proposal
  have hlimit := hproposed'.checkedLimit
  have hadmitted := hproposed'.admitted
  rw [hkernel, hc.state, hc.randomTape] at hproposal
  rw [hkernel] at hlimit
  rw [horacle] at hadmitted
  obtain rfl := hproposed.proposal.unique (hclients.propose _ _ _) hproposal
  obtain rfl := hproposed.checkedLimit.unique hclients.checkedLimit hlimit
  obtain rfl := hproposed.admitted.unique (hclients.admitCandidates _ _) hadmitted
  have hopens := h'.opensTxn
  rw [hc.stateDigest] at hopens
  obtain rfl := h.opensTxn.unique hopens
  refine ⟨rfl, rfl, ?_⟩
  obtain ⟨tape, htape, hdrawn⟩ := c.drawn_eq
  obtain ⟨tape', htape', hdrawn'⟩ := c'.drawn_eq
  rw [hc.randomTape, ← htape] at htape'
  rw [hdrawn, hdrawn']
  exact ⟨hc.cache, hc.state, hc.stateDigest, hc.objective, htape', hc.started,
    congrArg (· ++ [_, _]) hc.semanticEvents⟩

omit [DecidableEq State] in
/-- The two runs find the same misses, with the same work. -/
theorem Reserved.agree (hclients : SteadyClients job.kernel job.oracle value) (horacle : job'.oracle = job.oracle)
    (hops : job.runtime.cacheOps = InMemoryCacheStore.ops onCommit)
    (hops' : job'.runtime.cacheOps = InMemoryCacheStore.ops onCommit') (hcache : opened'.cache = opened.cache)
    (h : Reserved job admission opened prepared looked) (h' : Reserved job' admission opened' prepared' looked') :
    prepared'.admitted = prepared.admitted ∧ prepared'.values = prepared.values ∧
      prepared'.missing = prepared.missing ∧ prepared'.missingWork = prepared.missingWork := by
  have hvalues : prepared'.values = prepared.values := by
    rw [(h.lookedUp_private hops).2, (h'.lookedUp_private hops').2, hcache]
  have hmissing : prepared'.missing = prepared.missing := by
    have hmisses := h'.missing
    rw [hvalues, h.missing] at hmisses
    exact (Except.ok.inj hmisses).symm
  have hwork := h'.missingWork
  rw [hmissing, horacle] at hwork
  exact ⟨h'.admitted.trans h.admitted.symm, hvalues, hmissing,
    (h.missingWork.unique (steady_collect (fun item : ℕ × String × Cand => hclients.validatedWorkUnits item.2.2) _)
      hwork).symm⟩

omit [DecidableEq State] in
/-- The two runs decide alike. -/
theorem Decided.agree {staged : PyDict State} {decision decision' : Decision State Obj}
    (hclients : SteadyClients job.kernel job.oracle value) (hkernel : job'.kernel = job.kernel)
    (horacle : job'.oracle = job.oracle) (hc : Agree opened opened')
    (hadmitted : prepared'.admitted = prepared.admitted) (hvalues : prepared'.values = prepared.values)
    (hmissing : prepared'.missing = prepared.missing) (h : Decided job roundId opened prepared staged decision)
    (h' : Decided job' roundId opened' prepared' staged decision') : decision' = decision := by
  obtain ⟨resolved, hresolved, -, hdecide, -⟩ := h.resolved
  obtain ⟨resolved', hresolved', -, hdecide', -⟩ := h'.resolved
  rw [hvalues, hmissing, hresolved] at hresolved'
  obtain rfl := List.map_injective_iff.mpr (Option.some_injective State) hresolved'
  have hdigest' := h'.digest
  have hobjective' := h'.objective
  rw [hkernel, hc.state, hadmitted] at hdecide'
  rw [horacle] at hdigest' hobjective'
  have hstate : decision'.nextState = decision.nextState := (hdecide.unique (hclients.decide _ _ _ _) hdecide').symm
  rw [hstate] at hdigest' hobjective'
  have hdigest := h.digest.unique (hclients.validatedStateDigest _) hdigest'
  have hobjective := h.objective.unique (hclients.objective _) hobjective'
  cases decision
  cases decision'
  simp_all

theorem Confirmed.expected_private {staged : PyDict State}
    {stagedStore committed store : InMemoryCacheStore State × CacheTxn State} {snapshot : ℕ × PyDict State}
    (hops : job.runtime.cacheOps = InMemoryCacheStore.ops onCommit)
    (h : Confirmed job staged looked stagedStore committed store snapshot) :
    committed.2.expectedGeneration = looked.2.expectedGeneration := by
  have hprivate : PrivateStore job.runtime.cacheOps InMemoryCacheStore.generation :=
    hops ▸ InMemoryCacheStore.privateStore onCommit
  obtain ⟨receipt, hcommit⟩ := h.commit
  exact (hprivate.commits _ _ _ hcommit).trans (hprivate.stages _ _ _ h.stage)

/-- The two runs agree after a round that both of them committed. -/
theorem CommittedRound.agree (hclients : SteadyClients job.kernel job.oracle value)
    (hkernel : job'.kernel = job.kernel) (horacle : job'.oracle = job.oracle)
    (hops : job.runtime.cacheOps = InMemoryCacheStore.ops onCommit)
    (hops' : job'.runtime.cacheOps = InMemoryCacheStore.ops onCommit') (hc : Agree c c')
    (h : CommittedRound job deadlineNs roundId c t) (h' : CommittedRound job' deadlineNs' roundId c' t') :
    Agree t t' := by
  obtain @⟨opened, txn, admission, prepared, trail, decision, staged, committed, store, hopened, hpublished, -,
    rfl⟩ := h
  obtain @⟨opened', txn', admission', prepared', trail', decision', staged', committed', store', hopened', hpublished',
    -, rfl⟩ := h'
  obtain ⟨looked, stagedStore, snapshot, closed, evals, hprepared, hconfirmed, rfl⟩ := hpublished.round
  obtain ⟨looked', stagedStore', snapshot', closed', evals', hprepared', hconfirmed', rfl⟩ := hpublished'.round
  obtain ⟨rfl, rfl, hsame⟩ := hopened.agree hclients hkernel horacle hc hopened'
  obtain ⟨hadmitted, hvalues, hmissing, hwork⟩ := hprepared.agree hclients horacle hops hops' hsame.cache hprepared'
  have hstaged : staged' = staged := by
    have hclients' : SteadyClients job.kernel job'.oracle value := horacle ▸ hclients
    rw [hclients.staged hpublished.gathered, hclients'.staged hpublished'.gathered, hmissing]
  subst hstaged
  obtain rfl := hpublished.decided.agree hclients hkernel horacle hsame hadmitted hvalues hmissing hpublished'.decided
  have hlooked : looked' = looked := by
    rw [(hprepared.lookedUp_private hops).1, (hprepared'.lookedUp_private hops').1, hsame.cache]
  subst hlooked
  have hstore : store'.1 = store.1 := (hconfirmed'.store_private hops').trans (hconfirmed.store_private hops).symm
  have hreceipt : confirmedReceipt committed' staged' = confirmedReceipt committed staged' := by
    unfold confirmedReceipt
    rw [hconfirmed.expected_private hops, hconfirmed'.expected_private hops']
  have hstarted : opened'.budget.started + prepared'.missingWork.sum =
      opened.budget.started + prepared.missingWork.sum := by
    rw [hsame.started, hwork]
  refine ⟨hstore, rfl, rfl, rfl, hsame.randomTape, hstarted, ?_⟩
  unfold Core.committed Core.advanced Core.installed Core.along
  dsimp only
  rw [hsame.semanticEvents, hreceipt, hstarted]
  rfl

/-! ### Runs -/

/-- Two jobs that search alike: they may differ in how and how long they run. -/
structure SameSearch (job job' : Job W (InMemoryCacheStore State) Cand State Obj) : Prop where
  kernel : job'.kernel = job.kernel
  oracle : job'.oracle = job.oracle
  seed : job'.config.seed = job.config.seed
  store : ∃ onCommit, job.runtime.cacheOps = InMemoryCacheStore.ops onCommit
  store' : ∃ onCommit, job'.runtime.cacheOps = InMemoryCacheStore.ops onCommit
  cache : ∀ cache cache', Called job.runtime.cacheFactory (.ok cache) → Called job'.runtime.cacheFactory (.ok cache') →
    cache' = cache

variable {first first' s s' : Session W (InMemoryCacheStore State) Cand State Obj} {initialState : State}

omit [DecidableEq State] in
theorem OpenedRun.agree (hclients : SteadyClients job.kernel job.oracle value) (hsame : SameSearch job job')
    (h : OpenedRun job initialState deadlineNs c) (h' : OpenedRun job' initialState deadlineNs' c') : Agree c c' := by
  have hdigest' := h'.digest
  have hobjective' := h'.objective
  rw [hsame.oracle] at hdigest' hobjective'
  have hdigest := h.digest.unique (hclients.validatedStateDigest _) hdigest'
  have hobjective := h.objective.unique (hclients.objective _) hobjective'
  have hcache := hsame.cache _ _ h.cache h'.cache
  have hcore := h.core
  have hcore' := h'.core
  rw [hcache, ← hdigest, ← hobjective, hsame.seed] at hcore'
  rw [hcore, hcore']
  exact ⟨rfl, rfl, rfl, rfl, rfl, rfl, rfl⟩

theorem RoundStart.agree (hclients : SteadyClients job.kernel job.oracle value) (hsame : SameSearch job job')
    (hfirst : OpenedRun job initialState deadlineNs first.core)
    (hfirst' : OpenedRun job' initialState deadlineNs' first'.core) (h : RoundStart job deadlineNs first roundId s)
    (h' : RoundStart job' deadlineNs' first' roundId s') : Agree s.core s'.core := by
  obtain ⟨onCommit, hops⟩ := hsame.store
  obtain ⟨onCommit', hops'⟩ := hsame.store'
  induction h generalizing s' with
  | first =>
      cases h'
      exact hfirst.agree hclients hsame hfirst'
  | next hs hround ih =>
      cases h' with
      | next hs' hround' =>
          exact (runRound_next (hs.between hfirst.between) hround).agree hclients hsame.kernel hsame.oracle hops hops'
            (ih hs') (runRound_next (hs'.between hfirst'.between) hround')

/-- Earlier rounds of a run, as long as it goes on. -/
theorem RoundStart.earlier (h : RoundStart job deadlineNs first roundId s) :
    ∀ {earlier : ℕ}, earlier ≤ roundId → ∃ t, RoundStart job deadlineNs first earlier t := by
  induction h with
  | first =>
      intro earlier hle
      obtain rfl := Nat.le_zero.mp hle
      exact ⟨_, .first⟩
  | @next last t u ht hround ih =>
      intro earlier hle
      obtain hlt | rfl := Nat.lt_or_eq_of_le hle
      · exact ih (Nat.le_of_lt_succ hlt)
      · exact ⟨u, ht.next hround⟩

theorem RoundStart.publications_prefix (hfirst : Between first.core) {earlier : ℕ}
    {t : Session W (InMemoryCacheStore State) Cand State Obj} (hs : RoundStart job deadlineNs first roundId s) :
    RoundStart job deadlineNs first earlier t → earlier ≤ roundId →
      publications t.semanticEvents <+: publications s.semanticEvents := by
  induction hs with
  | first =>
      intro ht hle
      obtain rfl := Nat.le_zero.mp hle
      cases ht
      exact List.prefix_rfl
  | @next last u v hu hround ih =>
      intro ht hle
      obtain hlt | rfl := Nat.lt_or_eq_of_le hle
      · obtain ⟨publication, hadded, -⟩ := (runRound_next (hu.between hfirst) hround).publications
        exact (ih ht (Nat.le_of_lt_succ hlt)).trans ⟨[publication], hadded.symm⟩
      · rw [ht.unique (hu.next hround)]

omit [DecidableEq State] in
theorem Agree.visible (h : Agree c c') : c'.visible = c.visible := by
  unfold Core.visible
  rw [h.cache, h.state, h.stateDigest, h.objective, h.semanticEvents]

end

/-! ### A serial run and an ordered run whose second commit is refused -/

theorem IntegerDomain.steadyClients (offsets : List Int) :
    SteadyClients (W := ℕ) (IntegerDomain.kernel offsets) (IntegerDomain.oracle (fun _ => 1) pure) id where
  propose := fun _ _ _ => steady_pure
  decide := fun _ _ _ _ => steady_pure
  admissionLimit := by rintro limit ⟨⟩
  stableKey := fun _ => steady_pure
  workUnits := fun _ => steady_pure
  stateDigest := fun _ => steady_pure
  screen := fun _ => steady_pure
  objective := fun _ => steady_pure
  evaluateBatch := by
    intro batch workBudget deadlineNs w values hcall _
    cases hcall
    exact (List.map_id batch).symm

/-- Both work in rounds of two candidates; `refused` is the number of the commit whose callback raises. -/
def countingJob (config : RunConfig) (refused : ℕ) : Job ℕ (InMemoryCacheStore Int) Int Int Int where
  runtime := IntegerDomain.runtime
    (InMemoryCacheStore.ops (some fun _ commits =>
      if commits = refused then (.error (.valueError "disk full"), commits) else (.ok (), commits + 1)))
    .new fun _ => [.enter 1, .leave 1]
  kernel := IntegerDomain.kernel [1, 2]
  oracle := IntegerDomain.oracle (fun _ => 1) pure
  config

end TxnOpt
