import TxnOpt.Runtime.Proof.Pool
import Mathlib.Data.List.Flatten
import Mathlib.Algebra.Group.Nat.Defs

/-!
# What an evaluation gives

The three evaluators cut the misses of a round into parts in different ways, but an evaluation always
ends with the values of all parts in order or with the exception of the first part that failed, and
`Evaluated` bounds what it did to the ledger.
-/

namespace TxnOpt

/-! ### Chunks -/

section Chunks

variable {α : Type}

theorem slice_map {β : Type} (f : α → β) (items : List α) (chunk : Nat × Nat) :
    (slice items chunk).map f = slice (items.map f) chunk := by
  simp [slice, List.map_take, List.map_drop]

/-- The items that `left` chunks cover, when the first `remainder` of all chunks are one longer. -/
def chunkSpan (quotient remainder index left : Nat) : Nat :=
  left * quotient + (min remainder (index + left) - min remainder index)

theorem chunkSpan_succ (quotient remainder index left : Nat) :
    chunkSpan quotient remainder index (left + 1) =
      (quotient + if index < remainder then 1 else 0) +
        chunkSpan quotient remainder (index + 1) left := by
  unfold chunkSpan
  rw [Nat.add_mul, Nat.one_mul]
  split <;> omega

theorem chunks_flatten (quotient remainder : Nat) (items : List α) :
    ∀ left index offset,
      ((contiguousChunks.loop quotient remainder index offset left).map (slice items)).flatten =
        (items.drop offset).take (chunkSpan quotient remainder index left) := by
  intro left
  induction left with
  | zero =>
      intro index offset
      simp [contiguousChunks.loop, chunkSpan]
  | succ left ih =>
      intro index offset
      rw [contiguousChunks.loop, List.map_cons, List.flatten_cons, ih, chunkSpan_succ, List.take_add,
        List.drop_drop]
      simp [slice]

theorem mem_chunks (quotient remainder : Nat) :
    ∀ {left index offset chunk},
      chunk ∈ contiguousChunks.loop quotient remainder index offset left →
        chunk.1 ≤ chunk.2 ∧ chunk.2 ≤ offset + chunkSpan quotient remainder index left := by
  intro left
  induction left with
  | zero =>
      intro index offset chunk h
      simp [contiguousChunks.loop] at h
  | succ left ih =>
      intro index offset chunk h
      rw [contiguousChunks.loop, List.mem_cons] at h
      rw [chunkSpan_succ]
      rcases h with rfl | h
      · exact ⟨by simp, by simp⟩
      · have hrest := ih h
        exact ⟨hrest.1, by omega⟩

theorem chunkSpan_contiguousChunks {count workers : Nat} (hcount : 0 < count)
    (hworkers : 0 < workers) :
    chunkSpan (count / min workers count) (count % min workers count) 0 (min workers count) =
      count := by
  have hlt : count % min workers count < min workers count := Nat.mod_lt _ (by omega)
  have hdiv := Nat.div_add_mod count (min workers count)
  simp only [chunkSpan, Nat.zero_add, Nat.min_zero, Nat.sub_zero, Nat.min_eq_left hlt.le]
  exact hdiv

/-- The chunks of a list are the list, cut in order. -/
theorem contiguousChunks_flatten {items : List α} {count workers : Nat} (hcount : 0 < count)
    (hworkers : 0 < workers) (hitems : items.length = count) :
    ((contiguousChunks count workers).map (slice items)).flatten = items := by
  unfold contiguousChunks
  rw [chunks_flatten, chunkSpan_contiguousChunks hcount hworkers, List.drop_zero,
    List.take_of_length_le hitems.le]

theorem slice_length_of_mem {items : List α} {count workers : Nat} {chunk : Nat × Nat}
    (hcount : 0 < count) (hworkers : 0 < workers) (hitems : items.length = count)
    (h : chunk ∈ contiguousChunks count workers) :
    (slice items chunk).length = chunk.2 - chunk.1 := by
  have hbounds := mem_chunks _ _ h
  rw [chunkSpan_contiguousChunks hcount hworkers] at hbounds
  simp only [slice, List.length_take, List.length_drop]
  omega

end Chunks

section

variable {W C Cand State Obj : Type}

/-- What the parallel evaluators make of the oracle's answer for one part. -/
inductive PartAnswer (answered : List Cand → Except PyExc (List State) → Prop) (part : List Cand) :
    Except PyExc (List State) → Prop
  | values {values} : answered part (.ok values) → values.length = part.length →
      PartAnswer answered part (.ok values)
  | misshapen {values message} : answered part (.ok values) → values.length ≠ part.length →
      PartAnswer answered part (.error (.contractError message))
  | failed {error} : answered part (.error error) → PartAnswer answered part (.error error)

/-- How the evaluation of `candidates` may end: the answer for all of them at once, or the answers for
consecutive parts, put together. -/
inductive Gathered (answered : List Cand → Except PyExc (List State) → Prop)
    (candidates : List Cand) : Except PyExc (List State) → Prop
  | whole {outcome} : answered candidates outcome → Gathered answered candidates outcome
  | parts {parts outcome} : parts.flatten = candidates →
      Prog.Collected (PartAnswer answered) parts outcome →
      Gathered answered candidates (outcome.map List.flatten)

theorem Gathered.of_collected {answered : List Cand → Except PyExc (List State) → Prop}
    {candidates : List Cand} {parts : List (List Cand)} {outcome : Except PyExc (List (List State))}
    {r : Except PyExc (List State)} (hparts : parts.flatten = candidates)
    (hcollected : Prog.Collected (PartAnswer answered) parts outcome)
    (hr : r = outcome.map List.flatten) : Gathered answered candidates r :=
  hr ▸ .parts hparts hcollected

/-- The outcome of an evaluation, without the live work it found. -/
def evaluationOutcome (result : Except EvaluationAbort (List State)) :
    Except PyExc (List State) :=
  result.mapError EvaluationAbort.cause

/-- What the oracle may answer for some candidates, whatever their work. -/
def Answers (job : Job W C Cand State Obj) (deadlineNs : Option Int) (I : W → Prop)
    (candidates : List Cand) (outcome : Except PyExc (List State)) : Prop :=
  ∃ work, Answered job deadlineNs I candidates work outcome

/-- What an evaluation of `entries` does, from the ledger `before`. -/
structure Evaluated (job : Job W C Cand State Obj) (deadlineNs : Option Int) (I : W → Prop)
    (entries : List (String × Cand)) (workUnits : List Nat) (before : BudgetLedger)
    (calls : List EvaluateCall) (result : Except EvaluationAbort (List State))
    (after : BudgetLedger) : Prop where
  keys : (calls.flatMap EvaluateCall.keys).Subperm (entries.map Prod.fst)
  ledgers : ∀ call ∈ calls, ∃ work, work ≤ workUnits.sum ∧ ∃ released,
    call.ledger = before.after released work
  covered : ∀ first call rest, calls = first ++ call :: rest →
    (∀ earlier ∈ first ++ [call], earlier.counted = true) →
    before.started + handedWork (first ++ [call]) ≤ call.ledger.started
  handed : before.started + handedWork calls ≤ after.started
  gathered : Gathered (Answers job deadlineNs I) (entries.map Prod.snd)
      (evaluationOutcome result)
  values : ∀ values, result = .ok values → after = before.moved workUnits.sum
  abort : ∀ abort, result = .error abort →
    (∃ work, work ≤ workUnits.sum ∧ after = (before.moved work).releaseReserved) ∧
      abort.postBoundaryWorkUnits ≤ abort.postBoundaryCapacityUnits ∧
      abort.postBoundaryWorkUnits ≤ workUnits.sum

/-- The session after an evaluation from `s`. -/
def EvaluatedTo (job : Job W C Cand State Obj) (deadlineNs : Option Int) (I : W → Prop)
    (entries : List (String × Cand)) (workUnits : List Nat) (s : Session W C Cand State Obj)
    (result : Except EvaluationAbort (List State)) (t : Session W C Cand State Obj) : Prop :=
  I t.world ∧ ∃ calls, Evaluated job deadlineNs I entries workUnits s.budget calls result t.budget ∧
    t.core = (s.core.withBudget t.budget).logged (calls.map .evaluate)

variable {job : Job W C Cand State Obj} {deadlineNs : Option Int} {I : W → Prop}
  {entries : List (String × Cand)} {workUnits : List Nat}

theorem startWork_apply {s : Session W C Cand State Obj} {work : Nat}
    (h : work ≤ s.budget.reserved) :
    startWork work s = (.ok (), { s with budget := s.budget.moved work }) := by
  simp only [startWork, BudgetLedger.start_eq_ok _ h, BudgetLedger.moved]

theorem evaluateSerial_apply {s : Session W C Cand State Obj} {w' : W}
    {outcome : Except PyExc (List State)} (hfits : workUnits.sum ≤ s.budget.reserved)
    (horacle : job.oracle.evaluateBatch (entries.map Prod.snd) workUnits.sum deadlineNs s.world =
      (outcome, w')) :
    evaluateSerial job deadlineNs entries workUnits s =
      (.ok (outcome.mapError fun cause => ⟨cause, 0, 0⟩),
        { s with
          world := w'
          log := s.log ++ [.evaluate
            ⟨entries.map Prod.fst, workUnits.sum, s.budget.moved workUnits.sum, true⟩]
          budget := s.budget.after outcome.isOk.not workUnits.sum }) := by
  unfold evaluateSerial
  rw [Prog.bind_apply_ok (startWork_apply hfits), Prog.bind_apply_ok (Prog.read_apply _ _)]
  unfold observe
  rw [Prog.bind_apply_ok (Prog.modify_apply _ _), Prog.bind_apply_ok (Prog.attempt_apply _ _)]
  simp only [onWorld, Prog.zoom_apply, horacle]
  cases outcome <;> rfl

theorem evaluateSerial_spec {s : Session W C Cand State Obj}
    (hI : OracleKeeps job deadlineNs I)
    (hworld : I s.world) (hfits : workUnits.sum ≤ s.budget.reserved) :
    Prog.wp (evaluateSerial job deadlineNs entries workUnits)
      (fun r t => ∃ result, r = .ok result ∧
        EvaluatedTo job deadlineNs I entries workUnits s result t) s := by
  rcases horacle : job.oracle.evaluateBatch (entries.map Prod.snd) workUnits.sum deadlineNs s.world
    with ⟨outcome, w'⟩
  have hw' : I w' := by simpa [horacle] using hI (entries.map Prod.snd) workUnits.sum s.world hworld
  refine Prog.wp_of_eq (evaluateSerial_apply hfits horacle) ⟨_, rfl, hw',
    [⟨entries.map Prod.fst, workUnits.sum, s.budget.moved workUnits.sum, true⟩],
    ⟨?_, ?_, ?_, ?_, ?_, ?_, ?_⟩, rfl⟩
  · simpa using List.Subperm.refl _
  · intro call hcall
    rw [List.mem_singleton] at hcall
    exact ⟨workUnits.sum, le_rfl, false, by rw [hcall]; rfl⟩
  · intro first call rest hsplit _
    obtain ⟨rfl, rfl, rfl⟩ : first = [] ∧ _ = call ∧ rest = [] := by
      rcases first with _ | ⟨first, more⟩
      · simpa using hsplit
      · simp at hsplit
    simp [handedWork]
  · simp [handedWork]
  · have hanswered : Answered job deadlineNs I (entries.map Prod.snd) workUnits.sum outcome :=
      ⟨s.world, w', hworld, horacle⟩
    have houtcome : evaluationOutcome (outcome.mapError fun cause => ⟨cause, 0, 0⟩) = outcome := by
      cases outcome <;> rfl
    rw [houtcome]
    exact .whole ⟨_, hanswered⟩
  · intro values hvalues
    cases outcome with
    | ok _ => rfl
    | error _ => cases hvalues
  · intro abort habort
    cases outcome with
    | ok _ => cases habort
    | error cause =>
        cases habort
        exact ⟨⟨workUnits.sum, le_rfl, rfl⟩, le_rfl, Nat.zero_le _⟩

/-! ### The parallel evaluators -/

variable {s₀ : Session W C Cand State Obj} {plan : List (Planned Cand)} {released : Bool}

/-- Every key is handed over at most once, since the futures are a part of the plan. -/
theorem PoolState.keys_subperm {t : Session W C Cand State Obj} {calls : List EvaluateCall}
    (h : PoolState job deadlineNs I s₀ plan released calls t)
    (hentries : (plan.map Prod.fst).flatten = entries) :
    (calls.flatMap EvaluateCall.keys).Subperm (entries.map Prod.fst) := by
  have hperm : (calls.flatMap EvaluateCall.keys).Perm
      ((t.executor.futures.filter Future.entered).flatMap Future.keys) := by
    have hmap := (h.handedOver.map Prod.fst).flatten
    simpa [List.map_map, Function.comp_def, EvaluateCall.charge, Future.charge,
      List.flatMap_def] using hmap
  have hentered : ((t.executor.futures.filter Future.entered).flatMap Future.keys).Sublist
      (t.executor.futures.flatMap Future.keys) :=
    List.filter_sublist.flatMap _
  have hplanned : t.executor.futures.flatMap Future.keys =
      (plan.take t.executor.futures.length).flatMap fun item => item.1.map Prod.fst := by
    have hmap := congrArg (fun items => (items.map Prod.fst).flatten) h.planned
    simpa [List.map_map, Function.comp_def, Planned.frame, List.flatMap_def] using hmap
  have htaken : ((plan.take t.executor.futures.length).flatMap fun item =>
      item.1.map Prod.fst).Sublist (plan.flatMap fun item => item.1.map Prod.fst) :=
    (List.take_sublist _ _).flatMap _
  have hall : (plan.flatMap fun item => item.1.map Prod.fst) = entries.map Prod.fst := by
    rw [← hentries, List.map_flatten, List.map_map]
    rfl
  rw [← hall]
  exact hperm.subperm.trans (hentered.trans (hplanned ▸ htaken)).subperm

theorem PoolState.evaluated {t : Session W C Cand State Obj} {calls : List EvaluateCall}
    {result : Except EvaluationAbort (List State)}
    (h : PoolState job deadlineNs I s₀ plan released calls t) (hcounted : AllCounted t)
    (hentries : (plan.map Prod.fst).flatten = entries)
    (hwork : (plan.map Prod.snd).sum = workUnits.sum)
    (hgathered : Gathered (Answers job deadlineNs I) (entries.map Prod.snd)
        (evaluationOutcome result))
    (hvalues : ∀ values, result = .ok values →
      released = false ∧ t.executor.futures.length = plan.length)
    (habort : ∀ abort, result = .error abort → released = true ∧
      abort.postBoundaryWorkUnits ≤ abort.postBoundaryCapacityUnits ∧
      abort.postBoundaryWorkUnits ≤ workUnits.sum) :
    EvaluatedTo job deadlineNs I entries workUnits s₀ result t := by
  have hbudget : t.budget = s₀.budget.after released (countedWork t.executor.futures) :=
    congrArg Core.budget h.core
  have hplanned := h.countedWork_eq hcounted
  have hle : countedWork t.executor.futures ≤ workUnits.sum := by
    rw [hplanned, ← hwork]
    exact plannedWork_le plan _
  refine ⟨h.world, calls, ⟨h.keys_subperm hentries, ?_, h.covered, ?_, hgathered, ?_, ?_⟩, ?_⟩
  · intro call hcall
    obtain ⟨work, hlework, hledger⟩ := h.ledgers call hcall
    exact ⟨work, hlework.trans hle, hledger⟩
  · have hhanded := handedWork_le_countedWork h.handedOver fun f hf _ => hcounted f hf
    rw [hbudget, BudgetLedger.after_started]
    omega
  · intro values hok
    obtain ⟨rfl, hlength⟩ := hvalues values hok
    rw [hbudget, hplanned, hlength, ← hwork, BudgetLedger.after_false, plannedWork,
      List.take_length]
  · intro abort herror
    obtain ⟨rfl, hpost⟩ := habort abort herror
    exact ⟨⟨_, hle, hbudget⟩, hpost⟩
  · rw [hbudget]
    exact h.core

/-! ### The barrier evaluator -/

/-- The plan of the barrier evaluator: one part for each chunk. -/
def chunkPlan (entries : List (String × Cand)) (workUnits : List Nat) (chunks : List (Nat × Nat)) :
    List (Planned Cand) :=
  chunks.map fun chunk => (slice entries chunk, (slice workUnits chunk).sum)

theorem submitChunk_spec {s : Session W C Cand State Obj} {chunk : Nat × Nat}
    (hI : OracleKeeps job deadlineNs I)
    (hfits : Fits s₀ plan) (h : Ready job deadlineNs I s₀ plan s)
    (hitem : plan[s.executor.futures.length]? =
      some (slice entries chunk, (slice workUnits chunk).sum)) :
    Prog.wp (submitChunk job deadlineNs entries workUnits chunk)
      (fun r t => r = .ok () ∧ Ready job deadlineNs I s₀ plan t ∧
        t.executor.futures.length = s.executor.futures.length + 1) s := by
  unfold submitChunk submit modifyExecutor
  rw [Prog.wp_modify_bind]
  refine Prog.wp_mono (startNext_spec hI hfits h hitem rfl) ?_
  rintro r t ⟨hr, hready, hlength, -⟩
  exact ⟨hr, hready, hlength⟩

theorem submitChunks_spec {s : Session W C Cand State Obj} {chunks : List (Nat × Nat)}
    (hI : OracleKeeps job deadlineNs I)
    (hfits : Fits s₀ (chunkPlan entries workUnits chunks))
    (h : Ready job deadlineNs I s₀ (chunkPlan entries workUnits chunks) s)
    (hempty : s.executor.futures = []) :
    Prog.wp (Prog.forEach (submitChunk job deadlineNs entries workUnits) chunks)
      (fun r t => r = .ok () ∧ Ready job deadlineNs I s₀ (chunkPlan entries workUnits chunks) t ∧
        t.executor.futures.length = chunks.length) s := by
  refine Prog.wp_forEach
    (fun rest t => Ready job deadlineNs I s₀ (chunkPlan entries workUnits chunks) t ∧
      ∃ done, chunks = done ++ rest ∧ t.executor.futures.length = done.length) ?_ ?_ _ _
      ⟨h, [], rfl, by simp [hempty]⟩
  · rintro chunk rest t ⟨hready, done, hsplit, hlength⟩
    have hitem : (chunkPlan entries workUnits chunks)[t.executor.futures.length]? =
        some (slice entries chunk, (slice workUnits chunk).sum) := by
      simp [chunkPlan, hsplit, hlength]
    refine Prog.wp_mono (submitChunk_spec hI hfits hready hitem) ?_
    rintro r u ⟨rfl, hready', hlength'⟩
    exact ⟨hready', done ++ [chunk], by simp [hsplit], by simp [hlength', hlength]⟩
  · rintro t ⟨hready, done, hsplit, hlength⟩
    exact ⟨rfl, hready, by simp [hsplit, hlength]⟩

/-- The answer that `PartAnswer` makes of a part that was awaited and shape-checked. -/
theorem gatherChunk_spec {s : Session W C Cand State Obj} {chunk : Nat × Nat} {index : Nat}
    {part : List (String × Cand)} {work : Nat}
    (hI : OracleKeeps job deadlineNs I)
    (h : Ready job deadlineNs I s₀ plan s) (hlt : index < s.executor.futures.length)
    (hitem : plan[index]? = some (part, work)) (hpart : part.length = chunk.2 - chunk.1) :
    Prog.wp (gatherChunk job deadlineNs (chunk, index))
      (fun r t => PartAnswer (Answers job deadlineNs I) (part.map Prod.snd) r ∧
        Ready job deadlineNs I s₀ plan t ∧ t.executor.frame = s.executor.frame) s := by
  unfold gatherChunk
  refine Prog.wp_bind_of (awaitFuture_spec hI h hlt hitem) ?_ ?_
  · rintro values t ⟨hanswered, hready, hframe⟩
    refine Prog.wp_ite ?_ ?_
    · intro hshape
      exact ⟨.misshapen ⟨_, hanswered⟩ (by simpa [hpart] using hshape), hready, hframe⟩
    · intro hshape
      exact ⟨.values ⟨_, hanswered⟩ (by simpa [hpart] using hshape), hready, hframe⟩
  · rintro error t ⟨hanswered, hready, hframe⟩
    exact ⟨.failed ⟨_, hanswered⟩, hready, hframe⟩

theorem barrierBody_spec {s : Session W C Cand State Obj} {workers : Nat}
    (hI : OracleKeeps job deadlineNs I)
    (hcount : 0 < entries.length) (hworkers : 0 < workers) {chunks : List (Nat × Nat)}
    (hchunks : chunks = contiguousChunks entries.length workers)
    (hfits : Fits s₀ (chunkPlan entries workUnits chunks))
    (h : Ready job deadlineNs I s₀ (chunkPlan entries workUnits chunks) s)
    (hempty : s.executor.futures = []) :
    Prog.wp (barrierBody job deadlineNs entries workUnits chunks)
      (fun r t => Gathered (Answers job deadlineNs I) (entries.map Prod.snd) r ∧
        Ready job deadlineNs I s₀ (chunkPlan entries workUnits chunks) t ∧
        t.executor.futures.length = chunks.length) s := by
  unfold barrierBody
  refine Prog.wp_bind_of (submitChunks_spec hI hfits h hempty) ?_ (by rintro e t ⟨⟨⟩, -⟩)
  rintro - t ⟨-, hready, hlength⟩
  have hparts : (chunks.zipIdx.map fun item => (slice entries item.1).map Prod.snd).flatten =
      entries.map Prod.snd := by
    have hmap : (chunks.zipIdx.map fun item => (slice entries item.1).map Prod.snd) =
        chunks.map (slice (entries.map Prod.snd)) := by
      have hfst := congrArg (List.map (slice (entries.map Prod.snd))) (List.zipIdx_map_fst 0 chunks)
      simpa only [List.map_map, Function.comp_def, slice_map] using hfst
    rw [hmap, hchunks, contiguousChunks_flatten hcount hworkers (by simp)]
  have hparted : ∀ {outcome : Except PyExc (List (List State))},
      Prog.Collected (fun item r => PartAnswer (Answers job deadlineNs I)
        ((slice entries item.1).map Prod.snd) r) chunks.zipIdx outcome →
      Prog.Collected (PartAnswer (Answers job deadlineNs I))
        (chunks.zipIdx.map fun item => (slice entries item.1).map Prod.snd) outcome := by
    intro outcome h
    have hmap : Prog.Collected (PartAnswer (Answers job deadlineNs I))
        (chunks.zipIdx.map fun item => (slice entries item.1).map Prod.snd)
        (outcome.map (List.map id)) := h.map _ id (by rintro a (_ | _) hstep <;> exact hstep)
    cases outcome <;> simpa [Except.map] using hmap
  refine Prog.wp_bind_of (Prog.wp_collect
    (fun rest u => (Ready job deadlineNs I s₀ (chunkPlan entries workUnits chunks) u ∧
      u.executor.futures.length = chunks.length) ∧ ∀ item ∈ rest, item ∈ chunks.zipIdx)
    (fun u => Ready job deadlineNs I s₀ (chunkPlan entries workUnits chunks) u ∧
      u.executor.futures.length = chunks.length)
    (fun item r => PartAnswer (Answers job deadlineNs I) ((slice entries item.1).map Prod.snd) r)
    ?_ _ _ ⟨⟨hready, hlength⟩, fun _ h => h⟩) ?_ ?_
  · rintro ⟨chunk, index⟩ rest u ⟨⟨hready', hlength'⟩, hrest⟩
    have hget : chunks[index]? = some chunk :=
      List.mk_mem_zipIdx_iff_getElem?.mp (hrest _ List.mem_cons_self)
    have hlt : index < u.executor.futures.length := by
      rw [hlength']
      exact (List.getElem?_eq_some_iff.mp hget).1
    have hitem : (chunkPlan entries workUnits chunks)[index]? =
        some (slice entries chunk, (slice workUnits chunk).sum) := by
      simp [chunkPlan, hget]
    have hpart : (slice entries chunk).length = chunk.2 - chunk.1 :=
      slice_length_of_mem hcount hworkers rfl (hchunks ▸ List.mem_of_getElem? hget)
    refine Prog.wp_mono (gatherChunk_spec hI hready' hlt hitem hpart) ?_
    rintro r v ⟨hanswer, hready'', hframe⟩
    have hlength'' : v.executor.futures.length = chunks.length :=
      (length_of_frame hframe).trans hlength'
    refine ⟨hanswer, ?_⟩
    cases r with
    | ok _ => exact ⟨⟨hready'', hlength''⟩, fun item hmem => hrest item (List.mem_cons_of_mem _ hmem)⟩
    | error _ => exact ⟨hready'', hlength''⟩
  · rintro values u ⟨hcollected, ⟨hready', hlength'⟩, -⟩
    exact ⟨.of_collected hparts (hparted hcollected) rfl, hready', hlength'⟩
  · rintro error u ⟨hcollected, hready', hlength'⟩
    exact ⟨.of_collected hparts (hparted hcollected) rfl, hready', hlength'⟩

/-- The owner writes only its own variables. -/
theorem Ready.owner {s : Session W C Cand State Obj} {executor : Executor Cand State}
    (h : Ready job deadlineNs I s₀ plan s) (hfutures : executor.futures = s.executor.futures) :
    Ready job deadlineNs I s₀ plan { s with executor := executor } := by
  refine ⟨h.pool.restatus (by rw [hfutures]), ?_, ?_⟩
  · intro f hf
    exact h.noneCancelled f (hfutures ▸ hf)
  · intro f hf
    exact h.allCounted f (hfutures ▸ hf)

/-- The state of the pool before anything was submitted. -/
theorem Ready.opened {s : Session W C Cand State Obj} (hworld : I s.world)
    (hcore : s.core = s₀.core) (hempty : s.executor.futures = []) :
    Ready job deadlineNs I s₀ plan s := by
  refine ⟨⟨[], hworld, ?_, ?_, ?_, ?_, ?_, ?_, ?_⟩, ?_, ?_⟩
  · rw [hcore, hempty, List.map_nil, Core.logged_nil]
    rfl
  all_goals simp [hempty, NoneCancelled, AllCounted]

theorem evaluateBarrier_spec {s : Session W C Cand State Obj}
    (hI : OracleKeeps job deadlineNs I)
    (hworld : I s.world) (hcount : 0 < entries.length)
    (hlengths : workUnits.length = entries.length) (hfits : workUnits.sum ≤ s.budget.reserved) :
    Prog.wp (evaluateBarrier job deadlineNs entries workUnits)
      (fun r t => ∃ result, r = .ok result ∧
        EvaluatedTo job deadlineNs I entries workUnits s result t) s := by
  have hworkers := job.config.workers_pos
  have hentries : ((chunkPlan entries workUnits
      (contiguousChunks entries.length job.config.workers)).map Prod.fst).flatten = entries := by
    simpa [chunkPlan, Function.comp_def] using
      contiguousChunks_flatten hcount hworkers (rfl : entries.length = entries.length)
  have hslices := contiguousChunks_flatten hcount hworkers hlengths
  have hwork : ((chunkPlan entries workUnits
      (contiguousChunks entries.length job.config.workers)).map Prod.snd).sum =
        workUnits.sum := by
    conv_rhs => rw [← hslices]
    simp [chunkPlan, Function.comp_def, List.sum_flatten]
  generalize hchunks : contiguousChunks entries.length job.config.workers = chunks at *
  unfold evaluateBarrier openExecutor modifyExecutor
  rw [hchunks]
  simp only [Prog.wp_modify_bind]
  have hready : Ready job deadlineNs I s (chunkPlan entries workUnits chunks)
      { s with executor := ⟨[], [], 0, s.executor.tick⟩ } := .opened hworld rfl rfl
  refine Prog.wp_attempt_bind (barrierBody_spec hI hcount hworkers hchunks.symm
    (hwork.trans_le hfits) hready rfl) ?_
  rintro (cause | values) t ⟨hgathered, hready', hlength⟩
  · rw [Prog.wp_read_bind]
    refine Prog.wp_bind_of (abortEvaluation_spec cause _ _ hI hready'.pool) ?_
      (by rintro e u ⟨_, ⟨⟩, -⟩)
    rintro abort u ⟨pending, ⟨⟩, hle, hpool, hframe⟩
    have hlive : pending ≤ workUnits.sum := by
      refine hle.trans_eq ?_
      have hfst := congrArg (List.map fun chunk => (slice workUnits chunk).sum)
        (List.zipIdx_map_fst 0 chunks)
      rw [hlength, List.take_length, ← hwork, List.map_map]
      simpa only [chunkPlan, List.map_map, Function.comp_def] using congrArg List.sum hfst
    refine Prog.wp_bind_of (shutdown_spec hI hpool) ?_ (by rintro e v ⟨⟨⟩, -⟩)
    rintro - v ⟨-, ⟨calls, hpool'⟩, hframe'⟩
    refine ⟨_, rfl, hpool'.evaluated (hready'.allCounted.of_frame (hframe'.trans hframe)) hentries
      hwork hgathered (by rintro _ ⟨⟩) ?_⟩
    rintro _ ⟨⟩
    exact ⟨rfl, hlive, hlive⟩
  · refine Prog.wp_bind_of (shutdown_spec hI hready'.pool) ?_ (by rintro e v ⟨⟨⟩, -⟩)
    rintro - v ⟨-, ⟨calls, hpool'⟩, hframe'⟩
    refine ⟨_, rfl, hpool'.evaluated (hready'.allCounted.of_frame hframe') hentries hwork hgathered
      ?_ (by rintro _ ⟨⟩)⟩
    rintro _ ⟨⟩
    refine ⟨rfl, ?_⟩
    rw [length_of_frame hframe', hlength]
    simp [chunkPlan]

/-! ### The ordered evaluator -/

/-- The plan of the ordered evaluator: one part for each entry. -/
def singlePlan (entries : List (String × Cand)) (workUnits : List Nat) : List (Planned Cand) :=
  (entries.zip workUnits).map fun item => ([item.1], item.2)

theorem singlePlan_getElem? {index : Nat} {entry : String × Cand} {work : Nat}
    (hentry : entries[index]? = some entry) (hwork : workUnits[index]? = some work) :
    (singlePlan entries workUnits)[index]? = some ([entry], work) := by
  have hzip : (entries.zip workUnits)[index]? = some (entry, work) :=
    List.getElem?_zip_eq_some.mpr ⟨hentry, hwork⟩
  simp [singlePlan, hzip]

/-- The owner's window while the result of `index` is next: the entries from `index` on that were
submitted and not yet taken are pending, at most `width` of them. -/
structure Window (job : Job W C Cand State Obj) (deadlineNs : Option Int) (I : W → Prop)
    (s₀ : Session W C Cand State Obj) (entries : List (String × Cand)) (workUnits : List Nat)
    (width index : Nat) (s : Session W C Cand State Obj) : Prop where
  ready : Ready job deadlineNs I s₀ (singlePlan entries workUnits) s
  next : s.executor.nextToSubmit = s.executor.futures.length
  pending : s.executor.pending = List.range' index (s.executor.futures.length - index)
  index_le : index ≤ s.executor.futures.length
  length_le : s.executor.futures.length ≤ entries.length
  width_le : s.executor.futures.length - index ≤ width

theorem fillWindow_spec {width index : Nat}
    (hI : OracleKeeps job deadlineNs I)
    (hlengths : workUnits.length = entries.length)
    (hfits : Fits s₀ (singlePlan entries workUnits)) :
    ∀ (passes : Nat) {s : Session W C Cand State Obj},
      Window job deadlineNs I s₀ entries workUnits width index s →
      width ≤ s.executor.futures.length - index + passes →
      Prog.wp (fillWindow job deadlineNs entries workUnits width passes)
        (fun r t => r = .ok () ∧ Window job deadlineNs I s₀ entries workUnits width index t ∧
          (t.executor.futures.length = entries.length ∨
            width ≤ t.executor.futures.length - index)) s := by
  intro passes
  induction passes with
  | zero =>
      intro s h hpasses
      exact ⟨rfl, h, .inr hpasses⟩
  | succ passes ih =>
      intro s h hpasses
      unfold fillWindow
      rw [Prog.wp_read_bind]
      dsimp only
      rw [h.next]
      rcases hentry : entries[s.executor.futures.length]? with _ | entry
      · have hle := List.getElem?_eq_none_iff.mp hentry
        exact ⟨rfl, h, .inl (le_antisymm h.length_le hle)⟩
      have hlt := (List.getElem?_eq_some_iff.mp hentry).1
      obtain ⟨work, hwork⟩ : ∃ work, workUnits[s.executor.futures.length]? = some work :=
        ⟨_, List.getElem?_eq_getElem (by omega)⟩
      rw [hwork]
      refine Prog.wp_ite (fun hroom => ?_) (fun hfull => ?_)
      · rw [h.pending, List.length_range'] at hroom
        unfold submit modifyExecutor
        rw [Prog.wp_modify_bind, Prog.wp_modify_bind, Prog.wp_bind_assoc]
        refine Prog.wp_bind_of (startNext_spec hI hfits h.ready
          (singlePlan_getElem? hentry hwork) rfl) ?_ (by rintro e t ⟨⟨⟩, -⟩)
        rintro - t ⟨-, hready, hlength, hpending, hnext⟩
        dsimp only at hpending hnext
        rw [Prog.wp_modify_bind]
        have hnext' : t.executor.nextToSubmit = s.executor.futures.length := hnext.trans h.next
        have hpending' : t.executor.pending =
            List.range' index (s.executor.futures.length + 1 - index) := by
          have hle := h.index_le
          rw [hpending, h.pending, Nat.sub_add_comm hle, List.range'_1_concat,
            Nat.add_sub_cancel' hle]
        refine ih ⟨hready.owner rfl, ?_, ?_, ?_, ?_, ?_⟩ ?_
        · change t.executor.nextToSubmit + 1 = t.executor.futures.length
          rw [hnext', hlength]
        · change t.executor.pending = List.range' index (t.executor.futures.length - index)
          rw [hpending', hlength]
        all_goals
          have hle := h.index_le
          dsimp only
          omega
      · rw [h.pending, List.length_range', Nat.not_lt] at hfull
        exact ⟨rfl, h, .inr hfull⟩

/-- The entry at an index, as a part of its own. -/
def partAt {α : Type} (items : List α) (index : Nat) : List α := items[index]?.toList

theorem partAt_flatten {α : Type} (items : List α) :
    ((List.range items.length).map (partAt items)).flatten = items := by
  induction items with
  | nil => rfl
  | cons a rest ih =>
      rw [List.length_cons, List.range_succ_eq_map, List.map_cons, List.map_map, List.flatten_cons]
      have hmap : partAt (a :: rest) ∘ Nat.succ = partAt rest := by
        funext index
        simp [partAt]
      rw [hmap, ih]
      rfl

/-- What the ordered evaluator keeps when it gives up: its pending entries are a stretch of the window. -/
def GaveUp (job : Job W C Cand State Obj) (deadlineNs : Option Int) (I : W → Prop)
    (s₀ : Session W C Cand State Obj) (entries : List (String × Cand)) (workUnits : List Nat)
    (width : Nat) (t : Session W C Cand State Obj) : Prop :=
  Ready job deadlineNs I s₀ (singlePlan entries workUnits) t ∧
    ∃ first count, t.executor.pending = List.range' first count ∧ count ≤ width ∧
      first + count ≤ entries.length

theorem gatherOrdered_spec {s : Session W C Cand State Obj} {width index : Nat}
    (hI : OracleKeeps job deadlineNs I)
    (hlengths : workUnits.length = entries.length)
    (hfits : Fits s₀ (singlePlan entries workUnits))
    (h : Window job deadlineNs I s₀ entries workUnits width index s)
    (hlt : index < s.executor.futures.length) :
    Prog.wp (gatherOrdered job deadlineNs entries workUnits width index)
      (fun r t => PartAnswer (Answers job deadlineNs I) (partAt (entries.map Prod.snd) index)
          (r.map fun value => [value]) ∧
        match r with
        | .ok _ => Window job deadlineNs I s₀ entries workUnits width (index + 1) t ∧
            (t.executor.futures.length = entries.length ∨
              width ≤ t.executor.futures.length - (index + 1))
        | .error _ => GaveUp job deadlineNs I s₀ entries workUnits width t) s := by
  unfold gatherOrdered modifyExecutor
  rw [Prog.wp_modify_bind]
  have hlt' : index < entries.length := hlt.trans_le h.length_le
  have hentry := List.getElem?_eq_getElem hlt'
  have hwork := List.getElem?_eq_getElem (hlengths ▸ hlt')
  have hpending : s.executor.pending.erase index =
      List.range' (index + 1) (s.executor.futures.length - (index + 1)) := by
    obtain ⟨count, hcount⟩ : ∃ count, s.executor.futures.length - index = count + 1 :=
      ⟨s.executor.futures.length - index - 1, by omega⟩
    rw [h.pending, hcount, List.range'_succ, List.erase_cons_head]
    congr 1
    omega
  have hpart : partAt (entries.map Prod.snd) index = [entries[index].2] := by
    simp [partAt, hentry]
  rw [hpart]
  have hstep : ∀ {t : Session W C Cand State Obj},
      Ready job deadlineNs I s₀ (singlePlan entries workUnits) t →
      t.executor.frame = (s.executor.futures.map Future.frame,
        List.range' (index + 1) (s.executor.futures.length - (index + 1)),
        s.executor.nextToSubmit) →
      Window job deadlineNs I s₀ entries workUnits width (index + 1) t := by
    intro t hready hframe
    have hlength : t.executor.futures.length = s.executor.futures.length := by
      simpa [Executor.frame] using congrArg (fun frame => frame.1.length) hframe
    have hwidth := h.width_le
    refine ⟨hready, ?_, ?_, ?_, ?_, ?_⟩
    · rw [hlength, ← h.next]
      exact congrArg (fun frame => frame.2.2) hframe
    · rw [hlength]
      exact congrArg (fun frame => frame.2.1) hframe
    all_goals
      rw [hlength]
      first | exact h.length_le | omega
  refine Prog.wp_bind_of (awaitFuture_spec hI (h.ready.owner rfl) hlt
    (singlePlan_getElem? hentry hwork)) ?_ ?_
  · rintro values t ⟨hanswered, hready, hframe⟩
    have hwindow := hstep hready (by rw [hframe, ← hpending]; rfl)
    have hgaveUp : GaveUp job deadlineNs I s₀ entries workUnits width t :=
      ⟨hready, _, _, hwindow.pending, hwindow.width_le, by
        have hle := hwindow.index_le
        have hle' := hwindow.length_le
        omega⟩
    rcases values with _ | ⟨value, _ | ⟨second, more⟩⟩
    · exact ⟨.misshapen ⟨_, hanswered⟩ (by simp), hgaveUp⟩
    · refine Prog.wp_bind_of (fillWindow_spec hI hlengths hfits width hwindow (by omega)) ?_
        (by rintro e u ⟨⟨⟩, -⟩)
      rintro - u ⟨-, hwindow', hfull⟩
      exact ⟨.values ⟨_, hanswered⟩ rfl, hwindow', hfull⟩
    · exact ⟨.misshapen ⟨_, hanswered⟩ (by simp), hgaveUp⟩
  · rintro error t ⟨hanswered, hready, hframe⟩
    have hwindow := hstep hready (by rw [hframe, ← hpending]; rfl)
    refine ⟨.failed ⟨_, hanswered⟩, hready, _, _, hwindow.pending, hwindow.width_le, ?_⟩
    have hle := hwindow.index_le
    have hle' := hwindow.length_le
    omega

theorem orderedBody_spec {s : Session W C Cand State Obj} {width : Nat}
    (hI : OracleKeeps job deadlineNs I)
    (hlengths : workUnits.length = entries.length) (hwidth : 0 < width)
    (hfits : Fits s₀ (singlePlan entries workUnits))
    (h : Window job deadlineNs I s₀ entries workUnits width 0 s) :
    Prog.wp (orderedBody job deadlineNs entries workUnits width)
      (fun r t => Gathered (Answers job deadlineNs I) (entries.map Prod.snd) r ∧
        match r with
        | .ok _ => Ready job deadlineNs I s₀ (singlePlan entries workUnits) t ∧
            t.executor.futures.length = entries.length
        | .error _ => GaveUp job deadlineNs I s₀ entries workUnits width t) s := by
  have hparts : ((List.range entries.length).map (partAt (entries.map Prod.snd))).flatten =
      entries.map Prod.snd := by
    simpa using partAt_flatten (entries.map Prod.snd)
  have hflatten : ∀ {outcome : Except PyExc (List State)},
      outcome = (outcome.map (List.map fun value => [value])).map List.flatten := by
    intro outcome
    cases outcome with
    | ok values => simp [Except.map, ← List.flatMap_def]
    | error _ => rfl
  unfold orderedBody
  refine Prog.wp_bind_of (fillWindow_spec hI hlengths hfits width h (by omega)) ?_
    (by rintro e t ⟨⟨⟩, -⟩)
  rintro - t ⟨-, hwindow, hfull⟩
  refine Prog.wp_mono (Prog.wp_collect
    (fun rest u => ∃ index, rest = List.range' index (entries.length - index) ∧
      index ≤ entries.length ∧
      Window job deadlineNs I s₀ entries workUnits width index u ∧
      (u.executor.futures.length = entries.length ∨
        width ≤ u.executor.futures.length - index))
    (GaveUp job deadlineNs I s₀ entries workUnits width)
    (fun index r => PartAnswer (Answers job deadlineNs I) (partAt (entries.map Prod.snd) index)
      (r.map fun value => [value])) ?_ _ _
    ⟨0, by rw [List.range_eq_range', Nat.sub_zero], Nat.zero_le _, hwindow, hfull⟩) ?_
  · rintro next rest u ⟨index, hrest, hle, hwindow', hfull'⟩
    obtain ⟨count, hcount⟩ : ∃ count, entries.length - index = count + 1 := by
      refine ⟨entries.length - index - 1, ?_⟩
      rcases Nat.eq_zero_or_pos (entries.length - index) with hzero | hpos
      · simp [hzero] at hrest
      · omega
    rw [hcount, List.range'_succ, List.cons.injEq] at hrest
    obtain ⟨rfl, rfl⟩ := hrest
    have hlt : next < u.executor.futures.length := by omega
    refine Prog.wp_mono (gatherOrdered_spec hI hlengths hfits hwindow' hlt) ?_
    rintro (error | value) v ⟨hanswer, hdone⟩
    · exact ⟨hanswer, hdone⟩
    · refine ⟨hanswer, next + 1, ?_, by omega, hdone⟩
      congr 1
      omega
  · rintro (error | values) u ⟨hcollected, hdone⟩
    · exact ⟨.of_collected hparts (hcollected.map _ _ fun _ _ hstep => hstep) hflatten, hdone⟩
    · obtain ⟨index, hrest, hle, hwindow', -⟩ := hdone
      have hindex : entries.length - index = 0 := by
        simpa using hrest
      refine ⟨.of_collected hparts (hcollected.map _ _ fun _ _ hstep => hstep) hflatten,
        hwindow'.ready, ?_⟩
      have hle' := hwindow'.index_le
      have hle'' := hwindow'.length_le
      omega

theorem le_foldl_max (items : List Nat) :
    ∀ {start item : Nat}, item = start ∨ item ∈ items → item ≤ items.foldl max start := by
  induction items with
  | nil =>
      rintro start item (rfl | h)
      · exact le_rfl
      · cases h
  | cons first rest ih =>
      intro start item h
      rw [List.foldl_cons]
      rcases h with rfl | h
      · exact (le_max_left _ _).trans (ih (.inl rfl))
      · rcases List.mem_cons.mp h with rfl | h
        · exact (le_max_right _ _).trans (ih (.inl rfl))
        · exact ih (.inr h)

/-- The work of a stretch of the window. -/
theorem stretch_eq {first count : Nat} (h : first + count ≤ workUnits.length) :
    ((List.range' first count).map fun index => workUnits.getD index 0) =
      (workUnits.drop first).take count := by
  refine List.ext_getElem (by simp; omega) fun index hlt hlt' => ?_
  rw [List.length_map, List.length_range'] at hlt
  simp [List.getElem?_eq_getElem (show first + index < workUnits.length by omega)]

theorem evaluateOrdered_spec {s : Session W C Cand State Obj}
    (hI : OracleKeeps job deadlineNs I)
    (hworld : I s.world) (hmode : job.config.executionMode = .ordered)
    (hcount : 0 < entries.length) (hlengths : workUnits.length = entries.length)
    (hfits : workUnits.sum ≤ s.budget.reserved) :
    Prog.wp (evaluateOrdered job deadlineNs entries workUnits)
      (fun r t => ∃ result, r = .ok result ∧
        EvaluatedTo job deadlineNs I entries workUnits s result t) s := by
  have hentries : ((singlePlan entries workUnits).map Prod.fst).flatten = entries := by
    have hfst : (entries.zip workUnits).map Prod.fst = entries :=
      List.map_fst_zip (by omega)
    conv_rhs => rw [← hfst, List.map_eq_flatMap]
    simp [singlePlan, Function.comp_def, ← List.flatMap_def]
  have hwork : ((singlePlan entries workUnits).map Prod.snd).sum = workUnits.sum := by
    have hsnd : (entries.zip workUnits).map Prod.snd = workUnits :=
      List.map_snd_zip (by omega)
    conv_rhs => rw [← hsnd]
    simp [singlePlan, Function.comp_def]
  have hplan : (singlePlan entries workUnits).length = entries.length := by
    simp [singlePlan, hlengths]
  have hwidth : 0 < min (min job.config.workers job.config.speculationWindow) entries.length := by
    have hworkers := job.config.workers_pos
    have hwindow := job.config.ordered_window hmode
    omega
  unfold evaluateOrdered openExecutor modifyExecutor
  generalize min (min job.config.workers job.config.speculationWindow) entries.length = width at *
  simp only [Prog.wp_modify_bind]
  have hready : Ready job deadlineNs I s (singlePlan entries workUnits)
      { s with executor := ⟨[], [], 0, s.executor.tick⟩ } := .opened hworld rfl rfl
  refine Prog.wp_attempt_bind (orderedBody_spec hI hlengths hwidth (hwork.trans_le hfits)
    ⟨hready, rfl, rfl, le_rfl, Nat.zero_le _, Nat.zero_le _⟩) ?_
  rintro (cause | values) t ⟨hgathered, hended⟩
  · obtain ⟨hready', first, count, hpending, hle, hstretch⟩ := hended
    rw [Prog.wp_read_bind]
    refine Prog.wp_bind_of (abortEvaluation_spec cause _ _ hI hready'.pool) ?_
      (by rintro e u ⟨_, ⟨⟩, -⟩)
    rintro abort u ⟨pending, ⟨⟩, hsum, hpool, hframe⟩
    rw [hpending, List.map_map] at hsum
    simp only [Function.comp_def] at hsum
    rw [stretch_eq (hlengths ▸ hstretch)] at hsum
    have hcapacity : pending ≤ width * workUnits.foldl max 0 := by
      calc pending ≤ ((workUnits.drop first).take count).sum := hsum
        _ ≤ ((workUnits.drop first).take count).length • workUnits.foldl max 0 :=
            List.sum_le_card_nsmul _ _ fun work hmem =>
              le_foldl_max _ (.inr (List.drop_subset _ _ (List.take_subset _ _ hmem)))
        _ ≤ width * workUnits.foldl max 0 := by
            rw [Nat.nsmul_eq_mul]
            exact Nat.mul_le_mul_right _ ((List.length_take_le _ _).trans hle)
    have htotal : pending ≤ workUnits.sum :=
      hsum.trans (((List.take_sublist _ _).trans (List.drop_sublist _ _)).sum_le_sum
        fun _ _ => Nat.zero_le _)
    refine Prog.wp_bind_of (shutdown_spec hI hpool) ?_ (by rintro e v ⟨⟨⟩, -⟩)
    rintro - v ⟨-, ⟨calls, hpool'⟩, hframe'⟩
    refine ⟨_, rfl, hpool'.evaluated (hready'.allCounted.of_frame (hframe'.trans hframe)) hentries
      hwork hgathered (by rintro _ ⟨⟩) ?_⟩
    rintro _ ⟨⟩
    exact ⟨rfl, hcapacity, htotal⟩
  · obtain ⟨hready', hlength⟩ := hended
    refine Prog.wp_bind_of (shutdown_spec hI hready'.pool) ?_ (by rintro e v ⟨⟨⟩, -⟩)
    rintro - v ⟨-, ⟨calls, hpool'⟩, hframe'⟩
    refine ⟨_, rfl, hpool'.evaluated (hready'.allCounted.of_frame hframe') hentries hwork hgathered
      ?_ (by rintro _ ⟨⟩)⟩
    rintro _ ⟨⟩
    exact ⟨rfl, by rw [length_of_frame hframe', hlength, hplan]⟩

/-- Whatever the mode and the schedule: the evaluation raises nothing itself, and `Evaluated` holds. -/
theorem evaluateCandidates_spec {s : Session W C Cand State Obj}
    (hI : OracleKeeps job deadlineNs I)
    (hworld : I s.world) (hcount : 0 < entries.length)
    (hlengths : workUnits.length = entries.length) (hfits : workUnits.sum ≤ s.budget.reserved) :
    Prog.wp (evaluateCandidates job deadlineNs entries workUnits)
      (fun r t => ∃ result, r = .ok result ∧
        EvaluatedTo job deadlineNs I entries workUnits s result t) s := by
  unfold evaluateCandidates
  refine Prog.wp_ite (fun _ => evaluateSerial_spec hI hworld hfits) (fun hserial => ?_)
  refine Prog.wp_ite (fun _ => evaluateBarrier_spec hI hworld hcount hlengths hfits)
    (fun hbarrier => ?_)
  refine evaluateOrdered_spec hI hworld ?_ hcount hlengths hfits
  cases hmode : job.config.executionMode with
  | serial => exact absurd (.inl hmode) hserial
  | barrier => exact absurd hmode hbarrier
  | ordered => rfl

end

end TxnOpt
