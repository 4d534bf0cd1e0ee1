import TxnOpt.Runtime.Proof.Core
import Mathlib.Algebra.Order.BigOperators.Group.List

/-!
# The worker pool

Whatever the worker threads do and whenever they do it, an evaluation hands each missing key to the
oracle at most once, moves reserved work to the started counter only, and gathers the values in the
order of the candidates or the exception of the first part that failed.

`Pool` is the invariant that the owner and the workers keep together. Its budget counts the futures whose
work the owner has started; a future that a worker has entered while it was not counted is visible in the
log as a call that was not counted.
-/

namespace TxnOpt

/-- The ledger after `work` of its reserved work was started. -/
def BudgetLedger.moved (ledger : BudgetLedger) (work : Nat) : BudgetLedger :=
  { ledger with reserved := ledger.reserved - work, started := ledger.started + work }

@[simp] theorem BudgetLedger.moved_zero (ledger : BudgetLedger) : ledger.moved 0 = ledger := rfl

@[simp] theorem BudgetLedger.moved_started (ledger : BudgetLedger) (work : Nat) :
    (ledger.moved work).started = ledger.started + work := rfl

@[simp] theorem BudgetLedger.moved_limit (ledger : BudgetLedger) (work : Nat) :
    (ledger.moved work).limit = ledger.limit := rfl

theorem BudgetLedger.moved_moved (ledger : BudgetLedger) (first second : Nat) :
    (ledger.moved first).moved second = ledger.moved (first + second) := by
  simp [moved, Nat.sub_sub, Nat.add_assoc]

/-- The ledger after `work` was started, and after the rest of the reservation was released or not. -/
def BudgetLedger.after (ledger : BudgetLedger) (released : Bool) (work : Nat) : BudgetLedger :=
  if released then (ledger.moved work).releaseReserved else ledger.moved work

@[simp] theorem BudgetLedger.after_false (ledger : BudgetLedger) (work : Nat) :
    ledger.after false work = ledger.moved work := rfl

@[simp] theorem BudgetLedger.after_true (ledger : BudgetLedger) (work : Nat) :
    ledger.after true work = (ledger.moved work).releaseReserved := rfl

@[simp] theorem BudgetLedger.after_started (ledger : BudgetLedger) (released : Bool) (work : Nat) :
    (ledger.after released work).started = ledger.started + work := by
  cases released <;> rfl

def EvaluateCall.charge (call : EvaluateCall) : List String × Nat := (call.keys, call.workBudget)

/-- The work budgets handed to the oracle by a list of calls. -/
def handedWork (calls : List EvaluateCall) : Nat := (calls.map EvaluateCall.workBudget).sum

section

variable {W C Cand State Obj : Type}

/-! ### Futures -/

/-- The outcome of a future that a worker has entered. -/
def FutureStatus.outcome : FutureStatus State → Option (Except PyExc (List State))
  | .running outcome => some outcome
  | .finished outcome => some outcome
  | _ => none

def Future.entered (future : Future Cand State) : Bool := future.status.outcome.isSome

/-- What the owner fixes about a future. -/
def Future.frame (future : Future Cand State) : List String × List Cand × Nat × Bool :=
  (future.keys, future.candidates, future.workBudget, future.counted)

/-- The part of the executor that only the owner writes. -/
def Executor.frame (executor : Executor Cand State) :
    List (List String × List Cand × Nat × Bool) × List Nat × Nat :=
  (executor.futures.map Future.frame, executor.pending, executor.nextToSubmit)

/-- The keys and the work that a future, or a call of the oracle for it, stands for. -/
def Future.charge (future : Future Cand State) : List String × Nat := (future.keys, future.workBudget)

/-- The work of the futures that the owner has started in the ledger. -/
def countedWork (futures : List (Future Cand State)) : Nat :=
  ((futures.filter Future.counted).map Future.workBudget).sum

theorem countedWork_append (first second : List (Future Cand State)) :
    countedWork (first ++ second) = countedWork first + countedWork second := by
  simp [countedWork]

theorem countedWork_of_frame {first second : List (Future Cand State)}
    (h : first.map Future.frame = second.map Future.frame) :
    countedWork first = countedWork second := by
  induction first generalizing second with
  | nil =>
      rw [List.map_nil, eq_comm, List.map_eq_nil_iff] at h
      rw [h]
  | cons f rest ih =>
      cases second with
      | nil => simp at h
      | cons g more =>
          simp only [List.map_cons, List.cons.injEq] at h
          have hrest := ih h.2
          have hf := h.1
          simp only [Future.frame, Prod.mk.injEq] at hf
          simp only [countedWork, List.filter_cons, hf.2.2.2] at hrest ⊢
          split <;> simp [hrest, hf.2.2.1]

/-- A list around one of its elements, and what changing that element makes of it. -/
theorem exists_split {α : Type} {items : List α} {index : Nat} {item : α}
    (h : items[index]? = some item) :
    ∃ before after, items = before ++ item :: after ∧ before.length = index ∧
      ∀ f : α → α, items.modify index f = before ++ f item :: after := by
  obtain ⟨hlt, rfl⟩ := List.getElem?_eq_some_iff.mp h
  refine ⟨items.take index, items.drop (index + 1), ?_, by simp; omega, ?_⟩
  · rw [List.getElem_cons_drop hlt, List.take_append_drop]
  · intro f
    rw [List.modify_eq_take_cons_drop hlt]

/-- A call of the oracle on these candidates, at a point of the world in `I`, ended with `outcome`. -/
def Answered (job : Job W C Cand State Obj) (deadlineNs : Option Int) (I : W → Prop)
    (candidates : List Cand) (workBudget : Nat) (outcome : Except PyExc (List State)) : Prop :=
  ∃ w w', I w ∧ job.oracle.evaluateBatch candidates workBudget deadlineNs w = (outcome, w')

/-- The oracle's evaluations keep a property of the world. -/
def OracleKeeps (job : Job W C Cand State Obj) (deadlineNs : Option Int) (I : W → Prop) : Prop :=
  ∀ candidates work w, I w → I (job.oracle.evaluateBatch candidates work deadlineNs w).2

/-! ### The pool invariant -/

/-- One evaluation that the owner plans to submit: the entries and their work. -/
abbrev Planned (Cand : Type) : Type := List (String × Cand) × Nat

def Planned.frame (item : Planned Cand) : List String × List Cand × Nat :=
  (item.1.map Prod.fst, item.1.map Prod.snd, item.2)

/-- The session `s` of an evaluation that started at `s₀`, after the oracle calls `calls`. -/
structure PoolState (job : Job W C Cand State Obj) (deadlineNs : Option Int) (I : W → Prop)
    (s₀ : Session W C Cand State Obj) (plan : List (Planned Cand)) (released : Bool)
    (calls : List EvaluateCall) (s : Session W C Cand State Obj) : Prop where
  world : I s.world
  core : s.core =
    (s₀.core.withBudget (s₀.budget.after released (countedWork s.executor.futures))).logged
      (calls.map .evaluate)
  planned : s.executor.futures.map (fun f => (f.keys, f.candidates, f.workBudget)) =
    (plan.take s.executor.futures.length).map Planned.frame
  answered : ∀ f ∈ s.executor.futures, ∀ outcome, f.status.outcome = some outcome →
    Answered job deadlineNs I f.candidates f.workBudget outcome
  handedOver : (calls.map EvaluateCall.charge).Perm
    ((s.executor.futures.filter Future.entered).map Future.charge)
  uncounted : ∀ f ∈ s.executor.futures, f.entered = true → f.counted = false →
    ∃ call ∈ calls, call.counted = false
  ledgers : ∀ call ∈ calls, ∃ work, work ≤ countedWork s.executor.futures ∧
    ∃ released, call.ledger = s₀.budget.after released work
  covered : ∀ before call after, calls = before ++ call :: after →
    (∀ earlier ∈ before ++ [call], earlier.counted = true) →
    s₀.budget.started + handedWork (before ++ [call]) ≤ call.ledger.started

variable (job : Job W C Cand State Obj) (deadlineNs : Option Int) (I : W → Prop)
  (s₀ : Session W C Cand State Obj) (plan : List (Planned Cand)) (released : Bool)

/-- The evaluators' invariant, whatever calls the workers have made so far. -/
def Pool (s : Session W C Cand State Obj) : Prop :=
  ∃ calls, PoolState job deadlineNs I s₀ plan released calls s

/-- No future is cancelled while results are still awaited. -/
def NoneCancelled (s : Session W C Cand State Obj) : Prop :=
  ∀ f ∈ s.executor.futures, f.status ≠ .cancelled

/-- The owner has started the work of every submitted future. -/
def AllCounted (s : Session W C Cand State Obj) : Prop :=
  ∀ f ∈ s.executor.futures, f.counted = true

/-- What the worker threads may change: the invariant stays, and so does all that the owner fixed. -/
structure WorkersRan (s t : Session W C Cand State Obj) : Prop where
  pool : Pool job deadlineNs I s₀ plan released t
  frame : t.executor.frame = s.executor.frame
  noneCancelled : NoneCancelled s → NoneCancelled t

variable {job deadlineNs I s₀ plan released}

theorem WorkersRan.trans {s t u : Session W C Cand State Obj}
    (h : WorkersRan job deadlineNs I s₀ plan released s t) (h' : WorkersRan job deadlineNs I s₀ plan released t u) :
    WorkersRan job deadlineNs I s₀ plan released s u :=
  ⟨h'.pool, h'.frame.trans h.frame, fun hs => h'.noneCancelled (h.noneCancelled hs)⟩

theorem WorkersRan.refl {s : Session W C Cand State Obj} (h : Pool job deadlineNs I s₀ plan released s) :
    WorkersRan job deadlineNs I s₀ plan released s s := ⟨h, rfl, id⟩

theorem futures_of_frame {s t : Session W C Cand State Obj}
    (hframe : t.executor.frame = s.executor.frame) :
    t.executor.futures.map Future.frame = s.executor.futures.map Future.frame :=
  congrArg Prod.fst hframe

theorem AllCounted.of_frame {s t : Session W C Cand State Obj} (h : AllCounted s)
    (hframe : t.executor.frame = s.executor.frame) : AllCounted t := by
  intro f hf
  have hmem : f.frame ∈ s.executor.futures.map Future.frame := by
    rw [← futures_of_frame hframe]
    exact List.mem_map_of_mem hf
  obtain ⟨g, hg, hgf⟩ := List.mem_map.mp hmem
  simp only [Future.frame, Prod.mk.injEq] at hgf
  rw [← hgf.2.2.2]
  exact h g hg

theorem length_of_frame {s t : Session W C Cand State Obj}
    (hframe : t.executor.frame = s.executor.frame) :
    t.executor.futures.length = s.executor.futures.length := by
  simpa [Executor.frame] using congrArg (fun frame => frame.1.length) hframe

/-- Handed-over work is started work when every entered future is counted. -/
theorem handedWork_le_countedWork {calls : List EvaluateCall} {futures : List (Future Cand State)}
    (hperm : (calls.map EvaluateCall.charge).Perm
      ((futures.filter Future.entered).map Future.charge))
    (hcounted : ∀ f ∈ futures, f.entered = true → f.counted = true) :
    handedWork calls ≤ countedWork futures := by
  have hsum := (hperm.map Prod.snd).sum_nat
  simp only [List.map_map, Function.comp_def, EvaluateCall.charge, Future.charge] at hsum
  unfold handedWork countedWork
  rw [hsum]
  refine List.Sublist.sum_le_sum (List.Sublist.map _ ?_) (fun _ _ => Nat.zero_le _)
  have hfilter : futures.filter Future.entered =
      (futures.filter Future.counted).filter Future.entered := by
    rw [List.filter_filter]
    refine List.filter_congr fun f hf => ?_
    by_cases hentered : f.entered = true
    · simp [hentered, hcounted f hf hentered]
    · simp [hentered]
  rw [hfilter]
  exact List.filter_sublist

/-! ### Worker steps -/

theorem enterFuture_queued {s : Session W C Cand State Obj} {index : Nat} {keys : List String}
    {candidates : List Cand} {workBudget : Nat} {counted : Bool}
    (h : s.executor.futures[index]? = some ⟨keys, candidates, workBudget, counted, .queued⟩) :
    enterFuture job deadlineNs index s = (.ok (), { s with
      log := s.log ++ [.evaluate ⟨keys, workBudget, s.budget, counted⟩]
      world := (job.oracle.evaluateBatch candidates workBudget deadlineNs s.world).2
      executor := s.executor.setStatus index
        (.running (job.oracle.evaluateBatch candidates workBudget deadlineNs s.world).1) }) := by
  unfold enterFuture
  rw [Prog.bind_apply_ok (Prog.read_apply _ _), h]
  rfl

/-- A worker enters a queued future: the call is logged with the ledger as it is. -/
theorem PoolState.enter {s : Session W C Cand State Obj} {calls : List EvaluateCall}
    {before after : List (Future Cand State)} {f running : Future Cand State} {w' : W}
    {outcome : Except PyExc (List State)} {call : EvaluateCall}
    (h : PoolState job deadlineNs I s₀ plan released calls s)
    (hsplit : s.executor.futures = before ++ f :: after) (hqueued : f.status = .queued)
    (horacle : job.oracle.evaluateBatch f.candidates f.workBudget deadlineNs s.world =
      (outcome, w')) (hI : I w')
    (hrunning : running = { f with status := .running outcome })
    (hcall : call = ⟨f.keys, f.workBudget, s.budget, f.counted⟩) :
    PoolState job deadlineNs I s₀ plan released (calls ++ [call])
      { s with
        log := s.log ++ [.evaluate call]
        world := w'
        executor := { s.executor with futures := before ++ running :: after } } := by
  have hbudget : s.budget = s₀.budget.after released (countedWork s.executor.futures) :=
    congrArg Core.budget h.core
  have hcounted : countedWork (before ++ running :: after) = countedWork s.executor.futures := by
    rw [hsplit]
    exact countedWork_of_frame (by simp [Future.frame, hrunning])
  have hold : f.entered = false := by simp [Future.entered, hqueued, FutureStatus.outcome]
  have hnew : running.entered = true := by simp [Future.entered, hrunning, FutureStatus.outcome]
  have hcharge : call.charge = running.charge := by rw [hcall, hrunning]; rfl
  have hperm : ((calls ++ [call]).map EvaluateCall.charge).Perm
      (((before ++ running :: after).filter Future.entered).map Future.charge) := by
    have hperm := h.handedOver
    rw [hsplit] at hperm
    simp only [List.filter_append, List.filter_cons, hold, hnew, List.map_append, if_true,
      List.map_cons, List.map_nil, hcharge] at hperm ⊢
    refine (hperm.append_right _).trans ?_
    rw [List.append_assoc]
    exact (List.perm_append_singleton _ _).append_left _
  have huncounted : ∀ g ∈ before ++ running :: after, g.entered = true → g.counted = false →
      ∃ earlier ∈ calls ++ [call], earlier.counted = false := by
    intro g hg hentered hg'
    rcases List.mem_append.mp hg with hg | hg
    · obtain ⟨earlier, hmem, hfalse⟩ := h.uncounted g (by simp [hsplit, hg]) hentered hg'
      exact ⟨earlier, by simp [hmem], hfalse⟩
    · rcases List.mem_cons.mp hg with rfl | hg
      · exact ⟨call, by simp, by simpa [hcall, hrunning] using hg'⟩
      · obtain ⟨earlier, hmem, hfalse⟩ := h.uncounted g (by simp [hsplit, hg]) hentered hg'
        exact ⟨earlier, by simp [hmem], hfalse⟩
  refine ⟨hI, ?_, ?_, ?_, hperm, huncounted, ?_, ?_⟩
  · change s.core.logged _ = _
    rw [h.core, Core.logged_logged, hcounted, List.map_append]
    rfl
  · have hplanned := h.planned
    rw [hsplit] at hplanned
    simpa [hrunning] using hplanned
  · intro g hg o ho
    rcases List.mem_append.mp hg with hg | hg
    · exact h.answered g (by simp [hsplit, hg]) o ho
    · rcases List.mem_cons.mp hg with rfl | hg
      · have houtcome : outcome = o := by simpa [hrunning, FutureStatus.outcome] using ho
        rw [hrunning, ← houtcome]
        exact ⟨s.world, w', h.world, horacle⟩
      · exact h.answered g (by simp [hsplit, hg]) o ho
  · intro earlier hmem
    dsimp only
    rw [hcounted]
    rcases List.mem_append.mp hmem with hmem | hmem
    · exact h.ledgers earlier hmem
    · rw [List.mem_singleton] at hmem
      exact ⟨_, le_rfl, released, by rw [hmem, hcall, ← hbudget]⟩
  · intro first last rest hsplit' hall
    rcases List.eq_nil_or_concat' rest with rfl | ⟨rest, final, rfl⟩
    · -- The new call: had a worker entered an uncounted future, some call would not be counted.
      obtain ⟨rfl, hlast⟩ := List.append_inj' hsplit' rfl
      obtain rfl : call = last := by simpa using hlast
      have hle := handedWork_le_countedWork hperm fun g hg hentered => by
        by_contra hg'
        rw [Bool.not_eq_true] at hg'
        obtain ⟨earlier, hmem, hfalse⟩ := huncounted g hg hentered hg'
        rw [hall earlier hmem] at hfalse
        cases hfalse
      have hledger : call.ledger = s₀.budget.after released (countedWork s.executor.futures) := by
        rw [hcall, ← hbudget]
      rw [hcounted] at hle
      rw [hledger, BudgetLedger.after_started]
      omega
    · rw [← List.cons_append, ← List.append_assoc] at hsplit'
      exact h.covered first last rest (List.append_inj' hsplit' rfl).1 hall

theorem enterFuture_spec {s : Session W C Cand State Obj} (index : Nat)
    (hI : OracleKeeps job deadlineNs I)
    (h : Pool job deadlineNs I s₀ plan released s) :
    Prog.wp (enterFuture job deadlineNs index)
      (fun r t => r = .ok () ∧ WorkersRan job deadlineNs I s₀ plan released s t ∧
        ∀ f ∈ t.executor.futures[index]?, f.status ≠ .queued) s := by
  by_cases hqueued : ∃ keys candidates workBudget counted,
      s.executor.futures[index]? = some ⟨keys, candidates, workBudget, counted, .queued⟩
  · obtain ⟨keys, candidates, workBudget, counted, hfuture⟩ := hqueued
    obtain ⟨calls, h⟩ := h
    obtain ⟨before, after, hsplit, hindex, hmodify⟩ := exists_split hfuture
    refine Prog.wp_of_eq (enterFuture_queued hfuture)
      ⟨rfl, ⟨⟨calls ++ [⟨keys, workBudget, s.budget, counted⟩], ?_⟩, ?_, ?_⟩, ?_⟩
    · have henter := h.enter hsplit rfl rfl (hI _ _ _ h.world) rfl rfl
      simpa only [Executor.setStatus, hmodify] using henter
    · simp only [Executor.frame, Executor.setStatus, hmodify]
      simp [hsplit, Future.frame]
    · intro hnone f hf
      simp only [Executor.setStatus, hmodify, List.mem_append, List.mem_cons] at hf
      rcases hf with hf | rfl | hf
      · exact hnone f (by simp [hsplit, hf])
      · simp
      · exact hnone f (by simp [hsplit, hf])
    · simp [Executor.setStatus, ← hindex]
  · have hskip : enterFuture job deadlineNs index s = (.ok (), s) := by
      unfold enterFuture
      rw [Prog.bind_apply_ok (Prog.read_apply _ _)]
      rcases hfuture : s.executor.futures[index]? with
        _ | ⟨keys, candidates, workBudget, counted, status⟩
      · rfl
      · cases status with
        | queued => exact absurd ⟨_, _, _, _, hfuture⟩ hqueued
        | _ => rfl
    refine Prog.wp_of_eq hskip ⟨rfl, .refl h, ?_⟩
    rintro ⟨keys, candidates, workBudget, counted, status⟩ hf rfl
    exact hqueued ⟨_, _, _, _, hf⟩

/-- What a future shows to the invariant: it does not tell a running future from a finished one, nor a
queued one from a cancelled one. -/
def Future.face (future : Future Cand State) :
    (List String × List Cand × Nat × Bool) × Option (Except PyExc (List State)) :=
  (future.frame, future.status.outcome)

theorem exists_face {first second : List (Future Cand State)} {f : Future Cand State}
    (h : first.map Future.face = second.map Future.face) (hf : f ∈ first) :
    ∃ g ∈ second, g.keys = f.keys ∧ g.candidates = f.candidates ∧ g.workBudget = f.workBudget ∧
      g.counted = f.counted ∧ g.status.outcome = f.status.outcome := by
  have hmem : f.face ∈ second.map Future.face := h ▸ List.mem_map_of_mem hf
  obtain ⟨g, hg, hgf⟩ := List.mem_map.mp hmem
  simp only [Future.face, Future.frame, Prod.mk.injEq] at hgf
  exact ⟨g, hg, hgf.1.1, hgf.1.2.1, hgf.1.2.2.1, hgf.1.2.2.2, hgf.2⟩

theorem map_of_face {α : Type} {first second : List (Future Cand State)}
    (h : first.map Future.face = second.map Future.face)
    (view : (List String × List Cand × Nat × Bool) × Option (Except PyExc (List State)) → α) :
    first.map (fun f => view f.face) = second.map (fun f => view f.face) := by
  simpa [Function.comp_def] using congrArg (List.map view) h

theorem charges_of_face {first second : List (Future Cand State)}
    (h : first.map Future.face = second.map Future.face) :
    (first.filter Future.entered).map Future.charge =
      (second.filter Future.entered).map Future.charge := by
  induction first generalizing second with
  | nil =>
      rw [List.map_nil, eq_comm, List.map_eq_nil_iff] at h
      rw [h]
  | cons f rest ih =>
      cases second with
      | nil => simp at h
      | cons g more =>
          simp only [List.map_cons, List.cons.injEq, Future.face, Future.frame, Prod.mk.injEq] at h
          obtain ⟨⟨⟨hkeys, _, hwork, _⟩, houtcome⟩, hrest⟩ := h
          simp only [List.filter_cons, Future.entered, houtcome]
          by_cases hsome : g.status.outcome.isSome = true <;>
            simp [hsome, ih hrest, Future.charge, hkeys, hwork]

/-- A step that only finishes running futures and cancels queued ones. -/
theorem PoolState.restatus {s : Session W C Cand State Obj} {calls : List EvaluateCall}
    {executor : Executor Cand State} (h : PoolState job deadlineNs I s₀ plan released calls s)
    (hface : executor.futures.map Future.face = s.executor.futures.map Future.face) :
    PoolState job deadlineNs I s₀ plan released calls { s with executor := executor } := by
  have hcounted : countedWork executor.futures = countedWork s.executor.futures :=
    countedWork_of_frame (map_of_face hface Prod.fst)
  have hlength : executor.futures.length = s.executor.futures.length := by
    simpa using congrArg List.length hface
  refine ⟨h.world, ?_, ?_, ?_, ?_, ?_, ?_, h.covered⟩
  · rw [hcounted]
    exact h.core
  · rw [hlength, ← h.planned]
    exact map_of_face hface fun face => (face.1.1, face.1.2.1, face.1.2.2.1)
  · intro f hf outcome houtcome
    obtain ⟨g, hg, _, hcandidates, hwork, _, hstatus⟩ := exists_face hface hf
    rw [← hcandidates, ← hwork]
    exact h.answered g hg outcome (hstatus.trans houtcome)
  · rw [charges_of_face hface]
    exact h.handedOver
  · intro f hf hentered hfalse
    obtain ⟨g, hg, _, _, _, hcount, hstatus⟩ := exists_face hface hf
    exact h.uncounted g hg (by rw [Future.entered, hstatus]; exact hentered) (hcount.trans hfalse)
  · rw [hcounted]
    exact h.ledgers

theorem Pool.restatus {s : Session W C Cand State Obj} {executor : Executor Cand State}
    (h : Pool job deadlineNs I s₀ plan released s)
    (hface : executor.futures.map Future.face = s.executor.futures.map Future.face) :
    Pool job deadlineNs I s₀ plan released { s with executor := executor } :=
  h.imp fun _ h => h.restatus hface

/-- A worker leaves the oracle. -/
def Executor.leave (executor : Executor Cand State) (index : Nat) : Executor Cand State :=
  match executor.futures[index]? with
  | some ⟨_, _, _, _, .running outcome⟩ => executor.setStatus index (.finished outcome)
  | _ => executor

theorem leaveFuture_apply (s : Session W C Cand State Obj) (index : Nat) :
    leaveFuture index s = (.ok (), { s with executor := s.executor.leave index }) := rfl

theorem Executor.leave_cases (executor : Executor Cand State) (index : Nat) :
    (∃ before after f outcome, executor.futures = before ++ f :: after ∧ before.length = index ∧
      f.status = .running outcome ∧
      executor.leave index =
        { executor with futures := before ++ { f with status := .finished outcome } :: after }) ∨
    ((∀ f ∈ executor.futures[index]?, ∀ outcome, f.status ≠ .running outcome) ∧
      executor.leave index = executor) := by
  rcases hfuture : executor.futures[index]? with
    _ | ⟨keys, candidates, workBudget, counted, status⟩
  · right
    simp [leave, hfuture]
  · cases status with
    | running outcome =>
        left
        obtain ⟨before, after, hsplit, hindex, hmodify⟩ := exists_split hfuture
        refine ⟨before, after, _, outcome, hsplit, hindex, rfl, ?_⟩
        simp only [leave, hfuture, setStatus, hmodify]
    | _ =>
        right
        refine ⟨?_, by simp [leave, hfuture]⟩
        rintro f hf outcome
        obtain rfl := Option.some_inj.mp hf
        simp

theorem leaveFuture_spec {s : Session W C Cand State Obj} (index : Nat)
    (h : Pool job deadlineNs I s₀ plan released s) :
    Prog.wp (leaveFuture index)
      (fun r t => r = .ok () ∧ WorkersRan job deadlineNs I s₀ plan released s t ∧
        ∀ f ∈ t.executor.futures[index]?, (∃ outcome, f.status = .finished outcome) ∨
          f ∈ s.executor.futures[index]? ∧ ∀ outcome, f.status ≠ .running outcome) s := by
  refine Prog.wp_of_eq (leaveFuture_apply s index) ⟨rfl, ?_⟩
  rcases s.executor.leave_cases index with
    ⟨before, after, f, outcome, hsplit, hindex, hstatus, hleave⟩ | ⟨hother, hleave⟩
  · rw [hleave]
    refine ⟨⟨h.restatus ?_, ?_, ?_⟩, ?_⟩
    · simp [hsplit, Future.face, Future.frame, hstatus, FutureStatus.outcome]
    · simp [Executor.frame, hsplit, Future.frame]
    · intro hnone g hg
      rcases List.mem_append.mp hg with hg | hg
      · exact hnone g (by simp [hsplit, hg])
      · rcases List.mem_cons.mp hg with rfl | hg
        · simp
        · exact hnone g (by simp [hsplit, hg])
    · simp [← hindex]
  · rw [hleave]
    exact ⟨.refl h, fun f hf => .inr ⟨hf, hother f hf⟩⟩

theorem workerStep_spec {s : Session W C Cand State Obj} (step : WorkerStep)
    (hI : OracleKeeps job deadlineNs I)
    (h : Pool job deadlineNs I s₀ plan released s) :
    Prog.wp (workerStep job deadlineNs step)
      (fun r t => r = .ok () ∧ WorkersRan job deadlineNs I s₀ plan released s t) s := by
  cases step with
  | enter index =>
      exact Prog.wp_mono (enterFuture_spec index hI h) fun r t ht => ⟨ht.1, ht.2.1⟩
  | leave index =>
      exact Prog.wp_mono (leaveFuture_spec index h) fun r t ht => ⟨ht.1, ht.2.1⟩

theorem yieldToWorkers_spec {s : Session W C Cand State Obj}
    (hI : OracleKeeps job deadlineNs I)
    (h : Pool job deadlineNs I s₀ plan released s) :
    Prog.wp (yieldToWorkers job deadlineNs)
      (fun r t => r = .ok () ∧ WorkersRan job deadlineNs I s₀ plan released s t) s := by
  unfold yieldToWorkers modifyExecutor
  rw [Prog.wp_read_bind, Prog.wp_modify_bind]
  refine Prog.wp_forEach (fun _ t => WorkersRan job deadlineNs I s₀ plan released s t) ?_ ?_ _ _ ?_
  · intro step rest t ht
    refine Prog.wp_mono (workerStep_spec step hI ht.pool) ?_
    rintro r u ⟨rfl, hu⟩
    exact ht.trans hu
  · intro t ht
    exact ⟨rfl, ht⟩
  · exact ⟨h.restatus rfl, rfl, id⟩

/-! ### Owner steps -/

/-- The owner's view while it submits and gathers: nothing is cancelled, all submitted work is started. -/
structure Ready (job : Job W C Cand State Obj) (deadlineNs : Option Int) (I : W → Prop)
    (s₀ : Session W C Cand State Obj) (plan : List (Planned Cand))
    (s : Session W C Cand State Obj) : Prop where
  pool : Pool job deadlineNs I s₀ plan false s
  noneCancelled : NoneCancelled s
  allCounted : AllCounted s

theorem Ready.workersRan {s t : Session W C Cand State Obj}
    (h : Ready job deadlineNs I s₀ plan s) (hran : WorkersRan job deadlineNs I s₀ plan false s t) :
    Ready job deadlineNs I s₀ plan t :=
  ⟨hran.pool, hran.noneCancelled h.noneCancelled, h.allCounted.of_frame hran.frame⟩

/-- The plan's entry of a submitted future. -/
theorem PoolState.getElem? {s : Session W C Cand State Obj} {calls : List EvaluateCall} {index : Nat}
    {item : Planned Cand} (h : PoolState job deadlineNs I s₀ plan released calls s)
    (hlt : index < s.executor.futures.length) (hitem : plan[index]? = some item) :
    ∃ f, s.executor.futures[index]? = some f ∧ (f.keys, f.candidates, f.workBudget) = item.frame := by
  refine ⟨_, List.getElem?_eq_getElem hlt, ?_⟩
  have hget := congrArg (fun items => items[index]?) h.planned
  simp only [List.getElem?_map, List.getElem?_eq_getElem hlt, List.getElem?_take, hlt, if_true,
    hitem, Option.map_some, Option.some.injEq] at hget
  exact hget

/-- `future.result()` gives what the oracle answered for the future's part of the plan. -/
theorem awaitFuture_spec {s : Session W C Cand State Obj} {index : Nat} {item : Planned Cand}
    (hI : OracleKeeps job deadlineNs I)
    (h : Ready job deadlineNs I s₀ plan s) (hlt : index < s.executor.futures.length)
    (hitem : plan[index]? = some item) :
    Prog.wp (awaitFuture job deadlineNs index)
      (fun r t => Answered job deadlineNs I (item.1.map Prod.snd) item.2 r ∧
        Ready job deadlineNs I s₀ plan t ∧ t.executor.frame = s.executor.frame) s := by
  unfold awaitFuture
  refine Prog.wp_bind_of (yieldToWorkers_spec hI h.pool) ?_ (by rintro e t ⟨⟨⟩, -⟩)
  rintro - t ⟨-, hst⟩
  refine Prog.wp_bind_of (enterFuture_spec index hI hst.pool) ?_ (by rintro e t ⟨⟨⟩, -⟩)
  rintro - u ⟨-, htu, hentered⟩
  refine Prog.wp_bind_of (leaveFuture_spec index htu.pool) ?_ (by rintro e t ⟨⟨⟩, -⟩)
  rintro - v ⟨-, huv, hleft⟩
  have hsv := (hst.trans htu).trans huv
  rw [Prog.wp_read_bind]
  obtain ⟨calls, hpool⟩ := hsv.pool
  have hltv : index < v.executor.futures.length := by rwa [length_of_frame hsv.frame]
  obtain ⟨⟨keys, candidates, workBudget, counted, status⟩, hf, hframe⟩ := hpool.getElem? hltv hitem
  have hfinished : ∃ outcome, status = .finished outcome := by
    rcases hleft _ hf with hdone | ⟨hmem, hrunning⟩
    · exact hdone
    · have hqueued := hentered _ hmem
      have hcancelled := hsv.noneCancelled h.noneCancelled _ (List.mem_of_getElem? hf)
      cases status with
      | queued => exact absurd rfl hqueued
      | running outcome => exact absurd rfl (hrunning outcome)
      | finished outcome => exact ⟨outcome, rfl⟩
      | cancelled => exact absurd rfl hcancelled
  obtain ⟨outcome, rfl⟩ := hfinished
  rw [hf]
  have hanswer := hpool.answered _ (List.mem_of_getElem? hf) outcome rfl
  simp only [Planned.frame, Prod.mk.injEq] at hframe
  rw [← hframe.2.1, ← hframe.2.2]
  cases outcome with
  | ok values => exact ⟨hanswer, h.workersRan hsv, hsv.frame⟩
  | error error => exact ⟨hanswer, h.workersRan hsv, hsv.frame⟩

/-- The work planned for the first `count` parts. -/
def plannedWork (plan : List (Planned Cand)) (count : Nat) : Nat :=
  ((plan.take count).map Prod.snd).sum

theorem plannedWork_succ {plan : List (Planned Cand)} {count : Nat} {item : Planned Cand}
    (h : plan[count]? = some item) :
    plannedWork plan (count + 1) = plannedWork plan count + item.2 := by
  simp [plannedWork, List.take_add_one, h]

theorem plannedWork_le (plan : List (Planned Cand)) (count : Nat) :
    plannedWork plan count ≤ (plan.map Prod.snd).sum :=
  List.Sublist.sum_le_sum ((List.take_sublist count plan).map _) fun _ _ => Nat.zero_le _

/-- Once every submitted future is counted, the counted work is the work of the plan so far. -/
theorem PoolState.countedWork_eq {s : Session W C Cand State Obj} {calls : List EvaluateCall}
    (h : PoolState job deadlineNs I s₀ plan released calls s) (hcounted : AllCounted s) :
    countedWork s.executor.futures = plannedWork plan s.executor.futures.length := by
  have hwork := congrArg (List.map fun item => item.2.2) h.planned
  simp only [List.map_map, Function.comp_def, Planned.frame] at hwork
  unfold countedWork plannedWork
  rw [← hwork, List.filter_eq_self.mpr hcounted]

theorem submit_apply (entries : List (String × Cand)) (work : Nat)
    (s : Session W C Cand State Obj) :
    submit entries work s = (.ok (), { s with executor := { s.executor with
      futures := s.executor.futures ++
        [⟨entries.map Prod.fst, entries.map Prod.snd, work, false, .queued⟩] } }) := rfl

/-- The owner submits the next part of the plan; its work is not started yet. -/
theorem PoolState.submit {s : Session W C Cand State Obj} {calls : List EvaluateCall}
    {item : Planned Cand} {executor : Executor Cand State}
    (h : PoolState job deadlineNs I s₀ plan released calls s)
    (hitem : plan[s.executor.futures.length]? = some item)
    (hfutures : executor.futures = s.executor.futures ++
      [⟨item.1.map Prod.fst, item.1.map Prod.snd, item.2, false, .queued⟩]) :
    PoolState job deadlineNs I s₀ plan released calls { s with executor := executor } := by
  have hcounted : countedWork executor.futures = countedWork s.executor.futures := by
    rw [hfutures, countedWork_append]
    simp [countedWork]
  refine ⟨h.world, ?_, ?_, ?_, ?_, ?_, ?_, h.covered⟩
  · rw [hcounted]
    exact h.core
  · simp only [hfutures, List.map_append, List.length_append, List.length_singleton, h.planned,
      List.take_add_one, hitem]
    rfl
  · intro f hf
    simp only [hfutures, List.mem_append, List.mem_singleton] at hf
    rcases hf with hf | rfl
    · exact h.answered f hf
    · simp [FutureStatus.outcome]
  · simpa [hfutures, List.filter_append, Future.entered, FutureStatus.outcome] using h.handedOver
  · intro f hf
    simp only [hfutures, List.mem_append, List.mem_singleton] at hf
    rcases hf with hf | rfl
    · exact h.uncounted f hf
    · simp [Future.entered, FutureStatus.outcome]
  · rw [hcounted]
    exact h.ledgers

/-- The owner starts the work of the last submitted future. -/
theorem PoolState.start {s : Session W C Cand State Obj} {calls : List EvaluateCall}
    {init : List (Future Cand State)} {f : Future Cand State} {executor : Executor Cand State}
    (h : PoolState job deadlineNs I s₀ plan false calls s) (hsplit : s.executor.futures = init ++ [f])
    (hf : f.counted = false)
    (hfutures : executor.futures = init ++ [{ f with counted := true }]) :
    PoolState job deadlineNs I s₀ plan false calls
      { s with budget := s.budget.moved f.workBudget, executor := executor } := by
  have hbudget : s.budget = s₀.budget.moved (countedWork s.executor.futures) :=
    congrArg Core.budget h.core
  have hcounted : countedWork executor.futures =
      countedWork s.executor.futures + f.workBudget := by
    simp [hfutures, hsplit, countedWork, hf]
  have hface : executor.futures.map (fun f => (f.keys, f.candidates, f.workBudget)) =
      s.executor.futures.map (fun f => (f.keys, f.candidates, f.workBudget)) := by
    simp [hfutures, hsplit]
  refine ⟨h.world, ?_, ?_, ?_, ?_, ?_, ?_, h.covered⟩
  · have hcore := h.core
    rw [hcounted, BudgetLedger.after_false, ← BudgetLedger.moved_moved, ← hbudget]
    change s.core.withBudget _ = _
    rw [hcore]
    rfl
  · have hlength : executor.futures.length = s.executor.futures.length := by
      simp [hfutures, hsplit]
    rw [hlength, ← h.planned, hface]
  · intro g hg
    simp only [hfutures, List.mem_append, List.mem_singleton] at hg
    rcases hg with hg | rfl
    · exact h.answered g (by simp [hsplit, hg])
    · exact h.answered f (by simp [hsplit])
  · have hperm := h.handedOver
    have hcharges : (executor.futures.filter Future.entered).map Future.charge =
        (s.executor.futures.filter Future.entered).map Future.charge := by
      rw [hfutures, hsplit, List.filter_append, List.filter_append, List.map_append,
        List.map_append]
      by_cases hentered : f.status.outcome.isSome = true <;>
        simp [Future.entered, hentered, Future.charge]
    rwa [hcharges]
  · intro g hg hentered hfalse
    simp only [hfutures, List.mem_append, List.mem_singleton] at hg
    rcases hg with hg | rfl
    · exact h.uncounted g (by simp [hsplit, hg]) hentered hfalse
    · cases hfalse
  · intro call hmem
    obtain ⟨work, hle, hledger⟩ := h.ledgers call hmem
    exact ⟨work, by dsimp only; omega, hledger⟩

theorem startSubmitted_apply {s : Session W C Cand State Obj} {init : List (Future Cand State)}
    {f : Future Cand State} (hsplit : s.executor.futures = init ++ [f])
    (hle : f.workBudget ≤ s.budget.reserved) :
    startSubmitted f.workBudget s = (.ok (), { s with
      budget := s.budget.moved f.workBudget
      executor := { s.executor with futures := init ++ [{ f with counted := true }] } }) := by
  have hstart : startWork f.workBudget s =
      (.ok (), { s with budget := s.budget.moved f.workBudget }) := by
    simp only [startWork, BudgetLedger.start_eq_ok _ hle, BudgetLedger.moved]
  unfold startSubmitted
  rw [Prog.bind_apply_ok hstart]
  have hmodify : s.executor.futures.modify (s.executor.futures.length - 1)
      (fun f => { f with counted := true }) = init ++ [{ f with counted := true }] := by
    have hlt : init.length < (init ++ [f]).length := by simp
    rw [hsplit, List.length_append, List.length_singleton, Nat.add_sub_cancel,
      List.modify_eq_take_cons_drop hlt]
    simp
  simp only [modifyExecutor, Prog.modify_apply, hmodify]

/-- After a submission: workers may already run it, then the ledger starts its work. -/
theorem startLast_spec {s : Session W C Cand State Obj} {init : List (Future Cand State)}
    {f : Future Cand State}
    (hI : OracleKeeps job deadlineNs I)
    (h : Pool job deadlineNs I s₀ plan false s) (hnone : NoneCancelled s)
    (hsplit : s.executor.futures = init ++ [f]) (hf : f.counted = false)
    (hinit : ∀ g ∈ init, g.counted = true)
    (hle : countedWork init + f.workBudget ≤ s₀.budget.reserved) :
    Prog.wp (yieldToWorkers job deadlineNs >>= fun _ => startSubmitted f.workBudget)
      (fun r t => r = .ok () ∧ Ready job deadlineNs I s₀ plan t ∧
        t.executor.futures.length = s.executor.futures.length ∧
        t.executor.pending = s.executor.pending ∧
        t.executor.nextToSubmit = s.executor.nextToSubmit) s := by
  refine Prog.wp_bind_of (yieldToWorkers_spec hI h) ?_ (by rintro e t ⟨⟨⟩, -⟩)
  rintro - t ⟨-, hran⟩
  have hframe := futures_of_frame hran.frame
  rw [hsplit, List.map_append] at hframe
  obtain ⟨init', last, hsplit', hinit', hlast⟩ := List.map_eq_append_iff.mp hframe
  obtain ⟨f', rfl, hf'⟩ := List.map_eq_singleton_iff.mp hlast
  simp only [Future.frame, Prod.mk.injEq] at hf'
  obtain ⟨calls, hpool⟩ := hran.pool
  have hwork : countedWork t.executor.futures = countedWork init := by
    rw [hsplit', countedWork_append, countedWork_of_frame hinit']
    simp [countedWork, hf'.2.2.2, hf]
  have hbudget : t.budget = s₀.budget.moved (countedWork init) := by
    rw [← hwork]
    exact congrArg Core.budget hpool.core
  have hreserved : f'.workBudget ≤ t.budget.reserved := by
    rw [hbudget, hf'.2.2.1]
    simp only [BudgetLedger.moved]
    omega
  rw [← hf'.2.2.1]
  refine Prog.wp_of_eq (startSubmitted_apply hsplit' hreserved) ⟨rfl, ⟨?_, ?_, ?_⟩, ?_, ?_, ?_⟩
  · exact ⟨calls, hpool.start hsplit' (hf'.2.2.2.trans hf) rfl⟩
  · intro g hg
    have hold := hran.noneCancelled hnone
    rcases List.mem_append.mp hg with hg | hg
    · exact hold g (by simp [hsplit', hg])
    · rw [List.mem_singleton] at hg
      rw [hg]
      exact hold f' (by simp [hsplit'])
  · intro g hg
    rcases List.mem_append.mp hg with hg | hg
    · have hmem : g.frame ∈ init.map Future.frame := hinit' ▸ List.mem_map_of_mem hg
      obtain ⟨g', hg', heq⟩ := List.mem_map.mp hmem
      simp only [Future.frame, Prod.mk.injEq] at heq
      exact heq.2.2.2 ▸ hinit g' hg'
    · rw [List.mem_singleton] at hg
      rw [hg]
  · rw [← length_of_frame hran.frame, hsplit']
    simp
  · exact congrArg (fun frame => frame.2.1) hran.frame
  · exact congrArg (fun frame => frame.2.2) hran.frame

/-- The whole plan fits the reservation that the evaluation starts with. -/
def Fits (s₀ : Session W C Cand State Obj) (plan : List (Planned Cand)) : Prop :=
  (plan.map Prod.snd).sum ≤ s₀.budget.reserved

/-- The owner has just submitted the next part of the plan: its work is started next. -/
theorem startNext_spec {s : Session W C Cand State Obj} {item : Planned Cand}
    {executor : Executor Cand State}
    (hI : OracleKeeps job deadlineNs I)
    (hfits : Fits s₀ plan) (h : Ready job deadlineNs I s₀ plan s)
    (hitem : plan[s.executor.futures.length]? = some item)
    (hfutures : executor.futures = s.executor.futures ++
      [⟨item.1.map Prod.fst, item.1.map Prod.snd, item.2, false, .queued⟩]) :
    Prog.wp (yieldToWorkers job deadlineNs >>= fun _ => startSubmitted item.2)
      (fun r t => r = .ok () ∧ Ready job deadlineNs I s₀ plan t ∧
        t.executor.futures.length = s.executor.futures.length + 1 ∧
        t.executor.pending = executor.pending ∧
        t.executor.nextToSubmit = executor.nextToSubmit) { s with executor := executor } := by
  obtain ⟨calls, hpool⟩ := h.pool
  have hle : countedWork s.executor.futures + item.2 ≤ s₀.budget.reserved := by
    rw [hpool.countedWork_eq h.allCounted, ← plannedWork_succ hitem]
    exact (plannedWork_le plan _).trans hfits
  have hnone : NoneCancelled { s with executor := executor } := by
    intro f hf
    simp only [hfutures, List.mem_append, List.mem_singleton] at hf
    rcases hf with hf | rfl
    · exact h.noneCancelled f hf
    · simp
  refine Prog.wp_mono (startLast_spec hI ⟨calls, hpool.submit hitem hfutures⟩ hnone hfutures rfl
    h.allCounted hle) ?_
  rintro r t ⟨hr, hready, hlength, hpending, hnext⟩
  exact ⟨hr, hready, by simpa [hfutures] using hlength, hpending, hnext⟩

/-! ### Aborting -/

/-- The work of the futures that are not done is at most the work of the futures asked for. -/
theorem pendingWork_spec (live : List (Nat × Nat)) {s : Session W C Cand State Obj}
    (hI : OracleKeeps job deadlineNs I)
    (h : Pool job deadlineNs I s₀ plan released s) :
    Prog.wp (pendingWork job deadlineNs live)
      (fun r t => ∃ work, r = .ok work ∧ work ≤ (live.map Prod.snd).sum ∧
        WorkersRan job deadlineNs I s₀ plan released s t) s := by
  induction live generalizing s with
  | nil => exact ⟨0, rfl, Nat.zero_le _, .refl h⟩
  | cons item rest ih =>
      unfold pendingWork
      refine Prog.wp_bind_of (yieldToWorkers_spec hI h) ?_ (by rintro e t ⟨⟨⟩, -⟩)
      rintro - t ⟨-, hran⟩
      rw [Prog.wp_read_bind]
      refine Prog.wp_bind_of (ih hran.pool) ?_ (by rintro e u ⟨_, ⟨⟩, -⟩)
      rintro later u ⟨_, ⟨⟩, hle, hran'⟩
      rcases t.executor.futures[item.1]? with _ | f
      · exact ⟨later, rfl, by simp; omega, hran.trans hran'⟩
      · refine ⟨(if f.done then 0 else item.2) + later, rfl, ?_, hran.trans hran'⟩
        rw [List.map_cons, List.sum_cons]
        split <;> omega

/-- A queued future is cancelled; a running one goes on. -/
def Executor.cancel (executor : Executor Cand State) (index : Nat) : Executor Cand State :=
  match executor.futures[index]? with
  | some ⟨_, _, _, _, .queued⟩ => executor.setStatus index .cancelled
  | _ => executor

theorem Executor.cancel_cases (executor : Executor Cand State) (index : Nat) :
    (∃ before after f, executor.futures = before ++ f :: after ∧ f.status = .queued ∧
      executor.cancel index =
        { executor with futures := before ++ { f with status := .cancelled } :: after }) ∨
    executor.cancel index = executor := by
  rcases hfuture : executor.futures[index]? with
    _ | ⟨keys, candidates, workBudget, counted, status⟩
  · right
    simp [cancel, hfuture]
  · cases status with
    | queued =>
        left
        obtain ⟨before, after, hsplit, -, hmodify⟩ := exists_split hfuture
        refine ⟨before, after, _, hsplit, rfl, ?_⟩
        simp only [cancel, hfuture, setStatus, hmodify]
    | _ =>
        right
        simp [cancel, hfuture]

theorem cancelFuture_spec {s : Session W C Cand State Obj} (index : Nat)
    (hI : OracleKeeps job deadlineNs I)
    (h : Pool job deadlineNs I s₀ plan released s) :
    Prog.wp (cancelFuture job deadlineNs index)
      (fun r t => r = .ok () ∧ Pool job deadlineNs I s₀ plan released t ∧
        t.executor.frame = s.executor.frame) s := by
  refine Prog.wp_bind_of (yieldToWorkers_spec hI h) ?_ (by rintro e t ⟨⟨⟩, -⟩)
  rintro - t ⟨-, hran⟩
  refine Prog.wp_of_eq (t := { t with executor := t.executor.cancel index }) rfl ⟨rfl, ?_⟩
  rcases t.executor.cancel_cases index with ⟨before, after, f, hsplit, hstatus, hcancel⟩ | hcancel
  · rw [hcancel, ← hran.frame]
    refine ⟨hran.pool.restatus ?_, ?_⟩
    · simp [hsplit, Future.face, Future.frame, hstatus, FutureStatus.outcome]
    · simp [Executor.frame, hsplit, Future.frame]
  · rw [hcancel]
    exact ⟨hran.pool, hran.frame⟩

theorem PoolState.release {s : Session W C Cand State Obj} {calls : List EvaluateCall}
    (h : PoolState job deadlineNs I s₀ plan false calls s) :
    PoolState job deadlineNs I s₀ plan true calls
      { s with budget := s.budget.releaseReserved } := by
  have hbudget : s.budget = s₀.budget.moved (countedWork s.executor.futures) :=
    congrArg Core.budget h.core
  refine ⟨h.world, ?_, h.planned, h.answered, h.handedOver, h.uncounted, h.ledgers, h.covered⟩
  rw [BudgetLedger.after_true, ← hbudget]
  change s.core.withBudget _ = _
  rw [h.core]
  rfl

/-- After an abort nothing is reserved, and the live work it found is at most that of `live`. -/
theorem abortEvaluation_spec {s : Session W C Cand State Obj} (cause : PyExc)
    (live : List (Nat × Nat)) (capacity : Nat)
    (hI : OracleKeeps job deadlineNs I)
    (h : Pool job deadlineNs I s₀ plan false s) :
    Prog.wp (abortEvaluation job deadlineNs cause live capacity)
      (fun r t => ∃ pending, r = .ok ⟨cause, pending, capacity⟩ ∧
        pending ≤ (live.map Prod.snd).sum ∧ Pool job deadlineNs I s₀ plan true t ∧
        t.executor.frame = s.executor.frame) s := by
  unfold abortEvaluation
  refine Prog.wp_bind_of (pendingWork_spec live hI h) ?_ (by rintro e t ⟨_, ⟨⟩, -⟩)
  rintro pending t ⟨_, ⟨⟩, hle, hran⟩
  have hcancel : Prog.wp (Prog.forEach (fun item => cancelFuture job deadlineNs item.1) live)
      (fun r u => r = .ok () ∧ Pool job deadlineNs I s₀ plan false u ∧
        u.executor.frame = t.executor.frame) t := by
    refine Prog.wp_forEach
      (fun _ u => Pool job deadlineNs I s₀ plan false u ∧
        u.executor.frame = t.executor.frame) ?_ ?_ _ _ ⟨hran.pool, rfl⟩
    · rintro item rest u ⟨hpool, hframe⟩
      refine Prog.wp_mono (cancelFuture_spec item.1 hI hpool) ?_
      rintro r v ⟨rfl, hpool', hframe'⟩
      exact ⟨hpool', hframe'.trans hframe⟩
    · rintro u ⟨hpool, hframe⟩
      exact ⟨rfl, hpool, hframe⟩
  refine Prog.wp_bind_of hcancel ?_ (by rintro e t ⟨⟨⟩, -⟩)
  rintro - u ⟨-, ⟨calls, hpool⟩, hframe⟩
  exact ⟨pending, rfl, hle, ⟨calls, hpool.release⟩, hframe.trans hran.frame⟩

theorem shutdown_spec {s : Session W C Cand State Obj}
    (hI : OracleKeeps job deadlineNs I)
    (h : Pool job deadlineNs I s₀ plan released s) :
    Prog.wp (shutdown job deadlineNs)
      (fun r t => r = .ok () ∧ Pool job deadlineNs I s₀ plan released t ∧
        t.executor.frame = s.executor.frame) s := by
  unfold shutdown modifyExecutor
  refine Prog.wp_bind_of (yieldToWorkers_spec hI h) ?_ (by rintro e t ⟨⟨⟩, -⟩)
  rintro - t ⟨-, hran⟩
  rw [Prog.wp_modify]
  refine ⟨rfl, hran.pool.restatus ?_, ?_⟩
  · rw [List.map_map]
    refine List.map_congr_left fun f _ => ?_
    rcases f with ⟨keys, candidates, workBudget, counted, status⟩
    cases status <;> rfl
  · rw [← hran.frame]
    simp [Executor.frame, Future.frame]

end

end TxnOpt
