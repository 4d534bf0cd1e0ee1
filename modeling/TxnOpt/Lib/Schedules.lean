import Mathlib.Algebra.BigOperators.Group.Finset.Piecewise
import Mathlib.Data.List.Basic

/-!
# Schedules

A system of several parties takes one atomic step for each label, when the label may fire. A schedule is a
list of labels. Its invariants, the quantities that never grow along it, and the bound on its length are
all found from one step.
-/

namespace TxnOpt

variable {σ L : Type} (step : σ → L → Option σ)

/-- The state after a schedule, when each of its labels may fire in turn. -/
def runSchedule (s : σ) (labels : List L) : Option σ := labels.foldlM step s

variable {step} {s t u : σ} {label : L} {labels before after : List L}

@[simp]
theorem runSchedule_nil : runSchedule step s [] = some s := rfl

theorem runSchedule_cons :
    runSchedule step s (label :: labels) = (step s label).bind fun next => runSchedule step next labels := rfl

theorem runSchedule_append :
    runSchedule step s (before ++ after) = (runSchedule step s before).bind fun next => runSchedule step next after :=
  List.foldlM_append

theorem runSchedule_append_eq_some :
    runSchedule step s (before ++ after) = some u ↔
      ∃ t, runSchedule step s before = some t ∧ runSchedule step t after = some u := by
  rw [runSchedule_append, Option.bind_eq_some_iff]

theorem runSchedule_cons_eq_some :
    runSchedule step s (label :: labels) = some u ↔
      ∃ t, step s label = some t ∧ runSchedule step t labels = some u := by
  rw [runSchedule_cons, Option.bind_eq_some_iff]

theorem runSchedule_concat_eq_some :
    runSchedule step s (labels ++ [label]) = some u ↔
      ∃ t, runSchedule step s labels = some t ∧ step t label = some u := by
  rw [runSchedule_append_eq_some]
  constructor
  · intro h
    obtain ⟨t, ht, hu⟩ := h
    obtain ⟨v, hv, hlast⟩ := runSchedule_cons_eq_some.mp hu
    cases hlast
    exact ⟨t, ht, hv⟩
  · intro h
    obtain ⟨t, ht, hu⟩ := h
    exact ⟨t, ht, runSchedule_cons_eq_some.mpr ⟨u, hu, rfl⟩⟩

/-- A label that fired in a schedule, with the states around it. -/
theorem exists_fired (hrun : runSchedule step s labels = some u) (hlabel : label ∈ labels) :
    ∃ before after t t', labels = before ++ label :: after ∧ runSchedule step s before = some t ∧
      step t label = some t' ∧ runSchedule step t' after = some u := by
  obtain ⟨before, after, rfl⟩ := List.append_of_mem hlabel
  obtain ⟨t, ht, hrest⟩ := runSchedule_append_eq_some.mp hrun
  obtain ⟨t', ht', hafter⟩ := runSchedule_cons_eq_some.mp hrest
  exact ⟨before, after, t, t', rfl, ht, ht', hafter⟩

/-- The induction rule, with the labels that fired so far. -/
theorem runSchedule_induction (inv : List L → σ → Prop) (hinit : inv [] s)
    (hstep : ∀ labels label t t', runSchedule step s labels = some t → inv labels t → step t label = some t' →
      inv (labels ++ [label]) t') :
    ∀ {labels t}, runSchedule step s labels = some t → inv labels t := by
  intro labels
  induction labels using List.reverseRecOn with
  | nil =>
      intro t hrun
      cases hrun
      exact hinit
  | append_singleton labels label ih =>
      intro t hrun
      obtain ⟨middle, hmiddle, hlast⟩ := runSchedule_concat_eq_some.mp hrun
      exact hstep labels label middle t hmiddle (ih hmiddle) hlast

theorem runSchedule_invariant (inv : σ → Prop) (hstep : ∀ s label t, inv s → step s label = some t → inv t)
    (hrun : runSchedule step s labels = some t) (hs : inv s) : inv t :=
  runSchedule_induction (fun _ t => inv t) hs (fun _ label t t' _ ht hnext => hstep t label t' ht hnext) hrun

/-- A quantity that no step makes larger is no larger at the end of a schedule. -/
theorem le_of_runSchedule {α : Type} [Preorder α] (rank : σ → α)
    (hstep : ∀ s label t, step s label = some t → rank t ≤ rank s) (hrun : runSchedule step s labels = some t) :
    rank t ≤ rank s :=
  runSchedule_invariant (fun t => rank t ≤ rank s) (fun _ label _ hle hnext => (hstep _ label _ hnext).trans hle)
    hrun le_rfl

/-- Labels that each take one from a natural number can fire that many times. -/
theorem countP_le_of_decreasing (rank : σ → ℕ) (counted : L → Bool)
    (hstep : ∀ s label t, step s label = some t → rank t + (if counted label then 1 else 0) ≤ rank s)
    (hrun : runSchedule step s labels = some t) : labels.countP counted + rank t ≤ rank s := by
  refine runSchedule_induction (fun labels t => labels.countP counted + rank t ≤ rank s) ?_ ?_ hrun
  · simp
  · intro labels label t t' _ hle hnext
    have hless := hstep t label t' hnext
    rw [List.countP_append, List.countP_singleton]
    omega

/-! ### One party moves -/

variable {ι : Type} [DecidableEq ι]

/-- A sum over some of the parties after one of them has moved. -/
theorem sum_update_on {α M : Type} [AddCommMonoid M] (f : ι → α → M) (parties : ι → α) (moved : α) {i : ι}
    {among : Finset ι} (hi : i ∈ among) :
    ∑ j ∈ among, f j (Function.update parties i moved j) + f i (parties i) =
      ∑ j ∈ among, f j (parties j) + f i moved := by
  have hmoved : (fun j => f j (Function.update parties i moved j)) =
      Function.update (fun j => f j (parties j)) i (f i moved) := by
    funext j
    by_cases heq : j = i
    · rw [heq, Function.update_self, Function.update_self]
    · rw [Function.update_of_ne heq, Function.update_of_ne heq]
  rw [hmoved, Finset.sum_update_of_mem hi, Finset.sdiff_singleton_eq_erase, add_assoc,
    Finset.sum_erase_add _ _ hi, add_comm]

/-- A sum over the parties after one of them has moved. -/
theorem sum_update [Fintype ι] {α M : Type} [AddCommMonoid M] (f : ι → α → M) (parties : ι → α) (i : ι)
    (moved : α) :
    ∑ j, f j (Function.update parties i moved j) + f i (parties i) = ∑ j, f j (parties j) + f i moved :=
  sum_update_on f parties moved (Finset.mem_univ i)

end TxnOpt
