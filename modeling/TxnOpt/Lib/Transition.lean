import Mathlib.Logic.Relation

/-!
# Transition systems

Reachable states, invariants, and stuttering refinement between two systems given by an initial
predicate and a next-state relation.
-/

namespace TxnOpt

/-- An initial predicate and a next-state relation. -/
structure System (σ : Type) where
  init : σ → Prop
  next : σ → σ → Prop

namespace System

variable {σ τ : Type}

/-- The states that some initial state leads to. -/
inductive Reachable (system : System σ) : σ → Prop
  | init {s : σ} : system.init s → system.Reachable s
  | step {s t : σ} : system.Reachable s → system.next s t → system.Reachable t

/-- The induction rule: a predicate that holds initially and that every step keeps. -/
theorem Reachable.invariant {system : System σ} {inv : σ → Prop} (hinit : ∀ s, system.init s → inv s)
    (hstep : ∀ s t, inv s → system.next s t → inv t) {s : σ} (h : system.Reachable s) : inv s := by
  induction h with
  | init hs => exact hinit _ hs
  | step _ hnext ih => exact hstep _ _ ih hnext

/-- Every step of `concrete` from a reachable state is, through `project`, a step of `abstract` or
changes nothing. -/
structure Refines (concrete : System σ) (abstract : System τ) (project : σ → τ) : Prop where
  init : ∀ s, concrete.init s → abstract.init (project s)
  step : ∀ s t, concrete.Reachable s → concrete.next s t →
    abstract.next (project s) (project t) ∨ project t = project s

theorem Refines.reachable {concrete : System σ} {abstract : System τ} {project : σ → τ}
    (h : Refines concrete abstract project) {s : σ} (hs : concrete.Reachable s) :
    abstract.Reachable (project s) := by
  induction hs with
  | init hinit => exact .init (h.init _ hinit)
  | @step s t hs hnext ih =>
      rcases h.step s t hs hnext with hstep | hstutter
      · exact .step ih hstep
      · rw [hstutter]
        exact ih

end System

end TxnOpt
