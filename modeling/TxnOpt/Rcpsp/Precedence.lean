import TxnOpt.Lib.Keys
import TxnOpt.Lib.Topological
import TxnOpt.Rcpsp.Model

/-!
# The precedence graph of an instance

What the predecessor lists of an instance mean: a relation between activities, its chains, and the orders
that it allows.
-/

namespace TxnOpt.Rcpsp

/-- `predecessor` is listed as a predecessor of `activityId`. -/
def Precedes (inst : RCPSPInstance) (predecessor activityId : Int) : Prop :=
  ∃ activity ∈ inst.activities, activity.activityId = activityId ∧ predecessor ∈ activity.predecessors

/-- Activities of the instance, each a predecessor of the next. -/
structure PrecedenceChain (inst : RCPSPInstance) (chain : List Int) : Prop where
  nonempty : chain ≠ []
  known : ∀ id ∈ chain, id ∈ inst.ids
  linked : chain.IsChain (Precedes inst)

/-- All activities, none of them before one of its predecessors. -/
def TopologicalOrder (inst : RCPSPInstance) (order : List Int) : Prop :=
  Topological (Precedes inst) inst.ids order

/-- Some activity precedes itself through a chain. -/
def Cyclic (inst : RCPSPInstance) : Prop := ∃ id, Relation.TransGen (Precedes inst) id id

variable {inst : RCPSPInstance}

theorem precedes_iff {activity : Activity} (hactivity : activity ∈ inst.activities) {predecessor : Int} :
    Precedes inst predecessor activity.activityId ↔ predecessor ∈ activity.predecessors := by
  constructor
  · intro h
    obtain ⟨other, hother, hid, hpredecessor⟩ := h
    rwa [eq_of_key_eq inst.idsNodup hother hactivity hid] at hpredecessor
  · intro hpredecessor
    exact ⟨activity, hactivity, rfl, hpredecessor⟩

theorem Precedes.left_known {predecessor activityId : Int} (h : Precedes inst predecessor activityId) :
    predecessor ∈ inst.ids := by
  obtain ⟨activity, hactivity, -, hpredecessor⟩ := h
  exact inst.predecessorsKnown activity hactivity predecessor hpredecessor

theorem Precedes.right_known {predecessor activityId : Int} (h : Precedes inst predecessor activityId) :
    activityId ∈ inst.ids := by
  obtain ⟨activity, hactivity, hid, -⟩ := h
  rw [← hid]
  exact List.mem_map_of_mem hactivity

theorem Precedes.irrefl (activityId : Int) : ¬ Precedes inst activityId activityId := by
  intro h
  obtain ⟨activity, -, hid, hpredecessor⟩ := h
  rw [← hid] at hpredecessor
  exact activity.notOwnPredecessor hpredecessor

/-- A chain of known activities is a chain to one of them. -/
theorem precedenceChain_snoc {chain : List Int} {last : Int} (hlast : last ∈ inst.ids) :
    PrecedenceChain inst (chain ++ [last]) ↔ (chain ++ [last]).IsChain (Precedes inst) := by
  constructor
  · exact PrecedenceChain.linked
  · intro hchain
    refine ⟨by simp, ?_, hchain⟩
    induction chain with
    | nil => simpa using hlast
    | cons first chain ih =>
        rw [List.cons_append] at hchain ⊢
        obtain ⟨hfirst, hrest⟩ := List.isChain_cons.mp hchain
        rw [List.forall_mem_cons]
        refine ⟨?_, ih hrest⟩
        obtain ⟨next, hnext⟩ := Option.isSome_iff_exists.mp
          (List.isSome_head?.mpr (List.append_ne_nil_of_right_ne_nil chain (List.cons_ne_nil last [])))
        exact (hfirst next hnext).left_known

end TxnOpt.Rcpsp
