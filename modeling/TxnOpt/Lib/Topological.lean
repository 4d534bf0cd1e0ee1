import Mathlib.Data.List.Lex
import Mathlib.Data.List.Perm.Basic
import Mathlib.Logic.Relation
import Mathlib.Order.Bounds.Basic
import Mathlib.Order.WellFoundedSet

/-!
# Topological orders

The orders of finitely many nodes that respect a relation. A node is ready when nothing precedes it: an
order starts with a ready node and goes on with an order of the rest, so taking the least ready node each
time gives the lexicographically least order, and getting stuck means a cycle.
-/

namespace TxnOpt

variable {α : Type} {before : α → α → Prop}

/-- All of `nodes`, none of them before a node that precedes it. -/
def Topological (before : α → α → Prop) (nodes order : List α) : Prop :=
  order.Perm nodes ∧ order.Pairwise fun earlier later => ¬ before later earlier

/-- A node that no other node precedes. -/
def ReadyIn (before : α → α → Prop) (nodes : List α) (node : α) : Prop :=
  node ∈ nodes ∧ ∀ link ∈ nodes, ¬ before link node

theorem topological_nil : Topological before [] [] := ⟨.refl _, .nil⟩

theorem topological_nil_iff {order : List α} : Topological before [] order ↔ order = [] := by
  constructor
  · intro h
    exact h.1.eq_nil
  · intro h
    rw [h]
    exact topological_nil

theorem Topological.ready (hirrefl : ∀ node, ¬ before node node) {nodes rest : List α} {first : α}
    (h : Topological before nodes (first :: rest)) : ReadyIn before nodes first := by
  obtain ⟨hperm, hpairwise⟩ := h
  refine ⟨hperm.subset List.mem_cons_self, ?_⟩
  intro link hlink
  cases List.mem_cons.mp (hperm.symm.subset hlink) with
  | inl hsame =>
      rw [hsame]
      exact hirrefl first
  | inr hrest => exact List.rel_of_pairwise_cons hpairwise hrest

variable [DecidableEq α]

theorem Topological.tail {nodes rest : List α} {first : α} (h : Topological before nodes (first :: rest)) :
    Topological before (nodes.erase first) rest := by
  obtain ⟨hperm, hpairwise⟩ := h
  exact ⟨List.cons_perm_iff_perm_erase.mp hperm |>.2, hpairwise.of_cons⟩

/-- A ready node, then an order of the rest. -/
theorem ReadyIn.topological {nodes rest : List α} {first : α} (hready : ReadyIn before nodes first)
    (hrest : Topological before (nodes.erase first) rest) : Topological before nodes (first :: rest) := by
  refine ⟨List.cons_perm_iff_perm_erase.mpr ⟨hready.1, hrest.1⟩, ?_⟩
  rw [List.pairwise_cons]
  refine ⟨?_, hrest.2⟩
  intro later hlater
  exact hready.2 later (List.mem_of_mem_erase (hrest.1.subset hlater))

/-- Along a topological order, a step leads forward. -/
theorem Topological.idxOf_lt (hirrefl : ∀ node, ¬ before node node) {nodes order : List α}
    (h : Topological before nodes order) {link node : α} (hlink : link ∈ order) (hnode : node ∈ order)
    (hbefore : before link node) : order.idxOf link < order.idxOf node := by
  by_contra hle
  rw [not_lt] at hle
  by_cases hsame : order.idxOf node = order.idxOf link
  · rw [(List.idxOf_inj hnode).mp hsame] at hbefore
    exact hirrefl link hbefore
  · have hpairwise := List.pairwise_iff_getElem.mp h.2 (order.idxOf node) (order.idxOf link)
      (List.idxOf_lt_length_iff.mpr hnode) (List.idxOf_lt_length_iff.mpr hlink) (lt_of_le_of_ne hle hsame)
    rw [List.getElem_idxOf, List.getElem_idxOf] at hpairwise
    exact hpairwise hbefore

theorem Topological.acyclic (hirrefl : ∀ node, ¬ before node node) {nodes order : List α}
    (h : Topological before nodes order)
    (hknown : ∀ link node, before link node → link ∈ nodes ∧ node ∈ nodes) (node : α) :
    ¬ Relation.TransGen before node node := by
  intro hcycle
  have hforward : ∀ {first last}, Relation.TransGen before first last →
      order.idxOf first < order.idxOf last := by
    intro first last hpath
    induction hpath with
    | single hstep =>
        obtain ⟨hlink, hnode⟩ := hknown _ _ hstep
        exact h.idxOf_lt hirrefl (h.1.symm.subset hlink) (h.1.symm.subset hnode) hstep
    | tail _ hstep ih =>
        obtain ⟨hlink, hnode⟩ := hknown _ _ hstep
        exact lt_trans ih (h.idxOf_lt hirrefl (h.1.symm.subset hlink) (h.1.symm.subset hnode) hstep)
  exact lt_irrefl _ (hforward hcycle)

omit [DecidableEq α] in
/-- Finitely many nodes without a ready one contain a cycle. -/
theorem exists_cycle_of_stuck {nodes : List α} (hnodes : nodes ≠ []) (hstuck : ∀ node, ¬ ReadyIn before nodes node) :
    ∃ node, Relation.TransGen before node node := by
  by_contra hacyclic
  rw [not_exists] at hacyclic
  have horder : IsStrictOrder α (Relation.TransGen before) :=
    { irrefl := hacyclic, trans := fun _ _ _ => Relation.TransGen.trans }
  have hwf := Set.Finite.wellFoundedOn (r := Relation.TransGen before) (s := {node | node ∈ nodes})
    (List.finite_toSet nodes)
  obtain ⟨some, hsome⟩ := List.exists_mem_of_ne_nil _ hnodes
  obtain ⟨first, hfirst, hleast⟩ := hwf.has_min Set.univ ⟨⟨some, hsome⟩, Set.mem_univ _⟩
  apply hstuck first.1
  refine ⟨first.2, ?_⟩
  intro link hlink hbefore
  exact hleast ⟨link, hlink⟩ (Set.mem_univ _) (.single hbefore)

/-- The least ready node first, then the least order of the rest. -/
theorem isLeast_topological {α : Type} [LinearOrder α] {before : α → α → Prop}
    (hirrefl : ∀ node, ¬ before node node) {nodes rest : List α} {first : α}
    (hfirst : IsLeast {node | ReadyIn before nodes node} first)
    (hrest : IsLeast {order | Topological before (nodes.erase first) order} rest) :
    IsLeast {order | Topological before nodes order} (first :: rest) := by
  refine ⟨hfirst.1.topological hrest.1, ?_⟩
  intro other hother
  cases other with
  | nil =>
      have hnil : nodes = [] := hother.1.symm.eq_nil
      rw [hnil] at hfirst
      exact absurd hfirst.1.1 List.not_mem_nil
  | cons head tail =>
      have hhead := hfirst.2 (Topological.ready hirrefl hother)
      by_cases hsame : first = head
      · rw [hsame] at hrest ⊢
        exact List.cons_le_cons head (hrest.2 hother.tail)
      · apply le_of_lt
        exact List.cons_lt_cons_iff.mpr (.inl (lt_of_le_of_ne hhead hsame))

end TxnOpt
