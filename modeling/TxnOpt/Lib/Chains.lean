import Mathlib.Algebra.BigOperators.Group.List.Basic
import Mathlib.Algebra.GroupWithZero.Nat
import Mathlib.Data.List.Chain
import Mathlib.Order.Bounds.Basic
import Mathlib.Order.Nat

/-!
# Weighted chains

The chains of a relation, weighed by their members. The greatest weight of a chain that ends in a node is one
step from the greatest weights of its predecessors, and a function that grows by the weight along every step
bounds every chain.
-/

namespace TxnOpt

variable {α : Type} {before : α → α → Prop} {weight : α → ℕ}

/-- The weights of the chains that end in `last`. -/
def chainWeights (before : α → α → Prop) (weight : α → ℕ) (last : α) : Set ℕ :=
  {total | ∃ chain : List α, (chain ++ [last]).IsChain before ∧ ((chain ++ [last]).map weight).sum = total}

theorem isChain_snoc {chain : List α} {link last : α} :
    (chain ++ [link] ++ [last]).IsChain before ↔ (chain ++ [link]).IsChain before ∧ before link last := by
  rw [List.isChain_append]
  simp

theorem sum_map_snoc (chain : List α) (last : α) :
    ((chain ++ [last]).map weight).sum = (chain.map weight).sum + weight last := by
  simp

theorem weight_mem_chainWeights (last : α) : weight last ∈ chainWeights before weight last :=
  ⟨[], List.isChain_singleton last, by simp⟩

theorem add_mem_chainWeights {link last : α} (hbefore : before link last) {total : ℕ}
    (htotal : total ∈ chainWeights before weight link) :
    total + weight last ∈ chainWeights before weight last := by
  obtain ⟨chain, hchain, hsum⟩ := htotal
  refine ⟨chain ++ [link], isChain_snoc.mpr ⟨hchain, hbefore⟩, ?_⟩
  rw [sum_map_snoc, hsum]

/-- A chain is one node, or a chain to a predecessor and one step. -/
theorem chainWeights_cases {last : α} {total : ℕ} (htotal : total ∈ chainWeights before weight last) :
    total = weight last ∨
      ∃ link, before link last ∧ ∃ shorter ∈ chainWeights before weight link, total = shorter + weight last := by
  obtain ⟨chain, hchain, hsum⟩ := htotal
  rw [sum_map_snoc] at hsum
  cases chain using List.reverseRecOn with
  | nil =>
      left
      rw [← hsum]
      simp
  | append_singleton chain link =>
      right
      obtain ⟨hshorter, hbefore⟩ := isChain_snoc.mp hchain
      exact ⟨link, hbefore, _, ⟨chain, hshorter, rfl⟩, hsum.symm⟩

/-- The recursion of the longest chain. -/
theorem isGreatest_chainWeights {last : α} {previous : List α} {value : α → ℕ}
    (hprevious : ∀ link, before link last ↔ link ∈ previous)
    (hvalue : ∀ link ∈ previous, IsGreatest (chainWeights before weight link) (value link)) :
    IsGreatest (chainWeights before weight last) (((previous.map value).max?).getD 0 + weight last) := by
  constructor
  · cases hmax : (previous.map value).max? with
    | none =>
        rw [Option.getD_none, Nat.zero_add]
        exact weight_mem_chainWeights last
    | some longest =>
        obtain ⟨link, hlink, hlongest⟩ := List.mem_map.mp (List.max?_mem hmax)
        rw [Option.getD_some, ← hlongest]
        exact add_mem_chainWeights ((hprevious link).mpr hlink) (hvalue link hlink).1
  · intro total htotal
    cases chainWeights_cases htotal with
    | inl hsingle => omega
    | inr hstep =>
        obtain ⟨link, hbefore, shorter, hshorter, hsum⟩ := hstep
        have hlink := (hprevious link).mp hbefore
        have hle := (hvalue link hlink).2 hshorter
        cases hmax : (previous.map value).max? with
        | none =>
            rw [List.max?_eq_none_iff, List.map_eq_nil_iff] at hmax
            rw [hmax] at hlink
            exact absurd hlink List.not_mem_nil
        | some longest =>
            have hlongest := (List.max?_eq_some_iff.mp hmax).2 _ (List.mem_map_of_mem hlink)
            rw [Option.getD_some]
            omega

/-- What grows by the weight along every step is at least the weight of the chain. -/
theorem sum_chain_le {finish : α → Int} (hstep : ∀ link last, before link last →
    finish link + weight last ≤ finish last) (chain : List α) {last : α}
    (hchain : (chain ++ [last]).IsChain before) (hfirst : ∀ node ∈ chain ++ [last], (weight node : Int) ≤ finish node) :
    (((chain ++ [last]).map weight).sum : Int) ≤ finish last := by
  induction chain using List.reverseRecOn generalizing last with
  | nil => simpa using hfirst last
  | append_singleton chain link ih =>
      obtain ⟨hshorter, hbefore⟩ := isChain_snoc.mp hchain
      have hle := ih hshorter fun node hnode => hfirst node (List.mem_append_left _ hnode)
      have hlast := hstep link last hbefore
      rw [sum_map_snoc]
      push_cast at hle ⊢
      omega

end TxnOpt
