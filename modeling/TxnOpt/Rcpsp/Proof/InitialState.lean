import TxnOpt.Rcpsp.Parser
import TxnOpt.Rcpsp.Precedence
import Mathlib.Tactic.Common

/-!
# The initial order

`remaining` holds the activities that are not in the order yet, each with those of its predecessors that are
not either. Taking the least activity without any gives the least topological order, and a round without one
means a cycle.
-/

namespace TxnOpt.Rcpsp

variable {inst : RCPSPInstance} {nodes : List Int} {remaining : List (Int × List Int)}

/-- `remaining` describes the activities `nodes`. -/
structure Remaining (inst : RCPSPInstance) (nodes : List Int) (remaining : List (Int × List Int)) : Prop where
  keys : remaining.map Prod.fst = nodes
  nodup : nodes.Nodup
  predecessors : ∀ entry ∈ remaining, ∀ id, id ∈ entry.2 ↔ id ∈ nodes ∧ Precedes inst id entry.1

theorem remaining_start (inst : RCPSPInstance) : Remaining inst inst.ids
    (inst.activities.map fun activity => (activity.activityId, activity.predecessors)) := by
  refine ⟨by simp [RCPSPInstance.ids], inst.idsNodup, ?_⟩
  intro entry hentry id
  obtain ⟨activity, hactivity, hsame⟩ := List.mem_map.mp hentry
  rw [← hsame, precedes_iff hactivity]
  constructor
  · intro hid
    exact ⟨inst.predecessorsKnown activity hactivity id hid, hid⟩
  · exact And.right

theorem Remaining.ready_iff (h : Remaining inst nodes remaining) {node : Int} :
    ReadyIn (Precedes inst) nodes node ↔
      node ∈ (remaining.filter fun entry => entry.2.isEmpty).map Prod.fst := by
  simp only [List.mem_map, List.mem_filter, List.isEmpty_iff]
  constructor
  · intro hready
    obtain ⟨hnode, hnone⟩ := hready
    rw [← h.keys] at hnode
    obtain ⟨entry, hentry, hid⟩ := List.mem_map.mp hnode
    refine ⟨entry, ⟨hentry, ?_⟩, hid⟩
    rw [List.eq_nil_iff_forall_not_mem]
    intro id hmem
    obtain ⟨hlink, hprecedes⟩ := (h.predecessors entry hentry id).mp hmem
    rw [hid] at hprecedes
    exact hnone id hlink hprecedes
  · intro hready
    obtain ⟨entry, ⟨hentry, hempty⟩, hid⟩ := hready
    refine ⟨?_, ?_⟩
    · rw [← h.keys, ← hid]
      exact List.mem_map_of_mem hentry
    · intro link hlink hprecedes
      rw [← hid] at hprecedes
      have hmem := (h.predecessors entry hentry link).mpr ⟨hlink, hprecedes⟩
      rw [hempty] at hmem
      exact List.not_mem_nil hmem

theorem Remaining.isLeast_ready (h : Remaining inst nodes remaining) {ready : Int}
    (hready : readyActivity remaining = some ready) :
    IsLeast {node | ReadyIn (Precedes inst) nodes node} ready := by
  obtain ⟨hmem, hle⟩ := List.min?_eq_some_iff.mp hready
  refine ⟨h.ready_iff.mpr hmem, ?_⟩
  intro node hnode
  exact hle node (h.ready_iff.mp hnode)

theorem Remaining.stuck (h : Remaining inst nodes remaining) (hready : readyActivity remaining = none)
    (node : Int) : ¬ ReadyIn (Precedes inst) nodes node := by
  intro hnode
  have hmem := h.ready_iff.mp hnode
  rw [List.min?_eq_none_iff.mp hready] at hmem
  exact List.not_mem_nil hmem

/-- One round of the loop. -/
theorem Remaining.discard (h : Remaining inst nodes remaining) (ready : Int) :
    Remaining inst (nodes.erase ready) (discardActivity ready remaining) := by
  refine ⟨?_, h.nodup.erase ready, ?_⟩
  · rw [discardActivity, List.map_map, h.nodup.erase_eq_filter, ← h.keys, List.filter_map]
    simp [Function.comp_def, bne, beq_eq_decide]
  · intro entry hentry id
    obtain ⟨kept, hkept, hsame⟩ := List.mem_map.mp hentry
    rw [← hsame, List.mem_filter, h.predecessors kept (List.mem_filter.mp hkept).1, h.nodup.mem_erase_iff]
    simp [and_comm, and_assoc]

theorem takeReady_isLeast (h : Remaining inst nodes remaining) {order : List Int}
    (hresult : takeReady remaining = .ok order) :
    IsLeast {order | Topological (Precedes inst) nodes order} order := by
  fun_induction takeReady remaining generalizing nodes order with
  | case1 =>
      have hnodes : nodes = [] := h.keys.symm
      rw [hnodes, ← Except.ok.inj hresult]
      refine ⟨topological_nil, ?_⟩
      intro other hother
      rw [topological_nil_iff.mp hother]
  | case2 => cases hresult
  | case3 remaining hnonempty ready hready ih =>
      cases hrest : takeReady (discardActivity ready remaining) with
      | error error =>
          rw [hrest] at hresult
          cases hresult
      | ok rest =>
          rw [hrest] at hresult
          have horder : order = ready :: rest := (Except.ok.inj hresult).symm
          rw [horder]
          exact isLeast_topological Precedes.irrefl (h.isLeast_ready hready) (ih (h.discard ready) hrest)

theorem takeReady_cyclic (h : Remaining inst nodes remaining) {error : PyExc}
    (hresult : takeReady remaining = .error error) : Cyclic inst := by
  fun_induction takeReady remaining generalizing nodes with
  | case1 => cases hresult
  | case2 remaining hnonempty hready =>
      have hnodes : nodes ≠ [] := by
        rw [← h.keys]
        simpa using hnonempty
      exact exists_cycle_of_stuck hnodes (h.stuck hready)
  | case3 remaining hnonempty ready hready ih =>
      cases hrest : takeReady (discardActivity ready remaining) with
      | error raised =>
          rw [hrest] at hresult
          exact ih (h.discard ready) (hrest.trans hresult)
      | ok rest =>
          rw [hrest] at hresult
          cases hresult

theorem TopologicalOrder.acyclic {order : List Int} (h : TopologicalOrder inst order) : ¬ Cyclic inst := by
  intro hcyclic
  obtain ⟨id, hcycle⟩ := hcyclic
  apply Topological.acyclic Precedes.irrefl h _ id hcycle
  intro link node hprecedes
  exact ⟨hprecedes.left_known, hprecedes.right_known⟩

/-- The constructor accepts a topological order with as many modes. -/
theorem TopologicalOrder.new {order : List Int} (h : TopologicalOrder inst order) :
    ∃ state, RCPSPState.new order (List.replicate order.length 0) = .ok state ∧ state.activityOrder = order ∧
      state.modeVector = List.replicate order.length 0 := by
  have hnonempty : order ≠ [] := by
    intro hnil
    have hids := h.1
    rw [hnil] at hids
    exact inst.activitiesNonempty (List.map_eq_nil_iff.mp hids.symm.eq_nil)
  have hnodup : order.Nodup := h.1.symm.nodup inst.idsNodup
  have hnonneg : ∀ id ∈ order, 0 ≤ id := by
    intro id hid
    obtain ⟨activity, -, hactivityId⟩ := List.mem_map.mp (h.1.subset hid)
    rw [← hactivityId]
    exact activity.idNonneg
  have haligned : (List.replicate order.length 0).length = order.length := List.length_replicate
  refine ⟨⟨order, List.replicate order.length 0, hnonempty, hnodup, hnonneg, haligned⟩, ?_, rfl, rfl⟩
  rw [RCPSPState.new, dif_pos hnonempty, dif_pos hnodup, dif_pos hnonneg, dif_pos haligned]

/-- The initial state exists exactly when the precedence graph has no cycle, and its order is the least of
all topological orders. -/
theorem precedenceFeasibleInitialState_exact (inst : RCPSPInstance) :
    ((∃ error, precedenceFeasibleInitialState inst = .error error) ↔ Cyclic inst) ∧
    ∀ state, precedenceFeasibleInitialState inst = .ok state →
      IsLeast {order | TopologicalOrder inst order} state.activityOrder ∧
        state.modeVector = List.replicate state.activityOrder.length 0 := by
  unfold precedenceFeasibleInitialState
  cases hresult : takeReady
      (inst.activities.map fun activity => (activity.activityId, activity.predecessors)) with
  | error error =>
      have hcyclic := takeReady_cyclic (remaining_start inst) hresult
      refine ⟨⟨fun _ => hcyclic, fun _ => ⟨error, rfl⟩⟩, ?_⟩
      intro state hstate
      cases hstate
  | ok order =>
      have hleast : IsLeast {order | TopologicalOrder inst order} order :=
        takeReady_isLeast (remaining_start inst) hresult
      obtain ⟨initial, hnew, horder, hmodes⟩ := hleast.1.new
      change ((∃ error, RCPSPState.new order _ = .error error) ↔ _) ∧
        ∀ state, RCPSPState.new order _ = .ok state → _
      rw [hnew]
      refine ⟨⟨?_, ?_⟩, ?_⟩
      · intro hraised
        obtain ⟨error, herror⟩ := hraised
        cases herror
      · intro hcyclic
        exact absurd hcyclic hleast.1.acyclic
      · intro state hstate
        rw [← Except.ok.inj hstate, horder, hmodes]
        exact ⟨hleast, rfl⟩

end TxnOpt.Rcpsp
