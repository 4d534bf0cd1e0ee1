import TxnOpt.Formal.AtomicBatch

/-!
# The atomic model is safe

Before the commit nothing is visible, and the commit publishes the whole batch: one inductive invariant
gives the six that the model checker is given, for any number of candidates.
-/

namespace TxnOpt

namespace AtomicBatch

variable {candidateCount : Nat}

theorem seqToSet_candidateOrder :
    seqToSet (candidateOrder candidateCount) = candidateIndices candidateCount := by
  ext candidate
  simp only [seqToSet, candidateOrder, candidateIndices, List.mem_toFinset, List.mem_map,
    List.mem_range, List.length_map, List.length_range, Finset.mem_Icc]
  constructor
  · intro hmem
    obtain ⟨index, hindex, hcandidate⟩ := hmem
    omega
  · intro hbounds
    exact ⟨(candidate - 1).toNat, by omega, by omega⟩

/-- What every reachable state keeps. -/
structure Kept (candidateCount : Nat) (s : BatchState) : Prop where
  pending : s.pending ⊆ candidateIndices candidateCount
  completed : s.completed ⊆ candidateIndices candidateCount
  disjoint : s.pending ∩ s.completed = ∅
  hidden : s.txnPhase ≠ .committed → s.committedTrace = [] ∧ s.cacheVisible = ∅
  published : s.txnPhase = .committed → s.terminated = false ∧
    s.committedTrace = candidateOrder candidateCount ∧
    s.cacheVisible = candidateIndices candidateCount

theorem Kept.initial (s : BatchState) (h : Init candidateCount s) : Kept candidateCount s := by
  obtain ⟨-, rfl⟩ := h
  refine ⟨Finset.Subset.refl _, Finset.empty_subset _, Finset.inter_empty _, ?_, ?_⟩
  · intro _
    exact ⟨rfl, rfl⟩
  · intro hphase
    cases hphase

/-- A step to another phase than the committed one publishes nothing. -/
theorem Kept.moves {s : BatchState} (h : Kept candidateCount s) (hphase : s.txnPhase ≠ .committed)
    {phase : TxnPhase} (hnext : phase ≠ .committed) :
    Kept candidateCount { s with txnPhase := phase } := by
  refine ⟨h.pending, h.completed, h.disjoint, ?_, ?_⟩
  · intro _
    exact h.hidden hphase
  · intro hcommitted
    exact absurd hcommitted hnext

theorem Kept.completes {s : BatchState} (h : Kept candidateCount s) {candidate : ℤ}
    (hpending : candidate ∈ s.pending) :
    Kept candidateCount { s with
      pending := s.pending \ {candidate}
      completed := s.completed ∪ {candidate} } := by
  refine ⟨?_, ?_, ?_, h.hidden, h.published⟩
  · exact Finset.sdiff_subset.trans h.pending
  · apply Finset.union_subset h.completed
    exact Finset.singleton_subset_iff.mpr (h.pending hpending)
  · ext other
    have hnone : other ∉ s.pending ∩ s.completed := by
      rw [h.disjoint]
      exact Finset.notMem_empty other
    simp only [Finset.mem_inter, Finset.mem_sdiff, Finset.mem_union, Finset.mem_singleton,
      Finset.notMem_empty, iff_false] at hnone ⊢
    tauto

theorem Kept.next (s t : BatchState) (h : Kept candidateCount s) (hnext : Next candidateCount s t) :
    Kept candidateCount t := by
  rcases hnext with hstep | hstep | ⟨candidate, hmem, hstep⟩ | hstep | hstep | hstep
  · obtain ⟨-, hphase, rfl⟩ := hstep
    exact h.moves (by rw [hphase]; decide) (by decide)
  · obtain ⟨-, hphase, rfl⟩ := hstep
    exact h.moves (by rw [hphase]; decide) (by decide)
  · obtain ⟨-, -, -, rfl⟩ := hstep
    exact h.completes hmem
  · obtain ⟨-, hphase, -, rfl⟩ := hstep
    exact h.moves (by rw [hphase]; decide) (by decide)
  · obtain ⟨hrunning, -, rfl⟩ := hstep
    refine ⟨h.pending, h.completed, h.disjoint, ?_, ?_⟩
    · intro hphase
      exact absurd rfl hphase
    · intro _
      exact ⟨hrunning, rfl, rfl⟩
  · obtain ⟨-, hphase, phase, hchosen, rfl⟩ := hstep
    have hnot : phase ≠ .committed := by
      rcases hchosen with rfl | rfl <;> decide
    refine ⟨Finset.empty_subset _, Finset.empty_subset _, Finset.empty_inter _, ?_, ?_⟩
    · intro _
      exact h.hidden hphase
    · intro hcommitted
      exact absurd hcommitted hnot

theorem Kept.safe {s : BatchState} (h : Kept candidateCount s) : Safe candidateCount s := by
  by_cases hphase : s.txnPhase = .committed
  · obtain ⟨hrunning, htrace, hcache⟩ := h.published hphase
    refine ⟨⟨h.pending, h.completed, h.disjoint, ?_, hcache.subset⟩, .inr htrace, ?_, ?_, ?_, ?_⟩
    · intro candidate hmem
      rw [htrace] at hmem
      rw [← seqToSet_candidateOrder]
      exact List.mem_toFinset.mpr hmem
    · rw [CacheOnlyAfterCommit, htrace, hcache, seqToSet_candidateOrder]
    · exact h.hidden
    · intro _
      exact ⟨htrace, hcache⟩
    · intro hterminated
      rw [hrunning] at hterminated
      cases hterminated
  · obtain ⟨htrace, hcache⟩ := h.hidden hphase
    refine ⟨⟨h.pending, h.completed, h.disjoint, ?_, ?_⟩, .inl htrace, ?_, h.hidden, ?_, ?_⟩
    · intro candidate hmem
      rw [htrace] at hmem
      cases hmem
    · rw [hcache]
      exact Finset.empty_subset _
    · rw [CacheOnlyAfterCommit, htrace, hcache]
      rfl
    · intro hcommitted
      exact absurd hcommitted hphase
    · intro _
      exact ⟨htrace, hcache⟩

/-- Every reachable state of the atomic model is safe. -/
theorem safe_of_reachable {s : BatchState} (h : (system candidateCount).Reachable s) :
    Safe candidateCount s :=
  (h.invariant Kept.initial Kept.next).safe

end AtomicBatch

end TxnOpt
