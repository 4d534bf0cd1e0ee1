import TxnOpt.Formal.OrderedPlusCal
import TxnOpt.Formal.Proof.AtomicBatch

/-!
# The concurrent design refines the atomic model

`Coupled` relates the program counters to the phase and the pending set. With it every step of the
design is a step of the atomic model or changes none of its variables, so the invariants carry over.
-/

namespace TxnOpt

namespace OrderedPlusCal

open AtomicBatch

variable {candidateCount : Nat}

/-- Where the owner stands, as long as nothing has failed. -/
def OwnerAt (vars : BatchState) : Label → Prop
  | .reserve => vars.txnPhase = .prepared
  | .startEvaluation => vars.txnPhase = .reserved
  | .awaitBatch => vars.txnPhase = .evaluating
  | .validate => vars.txnPhase = .evaluating ∧ vars.pending = ∅
  | .commit => vars.txnPhase = .validated ∧ vars.pending = ∅
  | .doneOwner | .done => vars.txnPhase = .committed
  | _ => False

/-- The program counters agree with the variables. -/
structure Coupled (candidateCount : Nat) (s : State) : Prop where
  owner : s.vars.terminated = false → OwnerAt s.vars (s.pc 0)
  failed : s.vars.terminated = true → s.pc (-1) ≠ .chooseFailure
  waiting : s.vars.terminated = false → ∀ self ∈ candidateIndices candidateCount,
    s.pc self = .awaitEvaluation → self ∈ s.vars.pending
  working : s.vars.terminated = false → ∀ self ∈ candidateIndices candidateCount,
    s.pc self = .complete → self ∈ s.vars.pending ∧ s.vars.txnPhase = .evaluating

theorem pos_of_mem {self : ℤ} (h : self ∈ candidateIndices candidateCount) : 0 < self := by
  have hbounds := Finset.mem_Icc.mp h
  omega

section

variable {s : State} {self other : ℤ} {label : Label} {vars : BatchState}

@[simp] theorem goto_vars : (s.goto self label vars).vars = vars := rfl

@[simp] theorem goto_pc : (s.goto self label vars).pc self = label := Function.update_self _ _ _

theorem goto_pc_of_ne (h : other ≠ self) : (s.goto self label vars).pc other = s.pc other :=
  Function.update_of_ne h _ _

/-- The owner moves to a label that fits the new variables; it withdraws no work from a worker that is
about to complete. -/
theorem Coupled.owner_moves (h : Coupled candidateCount s)
    (hterminated : vars.terminated = s.vars.terminated) (hpending : vars.pending = s.vars.pending)
    (howner : s.vars.terminated = false → OwnerAt vars label)
    (hevaluating : s.vars.terminated = false → s.vars.pending ≠ ∅ →
      s.vars.txnPhase = .evaluating → vars.txnPhase = .evaluating) :
    Coupled candidateCount (s.goto 0 label vars) := by
  refine ⟨?_, ?_, ?_, ?_⟩
  · intro hrunning
    rw [goto_vars, hterminated] at hrunning
    rw [goto_pc]
    exact howner hrunning
  · intro hfailed
    rw [goto_vars, hterminated] at hfailed
    rw [goto_pc_of_ne (by decide)]
    exact h.failed hfailed
  · intro hrunning worker hworker hpc
    rw [goto_vars, hterminated] at hrunning
    rw [goto_pc_of_ne (pos_of_mem hworker).ne'] at hpc
    rw [goto_vars, hpending]
    exact h.waiting hrunning worker hworker hpc
  · intro hrunning worker hworker hpc
    rw [goto_vars, hterminated] at hrunning
    rw [goto_pc_of_ne (pos_of_mem hworker).ne'] at hpc
    obtain ⟨hmem, hphase⟩ := h.working hrunning worker hworker hpc
    rw [goto_vars, hpending]
    exact ⟨hmem, hevaluating hrunning (Finset.ne_empty_of_mem hmem) hphase⟩

/-- A worker moves without a change of the variables. -/
theorem Coupled.worker_moves (h : Coupled candidateCount s)
    (hself : self ∈ candidateIndices candidateCount) (hwaiting : label ≠ .awaitEvaluation)
    (hworking : s.vars.terminated = false → label = .complete →
      self ∈ s.vars.pending ∧ s.vars.txnPhase = .evaluating) :
    Coupled candidateCount (s.goto self label s.vars) := by
  have hpos := pos_of_mem hself
  refine ⟨?_, ?_, ?_, ?_⟩
  · intro hrunning
    rw [goto_pc_of_ne hpos.ne]
    exact h.owner hrunning
  · intro hfailed
    rw [goto_pc_of_ne (by omega)]
    exact h.failed hfailed
  · intro hrunning worker hworker hpc
    by_cases heq : worker = self
    · rw [heq, goto_pc] at hpc
      exact absurd hpc hwaiting
    · rw [goto_pc_of_ne heq] at hpc
      exact h.waiting hrunning worker hworker hpc
  · intro hrunning worker hworker hpc
    by_cases heq : worker = self
    · rw [heq, goto_pc] at hpc
      rw [heq]
      exact hworking hrunning hpc
    · rw [goto_pc_of_ne heq] at hpc
      exact h.working hrunning worker hworker hpc

/-- A worker completes its candidate. -/
theorem Coupled.completes (h : Coupled candidateCount s)
    (hself : self ∈ candidateIndices candidateCount) (hrunning : s.vars.terminated = false)
    (hpc : s.pc self = .complete) :
    Coupled candidateCount (s.goto self .doneWorker { s.vars with
      pending := s.vars.pending \ {self}
      completed := s.vars.completed ∪ {self} }) := by
  have hpos := pos_of_mem hself
  obtain ⟨hpending, hphase⟩ := h.working hrunning self hself hpc
  refine ⟨?_, ?_, ?_, ?_⟩
  · intro _
    have howner := h.owner hrunning
    rw [goto_pc_of_ne hpos.ne]
    -- The owner is still waiting for the batch: every later label needs an empty pending set.
    revert howner
    cases s.pc 0 <;> simp_all [OwnerAt]
  · intro hfailed
    rw [goto_vars, hrunning] at hfailed
    cases hfailed
  · intro _ worker hworker hawait
    by_cases heq : worker = self
    · rw [heq, goto_pc] at hawait
      cases hawait
    · rw [goto_pc_of_ne heq] at hawait
      have hmem := h.waiting hrunning worker hworker hawait
      exact Finset.mem_sdiff.mpr ⟨hmem, by simpa using heq⟩
  · intro _ worker hworker hcomplete
    by_cases heq : worker = self
    · rw [heq, goto_pc] at hcomplete
      cases hcomplete
    · rw [goto_pc_of_ne heq] at hcomplete
      obtain ⟨hmem, hphase⟩ := h.working hrunning worker hworker hcomplete
      exact ⟨Finset.mem_sdiff.mpr ⟨hmem, by simpa using heq⟩, hphase⟩

/-- The failure process moves on; if it struck, the run is over. -/
theorem Coupled.failure_moves (h : Coupled candidateCount s) (hlabel : label ≠ .chooseFailure)
    (hvars : vars = s.vars ∨ vars.terminated = true) :
    Coupled candidateCount (s.goto (-1) label vars) := by
  rcases hvars with rfl | hterminated
  · refine ⟨?_, ?_, ?_, ?_⟩
    · intro hrunning
      rw [goto_pc_of_ne (by decide)]
      exact h.owner hrunning
    · intro _
      rw [goto_pc]
      exact hlabel
    · intro hrunning worker hworker hpc
      have hpos := pos_of_mem hworker
      rw [goto_pc_of_ne (by omega)] at hpc
      exact h.waiting hrunning worker hworker hpc
    · intro hrunning worker hworker hpc
      have hpos := pos_of_mem hworker
      rw [goto_pc_of_ne (by omega)] at hpc
      exact h.working hrunning worker hworker hpc
  · have hover : ¬(s.goto (-1) label vars).vars.terminated = false := by
      rw [goto_vars, hterminated]
      decide
    refine ⟨fun hrunning => absurd hrunning hover, ?_, fun hrunning => absurd hrunning hover,
      fun hrunning => absurd hrunning hover⟩
    intro _
    rw [goto_pc]
    exact hlabel

end

theorem Coupled.initial (s : State) (h : Init candidateCount s) : Coupled candidateCount s := by
  obtain ⟨hvars, hpc⟩ := h
  have howner : s.pc 0 = .reserve := by
    rw [hpc 0 (by simp [procSet])]
    simp [initialPc, candidateIndices]
  have hworker : ∀ self ∈ candidateIndices candidateCount, s.pc self = .awaitEvaluation := by
    intro self hself
    rw [hpc self (by simp [procSet, hself]), initialPc, if_pos hself]
  refine ⟨?_, ?_, ?_, ?_⟩
  · intro _
    rw [howner, hvars]
    rfl
  · intro hfailed
    rw [hvars] at hfailed
    cases hfailed
  · intro _ self hself _
    rw [hvars]
    exact hself
  · intro _ self hself hcomplete
    rw [hworker self hself] at hcomplete
    cases hcomplete

/-- What a step does: it keeps the coupling, and it is a step of the atomic model or changes none of
its variables. -/
def Follows (candidateCount : Nat) (s t : State) : Prop :=
  Coupled candidateCount t ∧ (AtomicBatch.Next candidateCount s.vars t.vars ∨ t.vars = s.vars)

theorem Coupled.owner_follows {s t : State} (h : Coupled candidateCount s)
    (hstep : Owner candidateCount s t) : Follows candidateCount s t := by
  cases hrunning : s.vars.terminated
  · have howner := h.owner hrunning
    rcases hstep with hstep | hstep | hstep | hstep | hstep | hstep
    · obtain ⟨hpc, rfl⟩ := hstep
      rw [hpc] at howner
      rw [hrunning, if_neg (by decide)]
      refine ⟨h.owner_moves rfl rfl (fun _ => rfl) ?_, .inl (.inl ⟨hrunning, howner, rfl⟩)⟩
      intro _ _ hphase
      rw [howner] at hphase
      cases hphase
    · obtain ⟨hpc, rfl⟩ := hstep
      rw [hpc] at howner
      rw [hrunning, if_neg (by decide)]
      refine ⟨h.owner_moves rfl rfl (fun _ => rfl) (fun _ _ _ => rfl), ?_⟩
      exact .inl (.inr (.inl ⟨hrunning, howner, rfl⟩))
    · obtain ⟨hpc, hready, rfl⟩ := hstep
      rw [hpc] at howner
      have hempty : s.vars.pending = ∅ := by
        rcases hready with hready | hready
        · rw [hrunning] at hready
          cases hready
        · exact hready
      exact ⟨h.owner_moves rfl rfl (fun _ => ⟨howner, hempty⟩) (fun _ _ hphase => hphase), .inr rfl⟩
    · obtain ⟨hpc, rfl⟩ := hstep
      rw [hpc] at howner
      obtain ⟨hphase, hempty⟩ := howner
      rw [hrunning, if_neg (by decide)]
      refine ⟨h.owner_moves rfl rfl (fun _ => ⟨rfl, hempty⟩) ?_, ?_⟩
      · intro _ hpending
        exact absurd hempty hpending
      · exact .inl (.inr (.inr (.inr (.inl ⟨hrunning, hphase, hempty, rfl⟩))))
    · obtain ⟨hpc, rfl⟩ := hstep
      rw [hpc] at howner
      obtain ⟨hphase, hempty⟩ := howner
      rw [hrunning, if_neg (by decide)]
      refine ⟨h.owner_moves rfl rfl (fun _ => rfl) ?_, ?_⟩
      · intro _ hpending
        exact absurd hempty hpending
      · exact .inl (.inr (.inr (.inr (.inr (.inl ⟨hrunning, hphase, rfl⟩)))))
    · obtain ⟨hpc, rfl⟩ := hstep
      rw [hpc] at howner
      exact ⟨h.owner_moves rfl rfl (fun _ => howner) (fun _ _ hphase => hphase), .inr rfl⟩
  · -- Once the failure struck, the owner only walks to its last label.
    have hmoves : ∀ label, Follows candidateCount s (s.goto 0 label s.vars) := by
      intro label
      refine ⟨h.owner_moves rfl rfl ?_ (fun _ _ hphase => hphase), .inr rfl⟩
      intro hnot
      rw [hrunning] at hnot
      cases hnot
    rcases hstep with hstep | hstep | hstep | hstep | hstep | hstep
    · obtain ⟨-, rfl⟩ := hstep
      rw [hrunning, if_pos rfl]
      exact hmoves _
    · obtain ⟨-, rfl⟩ := hstep
      rw [hrunning, if_pos rfl]
      exact hmoves _
    · obtain ⟨-, -, rfl⟩ := hstep
      exact hmoves _
    · obtain ⟨-, rfl⟩ := hstep
      rw [hrunning, if_pos rfl]
      exact hmoves _
    · obtain ⟨-, rfl⟩ := hstep
      rw [hrunning, if_pos rfl]
      exact hmoves _
    · obtain ⟨-, rfl⟩ := hstep
      exact hmoves _

theorem Coupled.worker_follows {s t : State} (h : Coupled candidateCount s) {self : ℤ}
    (hself : self ∈ candidateIndices candidateCount) (hstep : Worker self s t) :
    Follows candidateCount s t := by
  rcases hstep with hstep | hstep | hstep
  · obtain ⟨hpc, hready, rfl⟩ := hstep
    refine ⟨h.worker_moves hself (by decide) ?_, .inr rfl⟩
    intro hrunning _
    refine ⟨h.waiting hrunning self hself hpc, ?_⟩
    rcases hready with hready | hready
    · rw [hrunning] at hready
      cases hready
    · exact hready
  · obtain ⟨hpc, rfl⟩ := hstep
    cases hrunning : s.vars.terminated
    · rw [if_neg (by decide)]
      obtain ⟨hpending, hphase⟩ := h.working hrunning self hself hpc
      refine ⟨h.completes hself hrunning hpc, ?_⟩
      exact .inl (.inr (.inr (.inl ⟨self, hpending, hrunning, hphase, hpending, rfl⟩)))
    · rw [if_pos rfl]
      exact ⟨h.worker_moves hself (by decide) (by rintro - ⟨⟩), .inr rfl⟩
  · obtain ⟨-, rfl⟩ := hstep
    exact ⟨h.worker_moves hself (by decide) (by rintro - ⟨⟩), .inr rfl⟩

theorem Coupled.failure_follows {s t : State} (h : Coupled candidateCount s) (hstep : Failure s t) :
    Follows candidateCount s t := by
  rcases hstep with hstep | hstep
  · obtain ⟨hpc, vars, rfl, hchoice⟩ := hstep
    have hrunning : s.vars.terminated = false := by
      rw [← Bool.not_eq_true]
      intro hfailed
      exact h.failed hfailed hpc
    by_cases hphase : s.vars.txnPhase ≠ .committed
    · rw [if_pos hphase] at hchoice
      rcases hchoice with ⟨phase, hchosen, rfl⟩ | rfl
      · refine ⟨h.failure_moves (by decide) (.inr rfl), ?_⟩
        exact .inl (.inr (.inr (.inr (.inr (.inr ⟨hrunning, hphase, phase, hchosen, rfl⟩)))))
      · exact ⟨h.failure_moves (by decide) (.inl rfl), .inr rfl⟩
    · rw [if_neg hphase, or_self] at hchoice
      exact ⟨h.failure_moves (by decide) (.inl hchoice), .inr hchoice⟩
  · obtain ⟨-, rfl⟩ := hstep
    exact ⟨h.failure_moves (by decide) (.inl rfl), .inr rfl⟩

theorem Coupled.follows {s t : State} (h : Coupled candidateCount s)
    (hnext : Next candidateCount s t) : Follows candidateCount s t := by
  rcases hnext with hstep | hstep | ⟨self, hself, hstep⟩ | ⟨-, rfl⟩
  · exact h.owner_follows hstep
  · exact h.failure_follows hstep
  · exact h.worker_follows hself hstep
  · exact ⟨h, .inr rfl⟩

theorem coupled_of_reachable {s : State} (h : (system candidateCount).Reachable s) :
    Coupled candidateCount s :=
  h.invariant Coupled.initial fun _ _ hcoupled hnext => (hcoupled.follows hnext).1

/-- The design refines the atomic model once `pc` is forgotten. -/
theorem refines (hcount : 0 < candidateCount) :
    (system candidateCount).Refines (AtomicBatch.system candidateCount) State.vars where
  init := fun _ h => ⟨hcount, h.1⟩
  step := fun _ _ hs hnext => ((coupled_of_reachable hs).follows hnext).2

/-- For any number of candidates and every interleaving, each step of the concurrent design is a step of
the atomic model or changes none of its variables, and both are safe in every reachable state. -/
theorem ordered_refines_atomic (candidateCount : Nat) (hcount : 1 ≤ candidateCount) :
    (system candidateCount).Refines (AtomicBatch.system candidateCount) State.vars ∧
      (∀ s, (AtomicBatch.system candidateCount).Reachable s → Safe candidateCount s) ∧
      ∀ s, (system candidateCount).Reachable s → Safe candidateCount s.vars := by
  refine ⟨refines hcount, fun _ hs => safe_of_reachable hs, ?_⟩
  intro s hs
  exact safe_of_reachable ((refines hcount).reachable hs)

/-- The four candidates of the model checker. -/
theorem ordered_refines_atomic_four :
    (system 4).Refines (AtomicBatch.system 4) State.vars ∧
      (∀ s, (AtomicBatch.system 4).Reachable s → Safe 4 s) ∧
      ∀ s, (system 4).Reachable s → Safe 4 s.vars :=
  ordered_refines_atomic 4 (by decide)

end OrderedPlusCal

end TxnOpt
