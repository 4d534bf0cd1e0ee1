import TxnOpt.Runtime.Proof.Core

/-!
# The reference store

What each method of `InMemoryCacheStore` does. Only a commit that returns changes the store, and it
publishes the staged entries under the next generation.
-/

namespace TxnOpt

namespace InMemoryCacheStore

variable {W V : Type} {onCommit : Option (PyDict V → Prog W PyExc Unit)}

theorem requireOpen_spec (s : CacheContext (InMemoryCacheStore V) W V) :
    Prog.wp requireOpen (fun r t => t = s ∧ (r = .ok () → s.txn.closed = false)) s := by
  unfold requireOpen
  cases hclosed : s.txn.closed
  · exact Prog.wp_of_eq (r := .ok ()) (by simp [hclosed]) ⟨rfl, fun _ => rfl⟩
  · exact Prog.wp_of_eq (by simp [hclosed]; rfl) ⟨rfl, by rintro ⟨⟩⟩

theorem stage_spec (entries : PyDict V) (s : CacheContext (InMemoryCacheStore V) W V) :
    Prog.wp (stage entries)
      (fun r t => t.store = s.store ∧ t.txn.expectedGeneration = s.txn.expectedGeneration ∧
        t.txn.closed = s.txn.closed ∧
        (r = .ok () → t.txn.staged = s.txn.staged.update entries)) s := by
  unfold stage
  refine Prog.wp_bind_of (requireOpen_spec s) ?_ ?_
  · rintro - _ ⟨rfl, -⟩
    refine Prog.wp_ite (fun _ => ⟨rfl, rfl, rfl, by rintro ⟨⟩⟩) (fun _ => ⟨rfl, rfl, rfl, fun _ => rfl⟩)
  · rintro error _ ⟨rfl, -⟩
    exact ⟨rfl, rfl, rfl, by rintro ⟨⟩⟩

theorem publish_spec (s : CacheContext (InMemoryCacheStore V) W V) :
    Prog.wp (publish onCommit)
      (fun r t => t.store = s.store ∧ t.txn.expectedGeneration = s.txn.expectedGeneration ∧
        (r = .ok () → t.txn = s.txn)) s := by
  unfold publish Prog.wp
  rcases onCommit with _ | callback
  · exact ⟨rfl, rfl, fun _ => rfl⟩
  · rcases hcall : callback s.txn.staged s.world with ⟨error | ⟨⟩, w⟩
    · simp only [hcall]
      exact ⟨trivial, rfl, by rintro ⟨⟩⟩
    · simp only [hcall]
      exact ⟨trivial, trivial, fun _ => trivial⟩

/-- A commit that raises leaves the store as it was; one that returns published what was staged. -/
theorem commit_spec (s : CacheContext (InMemoryCacheStore V) W V) :
    Prog.wp (commit onCommit)
      (fun r t => t.txn.expectedGeneration = s.txn.expectedGeneration ∧
        match r with
        | .error _ => t.store = s.store
        | .ok receipt => s.txn.expectedGeneration = s.store.generation ∧
            receipt = some ⟨s.store.generation, s.store.generation + 1, s.txn.staged.size⟩ ∧
            t.store = ⟨s.store.generation + 1, s.store.values.update s.txn.staged⟩) s := by
  unfold commit
  refine Prog.wp_bind_of (requireOpen_spec s) ?_ ?_
  · rintro - s ⟨rfl, -⟩
    rw [Prog.wp_read_bind]
    refine Prog.wp_ite (fun _ => ⟨rfl, rfl⟩) (fun hfresh => ?_)
    have hgeneration : s.txn.expectedGeneration = s.store.generation := by simpa using hfresh
    refine Prog.wp_bind_of (publish_spec s) ?_ ?_
    · rintro ⟨⟩ t ⟨hstore, hexpected, htxn⟩
      rw [Prog.wp_read_bind, Prog.wp_modify_bind, Prog.wp_pure, hstore, htxn rfl]
      exact ⟨rfl, hgeneration, rfl, rfl⟩
    · rintro error t ⟨hstore, hexpected, -⟩
      exact ⟨hexpected, hstore⟩
  · rintro error _ ⟨rfl, -⟩
    exact ⟨rfl, rfl⟩

/-- A step other than a commit leaves the store as it was. -/
theorem store_of_quietStep {before after : InMemoryCacheStore V × CacheTxn V}
    (h : QuietStep (ops onCommit) before after) : after.1 = before.1 := by
  cases h with
  | begun hbegin =>
      cases hbegin
      rfl
  | looked hcall =>
      obtain ⟨w, w', hcall⟩ := hcall
      exact congrArg (fun ended => ended.2.store) hcall.symm
  | @stagedEntries entries _ _ _ hcall =>
      obtain ⟨w, w', hcall⟩ := hcall
      exact (Prog.wp_of_run (stage_spec entries _) hcall).1
  | rolledBack hcall =>
      obtain ⟨w, w', hcall⟩ := hcall
      change rollback ⟨before.1, w, before.2⟩ = _ at hcall
      unfold rollback at hcall
      cases hclosed : before.2.closed <;> simp [hclosed] at hcall <;> exact hcall.2.1.symm
  | snapshotTaken hcall =>
      obtain ⟨w, w', hcall⟩ := hcall
      exact congrArg (fun ended => ended.2.store) hcall.symm
  | closed => rfl

/-- Over a stretch without a commit that returned, the store stays as it was. -/
theorem store_of_cacheRun {start after : InMemoryCacheStore V × CacheTxn V}
    {commits : List (CommitCall (InMemoryCacheStore V) V)}
    (h : CacheRun (ops onCommit) start commits after)
    (hraised : ∀ call ∈ commits, call.returned = false) : after.1 = start.1 := by
  induction h with
  | refl => rfl
  | quiet _ hstep ih => exact (store_of_quietStep hstep).trans (ih hraised)
  | @commit commits middle after outcome staged _ hcall ih =>
      have hlast : outcome.isOk = false := hraised _ (List.mem_append_right _ (List.mem_singleton_self _))
      obtain ⟨w, w', hcall⟩ := hcall
      have hspec := Prog.wp_of_run (commit_spec _) hcall
      rcases outcome with error | receipt
      · exact hspec.2.trans (ih fun call hmem => hraised call (List.mem_append_left _ hmem))
      · cases hlast

end InMemoryCacheStore

end TxnOpt
