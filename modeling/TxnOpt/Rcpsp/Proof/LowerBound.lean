import TxnOpt.Lib.Chains
import TxnOpt.Lib.Fallible
import TxnOpt.Rcpsp.Precedence
import TxnOpt.Rcpsp.Proof.Screening

/-!
# The precedence lower bound

`lower_bound` walks through the candidate's order and records for every activity the greatest duration of
a chain that ends in it. The end of an activity in a valid schedule grows by the duration along every
precedence, so no chain is longer than the makespan, whatever the order of the schedule is.
-/

namespace TxnOpt.Rcpsp.RCPSPOracle

variable {oracle : RCPSPOracle} {candidate : RCPSPState}

/-- What the loop has recorded after the activities of `done`. -/
structure Recorded (oracle : RCPSPOracle) (candidate : RCPSPState) (done : List Int)
    (earliestEnd : List (Int × ℕ)) : Prop where
  keys : earliestEnd.map Prod.fst = done
  longest : ∀ entry ∈ earliestEnd,
    IsGreatest (chainWeights (Precedes oracle.inst) (oracle.duration candidate) entry.1) entry.2

/-- The end that the loop looks up. -/
theorem Recorded.lookup {done : List Int} {earliestEnd : List (Int × ℕ)}
    (h : Recorded oracle candidate done earliestEnd) (hnodup : done.Nodup) {id : Int} (hid : id ∈ done) :
    ∃ longest, earliestEnd.lookup id = some longest ∧
      IsGreatest (chainWeights (Precedes oracle.inst) (oracle.duration candidate) id) longest := by
  rw [← h.keys] at hnodup hid
  obtain ⟨entry, hentry, hkey⟩ := List.mem_map.mp hid
  rw [← hkey]
  exact ⟨entry.2, (lookup_eq_some_iff_mem hnodup).mpr hentry, h.longest entry hentry⟩

/-- One round of the loop: the predecessors come first, so their ends are recorded. -/
theorem recordEnd_step (hscreened : Screened oracle candidate) {done rest : List Int} {activityId : Int}
    {earliestEnd : List (Int × ℕ)} (horder : candidate.activityOrder = done ++ activityId :: rest)
    (h : Recorded oracle candidate done earliestEnd) :
    ∃ recorded, oracle.recordEnd candidate earliestEnd activityId = .ok recorded ∧
      Recorded oracle candidate (done ++ [activityId]) recorded := by
  have hmem : activityId ∈ candidate.activityOrder := by simp [horder]
  have hnodup : (done ++ activityId :: rest).Nodup := horder ▸ candidate.orderNodup
  obtain ⟨activity, hactivity, hactivityId⟩ := List.mem_map.mp ((hscreened.ordered _).mp hmem)
  obtain ⟨index, mode, hindex, hmode, -⟩ := hscreened.chosen activity hactivity
  have hduration : oracle.duration candidate activityId = mode.duration := by
    rw [duration, ← hactivityId, modeOf_eq hactivity hindex hmode]
  have hearlier : ∀ predecessor ∈ activity.predecessors, predecessor ∈ done := by
    intro predecessor hpredecessor
    have hknown : predecessor ∈ candidate.activityOrder :=
      (hscreened.ordered _).mpr (oracle.inst.predecessorsKnown activity hactivity predecessor hpredecessor)
    have hlt := hscreened.respects activity hactivity predecessor hpredecessor
    have hnotDone : activityId ∉ done := by
      intro hdone
      exact (List.nodup_append.mp hnodup).2.2 activityId hdone activityId List.mem_cons_self rfl
    rw [hactivityId, horder, List.idxOf_append_of_notMem hnotDone, List.idxOf_cons_self, Nat.add_zero] at hlt
    by_contra hlate
    rw [List.idxOf_append_of_notMem hlate] at hlt
    omega
  let longestTo : Int → ℕ := fun id => (earliestEnd.lookup id).getD 0
  have hends : activity.predecessors.mapM (fun predecessor =>
      foundOr (keyError predecessor) (earliestEnd.lookup predecessor)) =
      .ok (activity.predecessors.map longestTo) := by
    apply mapM_eq_ok
    intro predecessor hpredecessor
    obtain ⟨longest, hlookup, -⟩ :=
      h.lookup (List.nodup_append.mp hnodup).1 (hearlier predecessor hpredecessor)
    simp [longestTo, hlookup, foundOr]
  have hgreatest : IsGreatest (chainWeights (Precedes oracle.inst) (oracle.duration candidate) activityId)
      (((activity.predecessors.map longestTo).max?).getD 0 + oracle.duration candidate activityId) := by
    apply isGreatest_chainWeights
    · intro predecessor
      rw [← hactivityId]
      exact precedes_iff hactivity
    · intro predecessor hpredecessor
      obtain ⟨longest, hlookup, hlongest⟩ :=
        h.lookup (List.nodup_append.mp hnodup).1 (hearlier predecessor hpredecessor)
      simpa [longestTo, hlookup] using hlongest
  refine ⟨earliestEnd ++ [(activityId, ((activity.predecessors.map longestTo).max?).getD 0 + mode.duration)],
    ?_, ?_, ?_⟩
  · have hfound : oracle.inst.byId activityId = some activity := byId_eq_some_iff.mpr ⟨hactivity, hactivityId⟩
    rw [hactivityId] at hindex
    rw [recordEnd, hfound, hindex]
    change Except.bind (activity.predecessors.mapM fun predecessor =>
      foundOr (keyError predecessor) (earliestEnd.lookup predecessor)) _ = _
    rw [hends]
    change Except.bind (foundOr _ activity.modes[index]?) _ = _
    rw [hmode]
    rfl
  · rw [List.map_append, h.keys]
    rfl
  · rw [List.forall_mem_append]
    refine ⟨h.longest, ?_⟩
    intro entry hentry
    rw [List.mem_singleton] at hentry
    rw [hentry, ← hduration]
    exact hgreatest

/-- The whole loop. -/
theorem recordEnd_run (hscreened : Screened oracle candidate) (rest : List Int) {done : List Int}
    {earliestEnd : List (Int × ℕ)} (horder : candidate.activityOrder = done ++ rest)
    (h : Recorded oracle candidate done earliestEnd) :
    ∃ recorded, rest.foldlM (oracle.recordEnd candidate) earliestEnd = .ok recorded ∧
      Recorded oracle candidate candidate.activityOrder recorded := by
  induction rest generalizing done earliestEnd with
  | nil =>
      rw [List.append_nil] at horder
      rw [horder]
      exact ⟨earliestEnd, rfl, h⟩
  | cons activityId rest ih =>
      obtain ⟨recorded, hrecorded, hnext⟩ := recordEnd_step hscreened horder h
      obtain ⟨final, hfinal, hdone⟩ := ih (by simpa using horder) hnext
      refine ⟨final, ?_, hdone⟩
      rw [List.foldlM_cons, hrecorded]
      exact hfinal

/-- The total durations of the precedence chains. -/
def chainDurations (oracle : RCPSPOracle) (candidate : RCPSPState) : Set ℕ :=
  {total | ∃ chain, PrecedenceChain oracle.inst chain ∧ (chain.map (oracle.duration candidate)).sum = total}

theorem mem_chainDurations {total : ℕ} : total ∈ chainDurations oracle candidate ↔
    ∃ last ∈ oracle.inst.ids, total ∈ chainWeights (Precedes oracle.inst) (oracle.duration candidate) last := by
  constructor
  · intro htotal
    obtain ⟨chain, hchain, hsum⟩ := htotal
    cases chain using List.reverseRecOn with
    | nil => exact absurd rfl hchain.nonempty
    | append_singleton chain last =>
        exact ⟨last, hchain.known last (by simp), chain, hchain.linked, hsum⟩
  · intro htotal
    obtain ⟨last, hlast, chain, hchain, hsum⟩ := htotal
    exact ⟨chain ++ [last], (precedenceChain_snoc hlast).mpr hchain, hsum⟩

theorem Recorded.isGreatest (hscreened : Screened oracle candidate) {earliestEnd : List (Int × ℕ)}
    (h : Recorded oracle candidate candidate.activityOrder earliestEnd) :
    IsGreatest (chainDurations oracle candidate) ((earliestEnd.map Prod.snd).max?.getD 0) := by
  cases hmax : (earliestEnd.map Prod.snd).max? with
  | none =>
      rw [List.max?_eq_none_iff, List.map_eq_nil_iff] at hmax
      have hkeys := h.keys
      rw [hmax] at hkeys
      exact absurd hkeys.symm candidate.orderNonempty
  | some longest =>
      obtain ⟨hmem, hle⟩ := List.max?_eq_some_iff.mp hmax
      rw [Option.getD_some]
      constructor
      · obtain ⟨entry, hentry, hlongest⟩ := List.mem_map.mp hmem
        rw [← hlongest]
        have hid : entry.1 ∈ candidate.activityOrder := by
          rw [← h.keys]
          exact List.mem_map_of_mem hentry
        exact mem_chainDurations.mpr ⟨entry.1, (hscreened.ordered _).mp hid, (h.longest entry hentry).1⟩
      · intro total htotal
        obtain ⟨last, hlast, hweight⟩ := mem_chainDurations.mp htotal
        rw [← hscreened.ordered, ← h.keys] at hlast
        obtain ⟨entry, hentry, hkey⟩ := List.mem_map.mp hlast
        rw [← hkey] at hweight
        exact le_trans ((h.longest entry hentry).2 hweight) (hle _ (List.mem_map_of_mem hentry))

theorem lowerBound_isGreatest (hscreened : oracle.screenOne candidate = true) :
    ∃ bound, oracle.lowerBound candidate = .ok bound ∧ IsGreatest (chainDurations oracle candidate) bound := by
  have h := screenOne_iff.mp hscreened
  have hempty : Recorded oracle candidate [] [] := ⟨rfl, by simp⟩
  obtain ⟨recorded, hrun, hrecorded⟩ := recordEnd_run h candidate.activityOrder (List.nil_append _).symm hempty
  refine ⟨_, ?_, hrecorded.isGreatest h⟩
  rw [lowerBound, if_neg (by simp [hscreened]), hrun]
  rfl

/-! ### Chains and schedules -/

/-- In a valid schedule the end of an activity is at least the duration of every chain to it. -/
theorem chain_le_makespan {schedule : RCPSPSchedule} (h : Valid oracle.inst schedule) {total : ℕ}
    (htotal : total ∈ chainDurations oracle schedule.state) : total ≤ schedule.makespan := by
  have hplaced : ∀ id ∈ oracle.inst.ids, ∃ item ∈ schedule.activities, item.activityId = id ∧ 0 ≤ item.start ∧
      item.finish = item.start + oracle.duration schedule.state id := by
    intro id hid
    obtain ⟨activity, hactivity, hactivityId⟩ := List.mem_map.mp hid
    obtain ⟨item, hitem⟩ := exists_places h.complete hactivity
    obtain ⟨hstart, hfinish⟩ := duration_of_valid h hactivity hitem
    rw [hactivityId] at hfinish
    exact ⟨item, hitem.1, hitem.2.trans hactivityId, hstart, hfinish⟩
  let finish : Int → Int := fun id => valuesOf schedule (.finish id)
  have hstep : ∀ link last, Precedes oracle.inst link last →
      finish link + oracle.duration schedule.state last ≤ finish last := by
    intro link last hprecedes
    obtain ⟨activity, hactivity, hactivityId, hpredecessor⟩ := hprecedes
    obtain ⟨item, hitem, hid, -, hfinish⟩ := hplaced last (hactivityId ▸ List.mem_map_of_mem hactivity)
    obtain ⟨linkItem, hlinkItem, hlinkId, -, -⟩ := hplaced link
      (oracle.inst.predecessorsKnown activity hactivity link hpredecessor)
    have hseparated := h.separated activity hactivity item ⟨hitem, hid.trans hactivityId.symm⟩ linkItem hlinkItem
      (by rw [hlinkId]; exact hpredecessor)
    simp only [finish]
    rw [← hlinkId, ← hid, (valuesOf_item hlinkItem).2, (valuesOf_item hitem).2, hid]
    omega
  obtain ⟨chain, hchain, hsum⟩ := htotal
  cases chain using List.reverseRecOn with
  | nil => exact absurd rfl hchain.nonempty
  | append_singleton chain last =>
      have hle := sum_chain_le hstep chain hchain.linked (by
        intro id hid
        obtain ⟨item, hitem, hitemId, hstart, hfinish⟩ := hplaced id (hchain.known id hid)
        simp only [finish]
        rw [← hitemId, (valuesOf_item hitem).2, hitemId]
        omega)
      obtain ⟨item, hitem, hitemId, -, -⟩ := hplaced last (hchain.known last (by simp))
      have hmakespan := h.makespan.2 item hitem
      simp only [finish] at hle
      rw [← hitemId, (valuesOf_item hitem).2, hitemId, hsum] at hle
      omega

theorem duration_congr {other : RCPSPState}
    (hmodes : ∀ id ∈ oracle.inst.ids, other.modeByActivity id = candidate.modeByActivity id) {id : Int}
    (hid : id ∈ oracle.inst.ids) : oracle.duration other id = oracle.duration candidate id := by
  rw [duration, duration, modeOf, modeOf, chosenMode, chosenMode, hmodes id hid]

/-- The lower bound of a screened candidate is the greatest total duration of a precedence chain, and no
valid schedule in the candidate's modes has a smaller makespan. -/
theorem lowerBound_exact (oracle : RCPSPOracle) (candidate : RCPSPState)
    (hscreened : oracle.screenOne candidate = true) :
    ∃ bound, oracle.lowerBound candidate = .ok bound ∧ IsGreatest (chainDurations oracle candidate) bound ∧
      ∀ schedule : RCPSPSchedule,
        (∀ id ∈ oracle.inst.ids, schedule.state.modeByActivity id = candidate.modeByActivity id) →
        (validateSchedule oracle.inst schedule).feasible = true → bound ≤ schedule.makespan := by
  obtain ⟨bound, hbound, hgreatest⟩ := lowerBound_isGreatest hscreened
  refine ⟨bound, hbound, hgreatest, ?_⟩
  intro schedule hmodes hfeasible
  apply chain_le_makespan (valid_of_feasible hfeasible)
  obtain ⟨chain, hchain, hsum⟩ := hgreatest.1
  refine ⟨chain, hchain, ?_⟩
  rw [← hsum]
  congr 1
  apply List.map_congr_left
  intro id hid
  exact duration_congr hmodes (hchain.known id hid)

/-! ### Two activities in a row -/

def inARow : RCPSPOracle where
  inst :=
    .oneResource "two" [.free 0 ⟨2, [1]⟩, .next 0 ⟨3, [1]⟩] (by decide) (by simp) (by decide) (by decide) (by decide)
  seed := 0

def rowOrder : RCPSPState := ⟨[0, 1], [0, 0], by decide, by decide, by decide, by decide⟩

theorem lowerBound_exact_row : ∃ bound, inARow.lowerBound rowOrder = .ok bound ∧
    IsGreatest (chainDurations inARow rowOrder) bound ∧
      ∀ schedule : RCPSPSchedule,
        (∀ id ∈ inARow.inst.ids, schedule.state.modeByActivity id = rowOrder.modeByActivity id) →
        (validateSchedule inARow.inst schedule).feasible = true → bound ≤ schedule.makespan :=
  lowerBound_exact inARow rowOrder (by decide)

end TxnOpt.Rcpsp.RCPSPOracle
