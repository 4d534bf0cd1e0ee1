import TxnOpt.Evidence.CampaignRunner
import Mathlib.Algebra.BigOperators.Group.Finset.Basic
import Mathlib.Algebra.Order.BigOperators.Ring.Finset
import Mathlib.Order.Preorder.Finite

/-!
# What the scheduler of a campaign keeps

Every call of `execute_one` moves forward through its phases, holds exactly the tokens it took, and ends with
one outcome that stays. The collector stores each outcome once, and some thread can always go on.
-/

namespace TxnOpt.CampaignRunner

variable {campaign : Campaign} {entry : CampaignEntry} {before after : Shared} {p q : Phase} {action : Action}
  {s t : State campaign} {label : Label campaign} {labels : List (Label campaign)} {i : campaign.Index}

/-! ### A campaign whose first run fails -/

/-- Two runs on four cores: the first one takes all of them. -/
theorem twoRuns_cores : (0 : Int) < 4 := four_pos

def twoRuns : Campaign where
  entries := [⟨1, "first", 4⟩, ⟨2, "second", 1⟩]
  usableCores := 4
  startedNs := 0
  maximumWindowDays := 14
  ordinals := rfl
  entries_pos := Nat.two_pos
  usableCores_pos := twoRuns_cores

def first : twoRuns.Index := ⟨0, Nat.two_pos⟩

def second : twoRuns.Index := ⟨1, Nat.one_lt_two⟩

/-- The second call waits for tokens while the first run fails, and finds the stop event set. -/
def beforeCheck : List (Label twoRuns) :=
  [.submit first, .submit second, .pick first, .act first .checkStop, .act first .acquire, .pick second,
    .act second .checkStop, .act first .checkStop, .act first .readClock, .act first .launch, .tick 10,
    .act first (.finish (.failed none none)), .act first .release, .collect first, .collectorStop,
    .act second .acquire]

def afterCheck : List (Label twoRuns) := [.act second .release, .collect second]

def failingSchedule : List (Label twoRuns) := beforeCheck ++ .act second .checkStop :: afterCheck

theorem failingSchedule_runs : ∃ s, runSchedule State.step (.initial twoRuns) failingSchedule = some s ∧
    s.Finished := by
  have htest : (runSchedule State.step (.initial twoRuns) failingSchedule).any
      (fun s => decide s.Finished) = true := by decide
  obtain ⟨s, hrun, hfinished⟩ := (Option.any_eq_true _ _).mp htest
  exact ⟨s, hrun, of_decide_eq_true hfinished⟩

/-! ### One call -/

/-- The phases of a call in their order, the last one lowest. -/
def Phase.rank : Phase → ℕ
  | unsubmitted => 12
  | queued => 11
  | picked => 10
  | waiting => 9
  | acquired => 8
  | cleared => 7
  | expired | timed => 6
  | running => 5
  | leaving _ => 4
  | done _ => 3
  | recorded => 0

/-- The tokens that a call holds. -/
def held (entry : CampaignEntry) (phase : Phase) : Int := if phase.holds then entry.workers else 0

/-- What a call has ended with. -/
def Phase.result? : Phase → Option TaskResult
  | leaving result | done result => some result
  | _ => none

theorem WeightedTokens.acquire_eq_acquired {tokens taken : WeightedTokens} {weight : Int}
    (h : tokens.acquire weight = .acquired taken) :
    0 < weight ∧ weight ≤ tokens.capacity ∧ weight ≤ tokens.available ∧
      taken = { tokens with available := tokens.available - weight } := by
  unfold acquire at h
  split at h
  · cases h
  · split at h
    · cases h
      exact ⟨by omega, by omega, by omega, rfl⟩
    · cases h

/-- One step of a call moves it forward and leaves the clock and the capacity as they are. -/
theorem executeOne_forward (h : executeOne campaign entry before p action = some (q, after)) :
    q.rank < p.rank ∧ p ≠ .unsubmitted ∧ q ≠ .recorded ∧ after.now = before.now ∧
      after.tokens.capacity = before.tokens.capacity ∧ (before.stop = true → after.stop = true) := by
  unfold executeOne at h
  split at h
  · cases h
    cases before.stop <;> simp [Phase.rank]
  · split at h
    · cases h
      simp [Phase.rank]
    · cases h
    · rename_i tokens htokens
      cases h
      obtain ⟨-, -, -, rfl⟩ := WeightedTokens.acquire_eq_acquired htokens
      simp [Phase.rank]
  · cases h
    cases before.stop <;> simp [Phase.rank]
  · cases h
    split <;> simp [Phase.rank]
  · cases h
    simp [Phase.rank]
  · cases h
    simp [Phase.rank]
  · cases h
    simp [Phase.rank]
  · cases h
    simp [Phase.rank]
  · cases h

/-- A call takes its tokens when they are there, and gives back what it holds. -/
theorem executeOne_ledger (h : executeOne campaign entry before p action = some (q, after)) :
    after.tokens.available + held entry q = before.tokens.available + held entry p ∧
      (q.holds = true → p.holds = true ∨ 0 < entry.workers ∧ entry.workers ≤ before.tokens.capacity ∧
        entry.workers ≤ before.tokens.available) := by
  unfold executeOne at h
  split at h
  · cases h
    cases before.stop <;> simp [held, Phase.holds]
  · split at h
    · cases h
      simp [held, Phase.holds]
    · cases h
    · rename_i tokens htokens
      cases h
      obtain ⟨hpos, hcapacity, havailable, rfl⟩ := WeightedTokens.acquire_eq_acquired htokens
      simp [held, Phase.holds, hpos, hcapacity, havailable]
  · cases h
    cases before.stop <;> simp [held, Phase.holds]
  · cases h
    split <;> simp [held, Phase.holds]
  · cases h
    simp [held, Phase.holds]
  · cases h
    simp [held, Phase.holds]
  · cases h
    simp [held, Phase.holds]
  · cases h
    simp [held, Phase.holds]
  · cases h

/-- What a step of a call gives it as its end. -/
theorem executeOne_result (h : executeOne campaign entry before p action = some (q, after))
    (hroom : p.holds = true → before.tokens.available + entry.workers ≤ before.tokens.capacity) :
    q.result? = p.result? ∨
      p.result? = none ∧ ∃ result, q.result? = some result ∧ (result.record entry).entry = entry ∧
        ((result.record entry).status = .complete → action = .finish .complete) ∧
        ((result.record entry).status = .notStartedAfterFailure → before.stop = true) := by
  unfold executeOne at h
  split at h
  · cases h
    cases hstop : before.stop
    · exact .inl rfl
    · exact .inr ⟨rfl, _, rfl, rfl, by rintro ⟨⟩, fun _ => rfl⟩
  · split at h
    · cases h
      exact .inr ⟨rfl, _, rfl, rfl, by rintro ⟨⟩, by rintro ⟨⟩⟩
    · cases h
    · cases h
      exact .inl rfl
  · cases h
    cases hstop : before.stop
    · exact .inl rfl
    · exact .inr ⟨rfl, _, rfl, rfl, by rintro ⟨⟩, fun _ => rfl⟩
  · cases h
    split <;> exact .inl rfl
  · cases h
    exact .inr ⟨rfl, _, rfl, rfl, by rintro ⟨⟩, by rintro ⟨⟩⟩
  · cases h
    exact .inl rfl
  · rename_i outcome
    cases h
    refine .inr ⟨rfl, _, rfl, ?_⟩
    cases outcome <;> simp [RunOutcome.result, TaskResult.record]
  · rename_i result
    cases h
    have hfits : ¬ before.tokens.available + entry.workers > before.tokens.capacity := by
      have := hroom rfl
      omega
    refine .inl ?_
    simp [hfits, Phase.result?]
  · cases h

/-- The stop event is set only by a call that ends as failed. -/
theorem executeOne_stop (h : executeOne campaign entry before p action = some (q, after))
    (hafter : after.stop = true) : before.stop = true ∨
      ∃ result, q.result? = some result ∧ (result.record entry).status = .failed := by
  unfold executeOne at h
  split at h
  · cases h
    exact .inl hafter
  · split at h
    · cases h
      exact .inl hafter
    · cases h
    · cases h
      exact .inl hafter
  · cases h
    exact .inl hafter
  · cases h
    exact .inl hafter
  · cases h
    exact .inr ⟨_, rfl, rfl⟩
  · cases h
    exact .inl hafter
  · cases h
    exact .inl hafter
  · cases h
    exact .inl hafter
  · cases h

/-! ### One step -/

/-- The steps of the scheduler, with what each of them needs. -/
inductive Stepped (s t : State campaign) : Label campaign → Prop
  | submit {i : campaign.Index} : s.IsFirst .unsubmitted i → t = s.move i .queued → Stepped s t (.submit i)
  | pick {i : campaign.Index} : s.IsFirst .queued i → t = s.move i .picked → Stepped s t (.pick i)
  | act {i : campaign.Index} {action : Action} {q : Phase} {after : Shared} :
      executeOne campaign (campaign.entry i) s.shared (s.phase i) action = some (q, after) →
      t = { s.move i q with shared := after } → Stepped s t (.act i action)
  | collect {i : campaign.Index} {result : TaskResult} : s.phase i = .done result →
      s.stopping = false → t = s.collect i result → Stepped s t (.collect i)
  | collectorStop : s.stopping = true →
      t = { s with shared := { s.shared with stop := true }, stopping := false } → Stepped s t .collectorStop
  | tick {now : Int} : s.shared.now ≤ now →
      t = { s with shared := { s.shared with now } } → Stepped s t (.tick now)

theorem stepped (h : s.step label = some t) : Stepped s t label := by
  cases label with
  | submit i =>
      rw [State.step] at h
      split at h
      · rename_i hfirst
        exact .submit hfirst (Option.some.inj h).symm
      · cases h
  | pick i =>
      rw [State.step] at h
      split at h
      · rename_i hfirst
        exact .pick hfirst.1 (Option.some.inj h).symm
      · cases h
  | act i action =>
      rw [State.step, Option.map_eq_some_iff] at h
      obtain ⟨⟨q, after⟩, hstep, ht⟩ := h
      exact .act hstep ht.symm
  | collect i =>
      rw [State.step] at h
      split at h
      · rename_i result hdone
        split at h
        · rename_i hready
          exact .collect hdone hready.1 (Option.some.inj h).symm
        · cases h
      · cases h
  | collectorStop =>
      rw [State.step] at h
      split at h
      · rename_i hstopping
        exact .collectorStop hstopping (Option.some.inj h).symm
      · cases h
  | tick now =>
      rw [State.step] at h
      split at h
      · rename_i hnow
        exact .tick hnow (Option.some.inj h).symm
      · cases h

@[simp]
theorem move_phase (s : State campaign) (i : campaign.Index) (phase : Phase) :
    (s.move i phase).phase = Function.update s.phase i phase := rfl

@[simp]
theorem collect_phase (s : State campaign) (i : campaign.Index) (result : TaskResult) :
    (s.collect i result).phase = Function.update s.phase i .recorded := rfl

theorem rank_move (h : q.rank ≤ (s.phase i).rank) (j : campaign.Index) :
    (Function.update s.phase i q j).rank ≤ (s.phase j).rank := by
  by_cases heq : j = i
  · rw [heq, Function.update_self]
    exact h
  · rw [Function.update_of_ne heq]

/-- No call goes back. -/
theorem rank_step (h : s.step label = some t) (j : campaign.Index) : (t.phase j).rank ≤ (s.phase j).rank := by
  cases stepped h with
  | submit hfirst ht =>
      rw [ht, move_phase]
      exact rank_move (by rw [hfirst.1]; decide) j
  | pick hfirst ht =>
      rw [ht, move_phase]
      exact rank_move (by rw [hfirst.1]; decide) j
  | act hstep ht =>
      rw [ht, move_phase]
      exact rank_move (executeOne_forward hstep).1.le j
  | collect hdone _ ht =>
      rw [ht, collect_phase]
      exact rank_move (Nat.zero_le _) j
  | collectorStop _ ht => rw [ht]
  | tick _ ht => rw [ht]

/-- The steps that are left, at most. -/
def State.work (s : State campaign) : ℕ := ∑ i, (s.phase i).rank + s.stopping.toNat

/-- The label is a step of some thread: the clock only ticks. -/
def Label.isWork : Label campaign → Bool
  | tick _ => false
  | _ => true

theorem sum_rank_update (s : State campaign) (i : campaign.Index) (q : Phase) :
    ∑ j, (Function.update s.phase i q j).rank + (s.phase i).rank = ∑ j, (s.phase j).rank + q.rank :=
  sum_update (fun _ phase => phase.rank) s.phase i q

/-- A move to a later phase leaves less work. -/
theorem work_move (s : State campaign) (hless : q.rank < (s.phase i).rank) :
    ∑ j, (Function.update s.phase i q j).rank + s.stopping.toNat + 1 ≤ s.work := by
  have hsum := sum_rank_update s i q
  unfold State.work
  omega

theorem work_step (h : s.step label = some t) : t.work + (if label.isWork then 1 else 0) ≤ s.work := by
  cases stepped h with
  | submit hfirst ht =>
      rw [ht]
      exact work_move s (by rw [hfirst.1]; decide)
  | pick hfirst ht =>
      rw [ht]
      exact work_move s (by rw [hfirst.1]; decide)
  | act hstep ht =>
      rw [ht]
      exact work_move s (executeOne_forward hstep).1
  | @collect i result hdone hidle ht =>
      -- the collected future leaves room for the collector's own step
      have hsum := sum_rank_update s i .recorded
      have hrank : (s.phase i).rank = 3 := by rw [hdone]; rfl
      have hlast : Phase.recorded.rank = 0 := rfl
      have hstopping := Bool.toNat_le (s.collect i result).stopping
      rw [ht]
      change ∑ j, (Function.update s.phase i .recorded j).rank + (s.collect i result).stopping.toNat + 1 ≤ _
      unfold State.work
      omega
  | collectorStop hstopping ht =>
      rw [ht, State.work, State.work, hstopping]
      exact le_rfl
  | tick _ ht =>
      rw [ht]
      exact le_rfl

theorem work_initial (campaign : Campaign) : (State.initial campaign).work = 12 * campaign.entries.length := by
  simp [State.work, State.initial, Phase.rank, mul_comm]

/-! ### Tokens -/

/-- What is available and what the calls hold make up the capacity. -/
structure Ledger (s : State campaign) : Prop where
  capacity : s.shared.tokens.capacity = campaign.usableCores
  balanced : s.shared.tokens.available + ∑ i, held (campaign.entry i) (s.phase i) = campaign.usableCores
  available_nonneg : 0 ≤ s.shared.tokens.available
  holders : ∀ i, (s.phase i).holds = true →
    0 < (campaign.entry i).workers ∧ (campaign.entry i).workers ≤ campaign.usableCores

theorem Ledger.held_nonneg (h : Ledger s) (i : campaign.Index) : 0 ≤ held (campaign.entry i) (s.phase i) := by
  unfold held
  split
  · rename_i hholds
    exact (h.holders i hholds).1.le
  · exact le_rfl

theorem Ledger.held_le (h : Ledger s) (i : campaign.Index) :
    s.shared.tokens.available + held (campaign.entry i) (s.phase i) ≤ campaign.usableCores := by
  have hsingle := Finset.single_le_sum (fun j _ => h.held_nonneg j) (Finset.mem_univ i)
  have hbalanced := h.balanced
  omega

/-- A call that holds its tokens can give them back. -/
theorem Ledger.room (h : Ledger s) (hholds : (s.phase i).holds = true) :
    s.shared.tokens.available + (campaign.entry i).workers ≤ s.shared.tokens.capacity := by
  have hle := h.held_le i
  rw [held, if_pos hholds] at hle
  rwa [h.capacity]

theorem ledger_initial (campaign : Campaign) : Ledger (State.initial campaign) := by
  refine ⟨rfl, ?_, campaign.usableCores_pos.le, by rintro i ⟨⟩⟩
  simp [State.initial, WeightedTokens.new, held, Phase.holds]

/-- A move that takes the tokens it holds from what is available keeps the ledger. -/
theorem Ledger.move (h : Ledger s) (q : Phase) (after : Shared)
    (hcapacity : after.tokens.capacity = s.shared.tokens.capacity)
    (havailable : 0 ≤ after.tokens.available)
    (hbalance : after.tokens.available + held (campaign.entry i) q =
      s.shared.tokens.available + held (campaign.entry i) (s.phase i))
    (hholds : q.holds = true →
      0 < (campaign.entry i).workers ∧ (campaign.entry i).workers ≤ campaign.usableCores) :
    Ledger { s.move i q with shared := after } := by
  refine ⟨hcapacity.trans h.capacity, ?_, havailable, ?_⟩
  · have hsum := sum_update (fun j phase => held (campaign.entry j) phase) s.phase i q
    have hbalanced := h.balanced
    simp only [move_phase]
    omega
  · intro j hj
    by_cases heq : j = i
    · rw [heq] at hj ⊢
      rw [move_phase, Function.update_self] at hj
      exact hholds hj
    · rw [move_phase, Function.update_of_ne heq] at hj
      exact h.holders j hj

theorem Ledger.step (hs : Ledger s) (h : s.step label = some t) : Ledger t := by
  cases stepped h with
  | submit hfirst ht =>
      rw [ht]
      exact hs.move _ s.shared rfl hs.available_nonneg (by rw [hfirst.1]; rfl) (by rintro ⟨⟩)
  | pick hfirst ht =>
      rw [ht]
      exact hs.move _ s.shared rfl hs.available_nonneg (by rw [hfirst.1]; rfl) (by rintro ⟨⟩)
  | @act i action q after hstep ht =>
      obtain ⟨-, -, -, -, hcapacity, -⟩ := executeOne_forward hstep
      obtain ⟨hbalance, htaken⟩ := executeOne_ledger hstep
      have hholders : q.holds = true →
          0 < (campaign.entry i).workers ∧ (campaign.entry i).workers ≤ campaign.usableCores := by
        intro hq
        rcases htaken hq with hheld | ⟨hpos, hle, -⟩
        · exact hs.holders i hheld
        · exact ⟨hpos, hs.capacity ▸ hle⟩
      rw [ht]
      refine hs.move q after hcapacity ?_ hbalance hholders
      have hnonneg := hs.available_nonneg
      have hheld := hs.held_nonneg i
      by_cases hq : q.holds = true
      · rcases htaken hq with hp | ⟨-, -, hle⟩
        · rw [held, if_pos hq, held, if_pos hp] at hbalance
          omega
        · rw [held, if_pos hq] at hbalance
          omega
      · rw [held, if_neg hq] at hbalance
        omega
  | collect hdone _ ht =>
      rw [ht]
      have hmoved := hs.move .recorded s.shared rfl hs.available_nonneg
        (by rw [hdone]; rfl) (by rintro ⟨⟩)
      exact ⟨hmoved.capacity, hmoved.balanced, hmoved.available_nonneg, hmoved.holders⟩
  | collectorStop _ ht =>
      rw [ht]
      exact ⟨hs.capacity, hs.balanced, hs.available_nonneg, hs.holders⟩
  | tick _ ht =>
      rw [ht]
      exact ⟨hs.capacity, hs.balanced, hs.available_nonneg, hs.holders⟩

theorem ledger_of_run (hrun : runSchedule State.step (.initial campaign) labels = some s) : Ledger s :=
  runSchedule_invariant Ledger (fun _ _ _ hs hstep => hs.step hstep) hrun (ledger_initial campaign)

/-- In every state of every schedule the runs in progress fit the usable cores, no release overflows, and
once every call has ended all tokens are back. -/
theorem tokens_safe (hrun : runSchedule State.step (.initial campaign) labels = some s) :
    ∑ i with s.phase i = .running, (campaign.entry i).workers ≤ campaign.usableCores ∧
      (∀ i result, s.phase i = .leaving result →
        (s.shared.tokens.release (campaign.entry i).workers).2 = false) ∧
      ((∀ i, s.phase i = .recorded) → s.shared.tokens.available = campaign.usableCores) := by
  have hledger := ledger_of_run hrun
  have hbalanced := hledger.balanced
  have hnonneg := hledger.available_nonneg
  refine ⟨?_, ?_, ?_⟩
  · calc
      ∑ i with s.phase i = .running, (campaign.entry i).workers =
          ∑ i with s.phase i = .running, held (campaign.entry i) (s.phase i) := by
        refine Finset.sum_congr rfl fun i hi => ?_
        rw [(Finset.mem_filter.mp hi).2]
        rfl
      _ ≤ ∑ i, held (campaign.entry i) (s.phase i) :=
        Finset.sum_le_sum_of_subset_of_nonneg (Finset.filter_subset _ _) fun i _ _ => hledger.held_nonneg i
      _ ≤ campaign.usableCores := by omega
  · intro i result hleaving
    have hroom := hledger.room (i := i) (by rw [hleaving]; rfl)
    exact decide_eq_false (by omega)
  · intro hrecorded
    have hnone : ∑ i, held (campaign.entry i) (s.phase i) = 0 :=
      Finset.sum_eq_zero fun i _ => by rw [hrecorded i]; rfl
    omega

theorem tokens_safe_failing : ∃ s, runSchedule State.step (.initial twoRuns) failingSchedule = some s ∧
    ∑ i with s.phase i = .running, (twoRuns.entry i).workers ≤ twoRuns.usableCores ∧
      (∀ i result, s.phase i = .leaving result → (s.shared.tokens.release (twoRuns.entry i).workers).2 = false) ∧
      ((∀ i, s.phase i = .recorded) → s.shared.tokens.available = twoRuns.usableCores) := by
  obtain ⟨s, hrun, -⟩ := failingSchedule_runs
  exact ⟨s, hrun, tokens_safe hrun⟩

/-! ### Launches -/

/-- The label sets the stop event. -/
def Label.setsStop : Label campaign → Bool
  | act _ .setStop | collectorStop => true
  | _ => false

theorem executeOne_setStop (h : executeOne campaign entry before p .setStop = some (q, after)) :
    after.stop = true := by
  cases p with
  | expired =>
      cases h
      rfl
  | _ => cases h

theorem stop_step (h : s.step label = some t) (hstop : s.shared.stop = true ∨ label.setsStop = true) :
    t.shared.stop = true := by
  cases stepped h with
  | submit _ ht | pick _ ht | collect _ _ ht | tick _ ht =>
      rcases hstop with hstop | hsets
      · rw [ht]
        exact hstop
      · cases hsets
  | @act i action q after hstep ht =>
      rw [ht]
      rcases hstop with hstop | hsets
      · exact (executeOne_forward hstep).2.2.2.2.2 hstop
      · cases action with
        | setStop => exact executeOne_setStop hstep
        | _ => cases hsets
  | collectorStop _ ht =>
      rw [ht]

theorem stop_of_mem (hrun : runSchedule State.step s labels = some t)
    (hsets : ∃ label ∈ labels, label.setsStop = true) : t.shared.stop = true := by
  obtain ⟨label, hlabel, hsets⟩ := hsets
  obtain ⟨before, after, u, v, -, -, hstep, hafter⟩ := exists_fired hrun hlabel
  exact runSchedule_invariant (fun v => v.shared.stop = true)
    (fun _ _ _ hstop hnext => stop_step hnext (.inl hstop)) hafter (stop_step hstep (.inr hsets))

theorem executeOne_launch (h : executeOne campaign entry before p .launch = some (q, after)) :
    p = .timed ∧ q = .running := by
  cases p with
  | timed =>
      cases h
      exact ⟨rfl, rfl⟩
  | _ => cases h

/-- A stop check that finds the stop event set ends the call. -/
theorem executeOne_checkStop (h : executeOne campaign entry before p .checkStop = some (q, after))
    (hstop : before.stop = true) : Phase.running.rank < p.rank ∧ q.rank < Phase.running.rank := by
  cases p with
  | picked | acquired =>
      rw [executeOne, hstop] at h
      cases h
      simp [Phase.rank]
  | _ => cases h

theorem executed (h : s.step (.act i action) = some t) :
    ∃ q after, executeOne campaign (campaign.entry i) s.shared (s.phase i) action = some (q, after) ∧
      t.phase i = q := by
  cases stepped h with
  | act hstep ht =>
      rw [ht]
      exact ⟨_, _, hstep, Function.update_self ..⟩

/-- A call that has not come to its launch was not launched, and no call is launched twice. -/
theorem count_launch (hrun : runSchedule State.step (.initial campaign) labels = some s) :
    labels.count (.act i .launch) ≤ 1 ∧
      (Phase.running.rank < (s.phase i).rank → labels.count (.act i .launch) = 0) := by
  refine runSchedule_induction (fun (labels : List (Label campaign)) (s : State campaign) =>
    labels.count (.act i .launch) ≤ 1 ∧
      (Phase.running.rank < (s.phase i).rank → labels.count (.act i .launch) = 0)) ?_ ?_ hrun
  · exact ⟨Nat.zero_le _, fun _ => rfl⟩
  · intro labels label t t' _ ht hstep
    obtain ⟨hone, hnone⟩ := ht
    have hle := rank_step hstep i
    rw [List.count_append]
    by_cases hlaunch : label = .act i .launch
    · rw [hlaunch] at hstep ⊢
      obtain ⟨q, after, hcall, hq⟩ := executed hstep
      obtain ⟨hp, hrunning⟩ := executeOne_launch hcall
      have hbefore := hnone (by rw [hp]; decide)
      rw [hbefore, hq, hrunning, List.count_singleton_self]
      exact ⟨le_rfl, fun h => absurd h (lt_irrefl _)⟩
    · rw [List.count_singleton, if_neg (by simpa using hlaunch)]
      exact ⟨hone, fun h => hnone (h.trans_le hle)⟩

/-- An entry is launched at most once, and never when a stop check of it comes after the stop event was set. -/
theorem launched_once_unless_stopped (hrun : runSchedule State.step (.initial campaign) labels = some s)
    (i : campaign.Index) : labels.count (.act i .launch) ≤ 1 ∧
      ∀ before after, labels = before ++ .act i .checkStop :: after →
        (∃ label ∈ before, label.setsStop = true) → .act i .launch ∉ labels := by
  refine ⟨(count_launch hrun).1, ?_⟩
  intro before after hlabels hsets
  rw [hlabels] at hrun ⊢
  obtain ⟨t, hbefore, hrest⟩ := runSchedule_append_eq_some.mp hrun
  obtain ⟨t', hcheck, hafter⟩ := runSchedule_cons_eq_some.mp hrest
  obtain ⟨q, after', hcall, hq⟩ := executed hcheck
  obtain ⟨hfirst, hlast⟩ := executeOne_checkStop hcall (stop_of_mem hbefore hsets)
  have hnone : .act i .launch ∉ before := List.count_eq_zero.mp ((count_launch hbefore).2 hfirst)
  rw [List.mem_append, List.mem_cons, not_or, not_or]
  refine ⟨hnone, by rintro ⟨⟩, ?_⟩
  intro hmem
  obtain ⟨between, later, u, u', -, hbetween, hlaunch, -⟩ := exists_fired hafter hmem
  obtain ⟨r, after'', hcall', -⟩ := executed hlaunch
  have hle := le_of_runSchedule (fun v : State campaign => (v.phase i).rank)
    (fun _ _ _ hnext => rank_step hnext i) hbetween
  rw [(executeOne_launch hcall').1, hq] at hle
  exact absurd (hle.trans_lt hlast) (by decide)

/-- The second run is not launched, although its call went on after the first run had failed. -/
theorem launched_once_failing : .act second .launch ∉ failingSchedule := by
  obtain ⟨s, hrun, -⟩ := failingSchedule_runs
  exact (launched_once_unless_stopped hrun second).2 beforeCheck afterCheck rfl ⟨.collectorStop, by decide, rfl⟩

/-! ### Outcomes -/

theorem entry_ordinal (campaign : Campaign) (i : campaign.Index) : (campaign.entry i).ordinal = i + 1 := by
  have hget := congrArg (fun ordinals => ordinals[i.val]?) campaign.ordinals
  simp only [List.getElem?_map, List.getElem?_eq_getElem i.isLt, List.getElem?_range' i.isLt, Option.map_some,
    Option.some.injEq] at hget
  rw [Campaign.entry, List.get_eq_getElem, hget]
  omega

/-- What an entry has ended with: the stored record, or the one that its result gives. -/
def State.outcome (s : State campaign) (i : campaign.Index) : Option RunRecord :=
  if s.phase i = .recorded then (s.records[i.val]?).join
  else (s.phase i).result?.map (TaskResult.record (campaign.entry i))

/-- A record is stored where it belongs, once its future is collected and not before. -/
structure Stored (s : State campaign) : Prop where
  length : s.records.length = campaign.entries.length
  kept : ∀ i, s.phase i = .recorded → ∃ record, s.records[i.val]? = some (some record)
  blank : ∀ i, s.phase i ≠ .recorded → s.records[i.val]? = some none

theorem stored_initial (campaign : Campaign) : Stored (State.initial campaign) := by
  refine ⟨List.length_replicate, by rintro i ⟨⟩, fun i _ => ?_⟩
  rw [State.initial, List.getElem?_replicate, if_pos i.isLt]

theorem Stored.move (h : Stored s) (hp : s.phase i ≠ .recorded) (hq : q ≠ .recorded) (shared : Shared) :
    Stored { s.move i q with shared } := by
  refine ⟨h.length, ?_, ?_⟩
  · intro j hj
    by_cases heq : j = i
    · rw [heq, move_phase, Function.update_self] at hj
      exact absurd hj hq
    · rw [move_phase, Function.update_of_ne heq] at hj
      exact h.kept j hj
  · intro j hj
    by_cases heq : j = i
    · rw [heq]
      exact h.blank i hp
    · rw [move_phase, Function.update_of_ne heq] at hj
      exact h.blank j hj

theorem collect_records_self (h : Stored s) (result : TaskResult) :
    (s.collect i result).records[i.val]? = some (some (result.record (campaign.entry i))) := by
  rw [State.collect, entry_ordinal, Nat.add_sub_cancel]
  exact List.getElem?_set_self (by rw [h.length]; exact i.isLt)

theorem collect_records_ne {j : campaign.Index} (h : j ≠ i) (result : TaskResult) :
    (s.collect i result).records[j.val]? = s.records[j.val]? := by
  rw [State.collect, entry_ordinal, Nat.add_sub_cancel]
  exact List.getElem?_set_ne (fun heq => h (Fin.ext heq.symm))

theorem Stored.collect (h : Stored s) (result : TaskResult) : Stored (s.collect i result) := by
  refine ⟨(List.length_set ..).trans h.length, ?_, ?_⟩
  · intro j hj
    by_cases heq : j = i
    · rw [heq]
      exact ⟨_, collect_records_self h result⟩
    · rw [collect_phase, Function.update_of_ne heq] at hj
      rw [collect_records_ne heq]
      exact h.kept j hj
  · intro j hj
    by_cases heq : j = i
    · rw [heq, collect_phase, Function.update_self] at hj
      exact absurd rfl hj
    · rw [collect_phase, Function.update_of_ne heq] at hj
      rw [collect_records_ne heq]
      exact h.blank j hj

theorem executeOne_ne_recorded (h : executeOne campaign entry before p action = some (q, after)) :
    p ≠ .recorded := by
  intro hp
  have hless := (executeOne_forward h).1
  rw [hp] at hless
  exact absurd hless (Nat.not_lt_zero _)

theorem Stored.step (hs : Stored s) (h : s.step label = some t) : Stored t := by
  cases stepped h with
  | submit hfirst ht =>
      rw [ht]
      exact hs.move (by rw [hfirst.1]; rintro ⟨⟩) (by rintro ⟨⟩) s.shared
  | pick hfirst ht =>
      rw [ht]
      exact hs.move (by rw [hfirst.1]; rintro ⟨⟩) (by rintro ⟨⟩) s.shared
  | act hstep ht =>
      rw [ht]
      exact hs.move (executeOne_ne_recorded hstep) (executeOne_forward hstep).2.2.1 _
  | collect _ _ ht =>
      rw [ht]
      exact hs.collect _
  | collectorStop _ ht | tick _ ht =>
      rw [ht]
      exact ⟨hs.length, hs.kept, hs.blank⟩

theorem stored_of_run (hrun : runSchedule State.step (.initial campaign) labels = some s) : Stored s :=
  runSchedule_invariant Stored (fun _ _ _ hs hstep => hs.step hstep) hrun (stored_initial campaign)

theorem outcome_congr {j : campaign.Index} (hphase : t.phase j = s.phase j)
    (hrecords : t.records[j.val]? = s.records[j.val]?) : t.outcome j = s.outcome j := by
  rw [State.outcome, State.outcome, hphase, hrecords]

theorem outcome_of_result {j : campaign.Index} {result : TaskResult} (h : (s.phase j).result? = some result) :
    s.outcome j = some (result.record (campaign.entry j)) := by
  rw [State.outcome, if_neg, h]
  · rfl
  · intro hrecorded
    rw [hrecorded] at h
    cases h

theorem outcome_of_open {j : campaign.Index} (hopen : s.phase j ≠ .recorded) (h : (s.phase j).result? = none) :
    s.outcome j = none := by
  rw [State.outcome, if_neg hopen, h]
  rfl

/-- How an entry comes by its outcome. -/
structure Ends (s : State campaign) (label : Label campaign) (j : campaign.Index) (record : RunRecord) : Prop where
  entry : record.entry = campaign.entry j
  complete : record.status = .complete → label = .act j (.finish .complete)
  skipped : record.status = .notStartedAfterFailure → s.shared.stop = true

/-- An outcome stays, and an entry that gains one has ended just now. -/
theorem outcome_step (hledger : Ledger s) (hstored : Stored s) (h : s.step label = some t) (j : campaign.Index) :
    t.outcome j = s.outcome j ∨
      s.outcome j = none ∧ ∃ record, t.outcome j = some record ∧ Ends s label j record := by
  cases stepped h with
  | @submit i hfirst ht =>
      refine .inl ?_
      by_cases heq : j = i
      · have hnext : (t.phase j) = .queued := by rw [ht, heq, move_phase, Function.update_self]
        rw [outcome_of_open (by rw [hnext]; rintro ⟨⟩) (by rw [hnext]; rfl), heq,
          outcome_of_open (by rw [hfirst.1]; rintro ⟨⟩) (by rw [hfirst.1]; rfl)]
      · exact outcome_congr (by rw [ht, move_phase, Function.update_of_ne heq]) (by rw [ht]; rfl)
  | @pick i hfirst ht =>
      refine .inl ?_
      by_cases heq : j = i
      · have hnext : (t.phase j) = .picked := by rw [ht, heq, move_phase, Function.update_self]
        rw [outcome_of_open (by rw [hnext]; rintro ⟨⟩) (by rw [hnext]; rfl), heq,
          outcome_of_open (by rw [hfirst.1]; rintro ⟨⟩) (by rw [hfirst.1]; rfl)]
      · exact outcome_congr (by rw [ht, move_phase, Function.update_of_ne heq]) (by rw [ht]; rfl)
  | @act i action q after hstep ht =>
      by_cases heq : j = i
      · rw [heq]
        have hp := executeOne_ne_recorded hstep
        have hq := (executeOne_forward hstep).2.2.1
        have hnext : t.phase i = q := by rw [ht, move_phase, Function.update_self]
        rcases executeOne_result hstep fun hholds => hledger.room hholds with
          hsame | ⟨hnone, result, hresult, hentry, hcomplete, hskipped⟩
        · refine .inl ?_
          rw [State.outcome, State.outcome, if_neg hp, hnext, if_neg hq, hsame]
        · have houtcome := outcome_of_result (s := t) (j := i) (by rw [hnext, hresult])
          refine .inr ⟨outcome_of_open hp hnone, _, houtcome, hentry, ?_, hskipped⟩
          intro hstatus
          rw [hcomplete hstatus]
      · exact .inl (outcome_congr (by rw [ht, move_phase, Function.update_of_ne heq]) (by rw [ht]; rfl))
  | @collect i result hdone _ ht =>
      refine .inl ?_
      by_cases heq : j = i
      · rw [heq, outcome_of_result (s := s) (by rw [hdone]; rfl), ht, State.outcome, collect_phase,
          Function.update_self, if_pos rfl, collect_records_self hstored]
        rfl
      · exact outcome_congr (by rw [ht, collect_phase, Function.update_of_ne heq])
          (by rw [ht, collect_records_ne heq])
  | collectorStop _ ht | tick _ ht =>
      rw [ht]
      exact .inl rfl

/-- What the outcomes of a schedule tell about it. -/
structure History (labels : List (Label campaign)) (s : State campaign) : Prop where
  own : ∀ i record, s.outcome i = some record → record.entry = campaign.entry i ∧
    (record.status = .complete → .act i (.finish .complete) ∈ labels) ∧
    (record.status = .notStartedAfterFailure → s.shared.stop = true)
  completed : ∀ i, .act i (.finish .complete) ∈ labels →
    ∃ record, s.outcome i = some record ∧ record.status = .complete
  failure : s.shared.stop = true ∨ s.stopping = true →
    ∃ i record, s.outcome i = some record ∧ record.status = .failed

theorem history_initial (campaign : Campaign) : History [] (State.initial campaign) := by
  refine ⟨by rintro i record ⟨⟩, fun i h => absurd h List.not_mem_nil, ?_⟩
  rintro (h | h) <;> cases h

theorem outcome_of_finish (h : s.step (.act i (.finish .complete)) = some t) :
    ∃ record, t.outcome i = some record ∧ record.status = .complete := by
  obtain ⟨q, after, hcall, hq⟩ := executed h
  cases hp : s.phase i with
  | running =>
      rw [hp] at hcall
      cases hcall
      exact ⟨_, outcome_of_result (by rw [hq]; rfl), rfl⟩
  | _ =>
      rw [hp] at hcall
      cases hcall

/-- The stop event and the collector's own flag are set after a failure only. -/
theorem failure_step (hledger : Ledger s) (hstored : Stored s) (h : s.step label = some t)
    (hs : s.shared.stop = true ∨ s.stopping = true →
      ∃ i record, s.outcome i = some record ∧ record.status = .failed)
    (hflag : t.shared.stop = true ∨ t.stopping = true) :
    ∃ i record, t.outcome i = some record ∧ record.status = .failed := by
  have hkept : (∃ i record, s.outcome i = some record ∧ record.status = .failed) →
      ∃ i record, t.outcome i = some record ∧ record.status = .failed := by
    intro hfailed
    obtain ⟨i, record, houtcome, hstatus⟩ := hfailed
    rcases outcome_step hledger hstored h i with hsame | ⟨hnone, -⟩
    · exact ⟨i, record, hsame.trans houtcome, hstatus⟩
    · rw [hnone] at houtcome
      cases houtcome
  cases stepped h with
  | submit _ ht | pick _ ht | tick _ ht =>
      rw [ht] at hflag
      exact hkept (hs hflag)
  | @act i action q after hstep ht =>
      have hnext : t.phase i = q := by rw [ht, move_phase, Function.update_self]
      rcases hflag with hstop | hstopping
      · rw [ht] at hstop
        rcases executeOne_stop hstep hstop with hbefore | ⟨result, hresult, hstatus⟩
        · exact hkept (hs (.inl hbefore))
        · exact ⟨i, _, outcome_of_result (by rw [hnext, hresult]), hstatus⟩
      · rw [ht] at hstopping
        exact hkept (hs (.inr hstopping))
  | @collect i result hdone _ ht =>
      rcases hflag with hstop | hstopping
      · rw [ht] at hstop
        exact hkept (hs (.inl hstop))
      · rw [ht] at hstopping
        have hstatus : (result.record (campaign.entry i)).status = .failed := of_decide_eq_true hstopping
        exact hkept ⟨i, _, outcome_of_result (by rw [hdone]; rfl), hstatus⟩
  | collectorStop hstopping ht => exact hkept (hs (.inr hstopping))

theorem History.step (hledger : Ledger s) (hstored : Stored s) (hs : History labels s)
    (h : s.step label = some t) : History (labels ++ [label]) t := by
  refine ⟨?_, ?_, failure_step hledger hstored h hs.failure⟩
  · intro i record houtcome
    rcases outcome_step hledger hstored h i with hsame | ⟨-, fresh, hfresh, hends⟩
    · obtain ⟨hentry, hcomplete, hskipped⟩ := hs.own i record (hsame.symm.trans houtcome)
      refine ⟨hentry, fun hstatus => List.mem_append_left _ (hcomplete hstatus), fun hstatus => ?_⟩
      exact stop_step h (.inl (hskipped hstatus))
    · rw [houtcome] at hfresh
      cases hfresh
      refine ⟨hends.entry, fun hstatus => ?_, fun hstatus => stop_step h (.inl (hends.skipped hstatus))⟩
      rw [← hends.complete hstatus]
      exact List.mem_append_right _ (List.mem_singleton_self _)
  · intro i hmem
    rcases List.mem_append.mp hmem with hearlier | hlast
    · obtain ⟨record, houtcome, hstatus⟩ := hs.completed i hearlier
      rcases outcome_step hledger hstored h i with hsame | ⟨hnone, -⟩
      · exact ⟨record, hsame.trans houtcome, hstatus⟩
      · rw [hnone] at houtcome
        cases houtcome
    · rw [← List.mem_singleton.mp hlast] at h
      exact outcome_of_finish h

theorem history_of_run (hrun : runSchedule State.step (.initial campaign) labels = some s) : History labels s :=
  runSchedule_induction History (history_initial campaign)
    (fun _ _ _ _ ht hs hnext => hs.step (ledger_of_run ht) (stored_of_run ht) hnext) hrun

/-! ### The end -/

theorem exists_isFirst {phase : Phase} (h : ∃ i, s.phase i = phase) : ∃ i, s.IsFirst phase i := by
  obtain ⟨i, hi⟩ := h
  obtain ⟨first, hfirst, hleast⟩ := wellFounded_lt.has_min {i | s.phase i = phase} ⟨i, hi⟩
  exact ⟨first, hfirst, fun j hlt hj => hleast j hj hlt⟩

theorem exists_action (hbusy : p.busy = true) (hwaiting : p ≠ .waiting) :
    ∃ action next, executeOne campaign entry before p action = some next := by
  cases p with
  | picked => exact ⟨.checkStop, _, rfl⟩
  | waiting => exact absurd rfl hwaiting
  | acquired => exact ⟨.checkStop, _, rfl⟩
  | cleared => exact ⟨.readClock, _, rfl⟩
  | expired => exact ⟨.setStop, _, rfl⟩
  | timed => exact ⟨.launch, _, rfl⟩
  | running => exact ⟨.finish .complete, _, rfl⟩
  | leaving result => exact ⟨.release, _, rfl⟩
  | _ => cases hbusy

/-- A call that waits alone gets its tokens, or is refused. -/
theorem exists_acquire (campaign : Campaign) (entry : CampaignEntry)
    (hall : before.tokens.available = before.tokens.capacity) :
    ∃ next, executeOne campaign entry before .waiting .acquire = some next := by
  rw [executeOne, WeightedTokens.acquire]
  by_cases hrefused : entry.workers ≤ 0 ∨ entry.workers > before.tokens.capacity
  · rw [if_pos hrefused]
    exact ⟨_, rfl⟩
  · rw [if_neg hrefused, if_pos (by omega)]
    exact ⟨_, rfl⟩

theorem step_act {next : Phase × Shared}
    (h : executeOne campaign (campaign.entry i) s.shared (s.phase i) action = some next) :
    ∃ t, s.step (.act i action) = some t := by
  rw [State.step, h]
  exact ⟨_, rfl⟩

/-- As long as something is left to do, some thread can do its next step: there is no deadlock. -/
theorem exists_work (hledger : Ledger s) (h : ¬ s.Finished) :
    ∃ label t, label.isWork = true ∧ s.step label = some t := by
  by_cases hunsubmitted : ∃ i, s.phase i = .unsubmitted
  · obtain ⟨i, hi⟩ := exists_isFirst hunsubmitted
    exact ⟨.submit i, _, rfl, if_pos hi⟩
  have hsubmitted : ∀ i, s.phase i ≠ .unsubmitted := fun i hi => hunsubmitted ⟨i, hi⟩
  cases hstopping : s.stopping with
  | true => exact ⟨.collectorStop, _, rfl, by rw [State.step, if_pos hstopping]⟩
  | false =>
      by_cases hdone : ∃ i result, s.phase i = .done result
      · obtain ⟨i, result, hi⟩ := hdone
        refine ⟨.collect i, s.collect i result, rfl, ?_⟩
        rw [State.step, hi]
        exact if_pos ⟨hstopping, hsubmitted⟩
      by_cases hbusy : ∃ i, (s.phase i).busy = true ∧ s.phase i ≠ .waiting
      · obtain ⟨i, hi, hwaiting⟩ := hbusy
        obtain ⟨action, next, hnext⟩ := exists_action hi hwaiting
        obtain ⟨t, ht⟩ := step_act hnext
        exact ⟨.act i action, t, rfl, ht⟩
      by_cases hwaiting : ∃ i, s.phase i = .waiting
      · -- every thread in a call waits, so nobody holds a token
        obtain ⟨i, hi⟩ := hwaiting
        have hnone : ∑ j, held (campaign.entry j) (s.phase j) = 0 := by
          refine Finset.sum_eq_zero fun j _ => ?_
          cases hj : s.phase j with
          | acquired | cleared | expired | timed | running | leaving =>
              exact absurd ⟨j, by rw [hj]; exact ⟨rfl, by rintro ⟨⟩⟩⟩ hbusy
          | _ => rfl
        have hbalanced := hledger.balanced
        have hall : s.shared.tokens.available = s.shared.tokens.capacity := by
          rw [hledger.capacity]
          omega
        obtain ⟨next, hnext⟩ := exists_acquire campaign (campaign.entry i) hall
        rw [← hi] at hnext
        obtain ⟨t, ht⟩ := step_act hnext
        exact ⟨.act i .acquire, t, rfl, ht⟩
      by_cases hqueued : ∃ i, s.phase i = .queued
      · obtain ⟨i, hi⟩ := exists_isFirst hqueued
        have hidle : s.busyCount = 0 := by
          rw [State.busyCount, Finset.card_eq_zero, Finset.filter_eq_empty_iff]
          intro j _ hj
          by_cases hw : s.phase j = .waiting
          · exact hwaiting ⟨j, hw⟩
          · exact hbusy ⟨j, hj, hw⟩
        have hroom : s.busyCount < campaign.maxWorkers := by
          have hcores := campaign.usableCores_pos
          have hentries := campaign.entries_pos
          rw [hidle, Campaign.maxWorkers]
          omega
        exact ⟨.pick i, _, rfl, if_pos ⟨hi, hroom⟩⟩
      · refine absurd ⟨fun i => ?_, hstopping⟩ h
        cases hi : s.phase i with
        | recorded => rfl
        | unsubmitted => exact absurd hi (hsubmitted i)
        | queued => exact absurd ⟨i, hi⟩ hqueued
        | waiting => exact absurd ⟨i, hi⟩ hwaiting
        | done result => exact absurd ⟨i, result, hi⟩ hdone
        | _ => exact absurd ⟨i, by rw [hi]; exact ⟨rfl, by rintro ⟨⟩⟩⟩ hbusy

/-- A finished schedule holds, at the place of each entry, a record of it. -/
theorem records_of_finished (hrun : runSchedule State.step (.initial campaign) labels = some s)
    (h : s.Finished) (i : campaign.Index) :
    ∃ record, s.records[i.val]? = some (some record) ∧ s.outcome i = some record ∧
      record.entry = campaign.entry i := by
  obtain ⟨record, hrecord⟩ := (stored_of_run hrun).kept i (h.1 i)
  have houtcome : s.outcome i = some record := by
    rw [State.outcome, if_pos (h.1 i), hrecord]
    rfl
  exact ⟨record, hrecord, houtcome, ((history_of_run hrun).own i record houtcome).1⟩

/-- Every schedule comes to its end: it has a bounded number of steps, it is never stuck before it is
finished, and then every entry has exactly one record, stored at its ordinal. -/
theorem schedule_finishes (hrun : runSchedule State.step (.initial campaign) labels = some s) :
    labels.countP Label.isWork ≤ 12 * campaign.entries.length ∧
      (¬ s.Finished → ∃ label t, label.isWork = true ∧ s.step label = some t) ∧
      (s.Finished → s.records.map (Option.map RunRecord.entry) = campaign.entries.map some) := by
  refine ⟨?_, exists_work (ledger_of_run hrun), ?_⟩
  · have hbound := countP_le_of_decreasing State.work Label.isWork (fun _ _ _ hstep => work_step hstep) hrun
    rw [work_initial] at hbound
    omega
  · intro hfinished
    apply List.ext_getElem?
    intro k
    by_cases hk : k < campaign.entries.length
    · obtain ⟨record, hrecord, -, hentry⟩ := records_of_finished hrun hfinished ⟨k, hk⟩
      rw [List.getElem?_map, hrecord, List.getElem?_map, List.getElem?_eq_getElem hk]
      exact congrArg some (congrArg some hentry)
    · rw [List.getElem?_eq_none (by simpa [(stored_of_run hrun).length] using Nat.not_lt.mp hk),
        List.getElem?_eq_none (by simpa using Nat.not_lt.mp hk)]

theorem schedule_finishes_failing : ∃ s, runSchedule State.step (.initial twoRuns) failingSchedule = some s ∧
    s.records.map (Option.map RunRecord.entry) = twoRuns.entries.map some := by
  obtain ⟨s, hrun, hfinished⟩ := failingSchedule_runs
  exact ⟨s, hrun, (schedule_finishes hrun).2.2 hfinished⟩

/-- The records of the receipt, one for each entry and in the order of the plan. -/
theorem finalized_of_finished (hrun : runSchedule State.step (.initial campaign) labels = some s)
    (h : s.Finished) : (finalized s.records).length = campaign.entries.length ∧
      ∀ record, record ∈ finalized s.records ↔ ∃ i, s.outcome i = some record := by
  constructor
  · have hentries := congrArg (List.filterMap id) ((schedule_finishes hrun).2.2 h)
    have hlength := congrArg List.length hentries
    simpa [finalized, List.filterMap_map, List.length_filterMap_eq_countP, Function.comp_def] using hlength
  · intro record
    rw [finalized, List.mem_filterMap]
    constructor
    · intro hmem
      obtain ⟨stored, hstored, heq⟩ := hmem
      obtain ⟨k, hk, hget⟩ := List.mem_iff_getElem.mp hstored
      rw [(stored_of_run hrun).length] at hk
      obtain ⟨found, hfound, houtcome, -⟩ := records_of_finished hrun h ⟨k, hk⟩
      rw [List.getElem?_eq_getElem (by rw [(stored_of_run hrun).length]; exact hk), hget] at hfound
      cases hfound
      cases heq
      exact ⟨⟨k, hk⟩, houtcome⟩
    · intro hmem
      obtain ⟨i, houtcome⟩ := hmem
      obtain ⟨found, hfound, houtcome', -⟩ := records_of_finished hrun h i
      rw [houtcome] at houtcome'
      cases houtcome'
      exact ⟨some record, List.mem_of_getElem? hfound, rfl⟩

/-- The receipt of a finished campaign says `COMPLETE` exactly when the window was respected and the run of
every entry ended as complete. Within the window it says `FAILED` exactly when some record is a failure. -/
theorem receiptStatus_exact (hrun : runSchedule State.step (.initial campaign) labels = some s)
    (h : s.Finished) (endedNs windowNs : Int) :
    (receiptStatus campaign s.records endedNs windowNs = "COMPLETE_RAW_ONLY_NOT_REVIEWED" ↔
      windowSatisfied campaign endedNs windowNs = true ∧ ∀ i, .act i (.finish .complete) ∈ labels) ∧
    (windowSatisfied campaign endedNs windowNs = true →
      (receiptStatus campaign s.records endedNs windowNs = "FAILED" ↔
        ∃ record ∈ finalized s.records, record.status = .failed)) := by
  obtain ⟨hlength, hmem⟩ := finalized_of_finished hrun h
  have hhistory := history_of_run hrun
  have hall : (finalized s.records).countP (fun record => record.status = .complete) = campaign.entries.length ↔
      ∀ i, .act i (.finish .complete) ∈ labels := by
    rw [← hlength, List.countP_eq_length]
    constructor
    · intro hcomplete i
      obtain ⟨record, -, houtcome, -⟩ := records_of_finished hrun h i
      have hstatus := of_decide_eq_true (hcomplete record ((hmem record).mpr ⟨i, houtcome⟩))
      exact (hhistory.own i record houtcome).2.1 hstatus
    · intro hlabels record hrecord
      obtain ⟨i, houtcome⟩ := (hmem record).mp hrecord
      obtain ⟨found, hfound, hstatus⟩ := hhistory.completed i (hlabels i)
      rw [houtcome] at hfound
      cases hfound
      exact decide_eq_true hstatus
  have hfailed : (∃ record ∈ finalized s.records, record.status = .failed) ↔
      ¬ ∀ i, .act i (.finish .complete) ∈ labels := by
    rw [← hall, ← hlength, List.countP_eq_length]
    constructor
    · intro hexists hcomplete
      obtain ⟨record, hrecord, hstatus⟩ := hexists
      have hother := of_decide_eq_true (hcomplete record hrecord)
      rw [hstatus] at hother
      cases hother
    · intro hnot
      by_contra hnone
      refine hnot fun record hrecord => ?_
      obtain ⟨i, houtcome⟩ := (hmem record).mp hrecord
      cases hstatus : record.status with
      | complete => rfl
      | failed => exact absurd ⟨record, hrecord, hstatus⟩ hnone
      | notStartedAfterFailure =>
          -- an entry that was skipped saw the stop event, which only a failure sets
          have hstop := (hhistory.own i record houtcome).2.2 hstatus
          obtain ⟨j, failed, hfailed, hstatus'⟩ := hhistory.failure (.inl hstop)
          exact absurd ⟨failed, (hmem failed).mpr ⟨j, hfailed⟩, hstatus'⟩ hnone
  constructor
  · rw [← hall, receiptStatus]
    split
    · rename_i hwindow
      split
      · rename_i hcount
        exact ⟨fun _ => ⟨hwindow, hcount⟩, fun _ => rfl⟩
      · rename_i hcount
        exact ⟨fun hfalse => absurd hfalse (by decide), fun hboth => absurd hboth.2 hcount⟩
    · rename_i hwindow
      exact ⟨fun hfalse => absurd hfalse (by decide), fun hboth => absurd hboth.1 hwindow⟩
  · intro hwindow
    rw [hfailed, ← hall, receiptStatus, if_pos hwindow]
    split
    · rename_i hcount
      exact ⟨fun hfalse => absurd hfalse (by decide), fun hnot => absurd hcount hnot⟩
    · rename_i hcount
      exact ⟨fun _ => hcount, fun _ => rfl⟩

theorem receiptStatus_failing : ∃ s, runSchedule State.step (.initial twoRuns) failingSchedule = some s ∧
    (receiptStatus twoRuns s.records 20 21 = "FAILED" ↔
      ∃ record ∈ finalized s.records, record.status = .failed) := by
  obtain ⟨s, hrun, hfinished⟩ := failingSchedule_runs
  exact ⟨s, hrun, (receiptStatus_exact hrun hfinished 20 21).2 (by decide)⟩

end TxnOpt.CampaignRunner
