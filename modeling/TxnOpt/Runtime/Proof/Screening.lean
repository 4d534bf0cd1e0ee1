import TxnOpt.Lib.Firsts
import TxnOpt.Runtime.Proof.Admission

/-!
# What admission computes

With an oracle whose keys are a function of the candidate and whose screen decides each candidate on its
own, the batches of `admitCandidates` do not matter: it admits the first admissible candidates of the
deduplicated stream, and it stops at the batch that reaches the limit.
-/

namespace TxnOpt

/-- A call of the oracle during admission. -/
inductive AdmissionCall (Cand : Type) where
  | keyed (candidate : Cand)
  | screened (batch : List Cand)

section

variable {W Cand State Obj : Type}

/-- Keys that are not empty, a screen that decides elementwise, and a world that notes every call. -/
structure Elementwise (oracle : Oracle W Cand State Obj) (key : Cand → String) (accept : Cand → Bool)
    (note : AdmissionCall Cand → W → W) : Prop where
  stableKey : ∀ candidate w, oracle.stableKey candidate w = (.ok (key candidate), note (.keyed candidate) w)
  nonempty : ∀ candidate, key candidate ≠ ""
  screen : ∀ batch w, oracle.screen batch w =
    (.ok (batch.map (fun candidate => .bool (accept candidate))), note (.screened batch) w)

/-- The first `limit` elements; all of them without a limit. -/
def upTo (limit : Option Nat) (items : List Cand) : List Cand :=
  match limit with
  | none => items
  | some limit => items.take limit

/-- The world after the given calls. -/
def noted (note : AdmissionCall Cand → W → W) (calls : List (AdmissionCall Cand)) (w : W) : W :=
  calls.foldl (fun w call => note call w) w

/-- The calls of admission that keys `fills` one after the other, keys in `seen` being known: each fill is
keyed, and the new candidates in it are screened as one batch. -/
def asks (key : Cand → String) : List String → List (List Cand) → List (AdmissionCall Cand)
  | _, [] => []
  | seen, fill :: later =>
      let batch := firsts key seen fill
      fill.map .keyed ++ (if batch.isEmpty then [] else [.screened batch]) ++
        asks key (seen ++ batch.map key) later

/-- A fill brings at most `size` new candidates, and the last of `size` is its last element. -/
structure Filled (key : Cand → String) (size : Nat) (seen : List String) (fill : List Cand) : Prop where
  room : (firsts key seen fill).length ≤ size
  full : (firsts key seen fill).length = size →
    ∃ before last, fill = before ++ [last] ∧ firsts key seen fill = firsts key seen before ++ [last]

/-- What admission has asked of the oracle: it has keyed `fills`, with `left` still untouched. -/
structure Asked (key : Cand → String) (accept : Cand → Bool) (limit : Option Nat)
    (candidates : List Cand) (fills : List (List Cand)) (left : List Cand) : Prop where
  split : candidates = fills.flatten ++ left
  /-- a fill starts only below the limit -/
  started : ∀ earlier fill later, fills = earlier ++ fill :: later →
    limitReached limit ((firsts key [] earlier.flatten).countP accept) = false
  /-- a fill ends with the candidate that makes its batch full -/
  ended : ∀ earlier fill later, fills = earlier ++ fill :: later →
    Filled key (screeningSize limit) ((firsts key [] earlier.flatten).map key) fill

variable {oracle : Oracle W Cand State Obj} {key : Cand → String} {accept : Cand → Bool}
  {note : AdmissionCall Cand → W → W}

theorem noted_append (first second : List (AdmissionCall Cand)) (w : W) :
    noted note (first ++ second) w = noted note second (noted note first w) :=
  List.foldl_append

theorem takeBatch_full {size : Nat} {rest : List Cand} {seen : List String} {batch : List (String × Cand)}
    (hfull : ¬ batch.length < size) : takeBatch oracle size rest seen batch = pure (batch, rest, seen) := by
  cases rest with
  | nil => rfl
  | cons candidate rest => rw [takeBatch, if_neg hfull]

/-- One batch: keys are taken until it is full or the candidates run out. -/
theorem takeBatch_eq (h : Elementwise oracle key accept note) (size : Nat) :
    ∀ (rest : List Cand) (seen : List String) (batch : List (String × Cand)) (w : W),
      batch.length < size →
      ∃ fill left, rest = fill ++ left ∧
        takeBatch oracle size rest seen batch w =
          (.ok (batch ++ (firsts key seen fill).map (fun candidate => (key candidate, candidate)), left,
            seen ++ (firsts key seen fill).map key), noted note (fill.map .keyed) w) ∧
        Filled key (size - batch.length) seen fill ∧
        (left ≠ [] → batch.length + (firsts key seen fill).length = size) := by
  intro rest
  induction rest with
  | nil =>
      intro seen batch w hroom
      refine ⟨[], [], rfl, by simp [takeBatch, firsts, noted], ⟨Nat.zero_le _, ?_⟩, by simp⟩
      intro hfull
      rw [firsts, List.length_nil] at hfull
      omega
  | cons candidate rest ih =>
      intro seen batch w hroom
      have hkey := h.stableKey candidate w
      by_cases hseen : key candidate ∈ seen
      · obtain ⟨fill, left, hsplit, hrun, hfilled, hfull⟩ := ih seen batch (note (.keyed candidate) w) hroom
        have hknown : ∀ items, firsts key seen (candidate :: items) = firsts key seen items :=
          fun items => by rw [firsts, if_pos hseen]
        refine ⟨candidate :: fill, left, by rw [hsplit]; rfl, ?_, ⟨?_, ?_⟩, ?_⟩
        · rw [takeBatch, if_pos hroom, Prog.bind_apply_ok hkey, if_neg (h.nonempty candidate),
            if_pos hseen, hrun, hknown]
          rfl
        · rw [hknown]
          exact hfilled.room
        · rw [hknown]
          intro hsize
          obtain ⟨before, last, hlast, hnew⟩ := hfilled.full hsize
          exact ⟨candidate :: before, last, by rw [hlast]; rfl, by rw [hknown, hnew]⟩
        · rw [hknown]
          exact hfull
      · have hnew : ∀ items, firsts key seen (candidate :: items) =
            candidate :: firsts key (seen ++ [key candidate]) items :=
          fun items => by rw [firsts, if_neg hseen]
        by_cases hlast : batch.length + 1 < size
        · obtain ⟨fill, left, hsplit, hrun, hfilled, hfull⟩ :=
            ih (seen ++ [key candidate]) (batch ++ [(key candidate, candidate)])
              (note (.keyed candidate) w) (by simpa using hlast)
          rw [List.length_append, List.length_singleton] at hfilled hfull
          refine ⟨candidate :: fill, left, by rw [hsplit]; rfl, ?_, ⟨?_, ?_⟩, ?_⟩
          · rw [takeBatch, if_pos hroom, Prog.bind_apply_ok hkey, if_neg (h.nonempty candidate),
              if_neg hseen, hrun, hnew]
            simp only [List.map_cons, List.append_assoc, List.singleton_append]
            rfl
          · have hle := hfilled.room
            rw [hnew, List.length_cons]
            omega
          · rw [hnew, List.length_cons]
            intro hsize
            obtain ⟨before, last, hsplitLast, hnewLast⟩ := hfilled.full (by omega)
            exact ⟨candidate :: before, last, by rw [hsplitLast]; rfl, by rw [hnew, hnewLast]; rfl⟩
          · intro hleft
            have hsize := hfull hleft
            rw [hnew, List.length_cons]
            omega
        · -- the candidate that fills the batch
          refine ⟨[candidate], rest, rfl, ?_, ⟨?_, ?_⟩, ?_⟩
          · rw [takeBatch, if_pos hroom, Prog.bind_apply_ok hkey, if_neg (h.nonempty candidate),
              if_neg hseen, takeBatch_full (by rw [List.length_append, List.length_singleton]; exact hlast),
              hnew]
            rfl
          · rw [hnew, firsts, List.length_singleton]
            omega
          · intro _
            exact ⟨[], candidate, rfl, by rw [hnew, firsts, firsts]; rfl⟩
          · intro _
            rw [hnew, firsts, List.length_singleton]
            omega

theorem screenBatch_eq (h : Elementwise oracle key accept note) (batch : List Cand) (w : W) :
    screenBatch oracle batch w = (.ok (batch.map accept), note (.screened batch) w) := by
  have hdecisions : (batch.map (fun candidate => Value.bool (accept candidate))).filterMap Value.asBool? =
      batch.map accept := by
    induction batch with
    | nil => rfl
    | cons candidate rest ih => exact congrArg (accept candidate :: ·) ih
  have hall : (batch.map (fun candidate => Value.bool (accept candidate))).all
      (fun d => d.asBool?.isSome) = true := by
    simp [Value.asBool?]
  rw [screenBatch, Prog.bind_apply_ok (h.screen batch w), hdecisions, if_pos ⟨List.length_map _, hall⟩]
  rfl

theorem upTo_reached {limit : Option Nat} {items : List Cand}
    (h : limitReached limit items.length = true) (more : List Cand) :
    upTo limit (items ++ more) = upTo limit items := by
  cases limit with
  | none => simp [limitReached] at h
  | some limit =>
      have hle : limit ≤ items.length := by simpa [limitReached] using h
      simp [upTo, List.take_append_of_le_length hle]

theorem upTo_open {limit : Option Nat} {items : List Cand}
    (h : limitReached limit (upTo limit items).length = false) : upTo limit items = items := by
  cases limit with
  | none => rfl
  | some limit =>
      have hlt : ¬ limit ≤ (items.take limit).length := by simpa [limitReached, upTo] using h
      rw [List.length_take] at hlt
      exact List.take_of_length_le (by omega)

theorem limitReached_upTo (limit : Option Nat) (items : List Cand) :
    limitReached limit (upTo limit items).length = limitReached limit items.length := by
  cases limit with
  | none => rfl
  | some limit => simp [limitReached, upTo]

/-- A screened batch adds its accepted candidates, up to the limit. -/
theorem admitBatch_eq (limit : Option Nat) :
    ∀ (batch : List Cand) (acc : Admitting Cand) (items : List Cand),
      acc.admitted = upTo limit items → acc.admittedKeys = acc.admitted.map key →
      admitBatch limit ((batch.map (fun candidate => (key candidate, candidate))).zip (batch.map accept)) acc =
        { acc with
          admitted := upTo limit (items ++ batch.filter accept)
          admittedKeys := (upTo limit (items ++ batch.filter accept)).map key } := by
  intro batch
  induction batch with
  | nil =>
      intro acc items hadmitted hkeys
      simp only [List.map_nil, List.zip_nil_left, admitBatch, List.filter_nil, List.append_nil]
      rw [← hadmitted, ← hkeys]
  | cons candidate rest ih =>
      intro acc items hadmitted hkeys
      cases haccept : accept candidate with
      | false =>
          simp only [List.map_cons, List.zip_cons_cons, haccept, admitBatch, List.filter_cons,
            Bool.false_eq_true, if_false]
          exact ih acc items hadmitted hkeys
      | true =>
          simp only [List.map_cons, List.zip_cons_cons, haccept, admitBatch, List.filter_cons, if_true]
          by_cases hreached : limitReached limit acc.admitted.length = true
          · rw [if_pos hreached]
            rw [hadmitted, limitReached_upTo] at hreached
            rw [upTo_reached hreached, ← hadmitted, ← hkeys]
          · rw [if_neg hreached]
            have hopen : limitReached limit acc.admitted.length = false := by simpa using hreached
            rw [hadmitted] at hopen
            have hitems := upTo_open hopen
            have hnext : acc.admitted ++ [candidate] = upTo limit (items ++ [candidate]) := by
              rw [hadmitted, hitems]
              cases limit with
              | none => rfl
              | some limit =>
                  rw [limitReached_upTo] at hopen
                  have hlt : ¬ limit ≤ items.length := by simpa [limitReached] using hopen
                  exact (List.take_of_length_le (by simp; omega)).symm
            rw [ih _ (items ++ [candidate]) hnext (by simp [hkeys])]
            simp

/-- The local variables of the loop once the new candidates `distinct` are keyed and screened. -/
structure Admitted (key : Cand → String) (accept : Cand → Bool) (limit : Option Nat)
    (distinct : List Cand) (acc : Admitting Cand) : Prop where
  seen : acc.seen = distinct.map key
  admitted : acc.admitted = upTo limit (distinct.filter accept)
  admittedKeys : acc.admittedKeys = acc.admitted.map key
  screened : acc.screenedCandidateCount = distinct.length
  admissible : acc.screenedAdmissibleCount = distinct.countP accept

theorem Admitted.reached_eq {limit : Option Nat} {distinct : List Cand} {acc : Admitting Cand}
    (h : Admitted key accept limit distinct acc) :
    limitReached limit acc.admitted.length = limitReached limit (distinct.countP accept) := by
  rw [h.admitted, limitReached_upTo, List.countP_eq_length_filter]

/-- The accumulators after one more screened batch. -/
theorem Admitted.batch {limit : Option Nat} {distinct : List Cand} {acc : Admitting Cand}
    (h : Admitted key accept limit distinct acc) (batch left : List Cand) :
    ∃ next, admitBatch limit
        ((batch.map (fun candidate => (key candidate, candidate))).zip (batch.map accept))
        { acc with
          rest := left
          seen := distinct.map key ++ batch.map key
          screenedCandidateCount := acc.screenedCandidateCount + batch.length
          screenedAdmissibleCount := acc.screenedAdmissibleCount + batch.countP accept } = next ∧
      next.rest = left ∧ Admitted key accept limit (distinct ++ batch) next := by
  refine ⟨_, admitBatch_eq limit batch _ (distinct.filter accept) (by exact h.admitted)
    (by exact h.admittedKeys), rfl, ?_⟩
  constructor
  · rw [List.map_append]
  · rw [List.filter_append]
  · rfl
  · rw [List.length_append, ← h.screened]
  · rw [List.countP_append, ← h.admissible]

theorem asks_concat (fill : List Cand) :
    ∀ (fills : List (List Cand)) (seen : List String),
      asks key seen (fills ++ [fill]) = asks key seen fills ++
        asks key (seen ++ (firsts key seen fills.flatten).map key) [fill] := by
  intro fills
  induction fills with
  | nil =>
      intro seen
      simp [asks, firsts]
  | cons first later ih =>
      intro seen
      rw [List.cons_append, asks, ih, List.flatten_cons, firsts_append]
      simp only [asks, List.map_append, List.append_assoc]

theorem Asked.fill {limit : Option Nat} {candidates fill left : List Cand} {fills : List (List Cand)}
    (h : Asked key accept limit candidates fills (fill ++ left))
    (hopen : limitReached limit ((firsts key [] fills.flatten).countP accept) = false)
    (hfilled : Filled key (screeningSize limit) ((firsts key [] fills.flatten).map key) fill) :
    Asked key accept limit candidates (fills ++ [fill]) left := by
  have hlast : ∀ {earlier : List (List Cand)} {other : List Cand} {later : List (List Cand)},
      fills ++ [fill] = earlier ++ other :: later →
        (earlier = fills ∧ other = fill) ∨ ∃ before, fills = earlier ++ other :: before := by
    intro earlier other later hsplit
    rcases List.eq_nil_or_concat later with hlater | ⟨before, last, hlater⟩
    · rw [hlater] at hsplit
      obtain ⟨hearlier, hother⟩ := List.append_inj' hsplit rfl
      exact .inl ⟨hearlier.symm, (List.cons.inj hother).1.symm⟩
    · rw [hlater, List.concat_eq_append, ← List.cons_append, ← List.append_assoc] at hsplit
      exact .inr ⟨before, (List.append_inj' hsplit rfl).1⟩
  refine ⟨?_, ?_, ?_⟩
  · rw [h.split, List.flatten_append, List.flatten_singleton, List.append_assoc]
  · intro earlier other later hsplit
    rcases hlast hsplit with ⟨hearlier, -⟩ | ⟨before, hbefore⟩
    · rw [hearlier]
      exact hopen
    · exact h.started earlier other before hbefore
  · intro earlier other later hsplit
    rcases hlast hsplit with ⟨hearlier, hother⟩ | ⟨before, hbefore⟩
    · rw [hearlier, hother]
      exact hfilled
    · exact h.ended earlier other before hbefore

theorem screeningSize_pos {limit : Option Nat} (hlimit : limit ≠ some 0) : 0 < screeningSize limit := by
  cases limit with
  | none => exact Nat.succ_pos _
  | some limit =>
      have hne : limit ≠ 0 := fun hzero => hlimit (congrArg some hzero)
      exact lt_min (Nat.succ_pos _) (Nat.pos_of_ne_zero hne)

/-- The whole loop: it ends at the limit or with nothing left. -/
theorem admitLoop_eq (h : Elementwise oracle key accept note) {limit : Option Nat}
    (hlimit : limit ≠ some 0) (candidates : List Cand) (w₀ : W) :
    ∀ (passes : Nat) (acc : Admitting Cand) (w : W) (fills : List (List Cand)),
      acc.rest.length ≤ passes → Asked key accept limit candidates fills acc.rest →
      Admitted key accept limit (firsts key [] fills.flatten) acc → w = noted note (asks key [] fills) w₀ →
      ∃ fills final,
        admitLoop oracle limit passes acc w = (.ok final, noted note (asks key [] fills) w₀) ∧
        Asked key accept limit candidates fills final.rest ∧
        Admitted key accept limit (firsts key [] fills.flatten) final ∧
        (final.rest = [] ∨ limitReached limit final.admitted.length = true) := by
  intro passes
  induction passes with
  | zero =>
      intro acc w fills hpasses hasked hadmitted hw
      have hrest : acc.rest = [] := List.length_eq_zero_iff.mp (by omega)
      exact ⟨fills, acc, by rw [hw]; rfl, hasked, hadmitted, .inl hrest⟩
  | succ passes ih =>
      intro acc w fills hpasses hasked hadmitted hw
      by_cases hgoes : acc.rest ≠ [] ∧ limitReached limit acc.admitted.length = false
      · obtain ⟨fill, left, hsplit, hrun, hfilled, hfull⟩ :=
          takeBatch_eq h (screeningSize limit) acc.rest acc.seen [] w (screeningSize_pos hlimit)
        have hopen : limitReached limit ((firsts key [] fills.flatten).countP accept) = false := by
          rw [← hadmitted.reached_eq]
          exact hgoes.2
        have hdistinct : firsts key [] (fills ++ [fill]).flatten = firsts key [] fills.flatten ++
            firsts key ((firsts key [] fills.flatten).map key) fill := by
          rw [List.flatten_append, List.flatten_singleton, firsts_append, List.nil_append]
        have hcalls : asks key [] (fills ++ [fill]) = asks key [] fills ++
            asks key ((firsts key [] fills.flatten).map key) [fill] := by
          rw [asks_concat, List.nil_append]
        rw [hsplit] at hasked
        rw [hadmitted.seen] at hrun hfilled hfull
        rw [List.length_nil, Nat.sub_zero] at hfilled
        rw [List.length_nil, Nat.zero_add] at hfull
        have hnextAsked := hasked.fill hopen hfilled
        rw [List.nil_append] at hrun
        generalize hbatch : firsts key ((firsts key [] fills.flatten).map key) fill = batch at *
        by_cases hempty : batch = []
        · have hleft : left = [] := by
            by_contra hsome
            have hpos := screeningSize_pos hlimit
            have hnone := hfull hsome
            rw [hempty, List.length_nil] at hnone
            omega
          rw [hempty, List.append_nil] at hdistinct
          rw [hempty, List.map_nil, List.map_nil, List.append_nil] at hrun
          obtain ⟨fills', final, hloop, hend⟩ :=
            ih { acc with rest := left, seen := (firsts key [] fills.flatten).map key }
              (noted note (fill.map .keyed) w) (fills ++ [fill])
              (by rw [hleft]; exact Nat.zero_le _) hnextAsked
              (by
                rw [hdistinct]
                exact ⟨rfl, hadmitted.admitted, hadmitted.admittedKeys, hadmitted.screened,
                  hadmitted.admissible⟩)
              (by
                rw [hcalls, noted_append, ← hw]
                simp [asks, hbatch, hempty])
          refine ⟨fills', final, ?_, hend⟩
          rw [admitLoop, if_pos hgoes, hadmitted.seen, Prog.bind_apply_ok hrun]
          exact hloop
        · have hpass : left.length ≤ passes := by
            have hmore : 0 < fill.length := by
              rw [List.length_pos_iff]
              intro hnil
              exact hempty (by rw [← hbatch, hnil, firsts])
            rw [hsplit, List.length_append] at hpasses
            omega
          have hsome : batch.map (fun candidate => (key candidate, candidate)) ≠ [] := by
            rw [Ne, List.map_eq_nil_iff]
            exact hempty
          have hsnd : (batch.map (fun candidate => (key candidate, candidate))).map Prod.snd = batch := by
            rw [List.map_map]
            exact List.map_id batch
          obtain ⟨next, hnext, hrest, hgrown⟩ := hadmitted.batch batch left
          obtain ⟨fills', final, hloop, hend⟩ :=
            ih next (note (.screened batch) (noted note (fill.map .keyed) w)) (fills ++ [fill])
              (by rw [hrest]; exact hpass) (by rw [hrest]; exact hnextAsked)
              (by rw [hdistinct]; exact hgrown)
              (by
                rw [hcalls, noted_append, ← hw]
                simp only [asks, hbatch, List.isEmpty_iff, if_neg hempty, List.append_nil, noted_append]
                rfl)
          refine ⟨fills', final, ?_, hend⟩
          rw [admitLoop, if_pos hgoes, hadmitted.seen, Prog.bind_apply_ok hrun]
          simp only [if_neg hsome]
          rw [hsnd, Prog.bind_apply_ok (screenBatch_eq h batch _)]
          simp only [List.countP_map, List.length_map]
          rw [← hloop, ← hnext]
          rfl
      · refine ⟨fills, acc, ?_, hasked, hadmitted, ?_⟩
        · rw [admitLoop, if_neg hgoes, hw]
          rfl
        · by_cases hrest : acc.rest = []
          · exact .inl hrest
          · refine .inr ?_
            by_contra hopen
            exact hgoes ⟨hrest, by simpa using hopen⟩

/-- Once the limit is reached, the candidates left do not matter. -/
theorem Asked.upTo_eq {limit : Option Nat} {candidates left : List Cand} {fills : List (List Cand)}
    (h : Asked key accept limit candidates fills left)
    (hend : left = [] ∨ limitReached limit (upTo limit ((firsts key [] fills.flatten).filter accept)).length = true) :
    upTo limit ((firsts key [] fills.flatten).filter accept) =
      upTo limit ((firsts key [] candidates).filter accept) := by
  rw [h.split]
  rcases hend with hleft | hreached
  · rw [hleft, List.append_nil]
  · rw [limitReached_upTo] at hreached
    rw [firsts_append, List.filter_append, upTo_reached hreached]

theorem limitReached_zero {limit : Option Nat} (hlimit : limit ≠ some 0) : limitReached limit 0 = false := by
  cases limit with
  | none => rfl
  | some limit =>
      have hne : limit ≠ 0 := fun hzero => hlimit (congrArg some hzero)
      simp [limitReached, hne]

/-- On no candidates at all, admission raises and asks nothing. On every other list it admits the first
`limit` admissible candidates among the first occurrences of the keys, and it asks for a candidate only
while the limit is not reached. -/
theorem admitCandidates_exact (h : Elementwise oracle key accept note) {limit : Option Nat}
    (hlimit : limit ≠ some 0) (candidates : List Cand) (w : W) :
    (candidates = [] → admitCandidates oracle candidates limit w =
      (.error (.contractError "candidate deduplication removed the entire round"), w)) ∧
    (candidates ≠ [] → ∃ fills left admission,
      admitCandidates oracle candidates limit w = (.ok admission, noted note (asks key [] fills) w) ∧
      Asked key accept limit candidates fills left ∧
      admission.admitted = upTo limit ((firsts key [] candidates).filter accept) ∧
      admission.admittedKeys = admission.admitted.map key ∧
      admission.screenedCandidateCount = (fills.flatten.map key).toFinset.card ∧
      admission.uniqueCount = (fills.flatten.map key).toFinset.card ∧
      admission.screenedAdmissibleCount = (firsts key [] fills.flatten).countP accept ∧
      admission.screeningComplete = left.isEmpty ∧
      (admission.admitted = [] → left = [] ∧ ∀ candidate ∈ firsts key [] candidates, accept candidate = false)) := by
  have hstart : Asked key accept limit candidates [] candidates := ⟨rfl, by simp, by simp⟩
  obtain ⟨fills, final, hloop, hasked, hadmitted, hend⟩ :=
    admitLoop_eq h hlimit candidates w candidates.length ⟨candidates, [], [], [], 0, 0⟩ w [] le_rfl hstart
      ⟨rfl, by cases limit <;> simp [upTo, firsts], rfl, rfl, rfl⟩ rfl
  refine ⟨?_, ?_⟩
  · intro hnil
    rw [hnil]
    rfl
  · intro hne
    have hfinal : upTo limit ((firsts key [] fills.flatten).filter accept) =
        upTo limit ((firsts key [] candidates).filter accept) := by
      apply hasked.upTo_eq
      rw [← hadmitted.admitted]
      exact hend
    have hopen : final.admitted = [] → final.rest = [] := by
      intro hnone
      rw [hnone, List.length_nil, limitReached_zero hlimit] at hend
      exact hend.resolve_right (by simp)
    have hkeyed : fills.flatten ≠ [] := by
      intro hnil
      have hnone : final.admitted = [] := by
        rw [hadmitted.admitted, hnil]
        cases limit <;> simp [upTo, firsts]
      have hsplit := hasked.split
      rw [hnil, hopen hnone] at hsplit
      exact hne hsplit
    have hseen : final.seen ≠ [] := by
      rw [hadmitted.seen, Ne, List.map_eq_nil_iff]
      exact firsts_ne_nil key hkeyed
    refine ⟨fills, final.rest, ⟨final.admitted, final.admittedKeys, final.screenedCandidateCount,
        final.seen.length, final.screenedAdmissibleCount, final.rest.isEmpty⟩, ?_, hasked,
      hadmitted.admitted.trans hfinal, hadmitted.admittedKeys,
      hadmitted.screened.trans (firsts_length key _), ?_, hadmitted.admissible, rfl, ?_⟩
    · rw [admitCandidates, Prog.bind_apply_ok hloop, if_neg hseen]
      rfl
    · rw [hadmitted.seen, List.length_map, firsts_length]
    · intro hnone
      refine ⟨hopen hnone, ?_⟩
      rw [hadmitted.admitted, hfinal] at hnone
      have hfilter : (firsts key [] candidates).filter accept = [] := by
        cases limit with
        | none => exact hnone
        | some limit =>
            refine (List.take_eq_nil_iff.mp hnone).resolve_left ?_
            exact fun hzero => hlimit (congrArg some hzero)
      intro candidate hmem
      simpa using List.filter_eq_nil_iff.mp hfilter candidate hmem

end

/-! ### Parities -/

def parity (candidate : Nat) : String := if candidate % 2 = 0 then "even" else "odd"

/-- Numbers keyed by their parity; the numbers below 5 are admissible. The world lists the calls. -/
def parityOracle : Oracle (List (AdmissionCall Nat)) Nat Nat Nat where
  deterministic := true
  parallelSafe := false
  internalParallelism := false
  workerCount := none
  stableKey := fun candidate calls => (.ok (parity candidate), calls ++ [.keyed candidate])
  workUnits := fun _ => pure (.int 1)
  stateDigest := fun _ => pure ""
  screen := fun batch calls =>
    (.ok (batch.map (fun candidate => .bool (decide (candidate < 5)))), calls ++ [.screened batch])
  evaluateBatch := fun batch _ _ => pure batch
  validate := fun _ => pure ()
  objective := fun state => pure state
  drainPhysicalObservations := .absent
  screeningStatistics := none

theorem parityOracle_elementwise : Elementwise parityOracle parity (fun candidate => decide (candidate < 5))
    (fun call calls => calls ++ [call]) where
  stableKey := fun _ _ => rfl
  nonempty := by
    intro candidate
    unfold parity
    split <;> decide
  screen := fun _ _ => rfl

theorem admitCandidates_exact_parity : ∃ admission calls,
    admitCandidates parityOracle [7, 4, 3, 2] (some 1) [] = (.ok admission, calls) ∧
      admission.admitted = [4] ∧ admission.admittedKeys = ["even"] := by
  obtain ⟨fills, left, admission, hrun, -, hadmitted, hkeys, -⟩ :=
    (admitCandidates_exact parityOracle_elementwise (by decide : some 1 ≠ some 0)
      [7, 4, 3, 2] []).2 (by decide)
  have hfirst : admission.admitted = [4] := by
    rw [hadmitted]
    decide
  exact ⟨admission, _, hrun, hfirst, by rw [hkeys, hfirst]; rfl⟩

/-- Without candidates there is nothing to return. -/
theorem admitCandidates_empty : ¬ ∃ admission calls,
    admitCandidates parityOracle [] none [] = (.ok admission, calls) := by
  intro hreturns
  obtain ⟨admission, calls, hrun⟩ := hreturns
  cases hrun

end TxnOpt
