import TxnOpt.Runtime.Proof.Core

/-!
# What admission guarantees

The admitted candidates carry distinct, non-empty keys, each of them the oracle's answer for its
candidate, and round numbers make canonical identities. So the constructor of `CandidateTxn` never
raises.
-/

namespace TxnOpt

/-! ### Transaction identities -/

/-- The digits of a padded identity, read back as a number. -/
def readDecimal (chars : List Char) : Nat :=
  Nat.ofDigits 10 (chars.map fun c => c.toNat - '0'.toNat).reverse

theorem digitChar_digit {digit : Nat} (h : digit < 10) :
    '0' ≤ digit.digitChar ∧ digit.digitChar ≤ '9' ∧ digit.digitChar.toNat - '0'.toNat = digit := by
  revert digit
  decide

theorem readDecimal_zeroPadded (value : Nat) : readDecimal (zeroPadded value).toList = value := by
  have hdigits : (Nat.digits 10 value).reverse.map
      ((fun c : Char => c.toNat - '0'.toNat) ∘ Nat.digitChar) = (Nat.digits 10 value).reverse := by
    refine (List.map_congr_left fun digit hdigit => ?_).trans (List.map_id _)
    exact (digitChar_digit (Nat.digits_lt_base (by decide) (List.mem_reverse.mp hdigit))).2.2
  unfold readDecimal zeroPadded
  rw [String.toList_ofList, List.map_append, List.map_map, List.map_replicate, List.reverse_append,
    List.reverse_replicate]
  rw [hdigits, List.reverse_reverse, Nat.sub_self, Nat.ofDigits_append_replicate_zero,
    Nat.ofDigits_digits]

theorem txnIdOf_injective : Function.Injective txnIdOf := by
  intro first second h
  have hpadded : (zeroPadded first).toList = (zeroPadded second).toList := by
    have hlist := congrArg String.toList h
    simpa only [txnIdOf, String.toList_append, List.append_cancel_left_eq] using hlist
  rw [← readDecimal_zeroPadded first, ← readDecimal_zeroPadded second, hpadded]

theorem isIdentity_txnIdOf (roundId : Nat) : isIdentity (txnIdOf roundId) = true := by
  have hzero : ∀ c ∈ (zeroPadded roundId).toList, '0' ≤ c ∧ c ≤ '9' := by
    intro c hc
    unfold zeroPadded at hc
    rw [String.toList_ofList, List.mem_append] at hc
    rcases hc with hc | hc
    · rw [(List.mem_replicate.mp hc).2]
      decide
    · obtain ⟨digit, hdigit, rfl⟩ := List.mem_map.mp hc
      obtain ⟨hlow, hhigh, -⟩ := digitChar_digit
        (Nat.digits_lt_base (by decide) (List.mem_reverse.mp hdigit))
      exact ⟨hlow, hhigh⟩
  have hlist : (txnIdOf roundId).toList = 'r' :: (['o', 'u', 'n', 'd', '-'] ++
      (zeroPadded roundId).toList) := by
    simp [txnIdOf]
  unfold isIdentity
  rw [hlist]
  simp only [List.all_append, Bool.and_eq_true, List.all_eq_true]
  refine ⟨by decide, List.all_eq_true.mp (by decide), ?_⟩
  intro c hc
  simp [hzero c hc]

/-! ### Admitted candidates -/

section

variable {W Cand State Obj : Type}

/-- Candidates under the keys that the oracle gave them. -/
structure Keyed (oracle : Oracle W Cand State Obj) (pairs : List (String × Cand)) : Prop where
  nodup : (pairs.map Prod.fst).Nodup
  answered : ∀ pair ∈ pairs, pair.1 ≠ "" ∧ Called (oracle.stableKey pair.2) (.ok pair.1)

/-- The admitted candidates of `_admit_candidates` so far, under keys that it has seen. -/
structure AdmittedSoFar (oracle : Oracle W Cand State Obj) (seen : List String)
    (admitted : List Cand) (admittedKeys : List String) : Prop where
  keyed : ∃ pairs, Keyed oracle pairs ∧ admitted = pairs.map Prod.snd ∧
    admittedKeys = pairs.map Prod.fst
  seen : admittedKeys ⊆ seen

variable {oracle : Oracle W Cand State Obj}

theorem Keyed.sublist {pairs selected : List (String × Cand)} (h : Keyed oracle pairs)
    (hsub : selected.Sublist pairs) : Keyed oracle selected :=
  ⟨(hsub.map Prod.fst).nodup h.nodup, fun pair hpair => h.answered pair (hsub.subset hpair)⟩

theorem Keyed.append {first second : List (String × Cand)} (hfirst : Keyed oracle first)
    (hsecond : Keyed oracle second)
    (hdisjoint : ∀ key ∈ second.map Prod.fst, key ∉ first.map Prod.fst) :
    Keyed oracle (first ++ second) := by
  refine ⟨?_, ?_⟩
  · rw [List.map_append]
    exact hfirst.nodup.append hsecond.nodup fun key hkey hkey' => hdisjoint key hkey' hkey
  · intro pair hpair
    rcases List.mem_append.mp hpair with hpair | hpair
    · exact hfirst.answered pair hpair
    · exact hsecond.answered pair hpair

theorem keyed_nil : Keyed oracle ([] : List (String × Cand)) :=
  ⟨List.nodup_nil, by rintro pair ⟨⟩⟩

/-- The batch so far, taken when the keys of `start` were seen. -/
structure Batched (oracle : Oracle W Cand State Obj) (start seen : List String)
    (batch : List (String × Cand)) : Prop where
  keyed : Keyed oracle batch
  seen : seen = start ++ batch.map Prod.fst
  fresh : ∀ key ∈ batch.map Prod.fst, key ∉ start

theorem takeBatch_spec (size : Nat) {start : List String} :
    ∀ (rest : List Cand) (seen : List String) (batch : List (String × Cand)) (w : W),
      Batched oracle start seen batch →
      Prog.wp (takeBatch oracle size rest seen batch)
        (fun r _ => ∀ taken rest' seen', r = .ok (taken, rest', seen') →
          Batched oracle start seen' taken) w := by
  intro rest
  induction rest with
  | nil =>
      rintro seen batch w h taken rest' seen' ⟨⟩
      exact h
  | cons candidate rest ih =>
      intro seen batch w h
      unfold takeBatch
      refine Prog.wp_ite (fun _ => ?_) (fun _ => ?_)
      · rcases hkey : oracle.stableKey candidate w with ⟨error | key, w'⟩
        · refine Prog.wp_bind.mpr (Prog.wp_of_eq hkey ?_)
          rintro taken rest' seen' ⟨⟩
        refine Prog.wp_bind.mpr (Prog.wp_of_eq hkey ?_)
        rw [Prog.andThen_ok]
        refine Prog.wp_ite (fun _ => ?_) (fun hne => ?_)
        · rintro taken rest' seen' ⟨⟩
        refine Prog.wp_ite (fun _ => ?_) (fun hnew => ?_)
        · exact ih seen batch w' h
        · refine ih _ _ w' ?_
          have hsingle : Keyed oracle [(key, candidate)] := by
            refine ⟨List.nodup_singleton _, ?_⟩
            intro pair hpair
            rw [List.mem_singleton] at hpair
            rw [hpair]
            exact ⟨hne, w, w', hkey⟩
          rw [h.seen, List.mem_append, not_or] at hnew
          refine ⟨h.keyed.append hsingle ?_, ?_, ?_⟩
          · simpa using hnew.2
          · rw [h.seen, List.map_append, List.append_assoc]
            rfl
          · intro key' hkey'
            rw [List.map_append, List.mem_append] at hkey'
            rcases hkey' with hkey' | hkey'
            · exact h.fresh key' hkey'
            · simp only [List.map_cons, List.map_nil, List.mem_singleton] at hkey'
              rw [hkey']
              exact hnew.1
      · rintro taken rest' seen' ⟨⟩
        exact h

theorem map_fst_zip_sublist {α β : Type} : ∀ (items : List α) (others : List β),
    ((items.zip others).map Prod.fst).Sublist items := by
  intro items
  induction items with
  | nil =>
      intro others
      exact List.Sublist.slnil
  | cons item rest ih =>
      rintro (_ | ⟨other, others⟩)
      · exact List.nil_sublist _
      · exact (ih others).cons_cons item

/-- The screened candidates that are admitted are some of the batch, in its order. -/
theorem admitBatch_spec (limit : Option Nat) :
    ∀ (screened : List ((String × Cand) × Bool)) (acc : Admitting Cand),
      ∃ selected : List (String × Cand), selected.Sublist (screened.map Prod.fst) ∧
        (admitBatch limit screened acc).admitted = acc.admitted ++ selected.map Prod.snd ∧
        (admitBatch limit screened acc).admittedKeys = acc.admittedKeys ++ selected.map Prod.fst ∧
        (admitBatch limit screened acc).seen = acc.seen := by
  intro screened
  induction screened with
  | nil =>
      intro acc
      exact ⟨[], List.Sublist.slnil, by simp [admitBatch]⟩
  | cons item rest ih =>
      intro acc
      rcases item with ⟨⟨key, candidate⟩, _ | _⟩
      · obtain ⟨selected, hsub, hselected⟩ := ih acc
        exact ⟨selected, hsub.cons _, hselected⟩
      · unfold admitBatch
        split
        · exact ⟨[], List.nil_sublist _, by simp⟩
        · obtain ⟨selected, hsub, hadmitted, hkeys, hseen⟩ := ih
            { acc with
              admitted := acc.admitted ++ [candidate]
              admittedKeys := acc.admittedKeys ++ [key] }
          refine ⟨(key, candidate) :: selected, hsub.cons_cons _, ?_, ?_, hseen⟩
          · rw [hadmitted, List.append_assoc]
            rfl
          · rw [hkeys, List.append_assoc]
            rfl

theorem admitLoop_spec (limit : Option Nat) :
    ∀ (passes : Nat) (acc : Admitting Cand) (w : W),
      AdmittedSoFar oracle acc.seen acc.admitted acc.admittedKeys →
      Prog.wp (admitLoop oracle limit passes acc)
        (fun r _ => ∀ final, r = .ok final →
          AdmittedSoFar oracle final.seen final.admitted final.admittedKeys) w := by
  intro passes
  induction passes with
  | zero =>
      rintro acc w h final ⟨⟩
      exact h
  | succ passes ih =>
      intro acc w h
      unfold admitLoop
      refine Prog.wp_ite (fun _ => ?_) (fun _ => ?_)
      · have hstart : Batched oracle acc.seen acc.seen [] :=
          ⟨keyed_nil, (List.append_nil _).symm, by rintro key ⟨⟩⟩
        refine Prog.wp_bind_of (takeBatch_spec _ acc.rest acc.seen [] w hstart) ?_
          (by rintro e t - final ⟨⟩)
        rintro ⟨batch, rest, seen⟩ w' hbatch
        have hbatched := hbatch batch rest seen rfl
        have hgrown : acc.seen ⊆ seen := by
          rw [hbatched.seen]
          exact List.subset_append_left _ _
        refine Prog.wp_ite (fun _ => ?_) (fun _ => ?_)
        · exact ih _ w' ⟨h.keyed, List.Subset.trans h.seen hgrown⟩
        · have hany : Prog.wp (screenBatch oracle (batch.map Prod.snd)) (fun _ _ => True) w' := trivial
          refine Prog.wp_bind_of hany ?_ (by rintro e t - final ⟨⟩)
          rintro decisions w'' -
          refine ih _ w'' ?_
          obtain ⟨pairs, hpairs, hadmitted, hkeys⟩ := h.keyed
          obtain ⟨selected, hsub, hadmitted', hkeys', hseen'⟩ := admitBatch_spec limit
            (batch.zip decisions)
            { acc with
              rest
              seen
              screenedCandidateCount := acc.screenedCandidateCount + batch.length
              screenedAdmissibleCount :=
                acc.screenedAdmissibleCount + decisions.countP (fun d => d) }
          have hsub' : selected.Sublist batch := hsub.trans (map_fst_zip_sublist batch decisions)
          refine ⟨⟨pairs ++ selected, hpairs.append (hbatched.keyed.sublist hsub') ?_, ?_, ?_⟩, ?_⟩
          · intro key hkey hold
            refine hbatched.fresh key ((hsub'.map Prod.fst).subset hkey) (h.seen ?_)
            rw [hkeys]
            exact hold
          · rw [hadmitted', List.map_append, ← hadmitted]
          · rw [hkeys', List.map_append, ← hkeys]
          · rw [hkeys', hseen']
            refine List.append_subset.mpr ⟨List.Subset.trans h.seen hgrown, ?_⟩
            dsimp only
            rw [hbatched.seen]
            exact List.Subset.trans (hsub'.map Prod.fst).subset (List.subset_append_right _ _)
      · rintro final ⟨⟩
        exact h

/-- What a transaction needs to know of an admission. -/
structure Admits (oracle : Oracle W Cand State Obj) (admission : Admission Cand) : Prop where
  keyed : ∃ pairs, Keyed oracle pairs ∧ admission.admitted = pairs.map Prod.snd ∧
    admission.admittedKeys = pairs.map Prod.fst

theorem admitCandidates_spec {candidates : List Cand} {limit : Option Nat}
    {admission : Admission Cand}
    (h : Called (admitCandidates oracle candidates limit) (.ok admission)) :
    Admits oracle admission := by
  obtain ⟨w, w', hcall⟩ := h
  have hspec : Prog.wp (admitCandidates oracle candidates limit)
      (fun r _ => ∀ admission, r = .ok admission → Admits oracle admission) w := by
    unfold admitCandidates
    have hstart : AdmittedSoFar oracle [] [] [] :=
      ⟨⟨[], keyed_nil, rfl, rfl⟩, List.Subset.refl _⟩
    refine Prog.wp_bind_of (admitLoop_spec limit _ _ w hstart) ?_ (by rintro e t - final ⟨⟩)
    intro final w'' hfinal
    refine Prog.wp_ite (fun _ => ?_) (fun _ => ?_)
    · rintro _ ⟨⟩
    · rintro _ ⟨⟩
      exact ⟨(hfinal final rfl).keyed⟩
  exact Prog.wp_of_run hspec hcall admission rfl

theorem Admits.length_eq {admission : Admission Cand} (h : Admits oracle admission) :
    admission.admittedKeys.length = admission.admitted.length := by
  obtain ⟨pairs, -, hadmitted, hkeys⟩ := h.keyed
  rw [hadmitted, hkeys, List.length_map, List.length_map]

theorem Admits.nodup {admission : Admission Cand} (h : Admits oracle admission) :
    admission.admittedKeys.Nodup := by
  obtain ⟨pairs, hpairs, -, hkeys⟩ := h.keyed
  rw [hkeys]
  exact hpairs.nodup

theorem Admits.ne_empty {admission : Admission Cand} (h : Admits oracle admission) {key : String}
    (hkey : key ∈ admission.admittedKeys) : key ≠ "" := by
  obtain ⟨pairs, hpairs, -, hkeys⟩ := h.keyed
  rw [hkeys] at hkey
  obtain ⟨pair, hpair, rfl⟩ := List.mem_map.mp hkey
  exact (hpairs.answered pair hpair).1

/-- The transaction that a round opens for its admission, on the snapshot `digest`. -/
structure OpensTxn (roundId : Nat) (digest : String) (keys : List String) (txn : CandidateTxn) :
    Prop where
  txnId : txn.txnId = txnIdOf roundId
  snapshotDigest : txn.snapshotDigest = digest
  candidateKeys : txn.candidateKeys = keys
  phase : txn.phase = .prepared

theorem Admits.opensTxn {admission : Admission Cand} (h : Admits oracle admission)
    (hadmitted : admission.admitted ≠ []) (roundId : Nat) {digest : String}
    (hdigest : isDigest digest = true) :
    ∃ txn, CandidateTxn.new (txnIdOf roundId) digest admission.admittedKeys = .ok txn ∧
      OpensTxn roundId digest admission.admittedKeys txn := by
  have hkeys : admission.admittedKeys ≠ [] := by
    rw [← List.length_pos_iff, h.length_eq, List.length_pos_iff]
    exact hadmitted
  exact ⟨_, CandidateTxn.new_eq_ok (isIdentity_txnIdOf roundId) hdigest hkeys
    (fun key hkey => h.ne_empty hkey) h.nodup, rfl, rfl, rfl, rfl⟩

end

end TxnOpt
