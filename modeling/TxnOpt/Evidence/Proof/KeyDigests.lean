import TxnOpt.Evidence.Refinement
import TxnOpt.Lib.Fallible
import TxnOpt.Lib.Separated

/-!
# The committed keys behind a receipt

The digests of a receipt are those of the committed key tuples, each joined with NUL characters. A key may
hold a NUL character, so the digests tell the tuples apart only up to where the keys are cut.
-/

namespace TxnOpt

variable {sha256 : String → String}

/-- The keys that an event commits. -/
def EventDict.committedKeys? (event : EventDict) : Option (List String) :=
  if event.str? "event" = some "candidate_transaction" ∧ event.str? "phase" = some "COMMITTED" then
    event.candidateKeys?
  else none

/-- The committed key tuples of a trace, round by round. -/
def committedKeys (events : List EventDict) : List (List String) :=
  (events.drop 1).dropLast.filterMap EventDict.committedKeys?

theorem replayIdentity_keys {s t : Replaying} {event : EventDict} {txnId phase : String} {keys : List String}
    (h : replayIdentity s event txnId phase keys = .ok t) :
    t.transactionKeys.lookup txnId = some keys ∧ t.committedKeyDigests = s.committedKeyDigests := by
  unfold replayIdentity at h
  split at h
  · split at h
    · cases h
    · split at h
      · cases h
      · split at h
        · cases h
        · cases h
          exact ⟨by simp, rfl⟩
  · split at h
    · cases h
    · split at h
      · cases h
      · next hsame =>
          cases h
          refine ⟨?_, rfl⟩
          by_contra hkeys
          exact hsame (.inr (.inr hkeys))

theorem replayPhase_digests {s t : Replaying} {event : EventDict} {phase : String} {keys : List String}
    (h : replayPhase sha256 s event phase keys = .ok t) :
    t.committedKeyDigests = s.committedKeyDigests ++
      if phase = "COMMITTED" then [candidateKeysDigest sha256 keys] else [] := by
  unfold replayPhase at h
  by_cases hphase : phase = "COMMITTED"
  · rw [if_pos hphase] at h ⊢
    split at h
    · split at h
      · cases h
      · cases h
        rfl
    · cases h
  · rw [if_neg hphase] at h ⊢
    rw [List.append_nil]
    split at h
    · split at h
      · cases h
      · cases h
        rfl
    · split at h
      · split at h
        · cases h
        · cases h
          rfl
      · split at h
        · cases h
        · cases h
          rfl

/-- One event adds the digest of the keys it commits. -/
theorem replayTransaction_digests {s t : Replaying} {event : EventDict}
    (hname : event.str? "event" = some "candidate_transaction") (h : replayTransaction sha256 s event = .ok t) :
    t.committedKeyDigests = s.committedKeyDigests ++
      event.committedKeys?.toList.map (candidateKeysDigest sha256) := by
  unfold replayTransaction at h
  unfold EventDict.committedKeys?
  cases htxn : event.str? "txn_id" with
  | none =>
      rw [htxn] at h
      cases h
  | some txnId =>
      cases hphase : event.str? "phase" with
      | none =>
          rw [htxn, hphase] at h
          cases h
      | some phase =>
          rw [htxn, hphase] at h
          simp only at h
          split at h
          · cases h
          · cases hkeys : event.candidateKeys? with
            | none =>
                rw [hkeys] at h
                cases h
            | some keys =>
                rw [hkeys] at h
                simp only at h
                obtain ⟨accepted, hidentity, h⟩ := exists_of_bind_eq_ok h
                obtain ⟨hlookup, hdigests⟩ := replayIdentity_keys hidentity
                split at h
                · cases h
                · rw [hlookup, Option.getD_some] at h
                  obtain ⟨after, hafter, h⟩ := exists_of_bind_eq_ok h
                  have hadded := replayPhase_digests hafter
                  simp only at hadded
                  have hresult : t.committedKeyDigests = after.committedKeyDigests := by
                    rw [← Except.ok.inj h]
                    split
                    · rfl
                    · rfl
                  rw [hresult, hadded, hdigests]
                  by_cases hcommitted : phase = "COMMITTED"
                  · rw [if_pos hcommitted, if_pos ⟨hname, by rw [hcommitted]⟩]
                    rfl
                  · rw [if_neg hcommitted, if_neg (fun hboth => hcommitted (Option.some.inj hboth.2))]
                    rfl

theorem replayEvent_digests {s t : Replaying} {event : EventDict} (h : replayEvent sha256 s event = .ok t) :
    t.committedKeyDigests = s.committedKeyDigests ++
      event.committedKeys?.toList.map (candidateKeysDigest sha256) := by
  unfold replayEvent at h
  split at h
  · next hname =>
      have hnone : event.committedKeys? = none := by
        unfold EventDict.committedKeys?
        rw [hname]
        rfl
      rw [hnone]
      split at h
      · cases h
      · unfold replayScreening at h
        split at h
        · cases h
        · split at h
          · cases h
          · split at h
            · cases h
              simp
            · cases h
  · next hname =>
      have hnone : event.committedKeys? = none := by
        unfold EventDict.committedKeys?
        rw [hname]
        rfl
      rw [hnone]
      split at h
      · cases h
      · unfold replayRoundTerminated at h
        split at h
        · cases h
        · cases h
          simp
  · next hname => exact replayTransaction_digests hname h
  · cases h

theorem replayEvents_digests {s t : Replaying} {events : List EventDict}
    (h : events.foldlM (replayEvent sha256) s = .ok t) :
    t.committedKeyDigests = s.committedKeyDigests ++
      (events.filterMap EventDict.committedKeys?).map (candidateKeysDigest sha256) := by
  induction events generalizing s with
  | nil =>
      cases h
      simp
  | cons event events ih =>
      rw [List.foldlM_cons] at h
      obtain ⟨middle, hmiddle, h⟩ := exists_of_bind_eq_ok h
      rw [ih h, replayEvent_digests hmiddle, List.append_assoc]
      cases hkeys : event.committedKeys? with
      | none => rw [List.filterMap_cons_none hkeys, Option.toList_none, List.map_nil, List.nil_append]
      | some keys =>
          rw [List.filterMap_cons_some hkeys, Option.toList_some, List.map_cons, List.map_cons, List.map_nil]
          rfl

/-- The digests of a receipt are those of the committed keys. -/
theorem receipt_digests {events : List EventDict} {receipt : RefinementReplayReceipt}
    (h : replayAggregateRefinement sha256 events = .ok receipt) :
    receipt.committedCandidateKeyDigests = (committedKeys events).map (candidateKeysDigest sha256) := by
  unfold replayAggregateRefinement at h
  split at h
  · split at h
    · cases h
    · split at h
      · split at h
        · obtain ⟨final, hfinal, h⟩ := exists_of_bind_eq_ok h
          have hdigests := replayEvents_digests hfinal
          unfold replayReceipt at h
          split at h
          · cases h
          · split at h
            · cases h
            · split at h
              · cases h
              · rw [← Except.ok.inj h]
                exact hdigests
        · cases h
      · cases h
  · cases h

theorem committedKeys_ne_nil {events : List EventDict} : ∀ keys ∈ committedKeys events, keys ≠ [] := by
  intro keys hkeys
  obtain ⟨event, _, hevent⟩ := List.mem_filterMap.mp hkeys
  unfold EventDict.committedKeys? at hevent
  split at hevent
  · unfold EventDict.candidateKeys? at hevent
    split at hevent
    · split at hevent
      · split at hevent
        · cases hevent
        · cases hevent
          exact List.cons_ne_nil _ _
      · cases hevent
    · cases hevent
  · cases hevent

/-! ### Telling key tuples apart -/

theorem candidateKeysDigest_join (hsha : Function.Injective sha256) {first second : List String}
    (h : candidateKeysDigest sha256 first = candidateKeysDigest sha256 second) :
    ['\x00'].intercalate (first.map String.toList) = ['\x00'].intercalate (second.map String.toList) := by
  have htexts := congrArg String.toList (hsha h)
  rw [String.toList_append, String.toList_append, String.toList_intercalate, String.toList_intercalate] at htexts
  exact List.append_cancel_left htexts

theorem keys_eq_of_digest_of_lengths (hsha : Function.Injective sha256) {first second : List String}
    (h : candidateKeysDigest sha256 first = candidateKeysDigest sha256 second)
    (hlengths : first.map String.length = second.map String.length) : first = second := by
  have hlists : (first.map String.toList).map List.length = (second.map String.toList).map List.length := by
    rw [List.map_map, List.map_map]
    exact hlengths
  have hparts := intercalate_inj_of_lengths hlists (candidateKeysDigest_join hsha h)
  exact List.map_injective_iff.mpr (fun _ _ => String.toList_inj.mp) hparts

theorem keys_eq_of_digest_of_not_mem (hsha : Function.Injective sha256) {first second : List String}
    (h : candidateKeysDigest sha256 first = candidateKeysDigest sha256 second) (hfirst : first ≠ [])
    (hsecond : second ≠ []) (hfirstFree : ∀ key ∈ first, '\x00' ∉ key.toList)
    (hsecondFree : ∀ key ∈ second, '\x00' ∉ key.toList) : first = second := by
  have hparts := intercalate_inj_of_not_mem (List.forall_mem_map.mpr hfirstFree)
    (List.forall_mem_map.mpr hsecondFree) (fun hnil => hfirst (List.map_eq_nil_iff.mp hnil))
    (fun hnil => hsecond (List.map_eq_nil_iff.mp hnil)) (candidateKeysDigest_join hsha h)
  exact List.map_injective_iff.mpr (fun _ _ => String.toList_inj.mp) hparts

/-- Lists whose images agree are the same where an image tells the members of both apart. -/
theorem eq_of_map_eq {α β : Type} {f : α → β} {first second : List α}
    (hinj : ∀ item ∈ first, ∀ other ∈ second, f item = f other → item = other)
    (h : first.map f = second.map f) : first = second := by
  induction first generalizing second with
  | nil =>
      rw [List.map_nil, eq_comm, List.map_eq_nil_iff] at h
      exact h.symm
  | cons item items ih =>
      cases second with
      | nil => cases h
      | cons other others =>
          rw [List.map_cons, List.map_cons, List.cons.injEq] at h
          rw [hinj item List.mem_cons_self other List.mem_cons_self h.1]
          rw [ih (fun first hfirst second hsecond => hinj first (List.mem_cons_of_mem item hfirst) second
            (List.mem_cons_of_mem other hsecond)) h.2]

/-- Two accepted traces with equal digests have committed the same key tuples iff the keys have the same
lengths, as they do when no key holds a NUL character. -/
theorem committedKeys_of_equal_digests (hsha : Function.Injective sha256) {first second : List EventDict}
    {receipt other : RefinementReplayReceipt} (hfirst : replayAggregateRefinement sha256 first = .ok receipt)
    (hsecond : replayAggregateRefinement sha256 second = .ok other)
    (hdigests : receipt.committedCandidateKeyDigests = other.committedCandidateKeyDigests) :
    (committedKeys first = committedKeys second ↔
      (committedKeys first).map (List.map String.length) = (committedKeys second).map (List.map String.length)) ∧
      ((∀ keys ∈ committedKeys first ++ committedKeys second, ∀ key ∈ keys, '\x00' ∉ key.toList) →
        committedKeys first = committedKeys second) := by
  rw [receipt_digests hfirst, receipt_digests hsecond] at hdigests
  refine ⟨⟨?_, ?_⟩, ?_⟩
  · intro hkeys
    rw [hkeys]
  · intro hlengths
    have hpairs : (committedKeys first).map (fun keys => (candidateKeysDigest sha256 keys, keys.map String.length)) =
        (committedKeys second).map (fun keys => (candidateKeysDigest sha256 keys, keys.map String.length)) := by
      apply List.ext_getElem?
      intro round
      have hdigest := congrArg (fun digests => digests[round]?) hdigests
      have hlength := congrArg (fun lengths => lengths[round]?) hlengths
      simp only [List.getElem?_map] at hdigest hlength ⊢
      cases hone : (committedKeys first)[round]? with
      | none =>
          rw [hone] at hdigest
          cases htwo : (committedKeys second)[round]? with
          | none => rfl
          | some keys =>
              rw [htwo] at hdigest
              cases hdigest
      | some keys =>
          rw [hone] at hdigest hlength
          cases htwo : (committedKeys second)[round]? with
          | none =>
              rw [htwo] at hdigest
              cases hdigest
          | some others =>
              rw [htwo] at hdigest hlength
              rw [Option.map_some, Option.map_some, Option.some.inj hdigest, Option.some.inj hlength]
    apply eq_of_map_eq _ hpairs
    intro keys _ others _ hboth
    rw [Prod.mk.injEq] at hboth
    exact keys_eq_of_digest_of_lengths hsha hboth.1 hboth.2
  · intro hfree
    apply eq_of_map_eq _ hdigests
    intro keys hkeys others hothers hdigest
    exact keys_eq_of_digest_of_not_mem hsha hdigest (committedKeys_ne_nil keys hkeys)
      (committedKeys_ne_nil others hothers) (hfree keys (List.mem_append_left _ hkeys))
      (hfree others (List.mem_append_right _ hothers))

/-! ### A key that holds the separator -/

def zeroDigest : String := String.ofList (List.replicate 64 '0')

/-- A trace of one round that commits the given keys. -/
def commitTrace (keys : List String) : List EventDict :=
  let transaction (phase : String) (published : EventDict) : EventDict :=
    [("event", .str "candidate_transaction"), ("txn_id", .str "txn"), ("phase", .str phase),
      ("snapshot_digest", .str zeroDigest), ("candidate_keys", .list (keys.map .str))] ++ published
  [[("event", .str "run_open"), ("state_digest", .str zeroDigest)],
    [("event", .str "candidate_screening"), ("admitted_count", .int keys.length)],
    transaction "PREPARED" [], transaction "RESERVED" [], transaction "EVALUATING" [], transaction "VALIDATED" [],
    transaction "COMMITTED"
      [("state_digest", .str zeroDigest), ("cache_generation", .int 1), ("started_work", .int keys.length)],
    [("event", .str "round_terminated")], [("event", .str "run_terminated")]]

/-- One key with a NUL character and two keys without one leave the same digest. -/
theorem committedKeys_ambiguous : ∃ receipt other,
    replayAggregateRefinement id (commitTrace ["a\x00b"]) = .ok receipt ∧
      replayAggregateRefinement id (commitTrace ["a", "b"]) = .ok other ∧
      receipt.committedCandidateKeyDigests = other.committedCandidateKeyDigests ∧
      committedKeys (commitTrace ["a\x00b"]) ≠ committedKeys (commitTrace ["a", "b"]) := by
  have hone : (replayAggregateRefinement id (commitTrace ["a\x00b"])).isOk = true := by decide +kernel
  have htwo : (replayAggregateRefinement id (commitTrace ["a", "b"])).isOk = true := by decide +kernel
  obtain ⟨receipt, hreceipt⟩ := exists_of_isOk hone
  obtain ⟨other, hother⟩ := exists_of_isOk htwo
  refine ⟨receipt, other, hreceipt, hother, ?_, ?_⟩
  · rw [receipt_digests hreceipt, receipt_digests hother]
    decide +kernel
  · decide +kernel

theorem committedKeys_of_equal_digests_pair : ∃ receipt other,
    replayAggregateRefinement id (commitTrace ["a", "b"]) = .ok receipt ∧
      replayAggregateRefinement id (commitTrace ["a", "b"]) = .ok other ∧
      (committedKeys (commitTrace ["a", "b"])).map (List.map String.length) = [[1, 1]] ∧
      committedKeys (commitTrace ["a", "b"]) = committedKeys (commitTrace ["a", "b"]) := by
  have hok : (replayAggregateRefinement id (commitTrace ["a", "b"])).isOk = true := by decide +kernel
  obtain ⟨receipt, hreceipt⟩ := exists_of_isOk hok
  refine ⟨receipt, receipt, hreceipt, hreceipt, by decide +kernel, ?_⟩
  exact (committedKeys_of_equal_digests Function.injective_id hreceipt hreceipt rfl).1.mpr rfl

end TxnOpt
