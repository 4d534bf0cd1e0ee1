import TxnOpt.Evidence.TencentCos
import TxnOpt.Evidence.Proof.Codec

/-!
# Decoding a commit

The bytes of a commit decode to that commit, and to no other. A decoder reads the clock, because a reference
cannot be made once its retention has expired.
-/

namespace TxnOpt.Cos

open Archive

variable {σ : Type} (machine : Machine)

/-- The retention lasts at every later reading of the clock. -/
def Unexpired (ticks : ℕ) (retainUntil : String) : Prop :=
  ∃ deadline, parseTimestamp machine retainUntil = .ok deadline ∧
    ∀ tick, ticks ≤ tick → machine.clock tick < deadline

/-- Only the clock was read. -/
structure Clocked (before after : World σ) : Prop where
  store : after.store = before.store
  files : after.files = before.files
  ticks : before.ticks ≤ after.ticks

theorem Clocked.refl (world : World σ) : Clocked world world := ⟨rfl, rfl, le_rfl⟩

theorem Clocked.trans {first second third : World σ} (h : Clocked first second) (h' : Clocked second third) :
    Clocked first third :=
  ⟨h'.store.trans h.store, h'.files.trans h.files, h.ticks.trans h'.ticks⟩

theorem clocked_now (world : World σ) : Clocked world (now machine world).2 :=
  ⟨rfl, rfl, Nat.le_succ _⟩

variable {machine}

theorem Unexpired.later {ticks later : ℕ} {retainUntil : String} (h : Unexpired machine ticks retainUntil)
    (hle : ticks ≤ later) : Unexpired machine later retainUntil := by
  obtain ⟨deadline, hparse, hclock⟩ := h
  exact ⟨deadline, hparse, fun tick htick => hclock tick (hle.trans htick)⟩

variable (machine)

@[simp]
theorem wp_now_bind {α : Type} {f : Int → CosM σ α} {post : Except PyExc α → World σ → Prop} {world : World σ} :
    Prog.wp (now machine >>= f) post world ↔
      Prog.wp (f (machine.clock world.ticks)) post { world with ticks := world.ticks + 1 } := Iff.rfl

/-- How a program that returns at most one value, and reads nothing but the clock, may end. -/
def Ends {α : Type} (value : α) (before : World σ) (ended : Except PyExc α) (after : World σ) : Prop :=
  (∀ got, ended = .ok got → got = value) ∧ Clocked before after

theorem ends_error {α : Type} {value : α} {before after : World σ} {error : PyExc} (h : Clocked before after) :
    Ends value before (.error error) after := by
  refine ⟨?_, h⟩
  intro got hgot
  cases hgot

theorem ends_ok {α : Type} {value : α} {before after : World σ} (h : Clocked before after) :
    Ends value before (.ok value) after := by
  refine ⟨?_, h⟩
  intro got hgot
  exact (Except.ok.inj hgot).symm

/-- Two programs in a row that may return one value each. -/
theorem wp_ends_bind {α β : Type} {first : CosM σ α} {second : α → CosM σ β} {value : α} {result : β} {P Q : Prop}
    {world : World σ}
    (hfirst : Prog.wp first (fun ended after => Ends value world ended after ∧ (P → ended = .ok value)) world)
    (himp : Q → P)
    (hsecond : ∀ after, Clocked world after → Prog.wp (second value)
      (fun ended last => Ends result after ended last ∧ (Q → ended = .ok result)) after) :
    Prog.wp (first >>= second)
      (fun ended after => Ends result world ended after ∧ (Q → ended = .ok result)) world := by
  rw [Prog.wp_bind]
  refine Prog.wp_mono hfirst ?_
  intro ended after h
  cases ended with
  | error error =>
      refine ⟨ends_error h.1.2, ?_⟩
      intro hq
      have heq := h.2 (himp hq)
      cases heq
  | ok got =>
      rw [h.1.1 got rfl, Prog.andThen_ok]
      refine Prog.wp_mono (hsecond after h.1.2) ?_
      intro ended last hlast
      exact ⟨⟨hlast.1.1, h.1.2.trans hlast.1.2⟩, hlast.2⟩

/-- The check of a reference on its retention. -/
theorem wp_deadline {α : Type} (value : α) (message retainUntil : String) (world : World σ) :
    Prog.wp (do
      let deadline ← Prog.resume (parseTimestamp machine retainUntil)
      let time ← now machine
      if deadline ≤ time then Prog.raise (.valueError message) else pure value)
      (fun ended after => Ends value world ended after ∧
        (Unexpired machine world.ticks retainUntil → ended = .ok value)) world := by
  cases hparse : parseTimestamp machine retainUntil with
  | error error =>
      refine ⟨ends_error (.refl world), ?_⟩
      intro hunexpired
      obtain ⟨deadline, hdeadline, -⟩ := hunexpired
      rw [hparse] at hdeadline
      cases hdeadline
  | ok deadline =>
      simp only [Prog.resume_ok, Prog.wp_pure_bind, wp_now_bind]
      apply Prog.wp_ite
      · intro hpassed
        refine ⟨ends_error (clocked_now machine world), ?_⟩
        intro hunexpired
        obtain ⟨read, hread, hclock⟩ := hunexpired
        rw [hparse] at hread
        have hlater := hclock world.ticks le_rfl
        rw [← Except.ok.inj hread] at hlater
        omega
      · intro _
        exact ⟨ends_ok (clocked_now machine world), fun _ => rfl⟩

theorem wp_make_ref (ref : TencentCosObjectRef) (world : World σ) :
    Prog.wp (TencentCosObjectRef.make machine ref.key ref.versionId ref.sha256 ref.size ref.retainUntil)
      (fun ended after => Ends ref world ended after ∧
        (Unexpired machine world.ticks ref.retainUntil → ended = .ok ref)) world := by
  rw [TencentCosObjectRef.make, dif_pos ref.isKey, dif_pos ref.isVersionId, dif_pos ref.isSha256,
    if_neg (Int.not_lt.mpr (Int.natCast_nonneg _))]
  exact wp_deadline machine ref _ _ world

theorem wp_make_commitRef {commitId : String} (hid : IsCommitId commitId) (ref : TencentCosObjectRef)
    (world : World σ) :
    Prog.wp (TencentCosCommitRef.make machine commitId ref)
      (fun ended after => Ends ⟨commitId, ref.key, ref.versionId, ref.sha256, ref.size, ref.retainUntil, hid,
          ref.isKey, ref.isVersionId, ref.isSha256⟩ world ended after ∧
        (Unexpired machine world.ticks ref.retainUntil → ended.isOk = true)) world := by
  rw [TencentCosCommitRef.make, dif_pos hid]
  refine Prog.wp_mono (wp_deadline machine _ _ _ world) ?_
  intro ended after h
  refine ⟨h.1, ?_⟩
  intro hunexpired
  rw [h.2 hunexpired]
  rfl

/-! ### Entries -/

theorem TencentCosEntry.make_eq (entry : TencentCosEntry) :
    TencentCosEntry.make entry.relativePath entry.ref = .ok entry := by
  rw [TencentCosEntry.make, dif_pos entry.isEntryPath]

theorem TencentCosCommit.make_eq (commit : TencentCosCommit) :
    TencentCosCommit.make commit.commitId commit.sourceTreeSha256 commit.entries = .ok commit := by
  rw [TencentCosCommit.make, dif_pos commit.isCommitId, dif_pos commit.isSha256, dif_pos commit.uniquelySorted]

theorem wp_orIntegrityError {α : Type} {message : String} {program : CosM σ α} {value : α} {world : World σ}
    {P : Prop} (h : Prog.wp program (fun ended after => Ends value world ended after ∧ (P → ended = .ok value)) world) :
    Prog.wp (orIntegrityError message program)
      (fun ended after => Ends value world ended after ∧ (P → ended = .ok value)) world := by
  rw [orIntegrityError, Prog.wp_rescue]
  refine Prog.wp_mono h ?_
  intro ended after hended
  cases ended with
  | ok got => exact hended
  | error error =>
      have hnot : ¬ P := by
        intro hp
        have heq := hended.2 hp
        cases heq
      by_cases hclass : error.isInstance .valueError = true
      · simp only [hclass, if_true]
        exact ⟨ends_error hended.1.2, fun hp => absurd hp hnot⟩
      · simp only [hclass, Bool.false_eq_true, if_false]
        exact ⟨ends_error hended.1.2, fun hp => absurd hp hnot⟩

/-- The members of an entry's payload. -/
def entryMembers (entry : TencentCosEntry) : List (String × Json) :=
  [("relative_path", .str entry.relativePath), ("key", .str entry.ref.key),
    ("version_id", .str entry.ref.versionId), ("sha256", .str entry.ref.sha256), ("size", .int entry.ref.size),
    ("retain_until", .str entry.ref.retainUntil)]

theorem entryMembers_keys (entry : TencentCosEntry) : (entryMembers entry).map Prod.fst = entryFields := rfl

theorem entryMembers_nodup (entry : TencentCosEntry) : ((entryMembers entry).map Prod.fst).Nodup := by
  rw [entryMembers_keys]
  decide

theorem hasFields_sorted {members : List (String × Json)} {fields : List String}
    (h : members.map Prod.fst = fields) : HasFields (sortedBy Prod.fst (Json.sortMembers members)) fields := by
  rw [HasFields]
  constructor
  · intro key hkey
    rw [← h]
    exact (Json.keys_sorted key).mp hkey
  · intro field hfield
    rw [← h] at hfield
    exact (Json.keys_sorted field).mpr hfield

theorem wp_entryFromPayload (entry : TencentCosEntry) (world : World σ) :
    Prog.wp (entryFromPayload machine entry.toPayload.sortKeys)
      (fun ended after => Ends entry world ended after ∧
        (Unexpired machine world.ticks entry.ref.retainUntil → ended = .ok entry)) world := by
  have hfield : ∀ field, (sortedBy Prod.fst (Json.sortMembers (entryMembers entry))).lookup field =
      ((entryMembers entry).lookup field).map Json.sortKeys := Json.lookup_sorted (entryMembers_nodup entry)
  change Prog.wp (entryFromPayload machine (.obj (sortedBy Prod.fst (Json.sortMembers (entryMembers entry))))) _ _
  have hfields := hasFields_sorted (entryMembers_keys entry)
  generalize sortedBy Prod.fst (Json.sortMembers (entryMembers entry)) = members at hfield hfields ⊢
  have hpath : strField members "relative_path" = some entry.relativePath := by
    rw [strField, hfield]
    rfl
  have hkey : strField members "key" = some entry.ref.key := by
    rw [strField, hfield]
    rfl
  have hversion : strField members "version_id" = some entry.ref.versionId := by
    rw [strField, hfield]
    rfl
  have hsha : strField members "sha256" = some entry.ref.sha256 := by
    rw [strField, hfield]
    rfl
  have hsize : (members.lookup "size").bind Json.asInt? = some (entry.ref.size : Int) := by
    rw [hfield]
    rfl
  have hretain : strField members "retain_until" = some entry.ref.retainUntil := by
    rw [strField, hfield]
    rfl
  rw [entryFromPayload, if_pos hfields]
  simp only [hpath, hkey, hversion, hsha, hsize, hretain]
  apply wp_orIntegrityError
  apply wp_ends_bind (wp_make_ref machine entry.ref world) id
  intro after _
  rw [TencentCosEntry.make_eq]
  exact ⟨ends_ok (.refl after), fun _ => rfl⟩

theorem wp_entriesFromPayload (entries : List TencentCosEntry) :
    ∀ world : World σ, Prog.wp
      (Prog.collect (entryFromPayload machine) (entries.map fun entry => entry.toPayload.sortKeys))
      (fun ended after => Ends entries world ended after ∧
        ((∀ entry ∈ entries, Unexpired machine world.ticks entry.ref.retainUntil) → ended = .ok entries)) world := by
  induction entries with
  | nil =>
      intro world
      exact ⟨ends_ok (.refl world), fun _ => rfl⟩
  | cons entry entries ih =>
      intro world
      apply wp_ends_bind (wp_entryFromPayload machine entry world)
      · intro hunexpired
        exact hunexpired entry List.mem_cons_self
      · intro after hafter
        apply wp_ends_bind (ih after)
        · intro hunexpired other hother
          exact (hunexpired other (List.mem_cons_of_mem entry hother)).later hafter.ticks
        · intro last _
          exact ⟨ends_ok (.refl last), fun _ => rfl⟩

/-- The members of a commit's payload. -/
def commitMembers (commit : TencentCosCommit) : List (String × Json) :=
  [("schema_version", .str commitSchema), ("commit_id", .str commit.commitId),
    ("source_tree_sha256", .str commit.sourceTreeSha256),
    ("objects", .arr (commit.entries.map TencentCosEntry.toPayload))]

theorem commitMembers_keys (commit : TencentCosCommit) : (commitMembers commit).map Prod.fst = commitFields := rfl

theorem commitMembers_nodup (commit : TencentCosCommit) : ((commitMembers commit).map Prod.fst).Nodup := by
  rw [commitMembers_keys]
  decide

theorem wp_commitFromPayload (commit : TencentCosCommit) (world : World σ) :
    Prog.wp (commitFromPayload machine commit.toPayload.sortKeys)
      (fun ended after => Ends commit world ended after ∧
        ((∀ entry ∈ commit.entries, Unexpired machine world.ticks entry.ref.retainUntil) →
          ended = .ok commit)) world := by
  have hfield : ∀ field, (sortedBy Prod.fst (Json.sortMembers (commitMembers commit))).lookup field =
      ((commitMembers commit).lookup field).map Json.sortKeys :=
    Json.lookup_sorted (commitMembers_nodup commit)
  change Prog.wp (commitFromPayload machine (.obj (sortedBy Prod.fst (Json.sortMembers (commitMembers commit))))) _ _
  have hfields := hasFields_sorted (commitMembers_keys commit)
  generalize sortedBy Prod.fst (Json.sortMembers (commitMembers commit)) = members at hfield hfields ⊢
  have hschema : strField members "schema_version" = some commitSchema := by
    rw [strField, hfield]
    rfl
  have hid : strField members "commit_id" = some commit.commitId := by
    rw [strField, hfield]
    rfl
  have htree : strField members "source_tree_sha256" = some commit.sourceTreeSha256 := by
    rw [strField, hfield]
    rfl
  have hobjects : (members.lookup "objects").bind Json.asArr? =
      some (commit.entries.map fun entry => entry.toPayload.sortKeys) := by
    have hitems := Json.sortItems_eq (commit.entries.map TencentCosEntry.toPayload)
    rw [List.map_map] at hitems
    rw [hfield]
    exact congrArg some hitems
  rw [commitFromPayload, if_pos hfields, if_pos hschema]
  simp only [hid, htree, hobjects]
  apply wp_ends_bind (wp_entriesFromPayload machine commit.entries world) id
  intro after _
  apply wp_orIntegrityError
  rw [TencentCosCommit.make_eq]
  exact ⟨ends_ok (.refl after), fun _ => rfl⟩

theorem toPayload_wellFormed (commit : TencentCosCommit) : commit.toPayload.WellFormed := by
  have hentry : ∀ entry : TencentCosEntry, entry.toPayload.WellFormed := by
    intro entry
    refine ⟨entryMembers_nodup entry, ?_⟩
    simp [Json.WellFormedMembers, Json.WellFormed]
  have hitems : Json.WellFormedItems (commit.entries.map TencentCosEntry.toPayload) := by
    rw [Json.wellFormedItems_iff]
    intro item hitem
    obtain ⟨entry, -, heq⟩ := List.mem_map.mp hitem
    rw [← heq]
    exact hentry entry
  exact ⟨commitMembers_nodup commit, trivial, trivial, trivial, hitems, trivial⟩

/-- Decoding the bytes of a commit. -/
theorem wp_decode (commit : TencentCosCommit) (world : World σ) :
    Prog.wp (decodeTencentCosCommit machine (encodeTencentCosCommit commit))
      (fun ended after => Ends commit world ended after ∧
        ((∀ entry ∈ commit.entries, Unexpired machine world.ticks entry.ref.retainUntil) →
          ended = .ok commit)) world := by
  rw [decodeTencentCosCommit, encodeTencentCosCommit, loadsBytes_canonical (toPayload_wellFormed commit)]
  simp only [canonicalJsonBytes_sortKeys, if_true]
  exact wp_commitFromPayload machine commit world

end TxnOpt.Cos
