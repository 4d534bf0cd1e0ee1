import TxnOpt.Evidence.Proof.Commit
import TxnOpt.Evidence.Proof.EventStream
import TxnOpt.Evidence.Proof.Fields
import TxnOpt.Evidence.Proof.RoundTrip
import TxnOpt.Lib.Steps
import Mathlib.Data.Set.Function

/-!
# The commit codec

The bytes that decode to a commit are its encoding, and no others.
-/

namespace TxnOpt.Cos

open Archive

variable {σ : Type} (machine : Machine)

/-! ### Entries -/

/-- The retention has not expired at that reading of the clock. -/
def InFuture (tick : ℕ) (retainUntil : String) : Prop :=
  ∃ deadline, parseTimestamp machine retainUntil = .ok deadline ∧ machine.clock tick < deadline

/-- The world after as many readings of the clock. -/
def World.tick (world : World σ) (count : ℕ) : World σ := { world with ticks := world.ticks + count }

theorem World.tick_tick (world : World σ) (count : ℕ) : (world.tick 1).tick count = world.tick (count + 1) := by
  simp only [World.tick, Nat.add_assoc, Nat.add_comm 1]

theorem make_ref_ok_iff {key versionId sha256 retainUntil : String} {size : Int} {ref : TencentCosObjectRef}
    {world after : World σ} :
    TencentCosObjectRef.make machine key versionId sha256 size retainUntil world = (.ok ref, after) ↔
      (ref.key = key ∧ ref.versionId = versionId ∧ ref.sha256 = sha256 ∧ (ref.size : Int) = size ∧
        ref.retainUntil = retainUntil) ∧ InFuture machine world.ticks retainUntil ∧ after = world.tick 1 := by
  rw [TencentCosObjectRef.make]
  constructor
  · intro h
    split at h
    · split at h
      · split at h
        · obtain ⟨hsize, h⟩ := Prog.ite_raise_ok h
          obtain ⟨deadline, first, hparse, h⟩ := Prog.bind_ok h
          obtain ⟨hdeadline, hfirst⟩ := Prog.resume_ok_inv hparse
          obtain ⟨time, second, hnow, h⟩ := Prog.bind_ok h
          obtain ⟨htime, hsecond⟩ := Prod.mk.inj hnow
          obtain ⟨hfuture, h⟩ := Prog.ite_raise_ok h
          obtain ⟨href, hafter⟩ := Prod.mk.inj h
          rw [← Except.ok.inj href, ← hafter, ← hsecond, hfirst]
          rw [← Except.ok.inj htime, hfirst] at hfuture
          refine ⟨⟨rfl, rfl, rfl, Int.toNat_of_nonneg (by omega), rfl⟩, ⟨deadline, hdeadline, by omega⟩, rfl⟩
        · cases h
      · cases h
    · cases h
  · intro h
    obtain ⟨⟨hkey, hversion, hsha, hsize, hretain⟩, ⟨deadline, hparse, hclock⟩, hafter⟩ := h
    rw [← hretain] at hparse
    rw [← hkey, ← hversion, ← hsha, ← hsize, ← hretain, dif_pos ref.isKey, dif_pos ref.isVersionId,
      dif_pos ref.isSha256, if_neg (by omega), hparse, hafter]
    simp only [Prog.resume_ok, Prog.bind_apply, Prog.pure_apply, now, if_neg (Int.not_le.mpr hclock)]
    rfl

theorem orIntegrityError_ok_iff {α : Type} {message : String} {program : CosM σ α} {value : α}
    {world after : World σ} :
    orIntegrityError message program world = (.ok value, after) ↔ program world = (.ok value, after) := by
  rw [orIntegrityError, Prog.rescue]
  cases hrun : program world with
  | mk ended last =>
      cases ended with
      | ok got => rfl
      | error error =>
          constructor
          · intro h
            simp only at h
            split at h
            · cases h
            · cases h
          · intro h
            cases h

theorem asInt_eq_some {value : Option Json} {number : Int} :
    value.bind Json.asInt? = some number ↔ value = some (.int number) := by
  cases value with
  | none => simp
  | some stored => cases stored <;> simp [Json.asInt?]

theorem same_entry_iff {members : List (String × Json)} {entry : TencentCosEntry}
    (hmembers : (members.map Prod.fst).Nodup) :
    Json.Same (.obj members) entry.toPayload ↔ HasFields members entryFields ∧
      strField members "relative_path" = some entry.relativePath ∧ strField members "key" = some entry.ref.key ∧
      strField members "version_id" = some entry.ref.versionId ∧ strField members "sha256" = some entry.ref.sha256 ∧
      (members.lookup "size").bind Json.asInt? = some (entry.ref.size : Int) ∧
      strField members "retain_until" = some entry.ref.retainUntil := by
  have hint : ∀ (stored : Option Json) number,
      stored.map Json.sortKeys = some (Json.int number).sortKeys ↔ stored.bind Json.asInt? = some number := by
    intro stored number
    rw [asInt_eq_some]
    exact map_sortKeys_eq_scalar trivial
  rw [TencentCosEntry.toPayload, @same_record_iff members _ entryFields hmembers rfl (by decide)]
  simp only [← map_sortKeys_eq_str, ← hint]
  simp [entryFields, List.lookup_cons]

theorem TencentCosEntry.make_ok_iff {relativePath : String} {ref : TencentCosObjectRef} {entry : TencentCosEntry} :
    TencentCosEntry.make relativePath ref = .ok entry ↔ entry.relativePath = relativePath ∧ entry.ref = ref := by
  rw [TencentCosEntry.make]
  constructor
  · intro h
    split at h
    · rw [← Except.ok.inj h]
      exact ⟨rfl, rfl⟩
    · cases h
  · intro h
    rw [← h.1, ← h.2, dif_pos entry.isEntryPath]

/-- An object that was taken has all fields, with values of the right types. -/
theorem entry_fields {members : List (String × Json)} {entry : TencentCosEntry} {world after : World σ}
    (h : entryFromPayload machine (.obj members) world = (.ok entry, after)) :
    ∃ path key versionId sha256 size retainUntil, strField members "relative_path" = some path ∧
      strField members "key" = some key ∧ strField members "version_id" = some versionId ∧
      strField members "sha256" = some sha256 ∧ (members.lookup "size").bind Json.asInt? = some size ∧
      strField members "retain_until" = some retainUntil := by
  rw [entryFromPayload] at h
  by_cases hfields : HasFields members entryFields
  · rw [if_pos hfields] at h
    rcases hpath : strField members "relative_path" with _ | path
    · rw [hpath] at h
      cases h
    rcases hkey : strField members "key" with _ | key
    · rw [hpath, hkey] at h
      cases h
    rcases hversion : strField members "version_id" with _ | versionId
    · rw [hpath, hkey, hversion] at h
      cases h
    rcases hsha : strField members "sha256" with _ | sha256
    · rw [hpath, hkey, hversion, hsha] at h
      cases h
    rcases hsize : (members.lookup "size").bind Json.asInt? with _ | size
    · rw [hpath, hkey, hversion, hsha, hsize] at h
      cases h
    rcases hretain : strField members "retain_until" with _ | retainUntil
    · rw [hpath, hkey, hversion, hsha, hsize, hretain] at h
      cases h
    exact ⟨path, key, versionId, sha256, size, retainUntil, rfl, rfl, rfl, rfl, rfl, rfl⟩
  · rw [if_neg hfields] at h
    cases h

theorem entryFromPayload_ok_iff {raw : Json} (hraw : raw.WellFormed) {entry : TencentCosEntry}
    {world after : World σ} :
    entryFromPayload machine raw world = (.ok entry, after) ↔
      Json.Same raw entry.toPayload ∧ InFuture machine world.ticks entry.ref.retainUntil ∧ after = world.tick 1 := by
  cases raw with
  | obj members =>
      rw [same_entry_iff hraw.1]
      by_cases hfields : HasFields members entryFields
      · constructor
        · intro h
          obtain ⟨path, key, versionId, sha256, size, retainUntil, hpath, hkey, hversion, hsha, hsize, hretain⟩ :=
            entry_fields machine h
          rw [entryFromPayload, if_pos hfields] at h
          simp only [hpath, hkey, hversion, hsha, hsize, hretain] at h
          obtain ⟨ref, middle, href, h⟩ := Prog.bind_ok (orIntegrityError_ok_iff.mp h)
          obtain ⟨hmake, hafter⟩ := Prog.resume_ok_inv h
          obtain ⟨⟨hrefKey, hrefVersion, hrefSha, hrefSize, hrefRetain⟩, hfuture, hmiddle⟩ :=
            (make_ref_ok_iff machine).mp href
          obtain ⟨hentryPath, hentryRef⟩ := TencentCosEntry.make_ok_iff.mp hmake
          rw [hentryPath, hentryRef, hrefKey, hrefVersion, hrefSha, hrefSize, hrefRetain]
          exact ⟨⟨hfields, hpath, hkey, hversion, hsha, hsize, hretain⟩, hfuture, hafter.trans hmiddle⟩
        · intro h
          obtain ⟨⟨-, hpath, hkey, hversion, hsha, hsize, hretain⟩, hfuture, hafter⟩ := h
          have href := (make_ref_ok_iff machine).mpr ⟨⟨rfl, rfl, rfl, rfl, rfl⟩, hfuture, hafter⟩
          have hmake := TencentCosEntry.make_ok_iff.mpr ⟨@rfl _ entry.relativePath, @rfl _ entry.ref⟩
          rw [entryFromPayload, if_pos hfields]
          simp only [hpath, hkey, hversion, hsha, hsize, hretain]
          rw [orIntegrityError_ok_iff, Prog.bind_apply_ok href, hmake]
          rfl
      · rw [entryFromPayload, if_neg hfields]
        constructor
        · intro h
          cases h
        · intro h
          exact absurd h.1.1 hfields
  | _ =>
      constructor
      · intro h
        cases h
      · intro h
        cases h.1

/-! ### Commits -/

/-- Each retention lies in the future when its reference is made again. -/
def EntriesRetained : ℕ → List TencentCosEntry → Prop
  | _, [] => True
  | tick, entry :: entries => InFuture machine tick entry.ref.retainUntil ∧ EntriesRetained (tick + 1) entries

theorem entriesFromPayload_ok_iff {items : List Json} (hitems : Json.WellFormedItems items) :
    ∀ {entries : List TencentCosEntry} {world after : World σ},
      Prog.collect (entryFromPayload machine) items world = (.ok entries, after) ↔
        List.Forall₂ Json.Same items (entries.map TencentCosEntry.toPayload) ∧
          EntriesRetained machine world.ticks entries ∧ after = world.tick entries.length := by
  induction items with
  | nil =>
      intro entries world after
      constructor
      · intro h
        obtain ⟨hentries, hafter⟩ := Prod.mk.inj h
        rw [← Except.ok.inj hentries, ← hafter]
        exact ⟨.nil, trivial, rfl⟩
      · intro h
        obtain ⟨hsame, -, hafter⟩ := h
        rw [hafter, List.map_eq_nil_iff.mp (List.forall₂_nil_left_iff.mp hsame)]
        rfl
  | cons raw items ih =>
      intro entries world after
      constructor
      · intro h
        obtain ⟨entry, middle, hentry, h⟩ := Prog.bind_ok h
        obtain ⟨later, last, hlater, h⟩ := Prog.bind_ok h
        obtain ⟨hentries, hafter⟩ := Prod.mk.inj h
        obtain ⟨hsame, hfuture, hmiddle⟩ := (entryFromPayload_ok_iff machine hitems.1).mp hentry
        obtain ⟨hrest, hretained, hlast⟩ := (ih hitems.2).mp hlater
        rw [← Except.ok.inj hentries, ← hafter, hlast, hmiddle]
        rw [hmiddle] at hretained
        exact ⟨.cons hsame hrest, ⟨hfuture, hretained⟩, World.tick_tick world later.length⟩
      · intro h
        obtain ⟨hsame, hretained, hafter⟩ := h
        cases entries with
        | nil => cases hsame
        | cons entry entries =>
            rw [List.map_cons, List.forall₂_cons] at hsame
            have hentry := (entryFromPayload_ok_iff machine hitems.1).mpr ⟨hsame.1, hretained.1, rfl⟩
            have hlater := (@ih hitems.2 entries (world.tick 1) _).mpr ⟨hsame.2, hretained.2, rfl⟩
            have hbind : Prog.collect (entryFromPayload machine) (raw :: items) world =
                Prog.bind (Prog.collect (entryFromPayload machine) items) (fun later => pure (entry :: later))
                  (world.tick 1) := Prog.bind_apply_ok hentry
            rw [World.tick_tick] at hlater
            rw [hbind, hafter, List.length_cons]
            exact Prog.bind_apply_ok hlater

theorem TencentCosCommit.make_ok_iff {commitId tree : String} {entries : List TencentCosEntry}
    {commit : TencentCosCommit} :
    TencentCosCommit.make commitId tree entries = .ok commit ↔
      commit.commitId = commitId ∧ commit.sourceTreeSha256 = tree ∧ commit.entries = entries := by
  rw [TencentCosCommit.make]
  constructor
  · intro h
    split at h
    · split at h
      · split at h
        · rw [← Except.ok.inj h]
          exact ⟨rfl, rfl, rfl⟩
        · cases h
      · cases h
    · cases h
  · intro h
    rw [← h.1, ← h.2.1, ← h.2.2, dif_pos commit.isCommitId, dif_pos commit.isSha256, dif_pos commit.uniquelySorted]

theorem same_commit_iff {members : List (String × Json)} {commit : TencentCosCommit}
    (hmembers : (members.map Prod.fst).Nodup) :
    Json.Same (.obj members) commit.toPayload ↔ HasFields members commitFields ∧
      strField members "schema_version" = some commitSchema ∧
      strField members "commit_id" = some commit.commitId ∧
      strField members "source_tree_sha256" = some commit.sourceTreeSha256 ∧
      ∃ objects, members.lookup "objects" = some (.arr objects) ∧
        List.Forall₂ Json.Same objects (commit.entries.map TencentCosEntry.toPayload) := by
  rw [TencentCosCommit.toPayload, @same_record_iff members _ commitFields hmembers rfl (by decide)]
  simp only [← map_sortKeys_eq_str, ← map_sortKeys_eq_arr]
  simp [commitFields, List.lookup_cons]

theorem asArr_eq_some {value : Option Json} {items : List Json} :
    value.bind Json.asArr? = some items ↔ value = some (.arr items) := by
  cases value with
  | none => simp
  | some stored => cases stored <;> simp [Json.asArr?]

theorem commitFromPayload_ok_iff {payload : Json} (hpayload : payload.WellFormed) {commit : TencentCosCommit}
    {world after : World σ} :
    commitFromPayload machine payload world = (.ok commit, after) ↔
      Json.Same payload commit.toPayload ∧ EntriesRetained machine world.ticks commit.entries ∧
        after = world.tick commit.entries.length := by
  cases payload with
  | obj members =>
      have hitems : ∀ objects, members.lookup "objects" = some (.arr objects) → Json.WellFormedItems objects := by
        intro objects hlookup
        have hmem := (lookup_eq_some_iff_mem hpayload.1).mp hlookup
        exact (Json.wellFormedMembers_iff members).mp hpayload.2 _ hmem
      rw [same_commit_iff hpayload.1]
      constructor
      · intro h
        rw [commitFromPayload] at h
        by_cases hfields : HasFields members commitFields
        · rw [if_pos hfields] at h
          by_cases hschema : strField members "schema_version" = some commitSchema
          · rw [if_pos hschema] at h
            rcases hid : strField members "commit_id" with _ | commitId
            · rw [hid] at h
              cases h
            rcases htree : strField members "source_tree_sha256" with _ | tree
            · rw [hid, htree] at h
              cases h
            rcases hobjects : (members.lookup "objects").bind Json.asArr? with _ | objects
            · rw [hid, htree, hobjects] at h
              cases h
            simp only [hid, htree, hobjects] at h
            rw [asArr_eq_some] at hobjects
            obtain ⟨entries, middle, hentries, h⟩ := Prog.bind_ok h
            obtain ⟨hmake, hafter⟩ := Prog.resume_ok_inv (orIntegrityError_ok_iff.mp h)
            obtain ⟨hsame, hretained, hmiddle⟩ := (entriesFromPayload_ok_iff machine (hitems _ hobjects)).mp hentries
            obtain ⟨hcommitId, hcommitTree, hcommitEntries⟩ := TencentCosCommit.make_ok_iff.mp hmake
            rw [hcommitId, hcommitTree, hcommitEntries]
            exact ⟨⟨hfields, hschema, rfl, rfl, objects, hobjects, hsame⟩, hretained, hafter.trans hmiddle⟩
          · rw [if_neg hschema] at h
            cases h
        · rw [if_neg hfields] at h
          cases h
      · intro h
        obtain ⟨⟨hfields, hschema, hid, htree, objects, hobjects, hsame⟩, hretained, hafter⟩ := h
        have hentries := (entriesFromPayload_ok_iff machine (hitems _ hobjects)).mpr ⟨hsame, hretained, hafter⟩
        have hmake := TencentCosCommit.make_ok_iff.mpr
          ⟨@rfl _ commit.commitId, @rfl _ commit.sourceTreeSha256, @rfl _ commit.entries⟩
        rw [commitFromPayload, if_pos hfields, if_pos hschema]
        simp only [hid, htree, hobjects, Option.bind_some, Json.asArr?]
        rw [Prog.bind_apply_ok hentries, orIntegrityError_ok_iff, hmake]
        rfl
  | _ =>
      constructor
      · intro h
        cases h
      · intro h
        cases h.1

/-! ### Bytes -/

/-- What decodes to a commit is its encoding, while its references can be made. -/
theorem decode_ok_iff {data : Bytes} {commit : TencentCosCommit} {world after : World σ} :
    decodeTencentCosCommit machine data world = (.ok commit, after) ↔
      data = encodeTencentCosCommit commit ∧ EntriesRetained machine world.ticks commit.entries ∧
        after = world.tick commit.entries.length := by
  rw [decodeTencentCosCommit]
  constructor
  · intro h
    cases hloads : loadsBytes data with
    | none =>
        rw [hloads] at h
        cases h
    | some payload =>
        obtain ⟨text, -, htext⟩ := Option.bind_eq_some_iff.mp hloads
        rw [hloads] at h
        simp only at h
        by_cases hcanonical : canonicalJsonBytes payload true = data
        · rw [if_pos hcanonical] at h
          obtain ⟨hsame, hretained⟩ := (commitFromPayload_ok_iff machine (Json.loads_wellFormed htext)).mp h
          rw [← hcanonical, encodeTencentCosCommit, ← canonicalJsonBytes_sortKeys, hsame,
            canonicalJsonBytes_sortKeys]
          exact ⟨rfl, hretained⟩
        · rw [if_neg hcanonical] at h
          cases h
  · intro h
    obtain ⟨hdata, hretained⟩ := h
    have hform := toPayload_wellFormed commit
    rw [hdata, encodeTencentCosCommit, loadsBytes_canonical hform]
    simp only [canonicalJsonBytes_sortKeys, if_true]
    rw [commitFromPayload_ok_iff machine (Json.WellFormed.sortKeys _ hform)]
    exact ⟨Json.sortKeys_sortKeys _, hretained⟩

theorem decode_fst_iff {data : Bytes} {commit : TencentCosCommit} {world : World σ} :
    (decodeTencentCosCommit machine data world).1 = .ok commit ↔
      data = encodeTencentCosCommit commit ∧ EntriesRetained machine world.ticks commit.entries := by
  constructor
  · intro h
    obtain ⟨hdata, hretained, -⟩ := (decode_ok_iff machine).mp (Prod.ext h rfl)
    exact ⟨hdata, hretained⟩
  · intro h
    rw [(decode_ok_iff machine).mpr ⟨h.1, h.2, rfl⟩]

/-- The machine with a calendar on which no retention expires. -/
def timeless : Machine := { machine with
  fromIsoformat := fun _ => some ⟨1, some 0⟩
  clock := fun _ => 0 }

theorem timeless_retained (tick : ℕ) (entries : List TencentCosEntry) :
    EntriesRetained (timeless machine) tick entries := by
  induction entries generalizing tick with
  | nil => exact trivial
  | cons entry entries ih => exact ⟨⟨1, rfl, (by decide : (0 : Int) < 1)⟩, ih (tick + 1)⟩

theorem encode_injective : Function.Injective encodeTencentCosCommit := by
  intro first second h
  have hfirst := (decode_fst_iff (timeless sampleMachine)).mpr
    ⟨rfl, timeless_retained sampleMachine sampleWorld.ticks first.entries⟩
  have hsecond := (decode_fst_iff (timeless sampleMachine)).mpr
    ⟨rfl, timeless_retained sampleMachine sampleWorld.ticks second.entries⟩
  rw [h, hsecond] at hfirst
  exact (Except.ok.inj hfirst).symm

end TxnOpt.Cos
