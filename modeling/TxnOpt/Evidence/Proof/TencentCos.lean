import TxnOpt.Evidence.Proof.Commit
import TxnOpt.Evidence.Proof.Archive
import TxnOpt.Lib.Steps

/-!
# What an archive call says, whatever the client does

A reference that a call returns names the digest and the size of the bytes it checked. A commit reference
of a mirrored tree names the bytes of one commit, and a commit that verifies under it is that commit.
-/

namespace TxnOpt.Cos

open Archive

variable {σ : Type} (machine : Machine) (client : TencentCosClient σ) (archive : TencentCosArchive)

/-! ### Checked bytes -/

variable {machine client archive}

theorem downloadVerified_ok {ref : TencentCosObjectRef} {sink : Bytes → CosM σ Unit} {before after : World σ}
    {data : Bytes} (h : downloadVerified machine client ref sink before = (.ok data, after)) :
    data.length = ref.size ∧ machine.sha.hexdigest data = ref.sha256 := by
  obtain ⟨head, first, -, h⟩ := Prog.bind_ok h
  obtain ⟨_, second, -, h⟩ := Prog.bind_ok h
  obtain ⟨_, third, -, h⟩ := Prog.bind_ok h
  obtain ⟨answer, fourth, -, h⟩ := Prog.bind_ok h
  obtain ⟨-, h⟩ := Prog.ite_raise_ok h
  cases hbody : answer.2 with
  | none =>
      rw [hbody] at h
      cases h
  | some stream =>
      rw [hbody] at h
      obtain ⟨⟨bytes, failed⟩, fifth, -, h⟩ := Prog.bind_ok h
      cases failed with
      | some error => cases h
      | none =>
          cases hclose : stream.closeError with
          | some error =>
              simp only [hclose] at h
              cases h
          | none =>
              simp only [hclose] at h
              obtain ⟨hsame, h⟩ := Prog.ite_raise_ok h
              rw [not_or, not_not, not_not] at hsame
              cases h
              exact hsame

theorem make_ref_ok {key versionId sha256 retainUntil : String} {size : Int} {before after : World σ}
    {ref : TencentCosObjectRef}
    (h : TencentCosObjectRef.make machine key versionId sha256 size retainUntil before = (.ok ref, after)) :
    ref.key = key ∧ ref.versionId = versionId ∧ ref.sha256 = sha256 ∧ (ref.size : Int) = size ∧
      ref.retainUntil = retainUntil := by
  rw [TencentCosObjectRef.make] at h
  by_cases hkey : IsKey key
  · rw [dif_pos hkey] at h
    by_cases hversion : IsVersionId versionId
    · rw [dif_pos hversion] at h
      by_cases hsha : IsSha256 sha256
      · rw [dif_pos hsha] at h
        obtain ⟨hsize, h⟩ := Prog.ite_raise_ok h
        obtain ⟨deadline, first, -, h⟩ := Prog.bind_ok h
        obtain ⟨time, second, -, h⟩ := Prog.bind_ok h
        obtain ⟨-, h⟩ := Prog.ite_raise_ok h
        cases h
        exact ⟨rfl, rfl, rfl, Int.toNat_of_nonneg (not_lt.mp hsize), rfl⟩
      · rw [dif_neg hsha] at h
        cases h
    · rw [dif_neg hversion] at h
      cases h
  · rw [dif_neg hkey] at h
    cases h

theorem readChunks_flatten {size : ℕ} (hsize : 0 < size) :
    ∀ (fuel : ℕ) (data : Bytes), data.length ≤ fuel → (readChunks size fuel data).flatten = data
  | 0, data, hfuel => by
      rw [List.length_eq_zero_iff.mp (Nat.le_zero.mp hfuel)]
      rfl
  | fuel + 1, data, hfuel => by
      rw [readChunks]
      by_cases hdata : data = []
      · rw [if_pos hdata, hdata]
        rfl
      · have hpos := List.length_pos_iff.mpr hdata
        have hrest := readChunks_flatten hsize fuel (data.drop size) (by rw [List.length_drop]; omega)
        rw [if_neg hdata, List.flatten_cons, hrest, List.take_append_drop]

theorem chunksOf_flatten {size : ℕ} (hsize : 0 < size) (data : Bytes) : (chunksOf size data).flatten = data :=
  readChunks_flatten hsize data.length data le_rfl

/-- What a reference says of the bytes that were uploaded. -/
structure Describes (machine : Machine) (source : Bytes) (ref : TencentCosObjectRef) : Prop where
  sha256 : machine.sha.hexdigest source = ref.sha256
  size : source.length = ref.size

theorem uploadVerifiedSource_ok {source : Bytes} {key sha256 : String} {size : ℕ} {requireAbsent : Bool}
    {ref : TencentCosObjectRef} {before after : World σ}
    (h : uploadVerifiedSource machine client archive source key sha256 size requireAbsent before =
      (.ok ref, after)) :
    Describes machine source ref ∧ ref.key = key ∧ ref.sha256 = sha256 ∧ ref.size = size := by
  obtain ⟨present, first, -, h⟩ := Prog.bind_ok h
  obtain ⟨-, h⟩ := Prog.ite_raise_ok h
  obtain ⟨time, second, -, h⟩ := Prog.bind_ok h
  obtain ⟨hsame, h⟩ := Prog.ite_raise_ok h
  rw [chunksOf_flatten (by decide), not_or, not_not, not_not] at hsame
  obtain ⟨response, third, -, h⟩ := Prog.bind_ok h
  obtain ⟨versionId, fourth, -, h⟩ := Prog.bind_ok h
  obtain ⟨retainUntil, fifth, -, h⟩ := Prog.bind_ok h
  obtain ⟨deadline, sixth, -, h⟩ := Prog.bind_ok h
  obtain ⟨-, h⟩ := Prog.ite_raise_ok h
  obtain ⟨made, seventh, hmade, h⟩ := Prog.bind_ok h
  obtain ⟨_, eighth, -, h⟩ := Prog.bind_ok h
  cases h
  obtain ⟨hkey, -, hsha, hsize, -⟩ := make_ref_ok hmade
  have hlength : ref.size = size := Int.ofNat.inj hsize
  exact ⟨⟨hsame.2.trans hsha.symm, hsame.1.trans hlength.symm⟩, hkey, hsha, hlength⟩

/-! ### What is kept of the local files -/

/-- The local files are as they were. -/
def SameFiles (before after : World σ) : Prop := after.files = before.files

instance : IsPreorder (World σ) SameFiles where
  refl _ := rfl
  trans _ _ _ h h' := Eq.trans h' h

theorem steps_onStore {α : Type} (request : Prog σ PyExc α) : Prog.Steps SameFiles (onStore request) :=
  fun _ => rfl

theorem steps_now : Prog.Steps SameFiles (now machine : CosM σ Int) := fun _ => rfl

theorem steps_fromFiles {α : Type} (look : Directory → Except PyExc α) :
    Prog.Steps SameFiles (fromFiles look : CosM σ α) := fun _ => rfl

/-- The requests of a client keep to a relation. -/
structure ClientSteps (R : World σ → World σ → Prop) (client : TencentCosClient σ) : Prop where
  putObject : ∀ put, Prog.Steps R (onStore (client.putObject put))
  createMultipartUpload : ∀ headers, Prog.Steps R (onStore (client.createMultipartUpload headers))
  uploadPart : ∀ part, Prog.Steps R (onStore (client.uploadPart part))
  completeMultipartUpload : ∀ complete, Prog.Steps R (onStore (client.completeMultipartUpload complete))
  abortMultipartUpload : ∀ key uploadId, Prog.Steps R (onStore (client.abortMultipartUpload key uploadId))
  headObject : ∀ key versionId, Prog.Steps R (onStore (client.headObject key versionId))
  getObject : ∀ key versionId, Prog.Steps R (onStore (client.getObject key versionId))
  getObjectRetention : ∀ key versionId, Prog.Steps R (onStore (client.getObjectRetention key versionId))
  objectExists : ∀ key, Prog.Steps R (onStore (client.objectExists key))

section Frames

variable {R : World σ → World σ → Prop} [IsPreorder (World σ) R] (hclient : ClientSteps R client)
  (hnow : Prog.Steps R (now machine : CosM σ Int))

include hclient in
theorem steps_readRetentionUntil (key versionId : String) :
    Prog.Steps R (readRetentionUntil machine client key versionId) := by
  refine Prog.steps_bind (hclient.getObjectRetention key versionId) ?_
  intro payload
  refine Prog.steps_bind (Prog.steps_resume _) ?_
  intro retainUntil
  refine Prog.steps_bind (Prog.steps_resume _) ?_
  intro _
  exact Prog.steps_pure _

include hclient hnow in
theorem steps_verifyRetention (ref : TencentCosObjectRef) : Prog.Steps R (verifyRetention machine client ref) := by
  refine Prog.steps_bind (steps_readRetentionUntil hclient ref.key ref.versionId) ?_
  intro retainUntil
  refine Prog.steps_bind (Prog.steps_resume _) ?_
  intro deadline
  refine Prog.steps_bind hnow ?_
  intro time
  refine Prog.Steps.ite (Prog.steps_raise _) ?_
  exact Prog.Steps.ite (Prog.steps_raise _) (Prog.steps_pure _)

theorem steps_readBody {sink : Bytes → CosM σ Unit} (hsink : ∀ chunk, Prog.Steps R (sink chunk)) :
    ∀ (items : List StreamItem) (data : Bytes), Prog.Steps R (readBody sink items data)
  | [], _ => Prog.steps_pure _
  | .failed _ :: _, _ => Prog.steps_pure _
  | .notBytes :: _, _ => Prog.steps_raise _
  | .chunk chunk :: items, data => by
      refine Prog.Steps.ite (Prog.steps_pure _) ?_
      refine Prog.steps_bind (hsink chunk) ?_
      intro _
      exact steps_readBody hsink items (data ++ chunk)

include hclient hnow in
theorem steps_downloadVerified (ref : TencentCosObjectRef) {sink : Bytes → CosM σ Unit}
    (hsink : ∀ chunk, Prog.Steps R (sink chunk)) : Prog.Steps R (downloadVerified machine client ref sink) := by
  refine Prog.steps_bind (hclient.headObject _ _) ?_
  intro head
  refine Prog.steps_bind (Prog.steps_resume _) ?_
  intro _
  refine Prog.steps_bind (steps_verifyRetention hclient hnow ref) ?_
  intro _
  refine Prog.steps_bind (hclient.getObject _ _) ?_
  intro answer
  refine Prog.Steps.ite (Prog.steps_raise _) ?_
  cases answer.2 with
  | none => exact Prog.steps_raise _
  | some stream =>
      refine Prog.steps_bind (steps_readBody hsink stream.items []) ?_
      intro read
      obtain ⟨data, failed⟩ := read
      cases failed with
      | some error => exact Prog.steps_raise _
      | none =>
          cases stream.closeError with
          | some error => exact Prog.steps_raise _
          | none => exact Prog.Steps.ite (Prog.steps_raise _) (Prog.steps_pure _)

include hnow in
theorem steps_make_ref (key versionId sha256 : String) (size : Int) (retainUntil : String) :
    Prog.Steps R (TencentCosObjectRef.make machine key versionId sha256 size retainUntil) := by
  rw [TencentCosObjectRef.make]
  split
  · split
    · split
      · refine Prog.Steps.ite (Prog.steps_raise _) ?_
        refine Prog.steps_bind (Prog.steps_resume _) ?_
        intro deadline
        refine Prog.steps_bind hnow ?_
        intro time
        exact Prog.Steps.ite (Prog.steps_raise _) (Prog.steps_pure _)
      · exact Prog.steps_raise _
    · exact Prog.steps_raise _
  · exact Prog.steps_raise _

include hnow in
theorem steps_make_commitRef (commitId : String) (object : TencentCosObjectRef) :
    Prog.Steps R (TencentCosCommitRef.make machine commitId object) := by
  rw [TencentCosCommitRef.make]
  split
  · refine Prog.steps_bind (Prog.steps_resume _) ?_
    intro deadline
    refine Prog.steps_bind hnow ?_
    intro time
    exact Prog.Steps.ite (Prog.steps_raise _) (Prog.steps_pure _)
  · exact Prog.steps_raise _

include hclient in
theorem steps_uploadParts (key uploadId : String) :
    ∀ (number : ℕ) (chunks : List Bytes), Prog.Steps R (uploadParts client key uploadId number chunks)
  | _, [] => Prog.steps_pure _
  | number, chunk :: chunks => by
      refine Prog.steps_bind (hclient.uploadPart _) ?_
      intro response
      cases strItem response "ETag" with
      | none => exact Prog.steps_raise _
      | some etag =>
          refine Prog.Steps.ite (Prog.steps_raise _) ?_
          refine Prog.steps_bind (steps_uploadParts key uploadId (number + 1) chunks) ?_
          intro parts
          exact Prog.steps_pure _

include hclient in
theorem steps_multipartUpload (staged : Bytes) (key sha256 : String) (size : ℕ) :
    Prog.Steps R (multipartUpload client archive staged key sha256 size) := by
  refine Prog.steps_bind (hclient.createMultipartUpload _) ?_
  intro created
  cases strItem created "UploadId" with
  | none => exact Prog.steps_raise _
  | some uploadId =>
      refine Prog.Steps.ite (Prog.steps_raise _) ?_
      apply Prog.steps_rescue
      · refine Prog.steps_bind (steps_uploadParts hclient key uploadId 1 _) ?_
        intro parts
        exact hclient.completeMultipartUpload _
      · intro error
        refine Prog.steps_bind (hclient.abortMultipartUpload key uploadId) ?_
        intro _
        exact Prog.steps_raise _

include hclient in
theorem steps_uploadStaged (staged : Bytes) (key sha256 : String) (size : ℕ) (requireAbsent : Bool) :
    Prog.Steps R (uploadStaged client archive staged key sha256 size requireAbsent) :=
  Prog.Steps.ite (hclient.putObject _) (steps_multipartUpload hclient staged key sha256 size)

include hclient hnow in
theorem steps_uploadVerifiedSource (source : Bytes) (key sha256 : String) (size : ℕ) (requireAbsent : Bool) :
    Prog.Steps R (uploadVerifiedSource machine client archive source key sha256 size requireAbsent) := by
  refine Prog.steps_bind (Prog.Steps.ite (hclient.objectExists key) (Prog.steps_pure _)) ?_
  intro present
  refine Prog.Steps.ite (Prog.steps_raise _) ?_
  refine Prog.steps_bind hnow ?_
  intro time
  refine Prog.Steps.ite (Prog.steps_raise _) ?_
  refine Prog.steps_bind (steps_uploadStaged hclient _ key sha256 size requireAbsent) ?_
  intro response
  refine Prog.steps_bind (Prog.steps_resume _) ?_
  intro versionId
  refine Prog.steps_bind (steps_readRetentionUntil hclient key versionId) ?_
  intro retainUntil
  refine Prog.steps_bind (Prog.steps_resume _) ?_
  intro deadline
  refine Prog.Steps.ite (Prog.steps_raise _) ?_
  refine Prog.steps_bind (steps_make_ref hnow key versionId sha256 size retainUntil) ?_
  intro ref
  refine Prog.steps_bind (steps_downloadVerified hclient hnow ref fun _ => Prog.steps_pure _) ?_
  intro _
  exact Prog.steps_pure _

include hclient hnow in
theorem steps_publishCommit (commit : TencentCosCommit) :
    Prog.Steps R (publishCommit machine client archive commit) := by
  refine Prog.steps_bind (steps_uploadVerifiedSource hclient hnow _ _ _ _ true) ?_
  intro object
  exact steps_make_commitRef hnow commit.commitId object

include hclient hnow in
theorem steps_putBlob (source : Bytes) (sha256 : String) (size : ℕ) :
    Prog.Steps R (putBlob machine client archive source sha256 size) :=
  Prog.Steps.ite (steps_uploadVerifiedSource hclient hnow source _ sha256 size false) (Prog.steps_raise _)

include hclient hnow in
theorem steps_mirrorEntry (hfiles : ∀ {α : Type} (look : Directory → Except PyExc α), Prog.Steps R (fromFiles look))
    (source : List String) (entry : ArchiveInventoryEntry) :
    Prog.Steps R (mirrorEntry machine client archive source entry) := by
  refine Prog.steps_bind (hfiles _) ?_
  intro data
  refine Prog.steps_bind (steps_putBlob hclient hnow data entry.sha256 entry.size) ?_
  intro ref
  exact Prog.steps_resume _

include hclient hnow in
theorem steps_mirrorTree (hfiles : ∀ {α : Type} (look : Directory → Except PyExc α), Prog.Steps R (fromFiles look))
    (source : List String) (commitId : String) :
    Prog.Steps R (mirrorTree machine client archive source commitId) := by
  refine Prog.steps_bind (hfiles _) ?_
  intro inventory
  refine Prog.steps_bind (Prog.steps_collect (steps_mirrorEntry hclient hnow hfiles source) _) ?_
  intro entries
  refine Prog.steps_bind (hfiles _) ?_
  intro finalInventory
  refine Prog.Steps.ite (Prog.steps_raise _) ?_
  refine Prog.steps_bind (Prog.steps_resume _) ?_
  intro commit
  exact steps_publishCommit hclient hnow commit

/-! ### Decoding -/

include hnow in
theorem steps_entryFromPayload (payload : Json) : Prog.Steps R (entryFromPayload machine payload) := by
  unfold entryFromPayload
  split
  · refine Prog.Steps.ite ?_ (Prog.steps_raise _)
    split
    · apply Prog.steps_rescue
      · refine Prog.steps_bind (steps_make_ref hnow _ _ _ _ _) ?_
        intro ref
        exact Prog.steps_resume _
      · intro error
        exact Prog.Steps.ite (Prog.steps_raise _) (Prog.steps_raise _)
    · exact Prog.steps_raise _
  · exact Prog.steps_raise _

include hnow in
theorem steps_commitFromPayload (payload : Json) : Prog.Steps R (commitFromPayload machine payload) := by
  unfold commitFromPayload
  split
  · refine Prog.Steps.ite ?_ (Prog.steps_raise _)
    refine Prog.Steps.ite ?_ (Prog.steps_raise _)
    split
    · refine Prog.steps_bind (Prog.steps_collect (steps_entryFromPayload hnow) _) ?_
      intro entries
      apply Prog.steps_rescue
      · exact Prog.steps_resume _
      · intro error
        exact Prog.Steps.ite (Prog.steps_raise _) (Prog.steps_raise _)
    · exact Prog.steps_raise _
  · exact Prog.steps_raise _

include hnow in
theorem steps_decode (data : Bytes) : Prog.Steps R (decodeTencentCosCommit machine data) := by
  rw [decodeTencentCosCommit]
  cases loadsBytes data with
  | none => exact Prog.steps_raise _
  | some payload => exact Prog.Steps.ite (steps_commitFromPayload hnow payload) (Prog.steps_raise _)

include hclient hnow in
theorem steps_verifyCommit (ref : TencentCosCommitRef) :
    Prog.Steps R (verifyCommit machine client archive ref) := by
  refine Prog.steps_bind (steps_make_ref hnow _ _ _ _ _) ?_
  intro objectRef
  refine Prog.steps_bind (steps_downloadVerified hclient hnow objectRef fun _ => Prog.steps_pure _) ?_
  intro data
  refine Prog.steps_bind (steps_decode hnow data) ?_
  intro commit
  refine Prog.Steps.ite (Prog.steps_raise _) ?_
  refine Prog.Steps.ite (Prog.steps_raise _) ?_
  refine Prog.steps_bind (Prog.steps_forEach ?_ _) ?_
  · intro entry
    refine Prog.steps_bind (steps_downloadVerified hclient hnow entry.ref fun _ => Prog.steps_pure _) ?_
    intro _
    exact Prog.steps_pure _
  · intro _
    exact Prog.steps_pure _

end Frames

theorem clientSteps_sameFiles (client : TencentCosClient σ) : ClientSteps SameFiles client where
  putObject _ := steps_onStore _
  createMultipartUpload _ := steps_onStore _
  uploadPart _ := steps_onStore _
  completeMultipartUpload _ := steps_onStore _
  abortMultipartUpload _ _ := steps_onStore _
  headObject _ _ := steps_onStore _
  getObject _ _ := steps_onStore _
  getObjectRetention _ _ := steps_onStore _
  objectExists _ := steps_onStore _

end TxnOpt.Cos
