import TxnOpt.Evidence.CosStore
import TxnOpt.Evidence.Proof.TencentCos
import TxnOpt.Lib.Keys

/-!
# Uploads to a versioned store

No request changes a version that is stored. An upload that returns left the bytes of its source under the
version that its reference names, in one request or in parts.
-/

namespace TxnOpt.Cos

open Archive CosService

variable {machine : Machine} {service : CosService} {archive : TencentCosArchive}

/-! ### Versions stay -/

/-- Every stored version is still stored. -/
def Kept (before after : CosStore) : Prop :=
  ∀ key versionId version, before.version? key versionId = some version →
    after.version? key versionId = some version

theorem Kept.refl (store : CosStore) : Kept store store := fun _ _ _ h => h

theorem Kept.of_versions {before after : CosStore} (h : after.versions = before.versions) : Kept before after := by
  intro key versionId version hversion
  rw [CosStore.version?, h]
  exact hversion

theorem Kept.of_append {before after : CosStore} {added : List StoredVersion}
    (h : after.versions = before.versions ++ added) : Kept before after := by
  intro key versionId version hversion
  rw [CosStore.version?] at hversion
  rw [CosStore.version?, h, List.find?_append, hversion]
  rfl

/-- The store only grows, the clock goes on, and the local files stay. -/
structure Grows (before after : World CosStore) : Prop where
  files : after.files = before.files
  kept : Kept before.store after.store
  calls : before.store.calls ≤ after.store.calls
  ticks : before.ticks ≤ after.ticks

instance : IsPreorder (World CosStore) Grows where
  refl _ := ⟨rfl, .refl _, le_rfl, le_rfl⟩
  trans _ _ _ h h' :=
    ⟨h'.files.trans h.files, fun key versionId version hversion => h'.kept key versionId version
      (h.kept key versionId version hversion), h.calls.trans h'.calls, h.ticks.trans h'.ticks⟩

theorem steps_request {α : Type} {effect : CosStore → Except PyExc α × CosStore}
    (h : ∀ store, Kept store (effect store).2) : Prog.Steps Grows (onStore (service.request effect)) := by
  intro world
  have hkept := h world.store
  have hcounted : Kept world.store { (effect world.store).2 with calls := world.store.calls + 1 } := hkept
  rw [onStore, Prog.zoom_apply, request]
  cases service.fault world.store with
  | none => exact ⟨rfl, hcounted, Nat.le_succ _, le_rfl⟩
  | some fault =>
      obtain ⟨took, error⟩ := fault
      cases took with
      | true => exact ⟨rfl, hcounted, Nat.le_succ _, le_rfl⟩
      | false => exact ⟨rfl, .of_versions rfl, Nat.le_succ _, le_rfl⟩

theorem kept_publish (headers : ObjectHeaders) (body : Bytes) (store : CosStore) :
    Kept store (service.publish headers body store).2 := .of_append rfl

theorem kept_readVersion {α : Type} (answer : StoredVersion → α) (key versionId : String) (store : CosStore) :
    Kept store (readVersion answer key versionId store).2 := by
  rw [readVersion]
  cases store.version? key versionId <;> exact .refl store

theorem kept_complete (complete : CompleteRequest) (store : CosStore) :
    Kept store (service.completeMultipartUpload complete store).2 := by
  rw [CosService.completeMultipartUpload]
  cases store.upload? complete.uploadId with
  | none => exact .refl store
  | some upload =>
      simp only
      cases assemble upload complete.parts with
      | none => exact .refl store
      | some body => exact .of_append rfl

theorem kept_uploadPart (part : PartRequest) (store : CosStore) :
    Kept store (service.uploadPart part store).2 := by
  rw [CosService.uploadPart]
  cases store.upload? part.uploadId <;> exact .of_versions rfl

theorem kept_put (put : PutRequest) (store : CosStore) : Kept store (service.putObject put store).2 := by
  rw [CosService.putObject]
  split
  · exact .refl store
  · split
    · exact .refl store
    · exact kept_publish _ _ store

theorem clientSteps_grows : ClientSteps Grows service.client where
  putObject put := steps_request (kept_put put)
  createMultipartUpload _ := steps_request fun _ => .of_versions rfl
  uploadPart part := steps_request (kept_uploadPart part)
  completeMultipartUpload complete := steps_request (kept_complete complete)
  abortMultipartUpload _ _ := steps_request fun _ => .of_versions rfl
  headObject key versionId := steps_request (kept_readVersion _ key versionId)
  getObject key versionId := steps_request fun store => kept_readVersion _ key versionId store
  getObjectRetention key versionId := steps_request (kept_readVersion _ key versionId)
  objectExists _ := steps_request .refl

theorem steps_now_grows : Prog.Steps Grows (now machine : CosM CosStore Int) :=
  fun _ => ⟨rfl, .refl _, le_rfl, Nat.le_succ _⟩

theorem steps_fromFiles_grows {α : Type} (look : Directory → Except PyExc α) :
    Prog.Steps Grows (fromFiles look : CosM CosStore α) := fun world => refl_of Grows world

/-! ### Requests that were answered -/

theorem request_ok {α : Type} {effect : CosStore → Except PyExc α × CosStore} {before after : World CosStore} {a : α}
    (h : onStore (service.request effect) before = (.ok a, after)) :
    (effect before.store).1 = .ok a ∧
      after = { before with store := { (effect before.store).2 with calls := before.store.calls + 1 } } := by
  rw [onStore, Prog.zoom_apply, request] at h
  cases hfault : service.fault before.store with
  | none =>
      rw [hfault] at h
      obtain ⟨hanswer, hafter⟩ := Prod.mk.inj h
      exact ⟨hanswer, hafter.symm⟩
  | some fault =>
      rw [hfault] at h
      obtain ⟨took, error⟩ := fault
      cases took with
      | true => cases h
      | false => cases h

/-- The version that a successful upload makes. -/
structure Published (headers : ObjectHeaders) (body : Bytes) (response : Response) (version : StoredVersion)
    (before after : CosStore) : Prop where
  said : version.headers = headers
  content : version.body = body
  answer : response = [("x-cos-version-id", .str version.versionId)]
  stored : after.version? headers.key version.versionId = some version
  fresh : before.version? headers.key version.versionId = none

theorem publish_published {headers : ObjectHeaders} {body : Bytes} {response : Response} {before after : CosStore}
    (hanswer : (service.publish headers body before).1 = .ok response)
    (hafter : after.versions = (service.publish headers body before).2.versions) :
    ∃ version, Published headers body response version before after := by
  have hfresh : ∀ version ∈ before.versions, ¬ version.versionId = service.versionId before := by
    intro version hversion heq
    exact service.versionId_fresh before (List.mem_map.mpr ⟨version, hversion, heq⟩)
  have hnone : before.version? headers.key (service.versionId before) = none := by
    rw [CosStore.version?, List.find?_eq_none]
    intro version hversion
    simpa using fun _ => hfresh version hversion
  refine ⟨⟨headers, service.versionId before, body, service.retentionMode before, service.retainUntil before⟩,
    rfl, rfl, (Except.ok.inj hanswer).symm, ?_, hnone⟩
  rw [CosStore.version?] at hnone
  rw [CosStore.version?, hafter, CosService.publish, List.find?_append, hnone]
  simp

theorem put_published {put : PutRequest} {response : Response} {before after : World CosStore}
    (h : onStore (service.client.putObject put) before = (.ok response, after)) :
    ∃ version, Published put.headers put.body response version before.store after.store := by
  obtain ⟨hanswer, hafter⟩ := request_ok h
  rw [CosService.putObject] at hanswer hafter
  by_cases hexists : put.ifNoneMatch = true ∧ hasKey put.headers.key before.store
  · rw [if_pos hexists] at hanswer
    cases hanswer
  · rw [if_neg hexists] at hanswer hafter
    by_cases hlength : put.contentLength ≠ put.body.length
    · rw [if_pos hlength] at hanswer
      cases hanswer
    · rw [if_neg hlength] at hanswer hafter
      exact publish_published hanswer (by rw [hafter])

/-! ### Parts -/

/-- The parts of an upload, as its completion lists them. -/
def listing (parts : List (ℕ × String × Bytes)) : List (String × ℕ) := parts.map fun part => (part.2.1, part.1)

theorem assemble_listing {upload : PendingUpload} (hnodup : (upload.parts.map Prod.fst).Nodup) :
    assemble upload (listing upload.parts) = some (upload.parts.map fun part => part.2.2).flatten := by
  have hfind : ∀ part ∈ upload.parts,
      (upload.parts.find? fun stored => stored.1 = part.1 ∧ stored.2.1 = part.2.1).map (fun stored => stored.2.2) =
        some part.2.2 := by
    intro part hpart
    cases hfound : upload.parts.find? fun stored => stored.1 = part.1 ∧ stored.2.1 = part.2.1 with
    | none =>
        have hnone := List.find?_eq_none.mp hfound part hpart
        simp at hnone
    | some stored =>
        have hsame := List.find?_some hfound
        have hnumber : stored.1 = part.1 := by
          rw [decide_eq_true_eq] at hsame
          exact hsame.1
        rw [eq_of_key_eq hnodup (List.mem_of_find?_eq_some hfound) hpart hnumber]
        rfl
  have hall : ∀ parts : List (ℕ × String × Bytes), (∀ part ∈ parts, part ∈ upload.parts) →
      (listing parts).mapM (fun part =>
        (upload.parts.find? fun stored => stored.1 = part.2 ∧ stored.2.1 = part.1).map fun stored => stored.2.2) =
      some (parts.map fun part => part.2.2) := by
    intro parts
    induction parts with
    | nil =>
        intro _
        rfl
    | cons part parts ih =>
        intro hparts
        rw [List.forall_mem_cons] at hparts
        rw [listing, List.map_cons, List.mapM_cons, hfind part hparts.1, List.map_cons]
        have hlater := ih hparts.2
        rw [listing] at hlater
        rw [hlater]
        rfl
  rw [assemble, hall upload.parts fun _ hpart => hpart]
  rfl

/-- An upload that has its parts up to a number. -/
structure Pending (uploadId : String) (headers : ObjectHeaders) (parts : List (ℕ × String × Bytes)) (next : ℕ)
    (store : CosStore) : Prop where
  stored : store.upload? uploadId = some ⟨uploadId, headers, parts⟩
  nodup : (parts.map Prod.fst).Nodup
  below : ∀ part ∈ parts, part.1 < next

theorem uploadPart_pending {uploadId : String} {headers : ObjectHeaders} {parts : List (ℕ × String × Bytes)}
    {next : ℕ} {key : String} {chunk : Bytes} {response : Response} {before after : World CosStore}
    (hpending : Pending uploadId headers parts next before.store)
    (h : onStore (service.client.uploadPart ⟨key, uploadId, next, chunk⟩) before = (.ok response, after)) :
    ∃ etag, response = [("ETag", .str etag)] ∧
      Pending uploadId headers (parts ++ [(next, etag, chunk)]) (next + 1) after.store ∧
      after.store.versions = before.store.versions := by
  obtain ⟨hanswer, hafter⟩ := request_ok h
  rw [CosService.uploadPart] at hanswer hafter
  simp only [hpending.stored] at hanswer hafter
  have hparts : parts.filter (fun old => old.1 ≠ next) = parts := by
    rw [List.filter_eq_self]
    intro part hpart
    simpa using (hpending.below part hpart).ne
  rw [hparts] at hafter
  refine ⟨service.etag before.store, (Except.ok.inj hanswer).symm, ⟨?_, ?_, ?_⟩, by rw [hafter]⟩
  · rw [hafter, CosStore.upload?]
    simp
  · rw [List.map_append, List.nodup_append]
    refine ⟨hpending.nodup, by simp, ?_⟩
    intro number hnumber other hother
    obtain ⟨part, hpart, heq⟩ := List.mem_map.mp hnumber
    have hlt := hpending.below part hpart
    simp only [List.map_cons, List.map_nil, List.mem_singleton] at hother
    omega
  · intro part hpart
    rcases List.mem_append.mp hpart with hpart | hpart
    · exact Nat.lt_succ_of_lt (hpending.below part hpart)
    · rw [List.mem_singleton.mp hpart]
      exact Nat.lt_succ_self next

theorem uploadParts_pending {uploadId key : String} {headers : ObjectHeaders} :
    ∀ {chunks : List Bytes} {parts : List (ℕ × String × Bytes)} {next : ℕ} {listed : List (String × ℕ)}
      {before after : World CosStore}, Pending uploadId headers parts next before.store →
      uploadParts service.client key uploadId next chunks before = (.ok listed, after) →
      ∃ more, listing more = listed ∧ (more.map fun part => part.2.2) = chunks ∧
        Pending uploadId headers (parts ++ more) (next + chunks.length) after.store ∧
        after.store.versions = before.store.versions
  | [], parts, next, listed, before, after, hpending, h => by
      cases h
      exact ⟨[], rfl, rfl, by simpa using hpending, rfl⟩
  | chunk :: chunks, parts, next, listed, before, after, hpending, h => by
      obtain ⟨response, first, hpart, h⟩ := Prog.bind_ok h
      obtain ⟨etag, hresponse, hnext, hversions⟩ := uploadPart_pending hpending hpart
      have hetag : strItem response "ETag" = some etag := by
        rw [hresponse]
        rfl
      simp only [hetag] at h
      obtain ⟨-, h⟩ := Prog.ite_raise_ok h
      obtain ⟨later, second, hlater, h⟩ := Prog.bind_ok h
      obtain ⟨more, hlisted, hbodies, hlast, hkept⟩ := uploadParts_pending hnext hlater
      cases h
      refine ⟨(next, etag, chunk) :: more, ?_, ?_, ?_, hkept.trans hversions⟩
      · rw [listing, List.map_cons, ← hlisted]
        rfl
      · rw [List.map_cons, hbodies]
      · rw [List.length_cons, ← Nat.add_assoc, Nat.add_right_comm]
        simpa using hlast

theorem complete_published {uploadId key : String} {headers : ObjectHeaders} {parts : List (ℕ × String × Bytes)}
    {next : ℕ} {response : Response} {before after : World CosStore}
    (hpending : Pending uploadId headers parts next before.store)
    (h : onStore (service.client.completeMultipartUpload ⟨key, uploadId, listing parts⟩) before =
      (.ok response, after)) :
    ∃ version, Published headers (parts.map fun part => part.2.2).flatten response version before.store
      after.store := by
  obtain ⟨hanswer, hafter⟩ := request_ok h
  have hassembled : assemble ⟨uploadId, headers, parts⟩ (listing parts) =
      some (parts.map fun part => part.2.2).flatten := assemble_listing hpending.nodup
  rw [CosService.completeMultipartUpload] at hanswer hafter
  simp only [hpending.stored, hassembled] at hanswer hafter
  have hversions : after.store.versions = (service.publish headers (parts.map fun part => part.2.2).flatten
      { before.store with uploads := before.store.uploads.filter fun old => old.uploadId ≠ uploadId }).2.versions := by
    rw [hafter]
  obtain ⟨version, hpublished⟩ := publish_published hanswer hversions
  exact ⟨version, hpublished.said, hpublished.content, hpublished.answer, hpublished.stored, hpublished.fresh⟩

theorem rescue_raise_ok {α : Type} {program : CosM CosStore α} {handler : PyExc → CosM CosStore α}
    {before after : World CosStore} {a : α} (hhandler : ∀ error world last, handler error world ≠ (.ok a, last))
    (h : Prog.rescue program handler before = (.ok a, after)) : program before = (.ok a, after) := by
  rw [Prog.rescue] at h
  cases hrun : program before with
  | mk ended world =>
      rw [hrun] at h
      cases ended with
      | ok b => exact h
      | error error => exact absurd h (hhandler error world after)

theorem multipart_published {staged : Bytes} {key sha256 : String} {size : ℕ} {response : Response}
    {before after : World CosStore}
    (h : multipartUpload service.client archive staged key sha256 size before = (.ok response, after)) :
    ∃ version, Published (objectHeaders key sha256 size) staged response version before.store after.store := by
  obtain ⟨created, first, hcreate, h⟩ := Prog.bind_ok h
  obtain ⟨hanswer, hfirst⟩ := request_ok hcreate
  have hid : strItem created "UploadId" = some (service.uploadId before.store) := by
    rw [← Except.ok.inj hanswer]
    rfl
  simp only [hid] at h
  obtain ⟨-, h⟩ := Prog.ite_raise_ok h
  have hpending : Pending (service.uploadId before.store) (objectHeaders key sha256 size) [] 1 first.store := by
    refine ⟨?_, List.nodup_nil, by simp⟩
    rw [hfirst, CosService.createMultipartUpload, CosStore.upload?]
    simp
  have hrun := rescue_raise_ok (by
    intro error world last hraise
    obtain ⟨_, _, _, hraise⟩ := Prog.bind_ok hraise
    cases hraise) h
  obtain ⟨listed, second, hparts, hcomplete⟩ := Prog.bind_ok hrun
  obtain ⟨more, hlisted, hbodies, hlast, hversions⟩ := uploadParts_pending hpending hparts
  rw [List.nil_append] at hlast
  rw [← hlisted] at hcomplete
  obtain ⟨version, hpublished⟩ := complete_published hlast hcomplete
  have hsize : 0 < archive.multipartPartSize := lt_of_lt_of_le (by decide) archive.partSizeBounds.1
  rw [hbodies, chunksOf_flatten hsize] at hpublished
  refine ⟨version, hpublished.said, hpublished.content, hpublished.answer, hpublished.stored, ?_⟩
  have hsame : second.store.versions = before.store.versions := by
    rw [hversions, hfirst]
    rfl
  have hfresh := hpublished.fresh
  rwa [CosStore.version?, hsame] at hfresh

theorem uploadStaged_published {staged : Bytes} {key sha256 : String} {size : ℕ} {requireAbsent : Bool}
    {response : Response} {before after : World CosStore}
    (h : uploadStaged service.client archive staged key sha256 size requireAbsent before = (.ok response, after)) :
    ∃ version, Published (objectHeaders key sha256 size) staged response version before.store after.store := by
  rw [uploadStaged] at h
  by_cases hsize : size < archive.multipartThreshold
  · rw [if_pos hsize] at h
    exact put_published h
  · rw [if_neg hsize] at h
    exact multipart_published h

/-! ### References of stored versions -/

/-- A reference names a stored version that holds these bytes. -/
structure Certifies (machine : Machine) (source : Bytes) (ref : TencentCosObjectRef) (version : StoredVersion) :
    Prop where
  said : version.headers = objectHeaders ref.key ref.sha256 ref.size
  versionId : version.versionId = ref.versionId
  content : version.body = source
  mode : version.retentionMode = "COMPLIANCE"
  retainUntil : version.retainUntil = ref.retainUntil
  describes : Describes machine source ref

theorem retentionUntil_retentionOf {version : StoredVersion} {retainUntil : String}
    (h : retentionUntil (retentionOf version) = .ok retainUntil) :
    version.retentionMode = "COMPLIANCE" ∧ version.retainUntil = retainUntil := by
  by_cases hmode : version.retentionMode = "COMPLIANCE"
  · have hread : retentionUntil (retentionOf version) = .ok version.retainUntil := by
      rw [retentionOf, hmode]
      rfl
    rw [hread] at h
    exact ⟨hmode, Except.ok.inj h⟩
  · have hread : retentionUntil (retentionOf version) =
        .error (archiveIntegrityError "Tencent COS object retention is not COMPLIANCE") := by
      have hne : strItem [("Mode", .str version.retentionMode), ("RetainUntilDate", .str version.retainUntil)]
          "Mode" ≠ some "COMPLIANCE" := by
        intro heq
        exact hmode (Option.some.inj heq)
      rw [retentionUntil, retentionOf]
      change (if strItem [("Mode", .str version.retentionMode), ("RetainUntilDate", .str version.retainUntil)]
          "Mode" ≠ some "COMPLIANCE" then _ else _) = _
      rw [if_pos hne]
      rfl
    rw [hread] at h
    cases h

theorem readVersion_ok {α : Type} {answer : StoredVersion → α} {key versionId : String} {store : CosStore} {a : α}
    (h : (readVersion answer key versionId store).1 = .ok a) :
    ∃ version, store.version? key versionId = some version ∧ a = answer version := by
  rw [readVersion] at h
  cases hversion : store.version? key versionId with
  | none =>
      rw [hversion] at h
      cases h
  | some version =>
      rw [hversion] at h
      exact ⟨version, rfl, (Except.ok.inj h).symm⟩

theorem readRetentionUntil_ok {key versionId retainUntil : String} {before after : World CosStore}
    (h : readRetentionUntil machine service.client key versionId before = (.ok retainUntil, after)) :
    ∃ version, before.store.version? key versionId = some version ∧ version.retentionMode = "COMPLIANCE" ∧
      version.retainUntil = retainUntil := by
  obtain ⟨payload, first, hpayload, h⟩ := Prog.bind_ok h
  obtain ⟨version, hversion, hretention⟩ := readVersion_ok (request_ok hpayload).1
  obtain ⟨read, second, hread, h⟩ := Prog.bind_ok h
  obtain ⟨_, third, -, h⟩ := Prog.bind_ok h
  cases h
  have hfacts := (Prog.resume_ok_inv hread).1
  rw [hretention] at hfacts
  exact ⟨version, hversion, retentionUntil_retentionOf hfacts⟩

theorem requiredVersionId_ok {versionId read : String}
    (h : requiredVersionId [("x-cos-version-id", .str versionId)] = .ok read) : read = versionId := by
  have hitem : strItem (lowerKeys [("x-cos-version-id", .str versionId)]) "x-cos-version-id" = some versionId := by
    have hlower : lower "x-cos-version-id" = "x-cos-version-id" := by decide
    simp [lowerKeys, hlower, strItem, Value.asStr?]
  rw [requiredVersionId, hitem] at h
  simp only at h
  split at h
  · cases h
  · split at h
    · exact (Except.ok.inj h).symm
    · cases h

theorem uploadVerifiedSource_certifies {source : Bytes} {key sha256 : String} {size : ℕ} {requireAbsent : Bool}
    {ref : TencentCosObjectRef} {before after : World CosStore}
    (h : uploadVerifiedSource machine service.client archive source key sha256 size requireAbsent before =
      (.ok ref, after)) :
    ∃ version, Certifies machine source ref version ∧
      after.store.version? ref.key ref.versionId = some version ∧
      before.store.version? ref.key ref.versionId = none := by
  obtain ⟨hdescribes, hkey, hsha, hsize⟩ := uploadVerifiedSource_ok h
  obtain ⟨present, first, hpresent, h⟩ := Prog.bind_ok h
  have hfirst := Prog.Steps.of_run (Prog.Steps.ite (clientSteps_grows.objectExists key) (Prog.steps_pure _)) hpresent
  obtain ⟨-, h⟩ := Prog.ite_raise_ok h
  obtain ⟨time, second, htime, h⟩ := Prog.bind_ok h
  have hsecond := Prog.Steps.of_run steps_now_grows htime
  obtain ⟨-, h⟩ := Prog.ite_raise_ok h
  obtain ⟨response, third, hupload, h⟩ := Prog.bind_ok h
  obtain ⟨version, hpublished⟩ := uploadStaged_published hupload
  obtain ⟨versionId, fourth, hversionId, h⟩ := Prog.bind_ok h
  obtain ⟨hread, hfourth⟩ := Prog.resume_ok_inv hversionId
  rw [hpublished.answer] at hread
  have hid := requiredVersionId_ok hread
  obtain ⟨retainUntil, fifth, hretain, h⟩ := Prog.bind_ok h
  have hfifth := Prog.Steps.of_run (steps_readRetentionUntil clientSteps_grows key versionId) hretain
  obtain ⟨stored, hstored, hmode, huntil⟩ := readRetentionUntil_ok hretain
  obtain ⟨deadline, sixth, hdeadline, h⟩ := Prog.bind_ok h
  have hsixth := (Prog.resume_ok_inv hdeadline).2
  obtain ⟨-, h⟩ := Prog.ite_raise_ok h
  obtain ⟨made, seventh, hmade, h⟩ := Prog.bind_ok h
  have hseventh := Prog.Steps.of_run (steps_make_ref steps_now_grows key versionId sha256 size retainUntil) hmade
  obtain ⟨_, eighth, hdownload, h⟩ := Prog.bind_ok h
  have heighth := Prog.Steps.of_run (steps_downloadVerified clientSteps_grows steps_now_grows made
    fun _ => Prog.steps_pure _) hdownload
  cases h
  obtain ⟨-, hmadeVersion, -, -, hmadeUntil⟩ := make_ref_ok hmade
  have hfound : stored = version := by
    have hpublishedStored := hpublished.stored
    rw [← hid] at hpublishedStored
    rw [hfourth] at hstored
    exact Option.some.inj (hstored.symm.trans hpublishedStored)
  refine ⟨version, ⟨?_, ?_, ?_, ?_, ?_, hdescribes⟩, ?_, ?_⟩
  · rw [hpublished.said, hkey, hsha, hsize]
  · rw [← hid, hmadeVersion]
  · rw [hpublished.content, chunksOf_flatten (by decide)]
  · rw [← hfound, hmode]
  · rw [← hfound, huntil, hmadeUntil]
  · rw [hkey, hmadeVersion, hid]
    apply heighth.kept
    apply hseventh.kept
    rw [hsixth]
    apply hfifth.kept
    rw [hfourth]
    exact hpublished.stored
  · cases hbefore : before.store.version? ref.key ref.versionId with
    | none => rfl
    | some old =>
        have hkept := hsecond.kept _ _ _ (hfirst.kept _ _ _ hbefore)
        rw [hkey, hmadeVersion, hid] at hkept
        have hfresh := hpublished.fresh
        rw [show (objectHeaders key sha256 size).key = key from rfl] at hfresh
        rw [hfresh] at hkept
        cases hkept

end TxnOpt.Cos
