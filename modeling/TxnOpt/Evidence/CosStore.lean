import TxnOpt.Evidence.TencentCos

/-!
# A versioned object store

The store behind a COS client. Every upload makes a new version of its key, and a read by version id gives
the bytes of that version. A request may fail, before it took effect or after.
-/

namespace TxnOpt.Cos

open Archive

structure StoredVersion where
  headers : ObjectHeaders
  versionId : String
  body : Bytes
  retentionMode : String
  retainUntil : String

structure PendingUpload where
  uploadId : String
  headers : ObjectHeaders
  /-- number, ETag and body -/
  parts : List (ℕ × String × Bytes)

structure CosStore where
  versions : List StoredVersion
  uploads : List PendingUpload
  calls : ℕ

def CosStore.empty : CosStore := ⟨[], [], 0⟩

def CosStore.version? (store : CosStore) (key versionId : String) : Option StoredVersion :=
  store.versions.find? fun version => version.headers.key = key ∧ version.versionId = versionId

def CosStore.upload? (store : CosStore) (uploadId : String) : Option PendingUpload :=
  store.uploads.find? fun upload => upload.uploadId = uploadId

/-- What the service is free to choose. -/
structure CosService where
  /-- a failure of the next request, and whether the request takes effect all the same -/
  fault : CosStore → Option (Bool × PyExc)
  versionId : CosStore → String
  versionId_fresh : ∀ store, versionId store ∉ store.versions.map StoredVersion.versionId
  uploadId : CosStore → String
  uploadId_fresh : ∀ store, uploadId store ∉ store.uploads.map PendingUpload.uploadId
  etag : CosStore → String
  retentionMode : CosStore → String
  retainUntil : CosStore → String
  /-- how a body arrives -/
  split : CosStore → Bytes → List Bytes
  split_flatten : ∀ store body, (split store body).flatten = body
  split_nonempty : ∀ store body, [] ∉ split store body

def noSuchKey : PyExc := tencentCosError "Tencent COS SDK head_object failed [qcloud_cos.cos_exception.CosServiceError]"

def refused (operation : String) : PyExc :=
  tencentCosError ("Tencent COS SDK " ++ operation ++ " failed [qcloud_cos.cos_exception.CosServiceError]")

namespace CosService

variable (service : CosService)

def request {α : Type} (effect : CosStore → Except PyExc α × CosStore) : Prog CosStore PyExc α := fun store =>
  match service.fault store with
  | none => ((effect store).1, { (effect store).2 with calls := store.calls + 1 })
  | some (true, error) => (.error error, { (effect store).2 with calls := store.calls + 1 })
  | some (false, error) => (.error error, { store with calls := store.calls + 1 })

/-- A new version. -/
def publish (headers : ObjectHeaders) (body : Bytes) (store : CosStore) : Except PyExc Response × CosStore :=
  (.ok [("x-cos-version-id", .str (service.versionId store))],
    { store with versions := store.versions ++
        [⟨headers, service.versionId store, body, service.retentionMode store, service.retainUntil store⟩] })

def hasKey (key : String) (store : CosStore) : Prop := ∃ version ∈ store.versions, version.headers.key = key

instance (key : String) (store : CosStore) : Decidable (hasKey key store) :=
  inferInstanceAs (Decidable (∃ version ∈ store.versions, version.headers.key = key))

def putObject (put : PutRequest) (store : CosStore) : Except PyExc Response × CosStore :=
  if put.ifNoneMatch = true ∧ hasKey put.headers.key store then (.error (refused "put_object"), store)
  else if put.contentLength ≠ put.body.length then (.error (refused "put_object"), store)
  else service.publish put.headers put.body store

def createMultipartUpload (headers : ObjectHeaders) (store : CosStore) : Except PyExc Response × CosStore :=
  (.ok [("UploadId", .str (service.uploadId store))],
    { store with uploads := ⟨service.uploadId store, headers, []⟩ :: store.uploads })

/-- A part takes the place of an earlier one with its number. -/
def uploadPart (part : PartRequest) (store : CosStore) : Except PyExc Response × CosStore :=
  match store.upload? part.uploadId with
  | none => (.error (refused "upload_part"), store)
  | some upload =>
      let parts := upload.parts.filter (fun old => old.1 ≠ part.partNumber) ++
        [(part.partNumber, service.etag store, part.body)]
      (.ok [("ETag", .str (service.etag store))],
        { store with uploads := ⟨upload.uploadId, upload.headers, parts⟩ ::
            store.uploads.filter fun old => old.uploadId ≠ part.uploadId })

/-- The body of the listed parts. -/
def assemble (upload : PendingUpload) (parts : List (String × ℕ)) : Option Bytes :=
  (parts.mapM fun part =>
    (upload.parts.find? fun stored => stored.1 = part.2 ∧ stored.2.1 = part.1).map fun stored =>
      stored.2.2).map List.flatten

def completeMultipartUpload (complete : CompleteRequest) (store : CosStore) :
    Except PyExc Response × CosStore :=
  match store.upload? complete.uploadId with
  | none => (.error (refused "complete_multipart_upload"), store)
  | some upload =>
      match assemble upload complete.parts with
      | none => (.error (refused "complete_multipart_upload"), store)
      | some body =>
          service.publish upload.headers body
            { store with uploads := store.uploads.filter fun old => old.uploadId ≠ complete.uploadId }

def abortMultipartUpload (uploadId : String) (store : CosStore) : Except PyExc Unit × CosStore :=
  (.ok (), { store with uploads := store.uploads.filter fun old => old.uploadId ≠ uploadId })

/-- The headers of a version. -/
def headResponse (version : StoredVersion) : Response :=
  [("Content-Length", .str (toString version.body.length)), ("x-cos-version-id", .str version.versionId)] ++
    version.headers.metadata.map (fun item => ("x-cos-meta-" ++ item.1, .str item.2)) ++
    [("x-cos-storage-class", .str version.headers.storageClass),
      ("x-cos-server-side-encryption", .str version.headers.serverSideEncryption)]

def readVersion {α : Type} (answer : StoredVersion → α) (key versionId : String) (store : CosStore) :
    Except PyExc α × CosStore :=
  match store.version? key versionId with
  | none => (.error noSuchKey, store)
  | some version => (.ok (answer version), store)

def bodyOf (store : CosStore) (version : StoredVersion) : Response × Option BodyStream :=
  ([("x-cos-version-id", .str version.versionId)],
    some ⟨(service.split store version.body).map StreamItem.chunk, none⟩)

def retentionOf (version : StoredVersion) : Response :=
  [("Retention", .dict [("Mode", .str version.retentionMode), ("RetainUntilDate", .str version.retainUntil)])]

/-- The client of the store. -/
def client : TencentCosClient CosStore where
  putObject put := service.request (service.putObject put)
  createMultipartUpload headers := service.request (service.createMultipartUpload headers)
  uploadPart part := service.request (service.uploadPart part)
  completeMultipartUpload complete := service.request (service.completeMultipartUpload complete)
  abortMultipartUpload _ uploadId := service.request (abortMultipartUpload uploadId)
  headObject key versionId := service.request (readVersion headResponse key versionId)
  getObject key versionId := service.request fun store =>
    readVersion (service.bodyOf store) key versionId store
  getObjectRetention key versionId := service.request (readVersion retentionOf key versionId)
  objectExists key := service.request fun store => (.ok (decide (hasKey key store)), store)

end CosService

end TxnOpt.Cos
