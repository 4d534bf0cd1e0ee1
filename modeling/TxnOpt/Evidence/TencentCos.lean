import TxnOpt.Evidence.FileSystem
import TxnOpt.Lib.Prog

/-!
# Tencent COS evidence archive

Every object and commit reference names the exact version that COS returned. A store keeps whatever state
it likes behind the client; nobody else writes to the local files while a call runs.
-/

namespace TxnOpt.Cos

open Archive

/-! ### Records -/

def tencentCosError (message : String) : PyExc := ⟨[.other "TencentCosError", .other "ArchiveError"], message⟩

def tencentCosContractError (message : String) : PyExc :=
  ⟨[.other "TencentCosContractError", .other "TencentCosError", .other "ArchiveError"], message⟩

def commitSchema : String := "txnopt-tencent-cos-commit-v1"

/-- The condition of `_validate_key`. -/
def IsKey (value : String) : Prop :=
  value ≠ "" ∧ ¬ ['/'] <+: value.toList ∧ '\\' ∉ value.toList ∧
    ∀ part ∈ (PurePosixPath.of value).parts, part ∉ ["", ".", ".."]

instance (value : String) : Decidable (IsKey value) := inferInstanceAs (Decidable (_ ∧ _))

/-- The condition of `_validate_version_id`. -/
def IsVersionId (value : String) : Prop :=
  value ≠ "" ∧ value.length ≤ 1024 ∧ ∀ character ∈ value.toList, 32 ≤ character.toNat

instance (value : String) : Decidable (IsVersionId value) :=
  @instDecidableAnd _ _ _ (@instDecidableAnd _ _ _ (List.decidableBAll _ _))

def isAsciiAlnum (character : Char) : Bool :=
  ('A' ≤ character && character ≤ 'Z') || ('a' ≤ character && character ≤ 'z') ||
    ('0' ≤ character && character ≤ '9')

/-- `re.fullmatch(r"[A-Za-z0-9][A-Za-z0-9._-]{0,127}\Z", value)`. -/
def IsCommitId (value : String) : Prop :=
  match value.toList with
  | [] => False
  | first :: rest =>
      isAsciiAlnum first = true ∧ rest.length ≤ 127 ∧
        ∀ character ∈ rest, isAsciiAlnum character = true ∨ character ∈ ['.', '_', '-']

instance (value : String) : Decidable (IsCommitId value) := by
  unfold IsCommitId
  cases value.toList with
  | nil => exact instDecidableFalse
  | cons first rest => exact @instDecidableAnd _ _ _ (@instDecidableAnd _ _ _ (List.decidableBAll _ _))

/-- The condition of the `_validate_relative_path` of this module. -/
def IsEntryPath (value : String) : Prop :=
  value ≠ "" ∧ '\\' ∉ value.toList ∧ (PurePosixPath.of value).root = "" ∧
    value = (PurePosixPath.of value).asPosix ∧
    ∀ part ∈ (PurePosixPath.of value).parts, part ∉ ["", ".", ".."]

instance (value : String) : Decidable (IsEntryPath value) := inferInstanceAs (Decidable (_ ∧ _))

/-- An object reference. That its retention lies in the future is checked when it is made. -/
structure TencentCosObjectRef where
  key : String
  versionId : String
  sha256 : String
  size : ℕ
  retainUntil : String
  isKey : IsKey key
  isVersionId : IsVersionId versionId
  isSha256 : IsSha256 sha256

structure TencentCosEntry where
  relativePath : String
  ref : TencentCosObjectRef
  isEntryPath : IsEntryPath relativePath

structure TencentCosCommit where
  commitId : String
  sourceTreeSha256 : String
  entries : List TencentCosEntry
  isCommitId : IsCommitId commitId
  isSha256 : IsSha256 sourceTreeSha256
  uniquelySorted : UniquelySorted (entries.map TencentCosEntry.relativePath)

structure TencentCosCommitRef where
  commitId : String
  key : String
  versionId : String
  sha256 : String
  size : ℕ
  retainUntil : String
  isCommitId : IsCommitId commitId
  isKey : IsKey key
  isVersionId : IsVersionId versionId
  isSha256 : IsSha256 sha256

structure TencentCosVerificationReceipt where
  commit : TencentCosCommit
  ref : TencentCosCommitRef
  objectCount : ℕ
  totalSize : ℕ
  verified : Bool

structure TencentCosRestoreReceipt where
  commitRef : TencentCosCommitRef
  objectCount : ℕ
  totalSize : ℕ
  verified : Bool

def TencentCosEntry.make (relativePath : String) (ref : TencentCosObjectRef) : Except PyExc TencentCosEntry :=
  if hpath : IsEntryPath relativePath then .ok ⟨relativePath, ref, hpath⟩
  else .error (.valueError "Tencent COS archive path is not canonical")

def TencentCosCommit.make (commitId sourceTreeSha256 : String) (entries : List TencentCosEntry) :
    Except PyExc TencentCosCommit :=
  if hid : IsCommitId commitId then
    if hsha : IsSha256 sourceTreeSha256 then
      if hpaths : UniquelySorted (entries.map TencentCosEntry.relativePath) then
        .ok ⟨commitId, sourceTreeSha256, entries, hid, hsha, hpaths⟩
      else .error (.valueError "Tencent COS commit entries must be uniquely sorted")
    else .error (.valueError "SHA-256 identity must be 64 lowercase hexadecimal characters")
  else .error (.valueError "Tencent COS commit id is not path-safe")

/-! ### The machine and the client -/

/-- A date that `datetime.fromisoformat` read, in microseconds; a naive one has no offset. -/
structure IsoDate where
  wall : Int
  offset : Option Int

/-- What the module uses of the machine it runs on. -/
structure Machine where
  sha : Sha256
  fromIsoformat : String → Option IsoDate
  /-- `datetime.now(UTC)`, by how often it was read before -/
  clock : ℕ → Int
  /-- what `tempfile.mkdtemp` appends to a prefix, given the names in the directory -/
  temporarySuffix : String → List String → String
  temporarySuffix_fresh : ∀ stem names, stem ++ temporarySuffix stem names ∉ names

/-- The answer of the client: the items of a mapping. -/
abbrev Response := List (String × Value)

/-- What reading a response body gives, one `read` after the other. -/
inductive StreamItem where
  | chunk (data : Bytes)
  /-- an object that is not `bytes` -/
  | notBytes
  /-- a failure, as `_redacted_sdk_error` reports it -/
  | failed (error : PyExc)

structure BodyStream where
  items : List StreamItem
  closeError : Option PyExc

/-- What an upload says of its object. -/
structure ObjectHeaders where
  key : String
  metadata : List (String × String)
  storageClass : String
  serverSideEncryption : String

structure PutRequest where
  headers : ObjectHeaders
  body : Bytes
  contentLength : ℕ
  /-- `If-None-Match: *` -/
  ifNoneMatch : Bool

structure PartRequest where
  key : String
  uploadId : String
  partNumber : ℕ
  body : Bytes

structure CompleteRequest where
  key : String
  uploadId : String
  /-- ETag and number -/
  parts : List (String × ℕ)

/-- The client of a bucket, over the state of the store behind it. -/
structure TencentCosClient (σ : Type) where
  putObject : PutRequest → Prog σ PyExc Response
  createMultipartUpload : ObjectHeaders → Prog σ PyExc Response
  uploadPart : PartRequest → Prog σ PyExc Response
  completeMultipartUpload : CompleteRequest → Prog σ PyExc Response
  /-- by key and upload id -/
  abortMultipartUpload : String → String → Prog σ PyExc Unit
  /-- by key and version id, as are the other two reads -/
  headObject : String → String → Prog σ PyExc Response
  getObject : String → String → Prog σ PyExc (Response × Option BodyStream)
  getObjectRetention : String → String → Prog σ PyExc Response
  objectExists : String → Prog σ PyExc Bool

structure World (σ : Type) where
  store : σ
  /-- how often the clock was read -/
  ticks : ℕ
  files : Directory

abbrev CosM (σ : Type) := Prog (World σ) PyExc

variable {σ : Type}

def onStore {α : Type} (request : Prog σ PyExc α) : CosM σ α :=
  Prog.zoom World.store (fun store world => { world with store }) request

/-- Run an operation on the local files. -/
def onFiles (operation : Directory → Except PyExc Directory) : CosM σ Unit := fun world =>
  match operation world.files with
  | .ok files => (.ok (), { world with files })
  | .error error => (.error error, world)

variable (machine : Machine)

def now : CosM σ Int := fun world => (.ok (machine.clock world.ticks), { world with ticks := world.ticks + 1 })

/-- `value.replace("Z", "+00:00")`. -/
def replaceZ (value : String) : String :=
  String.ofList (value.toList.flatMap fun character => if character = 'Z' then "+00:00".toList else [character])

def parseTimestamp (value : String) : Except PyExc Int :=
  match machine.fromIsoformat (replaceZ value) with
  | none => .error (archiveIntegrityError "Tencent COS retention date is malformed")
  | some ⟨_, none⟩ => .error (archiveIntegrityError "Tencent COS retention date lacks a timezone")
  | some ⟨wall, some offset⟩ => .ok (wall - offset)

def TencentCosObjectRef.make (key versionId sha256 : String) (size : Int) (retainUntil : String) :
    CosM σ TencentCosObjectRef :=
  if hkey : IsKey key then
    if hversion : IsVersionId versionId then
      if hsha : IsSha256 sha256 then
        if size < 0 then Prog.raise (.valueError "Tencent COS object size must be non-negative")
        else do
          let deadline ← Prog.resume (parseTimestamp machine retainUntil)
          let time ← now machine
          if deadline ≤ time then Prog.raise (.valueError "Tencent COS retain-until must be in the future")
          else pure ⟨key, versionId, sha256, size.toNat, retainUntil, hkey, hversion, hsha⟩
      else Prog.raise (.valueError "SHA-256 identity must be 64 lowercase hexadecimal characters")
    else Prog.raise (.valueError "Tencent COS VersionId is absent or malformed")
  else Prog.raise (.valueError "Tencent COS key is not canonical")

def TencentCosCommitRef.make (commitId : String) (ref : TencentCosObjectRef) : CosM σ TencentCosCommitRef :=
  if hid : IsCommitId commitId then do
    let deadline ← Prog.resume (parseTimestamp machine ref.retainUntil)
    let time ← now machine
    if deadline ≤ time then Prog.raise (.valueError "Tencent COS commit retain-until must be in the future")
    else
      pure ⟨commitId, ref.key, ref.versionId, ref.sha256, ref.size, ref.retainUntil, hid, ref.isKey,
        ref.isVersionId, ref.isSha256⟩
  else Prog.raise (.valueError "Tencent COS commit id is not path-safe")

def TencentCosCommitRef.objectRef (ref : TencentCosCommitRef) : CosM σ TencentCosObjectRef :=
  TencentCosObjectRef.make machine ref.key ref.versionId ref.sha256 ref.size ref.retainUntil

/-! ### The commit format -/

def TencentCosEntry.toPayload (entry : TencentCosEntry) : Json :=
  .obj [("relative_path", .str entry.relativePath), ("key", .str entry.ref.key),
    ("version_id", .str entry.ref.versionId), ("sha256", .str entry.ref.sha256), ("size", .int entry.ref.size),
    ("retain_until", .str entry.ref.retainUntil)]

def TencentCosCommit.toPayload (commit : TencentCosCommit) : Json :=
  .obj [("schema_version", .str commitSchema), ("commit_id", .str commit.commitId),
    ("source_tree_sha256", .str commit.sourceTreeSha256),
    ("objects", .arr (commit.entries.map TencentCosEntry.toPayload))]

def encodeTencentCosCommit (commit : TencentCosCommit) : Bytes := canonicalJsonBytes commit.toPayload true

/-- `set(payload) == fields`. -/
def HasFields (members : List (String × Json)) (fields : List String) : Prop :=
  (∀ key ∈ members.map Prod.fst, key ∈ fields) ∧ ∀ field ∈ fields, field ∈ members.map Prod.fst

instance (members : List (String × Json)) (fields : List String) : Decidable (HasFields members fields) :=
  inferInstanceAs (Decidable (_ ∧ _))

def strField (members : List (String × Json)) (field : String) : Option String :=
  (members.lookup field).bind Json.asStr?

/-- `except ValueError as error: raise ArchiveIntegrityError(message) from error`. -/
def orIntegrityError {α : Type} (message : String) (program : CosM σ α) : CosM σ α :=
  Prog.rescue program fun error =>
    if error.isInstance .valueError then Prog.raise (archiveIntegrityError message) else Prog.raise error

def entryFields : List String := ["relative_path", "key", "version_id", "sha256", "size", "retain_until"]

/-- One pass over the objects in `_commit_from_payload`. -/
def entryFromPayload : Json → CosM σ TencentCosEntry
  | .obj members =>
      if HasFields members entryFields then
        match strField members "relative_path", strField members "key", strField members "version_id",
          strField members "sha256", (members.lookup "size").bind Json.asInt?,
          strField members "retain_until" with
        | some relativePath, some key, some versionId, some sha256, some size, some retainUntil =>
            orIntegrityError "Tencent COS commit object identity differs" do
              let ref ← TencentCosObjectRef.make machine key versionId sha256 size retainUntil
              Prog.resume (TencentCosEntry.make relativePath ref)
        | _, _, _, _, _, _ => Prog.raise (archiveIntegrityError "Tencent COS commit object types differ")
      else Prog.raise (archiveIntegrityError "Tencent COS commit object field set differs")
  | _ => Prog.raise (archiveIntegrityError "Tencent COS commit object field set differs")

def commitFields : List String := ["schema_version", "commit_id", "source_tree_sha256", "objects"]

def commitFromPayload : Json → CosM σ TencentCosCommit
  | .obj members =>
      if HasFields members commitFields then
        if strField members "schema_version" = some commitSchema then
          match strField members "commit_id", strField members "source_tree_sha256",
            (members.lookup "objects").bind Json.asArr? with
          | some commitId, some tree, some objects => do
              let entries ← Prog.collect (entryFromPayload machine) objects
              orIntegrityError "Tencent COS commit identity differs" do
                Prog.resume (TencentCosCommit.make commitId tree entries)
          | _, _, _ => Prog.raise (archiveIntegrityError "Tencent COS commit header types differ")
        else Prog.raise (archiveIntegrityError "Tencent COS commit schema differs")
      else Prog.raise (archiveIntegrityError "Tencent COS commit field set differs")
  | _ => Prog.raise (archiveIntegrityError "Tencent COS commit field set differs")

def decodeTencentCosCommit (data : Bytes) : CosM σ TencentCosCommit :=
  match loadsBytes data with
  | none => Prog.raise (archiveIntegrityError "Tencent COS commit is not valid JSON")
  | some payload =>
      if canonicalJsonBytes payload true = data then commitFromPayload machine payload
      else Prog.raise (archiveIntegrityError "Tencent COS commit is not canonical JSON")

/-! ### Reading responses -/

/-- `text.lower()` in ASCII. -/
def lower (text : String) : String := String.ofList (text.toList.map Char.toLower)

/-- `_lower_keys`. The last item of a repeated key comes first here, where a lookup finds it. -/
def lowerKeys (payload : Response) : Response :=
  (payload.map fun item => (lower item.1, item.2)).reverse

def strItem (payload : Response) (key : String) : Option String := (payload.lookup key).bind Value.asStr?

/-- `int(text)` in ASCII: a sign, and digits that a `_` may separate. -/
def parseInt (text : List Char) : Option Int :=
  let unsigned (digits : List Char) : Option ℕ :=
    if ∀ group ∈ digits.splitOn '_', group ≠ [] ∧ group.all Char.isDigit = true then
      some (Nat.ofDigitChars 10 (digits.filter fun digit => digit ≠ '_') 0)
    else none
  match text with
  | '-' :: digits => (unsigned digits).map fun n => -(n : Int)
  | '+' :: digits => (unsigned digits).map Int.ofNat
  | digits => (unsigned digits).map Int.ofNat

/-- `character.isspace()` in ASCII. -/
def isAsciiSpace (character : Char) : Bool :=
  (9 ≤ character.toNat && character.toNat ≤ 13) || (28 ≤ character.toNat && character.toNat ≤ 32)

/-- `text.strip()` -/
def strip (text : List Char) : List Char :=
  ((text.dropWhile isAsciiSpace).reverse.dropWhile isAsciiSpace).reverse

def integer (value : Option Value) (name : String) : Except PyExc ℕ :=
  let read : Option Int := match value with
    | some (.int n) => some n
    | some (.str text) => parseInt (strip text.toList)
    | _ => none
  match read with
  | none => .error (archiveIntegrityError (name ++ " is not an integer"))
  | some n => if n < 0 then .error (archiveIntegrityError (name ++ " is negative")) else .ok n.toNat

def requiredVersionId (response : Response) : Except PyExc String :=
  match strItem (lowerKeys response) "x-cos-version-id" with
  | none => .error (archiveIntegrityError "Tencent COS upload response lacks VersionId")
  | some versionId =>
      if versionId = "" then .error (archiveIntegrityError "Tencent COS upload response lacks VersionId")
      else if IsVersionId versionId then .ok versionId
      else .error (.valueError "Tencent COS VersionId is absent or malformed")

/-- The checks of `_download_verified` on the answer to HEAD. -/
def checkHead (ref : TencentCosObjectRef) (head : Response) : Except PyExc Unit := do
  if strItem head "x-cos-version-id" ≠ some ref.versionId then
    .error (archiveIntegrityError "Tencent COS HEAD returned a different VersionId")
  let length ← integer (head.lookup "content-length") "COS Content-Length"
  if length ≠ ref.size then .error (archiveIntegrityError "Tencent COS object size metadata differs")
  if strItem head "x-cos-meta-txnopt-sha256" ≠ some ref.sha256 then
    .error (archiveIntegrityError "Tencent COS object digest metadata differs")
  if strItem head "x-cos-meta-txnopt-size" ≠ some (toString ref.size) then
    .error (archiveIntegrityError "Tencent COS object size metadata differs")
  if (head.lookup "x-cos-storage-class").isSome = true ∧ strItem head "x-cos-storage-class" ≠ some "STANDARD" then
    .error (archiveIntegrityError "Tencent COS evidence object is not immediately readable")
  if strItem head "x-cos-server-side-encryption" ≠ some "AES256" then
    .error (archiveIntegrityError "Tencent COS server-side encryption differs")

/-- `retention.get("RetainUntilDate")` under the checks of `_read_retention_until`. -/
def retentionUntil (payload : Response) : Except PyExc String := do
  let retention ← match payload.lookup "Retention" with
    | none => .ok payload
    | some (.dict retention) => .ok retention
    | some _ => .error (tencentCosContractError "object retention is absent or malformed")
  if strItem retention "Mode" ≠ some "COMPLIANCE" then
    .error (archiveIntegrityError "Tencent COS object retention is not COMPLIANCE")
  match strItem retention "RetainUntilDate" with
  | none => .error (archiveIntegrityError "Tencent COS object retention date is absent")
  | some retainUntil => .ok retainUntil

/-! ### The archive -/

def oneMib : ℕ := 1024 * 1024

def fiveGib : ℕ := 5 * 1024 * 1024 * 1024

/-- `_validate_prefix`. -/
def validateKeyPrefix (value : String) : Except PyExc String :=
  let normalized := ((value.toList.dropWhile (· = '/')).reverse.dropWhile (· = '/')).reverse
  if normalized = [] ∨ '\\' ∈ normalized then
    .error (.valueError "Tencent COS prefix is empty or malformed")
  else if ∃ part ∈ PurePosixPath.partsOf normalized, part ∈ ["", ".", ".."] then
    .error (.valueError "Tencent COS prefix is not canonical")
  else .ok (PurePosixPath.of (String.ofList normalized)).asPosix

/-- An archive in a bucket that passed `verify_bucket_contract`. -/
structure TencentCosArchive where
  keyPrefix : String
  minimumRetentionDays : ℕ
  multipartThreshold : ℕ
  multipartPartSize : ℕ
  isPrefix : ∃ value, validateKeyPrefix value = .ok keyPrefix
  retentionPositive : 0 < minimumRetentionDays
  partSizeBounds : oneMib ≤ multipartPartSize ∧ multipartPartSize ≤ fiveGib
  thresholdBounds : multipartPartSize ≤ multipartThreshold ∧ multipartThreshold ≤ fiveGib

/-- `_key`. -/
def TencentCosArchive.key (archive : TencentCosArchive) (parts : List String) : String :=
  "/".intercalate (archive.keyPrefix :: parts)

/-- What `read(size)` returns, call after call, within as many calls as the fuel. -/
def readChunks (size : ℕ) : ℕ → Bytes → List Bytes
  | 0, _ => []
  | fuel + 1, data => if data = [] then [] else data.take size :: readChunks size fuel (data.drop size)

def chunksOf (size : ℕ) (data : Bytes) : List Bytes := readChunks size data.length data

variable (client : TencentCosClient σ) (archive : TencentCosArchive)

def readRetentionUntil (key versionId : String) : CosM σ String := do
  let payload ← onStore (client.getObjectRetention key versionId)
  let retainUntil ← Prog.resume (retentionUntil payload)
  let _ ← Prog.resume (parseTimestamp machine retainUntil)
  pure retainUntil

def verifyRetention (ref : TencentCosObjectRef) : CosM σ Unit := do
  let retainUntil ← readRetentionUntil machine client ref.key ref.versionId
  let deadline ← Prog.resume (parseTimestamp machine retainUntil)
  let time ← now machine
  if deadline ≤ time then Prog.raise (archiveIntegrityError "Tencent COS object retention has expired")
  else if retainUntil ≠ ref.retainUntil then
    Prog.raise (archiveIntegrityError "Tencent COS object retain-until differs")
  else pure ()

/-- The read loop of `_download_verified`: the bytes that were read, and the failure that ended it. -/
def readBody (sink : Bytes → CosM σ Unit) : List StreamItem → Bytes → CosM σ (Bytes × Option PyExc)
  | [], data => pure (data, none)
  | .failed error :: _, data => pure (data, some error)
  | .notBytes :: _, _ => Prog.raise (.typeError "Tencent COS response body must yield bytes")
  | .chunk chunk :: items, data =>
      if chunk = [] then pure (data, none)
      else do
        sink chunk
        readBody sink items (data ++ chunk)

/-- The bytes of an object, handed to the sink as they are read. -/
def downloadVerified (ref : TencentCosObjectRef) (sink : Bytes → CosM σ Unit) : CosM σ Bytes := do
  let head ← onStore (client.headObject ref.key ref.versionId)
  Prog.resume (checkHead ref (lowerKeys head))
  verifyRetention machine client ref
  let (response, body) ← onStore (client.getObject ref.key ref.versionId)
  if strItem (lowerKeys response) "x-cos-version-id" ≠ some ref.versionId then
    Prog.raise (archiveIntegrityError "Tencent COS GET returned a different VersionId")
  else match body with
    | none => Prog.raise (archiveIntegrityError "Tencent COS response lacks a readable body")
    | some stream => do
        let (data, readError) ← readBody sink stream.items []
        match readError, stream.closeError with
        | some error, _ => Prog.raise error
        | none, some error => Prog.raise error
        | none, none =>
            if data.length ≠ ref.size ∨ machine.sha.hexdigest data ≠ ref.sha256 then
              Prog.raise (archiveIntegrityError
                "Tencent COS object bytes differ from their exact version reference")
            else pure data

/-- Nothing is done with the bytes but checking them. -/
def noSink : Bytes → CosM σ Unit := fun _ => pure ()

/-- The loop of `_multipart_upload` over the parts, from a part number on. -/
def uploadParts (key uploadId : String) : ℕ → List Bytes → CosM σ (List (String × ℕ))
  | _, [] => pure []
  | number, chunk :: chunks => do
      let response ← onStore (client.uploadPart ⟨key, uploadId, number, chunk⟩)
      match strItem response "ETag" with
      | none => Prog.raise (archiveIntegrityError "Tencent COS multipart part lacks ETag")
      | some etag =>
          if etag = "" then Prog.raise (archiveIntegrityError "Tencent COS multipart part lacks ETag")
          else do
            let parts ← uploadParts key uploadId (number + 1) chunks
            pure ((etag, number) :: parts)

/-- What both kinds of upload say of the object. -/
def objectHeaders (key sha256 : String) (size : ℕ) : ObjectHeaders :=
  ⟨key, [("txnopt-sha256", sha256), ("txnopt-size", toString size)], "STANDARD", "AES256"⟩

def multipartUpload (staged : Bytes) (key sha256 : String) (size : ℕ) : CosM σ Response := do
  let created ← onStore (client.createMultipartUpload (objectHeaders key sha256 size))
  match strItem created "UploadId" with
  | none => Prog.raise (archiveIntegrityError "Tencent COS multipart upload lacks UploadId")
  | some uploadId =>
      if uploadId = "" then Prog.raise (archiveIntegrityError "Tencent COS multipart upload lacks UploadId")
      else
        Prog.rescue
          (do
            let parts ← uploadParts client key uploadId 1 (chunksOf archive.multipartPartSize staged)
            onStore (client.completeMultipartUpload ⟨key, uploadId, parts⟩))
          fun error => do
            onStore (client.abortMultipartUpload key uploadId)
            Prog.raise error

/-- A day in microseconds. -/
def day : Int := 24 * 60 * 60 * 1000000

def fiveMinutes : Int := 5 * 60 * 1000000

/-- The upload itself, in one request below the threshold. -/
def uploadStaged (staged : Bytes) (key sha256 : String) (size : ℕ) (requireAbsent : Bool) : CosM σ Response :=
  if size < archive.multipartThreshold then
    onStore (client.putObject ⟨objectHeaders key sha256 size, staged, size, requireAbsent⟩)
  else multipartUpload client archive staged key sha256 size

/-- `require_absent and self._client.object_exists(...)`. -/
def alreadyExists (key : String) (requireAbsent : Bool) : CosM σ Bool :=
  if requireAbsent then onStore (client.objectExists key) else pure false

def uploadVerifiedSource (source : Bytes) (key expectedSha256 : String) (expectedSize : ℕ)
    (requireAbsent : Bool) : CosM σ TencentCosObjectRef := do
  let present ← alreadyExists client key requireAbsent
  if present then
    Prog.raise (archiveIntegrityError
      ("Tencent COS commit marker already exists and cannot be overwritten: " ++ key))
  else do
    let time ← now machine
    let staged := (chunksOf oneMib source).flatten
    if staged.length ≠ expectedSize ∨ machine.sha.hexdigest staged ≠ expectedSha256 then
      Prog.raise (archiveIntegrityError "Tencent COS source differs from its declared digest or size")
    else do
      let response ← uploadStaged client archive staged key expectedSha256 expectedSize requireAbsent
      let versionId ← Prog.resume (requiredVersionId response)
      let retainUntil ← readRetentionUntil machine client key versionId
      let deadline ← Prog.resume (parseTimestamp machine retainUntil)
      if deadline < time + archive.minimumRetentionDays * day - fiveMinutes then
        Prog.raise (archiveIntegrityError "Tencent COS object retention is shorter than the required minimum")
      else do
        let ref ← TencentCosObjectRef.make machine key versionId expectedSha256 expectedSize retainUntil
        let _ ← downloadVerified machine client ref noSink
        pure ref

def putBlob (source : Bytes) (expectedSha256 : String) (expectedSize : ℕ) : CosM σ TencentCosObjectRef :=
  if IsSha256 expectedSha256 then
    uploadVerifiedSource machine client archive source
      (archive.key ["blobs", "sha256", String.ofList (expectedSha256.toList.take 2), expectedSha256])
      expectedSha256 expectedSize false
  else Prog.raise (.valueError "SHA-256 identity must be 64 lowercase hexadecimal characters")

def commitKey (commitId : String) : String := archive.key ["commits", commitId, "commit.json"]

def publishCommit (commit : TencentCosCommit) : CosM σ TencentCosCommitRef := do
  let data := encodeTencentCosCommit commit
  let ref ← uploadVerifiedSource machine client archive data (commitKey archive commit.commitId)
    (machine.sha.hexdigest data) data.length true
  TencentCosCommitRef.make machine commit.commitId ref

/-- Read the local files. -/
def fromFiles {α : Type} (look : Directory → Except PyExc α) : CosM σ α := fun world => (look world.files, world)

def mirrorEntry (source : List String) (entry : ArchiveInventoryEntry) : CosM σ TencentCosEntry := do
  let data ← fromFiles fun root => openInventoryEntry machine.sha root source entry
  let ref ← putBlob machine client archive data entry.sha256 entry.size
  Prog.resume (TencentCosEntry.make entry.relativePath ref)

/-- `source` is the components of an absolute path. -/
def mirrorTree (source : List String) (commitId : String) : CosM σ TencentCosCommitRef := do
  let inventory ← fromFiles fun root => inventoryTree machine.sha root source
  let entries ← Prog.collect (mirrorEntry machine client archive source) inventory.entries
  let finalInventory ← fromFiles fun root => inventoryTree machine.sha root source
  if finalInventory ≠ inventory then
    Prog.raise (archiveIntegrityError "archive source tree changed during COS mirroring")
  else do
    let commit ← Prog.resume (TencentCosCommit.make commitId inventory.treeSha256 entries)
    publishCommit machine client archive commit

def verifyCommit (ref : TencentCosCommitRef) : CosM σ TencentCosVerificationReceipt := do
  let objectRef ← ref.objectRef machine
  let data ← downloadVerified machine client objectRef noSink
  let commit ← decodeTencentCosCommit machine data
  if commit.commitId ≠ ref.commitId then
    Prog.raise (archiveIntegrityError "Tencent COS commit id differs from its reference")
  else if ref.key ≠ commitKey archive ref.commitId then
    Prog.raise (archiveIntegrityError "Tencent COS commit key differs from its digest")
  else do
    Prog.forEach (fun entry => do
      let _ ← downloadVerified machine client entry.ref noSink
      pure ()) commit.entries
    pure ⟨commit, ref, commit.entries.length, (commit.entries.map fun entry => entry.ref.size).sum, true⟩

/-! ### Restoring -/

/-- One pass of the loop of `restore_commit`. -/
def restoreEntry (staging : List String) (entry : TencentCosEntry) : CosM σ Unit := do
  let parts := (PurePosixPath.of entry.relativePath).parts
  onFiles (inDirectory staging (createTarget parts))
  let _ ← downloadVerified machine client entry.ref fun chunk =>
    onFiles (inDirectory staging (appendFile chunk parts))
  pure ()

/-- `_assert_staging_identity`: nobody else renames the staging directory. -/
def assertStagingIdentity (staging : List String) (root : Directory) : Except PyExc Unit :=
  match nodeAt staging root with
  | some (.directory _) => .ok ()
  | _ => .error (archiveIntegrityError "restore staging directory identity changed")

/-- The destination is the name in the directory at the path `parent`. -/
def restoreCommit (ref : TencentCosCommitRef) (parent : List String) (name : String) :
    CosM σ TencentCosRestoreReceipt := do
  let receipt ← verifyCommit machine client archive ref
  let directory ← fromFiles (rejectSymlinkAncestry parent)
  if name ∈ directory.names then
    Prog.raise (archiveIntegrityError ("restore destination already exists: " ++ name))
  else do
    let stem := "." ++ name ++ ".txnopt-cos-restore-"
    let staging := stem ++ machine.temporarySuffix stem directory.names
    onFiles (inDirectory parent (makeDirectory staging))
    let ended ← Prog.attempt do
      Prog.forEach (restoreEntry machine client (parent ++ [staging])) receipt.commit.entries
      fromFiles (assertStagingIdentity (parent ++ [staging]))
      onFiles (inDirectory parent (renameNoreplace staging name))
    onFiles (inDirectory parent (removeTree staging))
    Prog.resume ended
    pure ⟨ref, receipt.objectCount, receipt.totalSize, true⟩

end TxnOpt.Cos
