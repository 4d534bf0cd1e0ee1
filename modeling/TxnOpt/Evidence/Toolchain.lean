import TxnOpt.Evidence.SignedJson
import TxnOpt.Evidence.TencentCos

/-!
# The toolchain lock

The exact tools of a build, in a signed file.
-/

namespace TxnOpt.Toolchain

open Archive
open Cos (HasFields strField)
open EventStream (ArtifactPath)
open SignedJson

/-- `_REQUIRED_TOOLS`. -/
def requiredTools : List String :=
  ["uv", "cpython", "temurin-jdk", "tla2tools", "tlc", "pluscal", "jq", "numactl", "lsof", "fuser", "ipcs", "gcc",
    "cmake", "ninja", "cos-python-sdk-v5", "tencentcloud-sdk-python-common", "tencentcloud-sdk-python-cvm"]

/-! ### Entries -/

structure ToolchainEntry where
  name : String
  version : String
  executablePath : String
  sha256 : String
  validationExitCode : ℕ
  sourceUrl : Option String
  downloadSha256 : Option String
  nonempty : name ≠ "" ∧ version ≠ "" ∧ executablePath ≠ ""
  isSha256 : IsSha256 sha256
  recordedTogether : sourceUrl.isNone = downloadSha256.isNone
  isDownloadSha256 : ∀ digest ∈ downloadSha256, IsSha256 digest

namespace ToolchainEntry

/-- `ToolchainEntry.__post_init__`. -/
def make (name version executablePath sha256 : String) (validationExitCode : Int)
    (sourceUrl downloadSha256 : Option String) : Except PyExc ToolchainEntry :=
  if hempty : name ≠ "" ∧ version ≠ "" ∧ executablePath ≠ "" then
    if hsha : IsSha256 sha256 then
      if validationExitCode < 0 then .error (.valueError "tool validation exit code must be non-negative")
      else if htogether : sourceUrl.isNone = downloadSha256.isNone then
        if hdownload : ∀ digest ∈ downloadSha256, IsSha256 digest then
          .ok ⟨name, version, executablePath, sha256, validationExitCode.toNat, sourceUrl, downloadSha256, hempty,
            hsha, htogether, hdownload⟩
        else .error (.valueError "download sha256 must be lowercase SHA-256")
      else .error (.valueError "download URL and digest must be recorded together")
    else .error (.valueError "tool sha256 must be lowercase SHA-256")
  else .error (.valueError "toolchain identity fields cannot be empty")

def optional : Option String → Json
  | none => .null
  | some value => .str value

/-- `asdict(entry)`. -/
def toPayload (entry : ToolchainEntry) : Json :=
  .obj [("name", .str entry.name), ("version", .str entry.version), ("executable_path", .str entry.executablePath),
    ("sha256", .str entry.sha256), ("validation_exit_code", .int entry.validationExitCode),
    ("source_url", optional entry.sourceUrl), ("download_sha256", optional entry.downloadSha256)]

end ToolchainEntry

/-! ### Writing -/

/-- `set(names) == _REQUIRED_TOOLS`. -/
def IsRequiredSet (names : List String) : Prop :=
  (∀ name ∈ names, name ∈ requiredTools) ∧ ∀ tool ∈ requiredTools, tool ∈ names

instance (names : List String) : Decidable (IsRequiredSet names) := inferInstanceAs (Decidable (_ ∧ _))

def complete (entries : List ToolchainEntry) : Bool := entries.all fun entry => entry.validationExitCode = 0

def status (complete : Bool) : String := if complete then "TOOLCHAIN_COMPLETE" else "BLOCKED_TOOLCHAIN"

/-- The payload of entries that are in order. -/
def lockPayload (entries : List ToolchainEntry) : Json :=
  .obj [("schema_version", .str "txnopt-toolchain-lock-v1"), ("status", .str (status (complete entries))),
    ("all_validation_exit_codes_zero", .bool (complete entries)), ("repository_state_written", .bool false),
    ("tools", .arr (entries.map ToolchainEntry.toPayload))]

/-- The payload that `write_toolchain_lock` signs. -/
def toolchainPayload (entries : List ToolchainEntry) : Except PyExc Json :=
  if ¬ (entries.map ToolchainEntry.name).Nodup ∨ ¬ IsRequiredSet (entries.map ToolchainEntry.name) then
    .error (.valueError "toolchain lock tool set differs from the required set")
  else .ok (lockPayload (sortedBy ToolchainEntry.name entries))

variable (sha : Sha256)

def writeToolchainLock (path : ArtifactPath) (entries : List ToolchainEntry) (directory : Directory) :
    Except PyExc String × Directory :=
  match toolchainPayload entries with
  | .error error => (.error error, directory)
  | .ok payload => writeSignedJson sha path payload directory

/-! ### Reading -/

def requiredString (members : List (String × Json)) (field : String) : Except PyExc String :=
  match strField members field with
  | some value =>
      if value = "" then .error (.valueError ("toolchain " ++ field ++ " must be a nonempty string")) else .ok value
  | none => .error (.valueError ("toolchain " ++ field ++ " must be a nonempty string"))

def optionalString (members : List (String × Json)) (field : String) : Except PyExc (Option String) :=
  match members.lookup field with
  | none | some .null => .ok none
  | some (.str value) =>
      if value = "" then .error (.valueError ("toolchain " ++ field ++ " must be null or a nonempty string"))
      else .ok (some value)
  | some _ => .error (.valueError ("toolchain " ++ field ++ " must be null or a nonempty string"))

def requiredInt (members : List (String × Json)) (field : String) : Except PyExc Int :=
  match (members.lookup field).bind Json.asInt? with
  | some value => .ok value
  | none => .error (.valueError ("toolchain " ++ field ++ " must be an integer"))

def entryFields : List String :=
  ["name", "version", "executable_path", "sha256", "validation_exit_code", "source_url", "download_sha256"]

/-- One pass over the tools in `read_toolchain_lock`. -/
def readEntry : Json → Except PyExc ToolchainEntry
  | .obj members =>
      if HasFields members entryFields then do
        let name ← requiredString members "name"
        let version ← requiredString members "version"
        let executablePath ← requiredString members "executable_path"
        let sha256 ← requiredString members "sha256"
        let validationExitCode ← requiredInt members "validation_exit_code"
        let sourceUrl ← optionalString members "source_url"
        let downloadSha256 ← optionalString members "download_sha256"
        ToolchainEntry.make name version executablePath sha256 validationExitCode sourceUrl downloadSha256
      else .error (.valueError "toolchain entry field set differs")
  | _ => .error (.valueError "toolchain entry field set differs")

def lockFields : List String :=
  ["schema_version", "status", "all_validation_exit_codes_zero", "repository_state_written", "tools"]

def boolField (members : List (String × Json)) (field : String) : Option Bool :=
  match members.lookup field with
  | some (.bool value) => some value
  | _ => none

/-- The checks of `read_toolchain_lock` on the payload. -/
def checkToolchainLock (requireComplete : Bool) (members : List (String × Json)) :
    Except PyExc (List (String × Json)) :=
  if HasFields members lockFields then
    if strField members "schema_version" ≠ some "txnopt-toolchain-lock-v1" ∨
        boolField members "repository_state_written" ≠ some false then
      .error (.valueError "toolchain lock status differs")
    else
      match (members.lookup "tools").bind Json.asArr? with
      | none => .error (.valueError "toolchain lock tools must be a list")
      | some rawTools => do
          let entries ← rawTools.mapM readEntry
          let names := entries.map ToolchainEntry.name
          if names ≠ sortedBy id names ∨ ¬ IsRequiredSet names then
            .error (.valueError "toolchain lock tool set differs from the required set")
          else if strField members "status" ≠ some (status (complete entries)) ∨
              boolField members "all_validation_exit_codes_zero" ≠ some (complete entries) then
            .error (.valueError "toolchain lock status differs from its exit codes")
          else if requireComplete = true ∧ complete entries = false then
            .error (.valueError "tool validation exit code is nonzero")
          else pure members
  else .error (.valueError "toolchain lock field set differs")

def readToolchainLock (decoder : JsonDecoder) (path : ArtifactPath) (requireComplete : Bool)
    (directory : Directory) : Except PyExc (List (String × Json)) := do
  let payload ← readSignedJson sha decoder path directory
  checkToolchainLock requireComplete payload

end TxnOpt.Toolchain
