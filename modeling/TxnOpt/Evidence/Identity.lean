import TxnOpt.Evidence.SignedJson
import TxnOpt.Evidence.TencentCos

/-!
# The expected identity of a run

What a planned run must turn out to be, fixed before it starts from its config and the manifest of its build.
-/

namespace TxnOpt.Identity

open Archive EventStream SignedJson
open Cos (HasFields strField)

/-! ### Fields -/

def digestField (value : Option Json) (label : String) (length : ℕ) : Except PyExc String :=
  match value with
  | some (.str text) =>
      if text.length = length ∧ text.toList.all (fun character => hexDigits.contains character) then .ok text
      else .error (.valueError (label ++ " must be a lowercase hexadecimal digest"))
  | _ => .error (.valueError (label ++ " must be a lowercase hexadecimal digest"))

def stringField (value : Option Json) (label : String) : Except PyExc String :=
  match value with
  | some (.str text) =>
      if text = "" then .error (.valueError (label ++ " must be a non-empty string")) else .ok text
  | _ => .error (.valueError (label ++ " must be a non-empty string"))

def positiveInteger (value : Option Json) (label : String) : Except PyExc ℕ :=
  match value with
  | some (.int (.ofNat (n + 1))) => .ok (n + 1)
  | _ => .error (.valueError (label ++ " must be a positive integer"))

/-- `value is False`. -/
def isFalse : Option Json → Bool
  | some (.bool false) => true
  | _ => false

/-! ### Producers -/

def boundProducerFields : List String :=
  ["binding_status", "build_manifest_sha256", "source_revision", "source_tree", "source_manifest_sha256",
    "tracked_file_count", "wheel_sha256", "installed_native_sha256", "native_protocol"]

/-- `_bound_producer_identity`. -/
def boundProducerIdentity (build : List (String × Json)) (buildManifestSha256 : String) :
    Except PyExc (List (String × Json)) :=
  if strField build "schema_version" ≠ some "txnopt-level1-build-manifest-v1" then
    .error (.valueError "build manifest schema differs")
  else
    match build.lookup "producer", build.lookup "artifacts" with
    | some (.obj producer), some (.obj artifacts) =>
        match artifacts.lookup "wheel", artifacts.lookup "native_extension" with
        | some (.obj wheel), some (.obj native) =>
            if ¬ isFalse (producer.lookup "source_dirty") ∨ ¬ isFalse (producer.lookup "development_override") then
              .error (.valueError "expected producer must be a clean non-development build")
            else do
              let buildDigest ← digestField (some (.str buildManifestSha256)) "build_manifest_sha256" 64
              let revision ← digestField (producer.lookup "revision") "source_revision" 40
              let tree ← digestField (producer.lookup "git_tree") "source_tree" 40
              let manifest ← digestField (producer.lookup "source_manifest_sha256") "source_manifest_sha256" 64
              let count ← positiveInteger (producer.lookup "tracked_file_count") "tracked_file_count"
              let wheelDigest ← digestField (wheel.lookup "sha256") "wheel_sha256" 64
              let nativeDigest ← digestField (native.lookup "sha256") "native_sha256" 64
              let protocol ← stringField (native.lookup "protocol") "native_protocol"
              pure [("binding_status", .str "BOUND_CLEAN_BUILD"), ("build_manifest_sha256", .str buildDigest),
                ("source_revision", .str revision), ("source_tree", .str tree),
                ("source_manifest_sha256", .str manifest), ("tracked_file_count", .int count),
                ("wheel_sha256", .str wheelDigest), ("installed_native_sha256", .str nativeDigest),
                ("native_protocol", .str protocol)]
        | _, _ => .error (.valueError "build manifest wheel or native artifact is missing")
    | _, _ => .error (.valueError "build manifest producer or artifacts are missing")

/-- `_validate_producer_payload`. -/
def validateProducerPayload (payload : List (String × Json)) : Except PyExc Unit :=
  if strField payload "binding_status" = some "UNBOUND_TEST_ONLY" then
    if (payload.lookup "installed_native_sha256").isNone then
      .error (.valueError "unbound producer identity is incomplete")
    else do
      let _ ← digestField (payload.lookup "installed_native_sha256") "installed_native_sha256" 64
      pure ()
  else if strField payload "binding_status" ≠ some "BOUND_CLEAN_BUILD" ∨
      ¬ HasFields payload boundProducerFields then
    .error (.valueError "bound producer identity field set differs")
  else do
    let _ ← digestField (payload.lookup "build_manifest_sha256") "build_manifest_sha256" 64
    let _ ← digestField (payload.lookup "source_revision") "source_revision" 40
    let _ ← digestField (payload.lookup "source_tree") "source_tree" 40
    let _ ← digestField (payload.lookup "source_manifest_sha256") "source_manifest_sha256" 64
    let _ ← positiveInteger (payload.lookup "tracked_file_count") "tracked_file_count"
    let _ ← digestField (payload.lookup "wheel_sha256") "wheel_sha256" 64
    let _ ← digestField (payload.lookup "installed_native_sha256") "installed_native_sha256" 64
    if strField payload "native_protocol" ≠ some "txnopt-native-round-v1" then
      .error (.valueError "native protocol differs")
    else pure ()

variable (sha : Sha256) (floats : FloatConversion) (decoder : JsonDecoder)

/-- `_frozen_mapping`. -/
def frozenMapping (payload : List (String × Json)) : Except PyExc (List (String × Json)) := do
  let data ← canonicalJson floats (.obj payload)
  match ← decoder.loads data with
  | .obj copied => pure copied
  | _ => .error ⟨[.other "TypeError"], "identity payload must be an object"⟩

/-! ### Identities -/

structure ExpectedEvidenceIdentity where
  runLabel : String
  inputConfigSha256 : String
  configArtifactSha256 : String
  domain : String
  executionMode : String
  expectedOracle : String
  producerIdentity : List (String × Json)

namespace ExpectedEvidenceIdentity

/-- The constructor with `__post_init__`. -/
def make (runLabel inputConfigSha256 configArtifactSha256 domain executionMode expectedOracle : String)
    (producerIdentity : List (String × Json)) : Except PyExc ExpectedEvidenceIdentity := do
  let _ ← stringField (some (.str runLabel)) "run_label"
  let _ ← digestField (some (.str inputConfigSha256)) "input_config_sha256" 64
  let _ ← digestField (some (.str configArtifactSha256)) "config_artifact_sha256" 64
  if configArtifactSha256 ≠ inputConfigSha256 then
    .error (.valueError "retained config digest must equal the input config digest")
  else if domain ∉ ["evrptw", "rcpsp"] then .error (.valueError "domain must be evrptw or rcpsp")
  else do
    let _ ← stringField (some (.str executionMode)) "execution_mode"
    let _ ← stringField (some (.str expectedOracle)) "expected_oracle"
    let frozen ← frozenMapping floats decoder producerIdentity
    validateProducerPayload frozen
    pure ⟨runLabel, inputConfigSha256, configArtifactSha256, domain, executionMode, expectedOracle, frozen⟩

def toPayload (identity : ExpectedEvidenceIdentity) : Json :=
  .obj [("schema_version", .str "txnopt-expected-evidence-identity-v1"),
    ("artifact_schema", .str "txnopt-raw-artifact-v3"), ("run_label", .str identity.runLabel),
    ("input_config_sha256", .str identity.inputConfigSha256),
    ("config_artifact_sha256", .str identity.configArtifactSha256), ("domain", .str identity.domain),
    ("execution_mode", .str identity.executionMode), ("expected_oracle", .str identity.expectedOracle),
    ("producer_identity", .obj identity.producerIdentity)]

end ExpectedEvidenceIdentity

/-- `_expected_oracle`. -/
def expectedOracle (config : List (String × Json)) : Except PyExc String :=
  match config.lookup "case" with
  | some (.obj case) =>
      if strField case "domain" = some "rcpsp" then .ok "txnopt_cases.rcpsp.oracle.RCPSPOracle"
      else if strField case "domain" = some "evrptw" ∧
          ((case.lookup "backend").getD (.str "python")).asStr? = some "python" then
        .ok "txnopt_cases.evrptw.oracle.EVRPTWOracle"
      else if strField case "domain" = some "evrptw" ∧ strField case "backend" = some "native" then
        .ok "txnopt_cases.evrptw.native_oracle.NativeEVRPTWOracle"
      else .error (.valueError "case domain or backend differs")
  | _ => .error (.valueError "case must be an object")

/-- `_config`. -/
def readConfig (path : ArtifactPath) (directory : Directory) : Except PyExc (Bytes × List (String × Json)) :=
  match directory.lookup path.name with
  | some .symlink => .error (.valueError "expected config cannot be a symlink")
  | none => .error (fileNotFoundError path.text)
  | some (.file data) => do
      match ← decoder.loads data with
      | .obj config =>
          if strField config "schema_version" = some "txnopt-run-config-v1" then pure (data, config)
          else .error (.valueError "expected config schema differs")
      | _ => .error (.valueError "expected config schema differs")
  | some _ => .error (osError path.text)

def fromConfig (configBytes : Bytes) (config producerIdentity : List (String × Json)) :
    Except PyExc ExpectedEvidenceIdentity :=
  match config.lookup "run_config", config.lookup "case" with
  | some (.obj runConfig), some (.obj case) => do
      let domain ← stringField (case.lookup "domain") "case domain"
      let executionMode ← stringField (runConfig.lookup "execution_mode") "execution mode"
      let runLabel ← stringField (config.lookup "run_label") "run_label"
      let oracle ← expectedOracle config
      ExpectedEvidenceIdentity.make floats decoder runLabel (sha.hexdigest configBytes) (sha.hexdigest configBytes)
        domain executionMode oracle producerIdentity
  | _, _ => .error (.valueError "run config and case must be objects")

/-- The manifest of a build, where it lies. -/
structure BuildManifest where
  path : ArtifactPath
  directory : Directory
  /-- `Path(str(value)).resolve(strict=True)` -/
  resolve : Option Json → Except PyExc String

/-- `sha256_file` of the manifest. -/
def BuildManifest.digest (build : BuildManifest) : Except PyExc String :=
  match build.directory.lookup build.path.name with
  | some (.file data) => .ok (sha.hexdigest data)
  | _ => .error (fileNotFoundError build.path.text)

def fromPlanInputs (path : ArtifactPath) (build : BuildManifest) (directory : Directory) :
    Except PyExc ExpectedEvidenceIdentity := do
  let (configBytes, config) ← readConfig decoder path directory
  let manifest ← readSignedJson sha decoder build.path build.directory
  let buildDigest ← build.digest sha
  match config.lookup "build_manifest" with
  | some (.obj binding) =>
      if strField binding "sha256" ≠ some buildDigest then
        .error (.valueError "formal config build manifest binding differs")
      else do
        let bound ← build.resolve (binding.lookup "path")
        if bound ≠ build.path.resolvedParent ++ build.path.name then
          .error (.valueError "formal config build manifest binding differs")
        else do
          let producer ← boundProducerIdentity manifest buildDigest
          fromConfig sha floats decoder configBytes config producer
  | _ => .error (.valueError "formal config lacks its build manifest binding")

end TxnOpt.Identity
