import TxnOpt.Evidence.Identity
import TxnOpt.Lib.JsonReading

/-!
# The plan of a campaign

Each combination of a case, a seed, an axis and a budget gets a config and an expected identity, in files
that are named by the label of its run.
-/

namespace TxnOpt.CampaignPlan

open Archive EventStream SignedJson Identity
open Cos (HasFields isAsciiAlnum)

/-! ### The protocol -/

/-- `_object`. -/
def objectField (value : Option Json) (label : String) : Except PyExc (List (String × Json)) :=
  match value with
  | some (.obj members) => .ok members
  | _ => .error (.valueError (label ++ " must be an object with string keys"))

/-- `_strings`. -/
def strings (payload : List (String × Json)) (key : String) : Except PyExc (List String) :=
  match ((payload.lookup key).bind Json.asArr?).bind fun items => items.mapM Json.asStr? with
  | some texts => .ok texts
  | none => .error (.valueError (key ++ " must be a string list"))

def asNat? : Json → Option ℕ
  | .int (.ofNat n) => some n
  | _ => none

/-- `_integers`. -/
def integers (payload : List (String × Json)) (key : String) : Except PyExc (List ℕ) :=
  match ((payload.lookup key).bind Json.asArr?).bind fun items => items.mapM asNat? with
  | some values => .ok values
  | none => .error (.valueError (key ++ " must be a non-negative integer list"))

/-- `_IDENTIFIER.fullmatch(value)`, for `[A-Za-z0-9][A-Za-z0-9_]{1,63}`. -/
def IsIdentifier (value : String) : Prop :=
  match value.toList with
  | [] => False
  | first :: rest =>
      isAsciiAlnum first = true ∧ 1 ≤ rest.length ∧ rest.length ≤ 63 ∧
        (rest.all fun character => isAsciiAlnum character || character = '_') = true

instance decidableIsIdentifier (value : String) : Decidable (IsIdentifier value) :=
  match hvalue : value.toList with
  | [] => .isFalse (by rw [IsIdentifier, hvalue]; exact not_false)
  | first :: rest =>
      @decidable_of_iff _
        (isAsciiAlnum first = true ∧ 1 ≤ rest.length ∧ rest.length ≤ 63 ∧
          (rest.all fun character => isAsciiAlnum character || character = '_') = true)
        (by rw [IsIdentifier, hvalue]) inferInstance

structure CaseId where
  value : String
  isIdentifier : IsIdentifier value
  deriving DecidableEq

def CaseId.of? (value : String) : Option CaseId :=
  if h : IsIdentifier value then some ⟨value, h⟩ else none

inductive Domain where
  | evrptw
  | rcpsp
  deriving DecidableEq, Repr

namespace Domain

def value : Domain → String
  | evrptw => "evrptw"
  | rcpsp => "rcpsp"

def all : List Domain := [evrptw, rcpsp]

end Domain

/-- The identifiers of one domain, a round of the loop of `_expected_case_ids`. -/
def domainCaseIds (domains : List (String × Json)) (domain : Domain) : Except PyExc (List CaseId) := do
  let scope ← objectField (domains.lookup domain.value) (domain.value ++ " scope")
  let pilot ← strings scope "pilot"
  let validation ← strings scope "validation"
  let identifiers := pilot ++ validation
  if identifiers = [] ∨ ¬ identifiers.Nodup then
    .error (.valueError (domain.value ++ " identifiers must be unique"))
  else
    match identifiers.mapM CaseId.of? with
    | none => .error (.valueError (domain.value ++ " identifier is not canonical"))
    | some caseIds => pure caseIds

/-- The value of `_expected_case_ids`. -/
structure ExpectedCaseIds where
  evrptw : List CaseId
  rcpsp : List CaseId

def ExpectedCaseIds.get (expected : ExpectedCaseIds) : Domain → List CaseId
  | .evrptw => expected.evrptw
  | .rcpsp => expected.rcpsp

def expectedCaseIds (protocol : List (String × Json)) : Except PyExc ExpectedCaseIds := do
  let domains ← objectField (protocol.lookup "domains") "protocol domains"
  let evrptw ← domainCaseIds domains .evrptw
  let rcpsp ← domainCaseIds domains .rcpsp
  if ¬ HasFields domains (Domain.all.map Domain.value) then
    .error (.valueError "protocol contains an unregistered domain")
  else pure ⟨evrptw, rcpsp⟩

/-- The seeds of the protocol. -/
def planSeeds (protocol : List (String × Json)) : Except PyExc (List ℕ) := do
  let seeds ← integers protocol "seeds"
  if seeds = [] ∨ ¬ seeds.Nodup then .error (.valueError "Level 1 seeds must be unique") else pure seeds

/-! ### Combinations -/

inductive Axis where
  | serial1
  | txnopt1
  | txnopt4
  | barrier4
  deriving DecidableEq, Repr

namespace Axis

def value : Axis → String
  | serial1 => "serial_1"
  | txnopt1 => "txnopt_1"
  | txnopt4 => "txnopt_4"
  | barrier4 => "barrier_4"

/-- `_AXES`: the execution mode, the workers and the speculation window. -/
def settings : Axis → String × ℕ × ℕ
  | serial1 => ("serial", 1, 0)
  | txnopt1 => ("ordered", 1, 1)
  | txnopt4 => ("ordered", 4, 4)
  | barrier4 => ("barrier", 4, 0)

def all : List Axis := [serial1, txnopt1, txnopt4, barrier4]

end Axis

inductive Budget where
  | fixedWork
  | fixedTime
  deriving DecidableEq, Repr

namespace Budget

def value : Budget → String
  | fixedWork => "fixed_work"
  | fixedTime => "fixed_time"

def all : List Budget := [fixedWork, fixedTime]

end Budget

structure Combination where
  domain : Domain
  caseId : CaseId
  seed : ℕ
  axis : Axis
  budget : Budget
  deriving DecidableEq

/-- The order of the five loops of `materialize_level1_plan`. -/
def combinations (expected : ExpectedCaseIds) (seeds : List ℕ) : List Combination :=
  Domain.all.flatMap fun domain => (expected.get domain).flatMap fun caseId => seeds.flatMap fun seed =>
    Axis.all.flatMap fun axis => Budget.all.map fun budget => ⟨domain, caseId, seed, axis, budget⟩

/-- `f"{value:02d}"`. -/
def twoDigits (value : ℕ) : String := if value < 10 then "0" ++ toString value else toString value

/-- `label`. An identifier is ASCII, and so is its lower case. -/
def runLabel (attempt : ℕ) (combination : Combination) : String :=
  "txnopt_level1_" ++ combination.domain.value ++ "_" ++ combination.caseId.value.toLower ++ "_" ++
    toString combination.seed ++ "_" ++ combination.axis.value ++ "_" ++ combination.budget.value ++ "_attempt" ++
      twoDigits attempt

/-! ### Names of files -/

theorem isAsciiAlnum_slash : isAsciiAlnum '/' = false := by decide

theorem toList_toLower (text : String) : text.toLower.toList = text.toList.map Char.toLower := String.toList_map

theorem toLower_ne_slash {character : Char} (h : character ≠ '/') : character.toLower ≠ '/' := by
  intro hlower
  delta Char.toLower at hlower
  split at hlower
  · rename_i hupper
    have hcode := congrArg (fun lower => lower.val.toNat) hlower
    simp only [ge_iff_le, UInt32.le_iff_toNat_le, UInt32.toNat_add] at hcode hupper
    simp at hcode hupper
    omega
  · exact h hlower

theorem CaseId.slash_not_mem (caseId : CaseId) : '/' ∉ caseId.value.toList := by
  have hidentifier := caseId.isIdentifier
  rw [IsIdentifier] at hidentifier
  intro hmem
  cases hvalue : caseId.value.toList with
  | nil =>
      rw [hvalue] at hmem
      exact absurd hmem List.not_mem_nil
  | cons first rest =>
      rw [hvalue] at hidentifier hmem
      obtain ⟨hfirst, -, -, hrest⟩ := hidentifier
      rcases List.mem_cons.mp hmem with heq | hlater
      · rw [← heq, isAsciiAlnum_slash] at hfirst
        cases hfirst
      · have hslash := List.all_eq_true.mp hrest '/' hlater
        rw [isAsciiAlnum_slash] at hslash
        exact absurd hslash (by decide)

theorem slash_not_mem_append {first second : String} (hfirst : '/' ∉ first.toList) (hsecond : '/' ∉ second.toList) :
    '/' ∉ (first ++ second).toList := by
  rw [String.toList_append, List.mem_append, not_or]
  exact ⟨hfirst, hsecond⟩

theorem slash_not_mem_toString (n : ℕ) : '/' ∉ (toString n).toList := by
  intro hmem
  have hdigit := Json.toDigits_isDigit n '/' (by rw [← Nat.toList_repr]; exact hmem)
  exact absurd hdigit (by decide)

theorem slash_not_mem_runLabel (attempt : ℕ) (combination : Combination) :
    '/' ∉ (runLabel attempt combination).toList := by
  have hcase : '/' ∉ combination.caseId.value.toLower.toList := by
    rw [toList_toLower, List.mem_map]
    intro hmem
    obtain ⟨character, hcharacter, heq⟩ := hmem
    exact toLower_ne_slash (fun hslash => combination.caseId.slash_not_mem (hslash ▸ hcharacter)) heq
  have hattempt : '/' ∉ (twoDigits attempt).toList := by
    rw [twoDigits]
    split
    · exact slash_not_mem_append (by decide) (slash_not_mem_toString attempt)
    · exact slash_not_mem_toString attempt
  have hdomain : '/' ∉ combination.domain.value.toList := by cases combination.domain <;> decide
  have haxis : '/' ∉ combination.axis.value.toList := by cases combination.axis <;> decide
  have hbudget : '/' ∉ combination.budget.value.toList := by cases combination.budget <;> decide
  unfold runLabel
  refine slash_not_mem_append (slash_not_mem_append (slash_not_mem_append ?_ hbudget) (by decide)) hattempt
  refine slash_not_mem_append (slash_not_mem_append (slash_not_mem_append ?_ (by decide)) haxis) (by decide)
  refine slash_not_mem_append (slash_not_mem_append ?_ (by decide)) (slash_not_mem_toString _)
  refine slash_not_mem_append (slash_not_mem_append ?_ (by decide)) hcase
  exact slash_not_mem_append (by decide) hdomain

/-- The name of both files of a combination. -/
def fileName (attempt : ℕ) (combination : Combination) : String := runLabel attempt combination ++ ".json"

theorem isName_fileName (attempt : ℕ) (combination : Combination) :
    fileName attempt combination ∉ ["", ".", ".."] ∧ '/' ∉ (fileName attempt combination).toList := by
  constructor
  · intro hmem
    have hshort : ∀ name ∈ ["", ".", ".."], name.length ≤ 2 := by decide
    have hlength := hshort _ hmem
    have hsuffix : ".json".length = 5 := by decide
    rw [fileName, String.length_append] at hlength
    omega
  · exact slash_not_mem_append (slash_not_mem_runLabel attempt combination) (by decide)

/-- The path of the name in a directory. -/
def filePath (parent : String) (attempt : ℕ) (combination : Combination) : ArtifactPath :=
  ⟨parent ++ "/", parent ++ "/", fileName attempt combination, isName_fileName attempt combination⟩

/-! ### Files -/

/-- What the plan is made from. -/
structure PlanInputs where
  output : String
  rawRoot : String
  build : BuildManifest
  buildManifestSha256 : String
  casePayload : Domain → CaseId → List (String × Json)
  fixedWork : ℕ
  fixedTimeSeconds : FloatLiteral
  maxRounds : ℕ
  attempt : ℕ

/-- `canonical_json_bytes(payload, pretty=True)`. -/
def prettyJson (floats : FloatConversion) (payload : Json) : Except PyExc Bytes :=
  if payload.isFinite floats then .ok (canonicalJsonBytes payload true)
  else .error (.valueError "Out of range float values are not JSON compliant")

/-- `config`. -/
def PlanInputs.config (inputs : PlanInputs) (combination : Combination) : Json :=
  let (executionMode, workers, speculationWindow) := combination.axis.settings
  .obj [("schema_version", .str "txnopt-run-config-v1"), ("run_label", .str (runLabel inputs.attempt combination)),
    ("output_root", .str inputs.rawRoot),
    ("build_manifest", .obj [("path", .str (inputs.build.path.resolvedParent ++ inputs.build.path.name)),
      ("sha256", .str inputs.buildManifestSha256)]),
    ("run_config", .obj [("seed", .int combination.seed), ("workers", .int workers),
      ("execution_mode", .str executionMode),
      ("fixed_work", if combination.budget = .fixedWork then .int inputs.fixedWork else .null),
      ("deadline_seconds", if combination.budget = .fixedTime then .float inputs.fixedTimeSeconds else .null),
      ("speculation_window", .int speculationWindow), ("trace_policy", .str "semantic_and_physical"),
      ("max_rounds", .int inputs.maxRounds)]),
    ("case", .obj (inputs.casePayload combination.domain combination.caseId ++
      [("oracle_seed", .int combination.seed)]))]

/-- The two directories of the plan. -/
structure PlanFiles where
  configs : Directory
  identities : Directory

/-- The directories after `mkdir`. -/
def PlanFiles.empty : PlanFiles := ⟨[], []⟩

/-- The file at a path from the destination of the plan. -/
def PlanFiles.nodeAt (files : PlanFiles) (path : String) : Option FsNode :=
  Archive.nodeAt (PurePosixPath.of path).parts
    [("configs", .directory files.configs), ("expected-identities", .directory files.identities)]

/-- An entry of the manifest. -/
structure PlanEntry where
  path : String
  sha256 : String
  expectedIdentityPath : String
  expectedIdentitySha256 : String

/-- `path.write_bytes(data)`. -/
def writeBytes (path : ArtifactPath) (data : Bytes) (directory : Directory) : Except PyExc Directory :=
  match directory.lookup path.name with
  | none => .ok (directory ++ [(path.name, .file data)])
  | some (.file _) => .ok (directory.replace path.name (.file data))
  | some _ => .error (osError path.text)

variable (sha : Sha256) (floats : FloatConversion) (decoder : JsonDecoder) (inputs : PlanInputs)

def PlanInputs.configPath (combination : Combination) : ArtifactPath :=
  filePath (inputs.output ++ "/configs") inputs.attempt combination

def PlanInputs.identityPath (combination : Combination) : ArtifactPath :=
  filePath (inputs.output ++ "/expected-identities") inputs.attempt combination

/-- The identity file, its sidecar and the entry, once the config is written. -/
def writeIdentity (combination : Combination) (configBytes : Bytes) (files : PlanFiles) :
    Except PyExc PlanEntry × PlanFiles :=
  let identityBytes := do
    let identity ← fromPlanInputs sha floats decoder (inputs.configPath combination) inputs.build files.configs
    prettyJson floats identity.toPayload
  match identityBytes with
  | .error error => (.error error, files)
  | .ok identityBytes =>
      match writeBytes (inputs.identityPath combination) identityBytes files.identities with
      | .error error => (.error error, files)
      | .ok identities =>
          match writeSidecar sha (inputs.identityPath combination) (sha.hexdigest identityBytes) identities with
          | (.error error, identities) => (.error error, { files with identities })
          | (.ok _, identities) =>
              (.ok ⟨"configs/" ++ fileName inputs.attempt combination, sha.hexdigest configBytes,
                "expected-identities/" ++ fileName inputs.attempt combination, sha.hexdigest identityBytes⟩,
                { files with identities })

/-- The body of the loops of `materialize_level1_plan`. -/
def writeEntry (combination : Combination) (files : PlanFiles) : Except PyExc PlanEntry × PlanFiles :=
  match prettyJson floats (inputs.config combination) with
  | .error error => (.error error, files)
  | .ok configBytes =>
      match writeBytes (inputs.configPath combination) configBytes files.configs with
      | .error error => (.error error, files)
      | .ok configs => writeIdentity sha floats decoder inputs combination configBytes { files with configs }

/-- The loops of `materialize_level1_plan`: the entries of the manifest. -/
def writeEntries : List Combination → PlanFiles → Except PyExc (List PlanEntry) × PlanFiles
  | [], files => (.ok [], files)
  | combination :: combinations, files =>
      match writeEntry sha floats decoder inputs combination files with
      | (.error error, files) => (.error error, files)
      | (.ok entry, files) =>
          match writeEntries combinations files with
          | (.error error, files) => (.error error, files)
          | (.ok entries, files) => (.ok (entry :: entries), files)

end TxnOpt.CampaignPlan
