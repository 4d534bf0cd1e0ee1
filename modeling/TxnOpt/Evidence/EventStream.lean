import TxnOpt.Evidence.FileSystem
import TxnOpt.Lib.JsonFloats
import TxnOpt.Lib.Lines

/-!
# Event streams

A stream of events is a file with one canonical JSON record on each line, chained by SHA-256, and a sidecar
file with the digest of the file. The names are those of one directory.
-/

namespace TxnOpt.EventStream

open Archive

/-- `json.JSONDecodeError`. -/
def jsonDecodeError : PyExc := ⟨[.other "JSONDecodeError", .valueError], ""⟩

def unicodeDecodeError : PyExc := ⟨[.other "UnicodeDecodeError", .valueError], ""⟩

/-- `canonical_json_bytes(payload)`. -/
def canonicalJson (floats : FloatConversion) (payload : Json) : Except PyExc Bytes :=
  if payload.isFinite floats then .ok (canonicalJsonBytes payload false)
  else .error (.valueError "Out of range float values are not JSON compliant")

/-! ### Files -/

/-- A path, as written and resolved up to its name. -/
structure ArtifactPath where
  parent : String
  resolvedParent : String
  name : String
  isName : name ∉ ["", ".", ".."] ∧ '/' ∉ name.toList

namespace ArtifactPath

def text (path : ArtifactPath) : String := path.parent ++ path.name

/-- The name of `path.with_suffix(path.suffix + ".sha256")`. -/
def sidecarName (path : ArtifactPath) : String := path.name ++ ".sha256"

end ArtifactPath

variable (sha : Sha256)

/-- `write_exclusive` of the file `name`, whose path reads `text`. -/
def writeExclusive (text name : String) (data : Bytes) (directory : Directory) : Except PyExc String × Directory :=
  if name ∈ directory.names then
    (.error (fileExistsError ("refusing to overwrite artifact: " ++ text)), directory)
  else (.ok (sha.hexdigest data), directory ++ [(name, .file data)])

def sidecarText (path : ArtifactPath) (digest : String) : List Char :=
  digest.toList ++ ' ' :: ' ' :: (path.name.toList ++ ['\n'])

def writeSidecar (path : ArtifactPath) (digest : String) (directory : Directory) :
    Except PyExc String × Directory :=
  writeExclusive sha (path.parent ++ path.sidecarName) path.sidecarName (encodeUtf8 (sidecarText path digest))
    directory

/-- `sidecar.read_text(encoding="utf-8").strip().split()`. -/
def sidecarFields (data : Bytes) : Except PyExc (List (List Char)) :=
  match decodeUtf8 data with
  | none => .error unicodeDecodeError
  | some text => .ok (words text)

def verifySidecar (path : ArtifactPath) (directory : Directory) : Except PyExc String :=
  match directory.lookup path.name with
  | some .symlink => .error (.valueError ("artifact cannot be a symlink: " ++ path.text))
  | none => .error (fileNotFoundError path.text)
  | some (.file data) =>
      match directory.lookup path.sidecarName with
      | some (.file sidecar) => do
          let fields ← sidecarFields sidecar
          if fields ≠ [(sha.hexdigest data).toList, path.name.toList] then
            .error (.valueError ("signed sidecar differs for " ++ path.name))
          else pure (sha.hexdigest data)
      | _ => .error (.valueError ("signed sidecar is missing: " ++ (path.resolvedParent ++ path.sidecarName)))
  | some _ => .error (.valueError ("artifact must be a regular file: " ++ path.text))

/-! ### Records -/

variable (floats : FloatConversion)

/-- `"0" * 64`. -/
def genesis : String := String.ofList (List.replicate 64 '0')

def unsignedRecord (eventId previous : Json) (payload : List (String × Json)) : List (String × Json) :=
  [("event_id", eventId), ("previous_event_sha256", previous), ("payload", .obj payload)]

/-- The loop of `write_event_stream`: the lines, and the last digest. -/
def writeRecords : ℕ → String → List (List (String × Json)) → Except PyExc (List Bytes × String)
  | _, previous, [] => .ok ([], previous)
  | eventId, previous, payload :: events => do
      let unsigned := unsignedRecord (.int eventId) (.str previous) payload
      let data ← canonicalJson floats (.obj unsigned)
      let digest := sha.hexdigest data
      let line ← canonicalJson floats (.obj (unsigned ++ [("event_sha256", .str digest)]))
      let (lines, terminal) ← writeRecords (eventId + 1) digest events
      pure ((line ++ [10]) :: lines, terminal)

def writeEventStream (path : ArtifactPath) (events : List (List (String × Json))) (directory : Directory) :
    Except PyExc (String × String) × Directory :=
  match writeRecords sha floats 0 genesis events with
  | .error error => (.error error, directory)
  | .ok (lines, terminal) =>
      match writeExclusive sha path.text path.name lines.flatten directory with
      | (.error error, directory) => (.error error, directory)
      | (.ok digest, directory) =>
          match writeSidecar sha path digest directory with
          | (.error error, directory) => (.error error, directory)
          | (.ok _, directory) => (.ok (digest, terminal), directory)

/-- `event_id == expected_id`. -/
def isEventId (expectedId : ℕ) : Json → Bool
  | .int value => value = expectedId
  | .bool value => (if value then 1 else 0) = expectedId
  | .float literal => floats.integral literal = some (expectedId : Int)
  | _ => false

/-- `json.loads(line)`. -/
def loadsLine (line : List Char) : Except PyExc Json :=
  match Json.loads line with
  | none => .error jsonDecodeError
  | some value => .ok (value.convert floats)

/-- One pass of the loop of `read_event_stream`: the event, and its digest. -/
def readRecord (expectedId : ℕ) (previous : String) (line : List Char) :
    Except PyExc (List (String × Json) × String) := do
  match ← loadsLine floats line with
  | .obj record =>
      match record.lookup "event_id", (record.lookup "previous_event_sha256").bind Json.asStr?,
          record.lookup "payload" with
      | some eventId, some prior, some (.obj payload) =>
          if isEventId floats expectedId eventId = false ∨ prior ≠ previous then
            .error (.valueError ("event chain differs at event " ++ toString expectedId))
          else do
            let data ← canonicalJson floats (.obj (unsignedRecord eventId (.str prior) payload))
            if (record.lookup "event_sha256").bind Json.asStr? ≠ some (sha.hexdigest data) then
              .error (.valueError ("event digest differs at event " ++ toString expectedId))
            else pure (payload, sha.hexdigest data)
      | _, _, _ => .error (.valueError ("event chain differs at event " ++ toString expectedId))
  | _ => .error (.valueError "event record must be an object")

def readRecords : ℕ → String → List (List Char) → Except PyExc (List (List (String × Json)) × String)
  | _, previous, [] => .ok ([], previous)
  | expectedId, previous, line :: lines => do
      let (payload, actual) ← readRecord sha floats expectedId previous line
      let (events, terminal) ← readRecords (expectedId + 1) actual lines
      pure (payload :: events, terminal)

/-- `verify_sidecar(path)`, and the lines of `path.read_text(encoding="utf-8").splitlines()`. -/
def readLines (path : ArtifactPath) (directory : Directory) : Except PyExc (List (List Char)) := do
  let _ ← verifySidecar sha path directory
  match directory.lookup path.name with
  | some (.file data) =>
      match decodeUtf8 data with
      | none => .error unicodeDecodeError
      | some text => .ok (splitlines text)
  | _ => .error (fileNotFoundError path.text)

def readEventStream (path : ArtifactPath) (directory : Directory) :
    Except PyExc (List (List (String × Json)) × String) := do
  let lines ← readLines sha path directory
  let (events, terminal) ← readRecords sha floats 0 genesis lines
  if events.isEmpty then .error (.valueError "semantic event stream cannot be empty")
  else pure (events, terminal)

end TxnOpt.EventStream
