import TxnOpt.Evidence.EventStream

/-!
# The campaign reviewer's event streams

`level1_campaign_common.read_event_stream` hashes each record with the reviewer's own counters, where
`codec.read_event_stream` hashes it with the fields of the file.
-/

namespace TxnOpt.Level1CampaignCommon

open Archive EventStream

variable (sha : Sha256) (floats : FloatConversion)

/-- `_object`; the keys of a JSON object are strings. -/
def object (value : Option Json) (label : String) : Except PyExc (List (String × Json)) :=
  match value with
  | some (.obj members) => .ok members
  | _ => .error (.valueError (label ++ " must be an object"))

/-- One pass of the loop: the event, and its digest. -/
def readRecord (path : ArtifactPath) (expectedId : ℕ) (previous : String) (line : List Char) :
    Except PyExc (List (String × Json) × String) := do
  let raw ← loadsLine floats line
  let record ← object (some raw) "event record"
  let payload ← object (record.lookup "payload") "event payload"
  let data ← canonicalJson floats (.obj (unsignedRecord (.int expectedId) (.str previous) payload))
  if (record.lookup "event_id").any (isEventId floats expectedId) = false ∨
      (record.lookup "previous_event_sha256").bind Json.asStr? ≠ some previous ∨
      (record.lookup "event_sha256").bind Json.asStr? ≠ some (sha.hexdigest data) then
    .error (.valueError ("event chain differs at " ++ path.text ++ ":" ++ toString expectedId))
  else pure (payload, sha.hexdigest data)

def readRecords (path : ArtifactPath) :
    ℕ → String → List (List Char) → Except PyExc (List (List (String × Json)))
  | _, _, [] => .ok []
  | expectedId, previous, line :: lines => do
      let (payload, actual) ← readRecord sha floats path expectedId previous line
      let events ← readRecords path (expectedId + 1) actual lines
      pure (payload :: events)

def readEventStream (path : ArtifactPath) (directory : Directory) :
    Except PyExc (List (List (String × Json))) := do
  let lines ← readLines sha path directory
  let events ← readRecords sha floats path 0 genesis lines
  if events.isEmpty then .error (.valueError ("event stream is empty: " ++ path.text))
  else pure events

end TxnOpt.Level1CampaignCommon
