import TxnOpt.Evidence.EventStream

/-!
# Signed JSON

An object in a file, with a sidecar file that holds the digest of its bytes.
-/

namespace TxnOpt.SignedJson

open Archive EventStream

/-- `json.loads` of bytes, in whatever encoding it detects. An object has each key once. -/
structure JsonDecoder where
  loads : Bytes → Except PyExc Json
  wellFormed {data : Bytes} {value : Json} : loads data = .ok value → value.WellFormed

variable (sha : Sha256)

/-- `write_signed_json` of a payload without floats. -/
def writeSignedJson (path : ArtifactPath) (payload : Json) (directory : Directory) :
    Except PyExc String × Directory :=
  match writeExclusive sha path.text path.name (canonicalJsonBytes payload true) directory with
  | (.error error, directory) => (.error error, directory)
  | (.ok digest, directory) =>
      match writeSidecar sha path digest directory with
      | (.error error, directory) => (.error error, directory)
      | (.ok _, directory) => (.ok digest, directory)

def readSignedJson (decoder : JsonDecoder) (path : ArtifactPath) (directory : Directory) :
    Except PyExc (List (String × Json)) := do
  let _ ← verifySidecar sha path directory
  match directory.lookup path.name with
  | some (.file data) =>
      match ← decoder.loads data with
      | .obj payload => pure payload
      | _ => .error (.valueError "signed JSON must contain an object")
  | _ => .error (fileNotFoundError path.text)

end TxnOpt.SignedJson
