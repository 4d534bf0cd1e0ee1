import TxnOpt.Evidence.Proof.EventStream
import TxnOpt.Evidence.SignedJson
import TxnOpt.Lib.Fallible

/-!
# Files of signed JSON

What is written under free names is read back.
-/

namespace TxnOpt.SignedJson

open Archive EventStream

variable {sha : Sha256}

/-- Both names are free. -/
def FreeNames (path : ArtifactPath) (directory : Directory) : Prop :=
  path.name ∉ directory.names ∧ path.sidecarName ∉ directory.names

theorem writeSignedJson_free {path : ArtifactPath} {payload : Json} {directory : Directory}
    (h : FreeNames path directory) : writeSignedJson sha path payload directory =
      (.ok (sha.hexdigest (canonicalJsonBytes payload true)),
        withStream sha path (canonicalJsonBytes payload true) directory) := by
  have hsidecar : path.sidecarName ∉
      (directory ++ [(path.name, FsNode.file (canonicalJsonBytes payload true))] : Directory).names := by
    rw [names_snoc, List.mem_append, List.mem_singleton, not_or]
    exact ⟨h.2, sidecarName_ne path⟩
  rw [writeSignedJson, writeExclusive, if_neg h.1]
  simp only [writeSidecar]
  rw [writeExclusive, if_neg hsidecar]
  rfl

theorem verifySidecar_withStream {path : ArtifactPath} {directory : Directory} (h : FreeNames path directory)
    (hwhite : NoWhitespace path.name) (data : Bytes) :
    verifySidecar sha path (withStream sha path data directory) = .ok (sha.hexdigest data) := by
  have hfields := (sidecarFields_iff path (sha.isSha256 data)).mpr hwhite
  rw [verifySidecar, withStream_file sha data h.1]
  simp only [withStream_sidecar sha data h.2, hfields, bind, Except.bind, pure, Except.pure, ne_eq, not_true,
    if_false]

theorem readSignedJson_withStream {decoder : JsonDecoder} {path : ArtifactPath} {directory : Directory}
    (h : FreeNames path directory) (hwhite : NoWhitespace path.name) {data : Bytes} {members : List (String × Json)}
    (hdata : decoder.loads data = .ok (.obj members)) :
    readSignedJson sha decoder path (withStream sha path data directory) = .ok members := by
  rw [readSignedJson, verifySidecar_withStream h hwhite, withStream_file sha data h.1]
  simp only [bind, Except.bind, hdata]
  rfl

theorem readSignedJson_nodup {decoder : JsonDecoder} {path : ArtifactPath} {directory : Directory}
    {members : List (String × Json)} (h : readSignedJson sha decoder path directory = .ok members) :
    (Json.obj members).WellFormed := by
  rw [readSignedJson] at h
  obtain ⟨digest, _, h⟩ := exists_of_bind_eq_ok h
  split at h
  · obtain ⟨value, hvalue, h⟩ := exists_of_bind_eq_ok h
    split at h
    · rw [← Except.ok.inj h]
      exact decoder.wellFormed hvalue
    · cases h
  · cases h

/-- The decoder of UTF-8. -/
def utf8Decoder : JsonDecoder where
  loads data :=
    match loadsBytes data with
    | none => .error jsonDecodeError
    | some value => .ok value
  wellFormed {data value} h := by
    cases hloads : loadsBytes data with
    | none =>
        rw [hloads] at h
        cases h
    | some read =>
        rw [hloads] at h
        rw [← Except.ok.inj h]
        obtain ⟨text, -, htext⟩ := Option.bind_eq_some_iff.mp hloads
        exact Json.loads_wellFormed htext

theorem utf8Decoder_canonical {payload : Json} (h : payload.WellFormed) (pretty : Bool) :
    utf8Decoder.loads (canonicalJsonBytes payload pretty) = .ok payload.sortKeys := by
  rw [utf8Decoder]
  simp only [loadsBytes_canonical h pretty]

end TxnOpt.SignedJson
