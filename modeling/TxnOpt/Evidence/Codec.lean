import TxnOpt.Lib.Json

/-!
# Canonical bytes

Evidence is written as JSON with sorted keys, and named by the SHA-256 of its bytes.
-/

namespace TxnOpt

abbrev Bytes := List UInt8

def hexDigits : List Char := "0123456789abcdef".toList

/-- The condition of `_validate_sha256`. -/
def IsSha256 (value : String) : Prop := value.length = 64 ∧ ∀ character ∈ value.toList, character ∈ hexDigits

instance (value : String) : Decidable (IsSha256 value) := @instDecidableAnd _ _ _ (List.decidableBAll _ _)

/-- `hashlib.sha256`. -/
structure Sha256 where
  hexdigest : Bytes → String
  isSha256 : ∀ data, IsSha256 (hexdigest data)

/-- `text.encode("utf-8")`. -/
def encodeUtf8 (text : List Char) : Bytes := text.flatMap String.utf8EncodeChar

def decodeUtf8 (data : Bytes) : Option (List Char) := data.toByteArray.utf8Decode?.map Array.toList

/-- `json.loads` of bytes. -/
def loadsBytes (data : Bytes) : Option Json := (decodeUtf8 data).bind Json.loads

def canonicalJsonBytes (payload : Json) (pretty : Bool) : Bytes :=
  if pretty then encodeUtf8 (Json.render (Json.indented 2) 0 payload.sortKeys ++ ['\n'])
  else encodeUtf8 (Json.render Json.compact 0 payload.sortKeys)

end TxnOpt
