import TxnOpt.Evidence.Codec
import TxnOpt.Lib.JsonSorting

/-!
# Reading canonical bytes

Canonical bytes decode to the sorted payload, whose own canonical bytes they are.
-/

namespace TxnOpt

theorem isSha256_ofList {characters : List Char} (hlength : characters.length = 64)
    (hdigits : characters.all (hexDigits.contains ·) = true) : IsSha256 (String.ofList characters) := by
  rw [IsSha256, String.length_ofList, String.toList_ofList]
  exact ⟨hlength, by simpa using hdigits⟩

theorem decodeUtf8_encodeUtf8 (text : List Char) : decodeUtf8 (encodeUtf8 text) = some text := by
  have hbytes : (encodeUtf8 text).toByteArray = text.utf8Encode := rfl
  rw [decodeUtf8, hbytes, List.utf8Decode?_utf8Encode]
  rfl

theorem loadsBytes_canonical {payload : Json} (h : payload.WellFormed) (pretty : Bool) :
    loadsBytes (canonicalJsonBytes payload pretty) = some payload.sortKeys := by
  have hsorted := Json.WellFormed.sortKeys payload h
  cases pretty with
  | true =>
      rw [canonicalJsonBytes, if_pos rfl, loadsBytes, decodeUtf8_encodeUtf8]
      exact Json.loads_render (Json.indented_spaced 2) hsorted (by simp [Json.isSpace])
  | false =>
      have hread : Json.loads (Json.render Json.compact 0 payload.sortKeys ++ []) = some payload.sortKeys :=
        Json.loads_render Json.compact_spaced hsorted (by simp)
      rw [canonicalJsonBytes, if_neg Bool.false_ne_true, loadsBytes, decodeUtf8_encodeUtf8]
      rwa [List.append_nil] at hread

theorem canonicalJsonBytes_sortKeys (payload : Json) (pretty : Bool) :
    canonicalJsonBytes payload.sortKeys pretty = canonicalJsonBytes payload pretty := by
  rw [canonicalJsonBytes, canonicalJsonBytes, Json.sortKeys_sortKeys]

end TxnOpt
