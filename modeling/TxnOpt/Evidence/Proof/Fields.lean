import TxnOpt.Evidence.TencentCos
import TxnOpt.Lib.JsonSorting
import Mathlib.Data.List.Forall2

/-!
# Objects with a fixed set of fields

An object is the same as a record, up to the order of keys, iff it has the record's fields with its values.
-/

namespace TxnOpt.Cos

/-- Neither a list nor an object. -/
def IsScalar : Json → Prop
  | .arr _ | .obj _ => False
  | _ => True

theorem IsScalar.sortKeys {scalar : Json} (h : IsScalar scalar) : scalar.sortKeys = scalar := by
  cases scalar <;> first | rfl | cases h

theorem sortKeys_eq_scalar {value scalar : Json} (h : IsScalar scalar) :
    value.sortKeys = scalar ↔ value = scalar := by
  constructor
  · intro heq
    rw [← heq] at h ⊢
    cases value <;> first | rfl | cases h
  · intro heq
    rw [heq, h.sortKeys]

theorem sortKeys_eq_arr {value : Json} {items : List Json} :
    value.sortKeys = .arr items ↔ ∃ unsorted, value = .arr unsorted ∧ unsorted.map Json.sortKeys = items := by
  cases value <;> simp [Json.sortKeys, Json.sortItems_eq]

/-- A scalar under a key stands there in every order of keys. -/
theorem map_sortKeys_eq_scalar {stored : Option Json} {scalar : Json} (h : IsScalar scalar) :
    stored.map Json.sortKeys = some scalar.sortKeys ↔ stored = some scalar := by
  rw [h.sortKeys]
  cases stored with
  | none => simp
  | some value => simp [sortKeys_eq_scalar h]

theorem strField_eq_some {members : List (String × Json)} {field text : String} :
    strField members field = some text ↔ members.lookup field = some (.str text) := by
  rw [strField]
  cases members.lookup field with
  | none => simp
  | some value => cases value <;> simp [Json.asStr?]

theorem map_sortKeys_eq_str {members : List (String × Json)} {field text : String} :
    (members.lookup field).map Json.sortKeys = some (Json.str text).sortKeys ↔
      strField members field = some text := by
  rw [strField_eq_some]
  exact map_sortKeys_eq_scalar trivial

theorem same_items_iff {first second : List Json} :
    first.map Json.sortKeys = second.map Json.sortKeys ↔ List.Forall₂ Json.Same first second := by
  rw [← List.forall₂_eq_eq_eq, List.forall₂_map_left_iff, List.forall₂_map_right_iff]
  rfl

theorem map_sortKeys_eq_arr {stored : Option Json} {items : List Json} :
    stored.map Json.sortKeys = some (Json.arr items).sortKeys ↔
      ∃ unsorted, stored = some (.arr unsorted) ∧ List.Forall₂ Json.Same unsorted items := by
  rw [Option.map_eq_some_iff]
  constructor
  · intro h
    obtain ⟨value, hvalue, hsorted⟩ := h
    obtain ⟨unsorted, harr, hsame⟩ := sortKeys_eq_arr.mp hsorted
    rw [Json.sortItems_eq, same_items_iff] at hsame
    exact ⟨unsorted, by rw [hvalue, harr], hsame⟩
  · intro h
    obtain ⟨unsorted, hstored, hsame⟩ := h
    refine ⟨_, hstored, sortKeys_eq_arr.mpr ⟨unsorted, rfl, ?_⟩⟩
    rw [Json.sortItems_eq, same_items_iff]
    exact hsame

theorem lookup_isSome_iff {members : List (String × Json)} {field : String} :
    (members.lookup field).isSome = true ↔ field ∈ members.map Prod.fst := by
  induction members with
  | nil => simp
  | cons member members ih =>
      obtain ⟨name, value⟩ := member
      rw [List.lookup_cons, List.map_cons, List.mem_cons]
      by_cases hname : field = name
      · simp [hname]
      · rw [beq_false_of_ne hname]
        simp [hname, ih]

/-- An object with the fields of a record, and with its value under each. -/
theorem same_record_iff {members written : List (String × Json)} {fields : List String}
    (hmembers : (members.map Prod.fst).Nodup) (hwritten : written.map Prod.fst = fields) (hfields : fields.Nodup) :
    Json.Same (.obj members) (.obj written) ↔ HasFields members fields ∧
      ∀ field ∈ fields, (members.lookup field).map Json.sortKeys = (written.lookup field).map Json.sortKeys := by
  have hnodup : (written.map Prod.fst).Nodup := by
    rw [hwritten]
    exact hfields
  rw [Json.same_obj_iff hmembers hnodup]
  constructor
  · intro h
    have hkey : ∀ field, field ∈ members.map Prod.fst ↔ field ∈ fields := by
      intro field
      rw [← hwritten, ← lookup_isSome_iff, ← lookup_isSome_iff, ← Option.isSome_map, h field, Option.isSome_map]
    exact ⟨⟨fun key hkeys => (hkey key).mp hkeys, fun field hfield => (hkey field).mpr hfield⟩,
      fun field _ => h field⟩
  · intro h key
    by_cases hkey : key ∈ fields
    · exact h.2 key hkey
    · have hleft : members.lookup key = none := by
        rw [← Option.not_isSome_iff_eq_none, lookup_isSome_iff]
        exact fun hmem => hkey (h.1.1 key hmem)
      have hright : written.lookup key = none := by
        rw [← Option.not_isSome_iff_eq_none, lookup_isSome_iff, hwritten]
        exact hkey
      rw [hleft, hright]

end TxnOpt.Cos
