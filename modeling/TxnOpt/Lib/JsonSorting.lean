import TxnOpt.Lib.JsonReading
import TxnOpt.Lib.Keys

/-!
# Sorted keys

Sorting the keys of a value changes neither what is looked up in it nor that it can be read back.
-/

namespace TxnOpt

namespace Json

theorem sortItems_eq (items : List Json) : sortItems items = items.map sortKeys := by
  induction items with
  | nil => rfl
  | cons item items ih => rw [sortItems, ih, List.map_cons]

theorem sortMembers_eq (members : List (String × Json)) :
    sortMembers members = members.map fun member => (member.1, member.2.sortKeys) := by
  induction members with
  | nil => rfl
  | cons member members ih => rw [sortMembers, ih, List.map_cons]

theorem sortMembers_keys (members : List (String × Json)) :
    (sortMembers members).map Prod.fst = members.map Prod.fst := by
  rw [sortMembers_eq, List.map_map]
  rfl

theorem sortMembers_sortedBy (members : List (String × Json)) :
    sortMembers (sortedBy Prod.fst members) = sortedBy Prod.fst (sortMembers members) := by
  rw [sortMembers_eq, sortMembers_eq, sortedBy_map]

mutual

theorem sortKeys_sortKeys : ∀ value : Json, value.sortKeys.sortKeys = value.sortKeys
  | .null => rfl
  | .bool _ => rfl
  | .int _ => rfl
  | .float _ => rfl
  | .str _ => rfl
  | .arr items => by rw [sortKeys, sortKeys, sortItems_sortItems items]
  | .obj members => by
      rw [sortKeys, sortKeys, sortMembers_sortedBy, sortMembers_sortMembers members, sortedBy_sortedBy]

theorem sortItems_sortItems : ∀ items : List Json, sortItems (sortItems items) = sortItems items
  | [] => rfl
  | item :: items => by rw [sortItems, sortItems, sortKeys_sortKeys item, sortItems_sortItems items]

theorem sortMembers_sortMembers :
    ∀ members : List (String × Json), sortMembers (sortMembers members) = sortMembers members
  | [] => rfl
  | (key, value) :: members => by
      rw [sortMembers, sortMembers, sortKeys_sortKeys value, sortMembers_sortMembers members]

end

theorem wellFormedItems_iff (items : List Json) : WellFormedItems items ↔ ∀ item ∈ items, WellFormed item := by
  induction items with
  | nil => simp [WellFormedItems]
  | cons item items ih => rw [WellFormedItems, ih, List.forall_mem_cons]

theorem wellFormedMembers_iff (members : List (String × Json)) :
    WellFormedMembers members ↔ ∀ member ∈ members, WellFormed member.2 := by
  induction members with
  | nil => simp [WellFormedMembers]
  | cons member members ih => rw [WellFormedMembers, ih, List.forall_mem_cons]

mutual

theorem WellFormed.sortKeys : ∀ value : Json, WellFormed value → WellFormed value.sortKeys
  | .null, h => h
  | .bool _, h => h
  | .int _, h => h
  | .float _, h => h
  | .str _, h => h
  | .arr items, h => WellFormedItems.sortItems items h
  | .obj members, h => by
      obtain ⟨hnodup, hmembers⟩ := h
      have hsorted := WellFormedMembers.sortMembers members hmembers
      rw [wellFormedMembers_iff] at hsorted
      refine ⟨?_, ?_⟩
      · rw [(sortedBy_perm.map Prod.fst).nodup_iff, sortMembers_keys]
        exact hnodup
      · rw [wellFormedMembers_iff]
        intro member hmember
        exact hsorted member (mem_sortedBy.mp hmember)

theorem WellFormedItems.sortItems : ∀ items : List Json, WellFormedItems items → WellFormedItems (sortItems items)
  | [], h => h
  | item :: items, h => ⟨WellFormed.sortKeys item h.1, WellFormedItems.sortItems items h.2⟩

theorem WellFormedMembers.sortMembers :
    ∀ members : List (String × Json), WellFormedMembers members → WellFormedMembers (sortMembers members)
  | [], h => h
  | (_, value) :: members, h => ⟨WellFormed.sortKeys value h.1, WellFormedMembers.sortMembers members h.2⟩

end

/-- A lookup in the sorted members of an object. -/
theorem lookup_sorted {members : List (String × Json)} (hnodup : (members.map Prod.fst).Nodup) (key : String) :
    (sortedBy Prod.fst (sortMembers members)).lookup key = (members.lookup key).map sortKeys := by
  have hsorted : ((sortedBy Prod.fst (sortMembers members)).map Prod.fst).Nodup := by
    rw [(sortedBy_perm.map Prod.fst).nodup_iff, sortMembers_keys]
    exact hnodup
  apply Option.ext
  intro value
  rw [lookup_eq_some_iff_mem hsorted, mem_sortedBy, sortMembers_eq, List.mem_map, Option.map_eq_some_iff]
  constructor
  · intro h
    obtain ⟨member, hmember, heq⟩ := h
    refine ⟨member.2, ?_, (Prod.mk.inj heq).2⟩
    rw [lookup_eq_some_iff_mem hnodup, ← (Prod.mk.inj heq).1]
    exact hmember
  · intro h
    obtain ⟨stored, hstored, heq⟩ := h
    exact ⟨(key, stored), (lookup_eq_some_iff_mem hnodup).mp hstored, by rw [heq]⟩

/-- Equal up to the order of keys. -/
def Same (first second : Json) : Prop := first.sortKeys = second.sortKeys

/-- Two objects are the same iff they have the same value under every key. -/
theorem same_obj_iff {first second : List (String × Json)} (hfirst : (first.map Prod.fst).Nodup)
    (hsecond : (second.map Prod.fst).Nodup) :
    Same (.obj first) (.obj second) ↔
      ∀ key, (first.lookup key).map sortKeys = (second.lookup key).map sortKeys := by
  have hlookup : ∀ {members : List (String × Json)}, (members.map Prod.fst).Nodup → ∀ member,
      member ∈ sortedBy Prod.fst (sortMembers members) ↔
        (members.lookup member.1).map sortKeys = some member.2 := by
    intro members hnodup member
    have hsorted : ((sortedBy Prod.fst (sortMembers members)).map Prod.fst).Nodup := by
      rw [(sortedBy_perm.map Prod.fst).nodup_iff, sortMembers_keys]
      exact hnodup
    rw [← lookup_sorted hnodup, lookup_eq_some_iff_mem hsorted]
  rw [Same, sortKeys, sortKeys, obj.injEq]
  constructor
  · intro h key
    rw [← lookup_sorted hfirst, ← lookup_sorted hsecond, h]
  · intro h
    have hkeys : ∀ {members : List (String × Json)}, (members.map Prod.fst).Nodup →
        ((sortMembers members).map Prod.fst).Nodup := by
      intro members hnodup
      rw [sortMembers_keys]
      exact hnodup
    apply sortedBy_eq_of_mem_iff (hkeys hfirst) (sortedBy_increasing (hkeys hsecond))
    intro member
    rw [hlookup hsecond, ← h, ← hlookup hfirst, mem_sortedBy]

theorem keys_sorted {members : List (String × Json)} (key : String) :
    key ∈ (sortedBy Prod.fst (sortMembers members)).map Prod.fst ↔ key ∈ members.map Prod.fst := by
  rw [(sortedBy_perm.map Prod.fst).mem_iff, sortMembers_keys]

end Json

end TxnOpt
