import TxnOpt.Lib.JsonSorting

/-!
# Floating-point numbers in JSON

`float` reads a literal as the nearest double, and `repr` writes a double as one of the literals that are
read as it. A value that was read holds each finite double as its `repr`; an infinite one stays a literal.
-/

namespace TxnOpt

structure FloatConversion where
  /-- `repr(float(literal))`; none of an infinite double -/
  repr : FloatLiteral → Option FloatLiteral
  /-- the integer that `float(literal)` is equal to -/
  integral : FloatLiteral → Option Int
  repr_wellFormed : ∀ {literal written : FloatLiteral}, repr literal = some written →
    Json.WellFormedLiteral written

namespace Json

variable (floats : FloatConversion)

mutual

/-- Each literal as the `repr` of its double. -/
def convert : Json → Json
  | .float literal => .float ((floats.repr literal).getD literal)
  | .arr items => .arr (convertItems items)
  | .obj members => .obj (convertMembers members)
  | value => value

def convertItems : List Json → List Json
  | [] => []
  | item :: items => convert item :: convertItems items

def convertMembers : List (String × Json) → List (String × Json)
  | [] => []
  | (key, value) :: members => (key, convert value) :: convertMembers members

end

mutual

/-- No double in the value is infinite. -/
def isFinite : Json → Bool
  | .float literal => (floats.repr literal).isSome
  | .arr items => isFiniteItems items
  | .obj members => isFiniteMembers members
  | _ => true

def isFiniteItems : List Json → Bool
  | [] => true
  | item :: items => isFinite item && isFiniteItems items

def isFiniteMembers : List (String × Json) → Bool
  | [] => true
  | (_, value) :: members => isFinite value && isFiniteMembers members

end

mutual

/-- Every literal in the value is the `repr` of its double. -/
def Reprs : Json → Prop
  | .float literal => floats.repr literal = some literal
  | .arr items => ReprsItems items
  | .obj members => ReprsMembers members
  | _ => True

def ReprsItems : List Json → Prop
  | [] => True
  | item :: items => Reprs item ∧ ReprsItems items

def ReprsMembers : List (String × Json) → Prop
  | [] => True
  | (_, value) :: members => Reprs value ∧ ReprsMembers members

end

variable {floats}

theorem convertMembers_keys (members : List (String × Json)) :
    (convertMembers floats members).map Prod.fst = members.map Prod.fst := by
  induction members with
  | nil => rfl
  | cons member members ih => rw [convertMembers, List.map_cons, List.map_cons, ih]

theorem lookup_convertMembers (members : List (String × Json)) (key : String) :
    (convertMembers floats members).lookup key = (members.lookup key).map (convert floats) := by
  induction members with
  | nil => rfl
  | cons member members ih =>
      rw [convertMembers, List.lookup_cons, List.lookup_cons]
      cases key == member.1 with
      | true => rfl
      | false => exact ih

theorem reprsMembers_iff (members : List (String × Json)) :
    ReprsMembers floats members ↔ ∀ member ∈ members, Reprs floats member.2 := by
  induction members with
  | nil => simp [ReprsMembers]
  | cons member members ih => rw [ReprsMembers, ih, List.forall_mem_cons]

mutual

theorem WellFormed.convert : ∀ value : Json, WellFormed value → WellFormed (value.convert floats)
  | .null, h => h
  | .bool _, h => h
  | .int _, h => h
  | .str _, h => h
  | .float literal, h => by
      rw [Json.convert]
      cases hwritten : floats.repr literal with
      | none => exact h
      | some written => exact floats.repr_wellFormed hwritten
  | .arr items, h => WellFormedItems.convertItems items h
  | .obj members, h => by
      obtain ⟨hnodup, hmembers⟩ := h
      refine ⟨?_, WellFormedMembers.convertMembers members hmembers⟩
      rw [convertMembers_keys]
      exact hnodup

theorem WellFormedItems.convertItems :
    ∀ items : List Json, WellFormedItems items → WellFormedItems (Json.convertItems floats items)
  | [], h => h
  | item :: items, h => ⟨WellFormed.convert item h.1, WellFormedItems.convertItems items h.2⟩

theorem WellFormedMembers.convertMembers :
    ∀ members : List (String × Json), WellFormedMembers members →
      WellFormedMembers (Json.convertMembers floats members)
  | [], h => h
  | (_, value) :: members, h => ⟨WellFormed.convert value h.1, WellFormedMembers.convertMembers members h.2⟩

end

mutual

theorem Reprs.convert_eq : ∀ value : Json, Reprs floats value → value.convert floats = value
  | .null, _ => rfl
  | .bool _, _ => rfl
  | .int _, _ => rfl
  | .str _, _ => rfl
  | .float literal, h => by
      rw [Reprs] at h
      rw [convert, h, Option.getD_some]
  | .arr items, h => by rw [convert, ReprsItems.convertItems_eq items h]
  | .obj members, h => by rw [convert, ReprsMembers.convertMembers_eq members h]

theorem ReprsItems.convertItems_eq :
    ∀ items : List Json, ReprsItems floats items → convertItems floats items = items
  | [], _ => rfl
  | item :: items, h => by rw [convertItems, Reprs.convert_eq item h.1, ReprsItems.convertItems_eq items h.2]

theorem ReprsMembers.convertMembers_eq :
    ∀ members : List (String × Json), ReprsMembers floats members → convertMembers floats members = members
  | [], _ => rfl
  | (key, value) :: members, h => by
      rw [convertMembers, Reprs.convert_eq value h.1, ReprsMembers.convertMembers_eq members h.2]

end

mutual

theorem Reprs.isFinite : ∀ value : Json, Reprs floats value → value.isFinite floats = true
  | .null, _ => rfl
  | .bool _, _ => rfl
  | .int _, _ => rfl
  | .str _, _ => rfl
  | .float literal, h => by
      rw [Reprs] at h
      rw [Json.isFinite, h, Option.isSome_some]
  | .arr items, h => ReprsItems.isFiniteItems items h
  | .obj members, h => ReprsMembers.isFiniteMembers members h

theorem ReprsItems.isFiniteItems :
    ∀ items : List Json, ReprsItems floats items → Json.isFiniteItems floats items = true
  | [], _ => rfl
  | item :: items, h => by
      rw [Json.isFiniteItems, Reprs.isFinite item h.1, ReprsItems.isFiniteItems items h.2, Bool.and_true]

theorem ReprsMembers.isFiniteMembers :
    ∀ members : List (String × Json), ReprsMembers floats members → Json.isFiniteMembers floats members = true
  | [], _ => rfl
  | (_, value) :: members, h => by
      rw [Json.isFiniteMembers, Reprs.isFinite value h.1, ReprsMembers.isFiniteMembers members h.2, Bool.and_true]

end

mutual

theorem Reprs.sortKeys : ∀ value : Json, Reprs floats value → Reprs floats value.sortKeys
  | .null, h => h
  | .bool _, h => h
  | .int _, h => h
  | .float _, h => h
  | .str _, h => h
  | .arr items, h => ReprsItems.sortItems items h
  | .obj members, h => by
      have hsorted := ReprsMembers.sortMembers members h
      rw [reprsMembers_iff] at hsorted
      rw [Json.sortKeys, Reprs, reprsMembers_iff]
      intro member hmember
      exact hsorted member (mem_sortedBy.mp hmember)

theorem ReprsItems.sortItems : ∀ items : List Json, ReprsItems floats items → ReprsItems floats (sortItems items)
  | [], h => h
  | item :: items, h => ⟨Reprs.sortKeys item h.1, ReprsItems.sortItems items h.2⟩

theorem ReprsMembers.sortMembers :
    ∀ members : List (String × Json), ReprsMembers floats members → ReprsMembers floats (sortMembers members)
  | [], h => h
  | (_, value) :: members, h => ⟨Reprs.sortKeys value h.1, ReprsMembers.sortMembers members h.2⟩

end

end Json

end TxnOpt
