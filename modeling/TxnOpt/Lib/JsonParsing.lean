import TxnOpt.Lib.JsonSorting
import Mathlib.Data.List.Induction

/-!
# What the parser returns

Every value that the parser returns is well formed: a repeated key keeps one member, and a number with a
fraction or an exponent keeps digits there.
-/

namespace TxnOpt

namespace Json

theorem takeWhile_isDigit (text : List Char) : ∀ c ∈ text.takeWhile Char.isDigit, c.isDigit = true := by
  intro c hc
  exact List.mem_takeWhile_imp hc

theorem parseFraction_digit (text : List Char) : ∀ c ∈ (parseFraction text).1, c.isDigit = true := by
  unfold parseFraction
  split
  · split
    · simp
    · exact takeWhile_isDigit _
  · simp

theorem parseExponent_digit {text : List Char} {negative : Bool} {digits : List Char}
    (h : (parseExponent text).1 = some (negative, digits)) :
    digits ≠ [] ∧ ∀ c ∈ digits, c.isDigit = true := by
  unfold parseExponent at h
  split at h
  · simp only at h
    split at h
    · exact absurd h (by simp)
    · rename_i hdigits
      obtain ⟨-, hsame⟩ := Prod.mk.inj (Option.some.inj h)
      rw [← hsame]
      exact ⟨hdigits, takeWhile_isDigit _⟩
  · exact absurd h (by simp)

theorem parseNumber_wellFormed {text rest : List Char} {value : Json}
    (h : parseNumber text = some (value, rest)) : value.WellFormed := by
  unfold parseNumber at h
  simp only [Option.map_eq_some_iff] at h
  obtain ⟨⟨whole, after⟩, -, hvalue⟩ := h
  simp only at hvalue
  split at hvalue
  · rw [← (Prod.mk.inj hvalue).1]
    trivial
  · rename_i hfloat
    rw [← (Prod.mk.inj hvalue).1]
    exact ⟨parseFraction_digit _, fun _ _ hexponent => parseExponent_digit hexponent, hfloat⟩

/-! ### Members -/

theorem dictOf_snoc (pairs : List (String × Json)) (pair : String × Json) :
    dictOf (pairs ++ [pair]) =
      if pair.1 ∈ (dictOf pairs).map Prod.fst then
        (dictOf pairs).map fun member => if member.1 = pair.1 then pair else member
      else dictOf pairs ++ [pair] := by
  rw [dictOf, List.foldl_append]
  rfl

theorem dictOf_keys_replaced (members : List (String × Json)) (pair : String × Json) :
    (members.map fun member => if member.1 = pair.1 then pair else member).map Prod.fst =
      members.map Prod.fst := by
  rw [List.map_map]
  apply List.map_congr_left
  intro member _
  by_cases hkey : member.1 = pair.1
  · simp [hkey]
  · simp [hkey]

theorem dictOf_nodup (pairs : List (String × Json)) : ((dictOf pairs).map Prod.fst).Nodup := by
  induction pairs using List.reverseRecOn with
  | nil => exact List.nodup_nil
  | append_singleton pairs pair ih =>
      rw [dictOf_snoc]
      by_cases hkey : pair.1 ∈ (dictOf pairs).map Prod.fst
      · rw [if_pos hkey, dictOf_keys_replaced]
        exact ih
      · rw [if_neg hkey, List.map_append, List.nodup_append]
        refine ⟨ih, List.nodup_singleton _, ?_⟩
        intro key hmem other hother
        rw [List.map_singleton, List.mem_singleton] at hother
        rw [hother]
        intro heq
        exact hkey (heq ▸ hmem)

theorem mem_of_mem_dictOf {pairs : List (String × Json)} {member : String × Json} (h : member ∈ dictOf pairs) :
    member ∈ pairs := by
  induction pairs using List.reverseRecOn with
  | nil => exact h
  | append_singleton pairs pair ih =>
      rw [dictOf_snoc] at h
      rw [List.mem_append, List.mem_singleton]
      by_cases hkey : pair.1 ∈ (dictOf pairs).map Prod.fst
      · rw [if_pos hkey, List.mem_map] at h
        obtain ⟨stored, hstored, hsame⟩ := h
        by_cases hstoredKey : stored.1 = pair.1
        · rw [if_pos hstoredKey] at hsame
          exact .inr hsame.symm
        · rw [if_neg hstoredKey] at hsame
          exact .inl (ih (hsame ▸ hstored))
      · rw [if_neg hkey, List.mem_append, List.mem_singleton] at h
        exact h.imp_left ih

/-! ### Values -/

/-- What the three parsers return is well formed. -/
structure Returns (fuel : ℕ) : Prop where
  value : ∀ {text rest : List Char} {value : Json}, parseValue fuel text = some (value, rest) → value.WellFormed
  items : ∀ {text rest : List Char} {items : List Json}, parseItems fuel text = some (items, rest) →
    ∀ item ∈ items, item.WellFormed
  members : ∀ {text rest : List Char} {members : List (String × Json)},
    parseMembers fuel text = some (members, rest) → ∀ member ∈ members, member.2.WellFormed

theorem Returns.parseValue {fuel : ℕ} (ih : Returns fuel) {text rest : List Char} {value : Json}
    (h : parseValue (fuel + 1) text = some (value, rest)) : value.WellFormed := by
  unfold Json.parseValue at h
  split at h
  · cases h
  · rw [← (Prod.mk.inj (Option.some.inj h)).1]
    trivial
  · rw [← (Prod.mk.inj (Option.some.inj h)).1]
    trivial
  · rw [← (Prod.mk.inj (Option.some.inj h)).1]
    trivial
  · obtain ⟨read, -, hread⟩ := Option.map_eq_some_iff.mp h
    rw [← (Prod.mk.inj hread).1]
    trivial
  · rename_i hfuel
    cases hfuel
    split at h
    · rw [← (Prod.mk.inj (Option.some.inj h)).1]
      trivial
    · obtain ⟨read, hitems, hread⟩ := Option.map_eq_some_iff.mp h
      rw [← (Prod.mk.inj hread).1, WellFormed, wellFormedItems_iff]
      exact ih.items hitems
  · rename_i hfuel
    cases hfuel
    split at h
    · rw [← (Prod.mk.inj (Option.some.inj h)).1]
      exact ⟨List.nodup_nil, trivial⟩
    · obtain ⟨read, hmembers, hread⟩ := Option.map_eq_some_iff.mp h
      rw [← (Prod.mk.inj hread).1, WellFormed, wellFormedMembers_iff]
      refine ⟨dictOf_nodup _, ?_⟩
      intro member hmember
      exact ih.members hmembers member (mem_of_mem_dictOf hmember)
  · exact parseNumber_wellFormed h

theorem Returns.parseItems {fuel : ℕ} (ih : Returns fuel) {text rest : List Char} {items : List Json}
    (h : parseItems (fuel + 1) text = some (items, rest)) : ∀ item ∈ items, item.WellFormed := by
  unfold Json.parseItems at h
  obtain ⟨⟨first, after⟩, hfirst, hrest⟩ := Option.bind_eq_some_iff.mp h
  simp only at hrest
  split at hrest
  · rw [← (Prod.mk.inj (Option.some.inj hrest)).1]
    intro item hitem
    rw [List.mem_singleton.mp hitem]
    exact ih.value hfirst
  · obtain ⟨read, hitems, hread⟩ := Option.map_eq_some_iff.mp hrest
    rw [← (Prod.mk.inj hread).1, List.forall_mem_cons]
    exact ⟨ih.value hfirst, ih.items hitems⟩
  · cases hrest

theorem Returns.parseMembers {fuel : ℕ} (ih : Returns fuel) {text rest : List Char}
    {members : List (String × Json)} (h : parseMembers (fuel + 1) text = some (members, rest)) :
    ∀ member ∈ members, member.2.WellFormed := by
  unfold Json.parseMembers at h
  split at h
  · rename_i hfuel
    cases hfuel
    obtain ⟨⟨key, after⟩, -, hkey⟩ := Option.bind_eq_some_iff.mp h
    simp only at hkey
    split at hkey
    · obtain ⟨⟨value, final⟩, hvalue, hrest⟩ := Option.bind_eq_some_iff.mp hkey
      simp only at hrest
      split at hrest
      · rw [← (Prod.mk.inj (Option.some.inj hrest)).1]
        intro member hmember
        rw [List.mem_singleton.mp hmember]
        exact ih.value hvalue
      · obtain ⟨read, hmembers, hread⟩ := Option.map_eq_some_iff.mp hrest
        rw [← (Prod.mk.inj hread).1, List.forall_mem_cons]
        exact ⟨ih.value hvalue, ih.members hmembers⟩
      · cases hrest
    · cases hkey
  · cases h

theorem returns (fuel : ℕ) : Returns fuel := by
  induction fuel with
  | zero => exact ⟨fun h => by simp [Json.parseValue] at h, fun h => by simp [Json.parseItems] at h,
      fun h => by simp [Json.parseMembers] at h⟩
  | succ fuel ih => exact ⟨ih.parseValue, ih.parseItems, ih.parseMembers⟩

theorem loads_wellFormed {text : List Char} {value : Json} (h : loads text = some value) : value.WellFormed := by
  obtain ⟨⟨read, rest⟩, hread, hend⟩ := Option.bind_eq_some_iff.mp h
  simp only at hend
  split at hend
  · rw [← Option.some.inj hend]
    exact (returns _).value hread
  · cases hend

end Json

end TxnOpt
