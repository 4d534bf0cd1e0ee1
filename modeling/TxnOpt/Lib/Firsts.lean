import Mathlib.Data.Finset.Card

/-!
# First occurrences

The elements of a list whose key has not occurred before.
-/

namespace TxnOpt

variable {α κ : Type} [DecidableEq κ] (key : α → κ)

/-- The first element with each key, keys in `seen` excepted. -/
def firsts (seen : List κ) : List α → List α
  | [] => []
  | item :: rest =>
      if key item ∈ seen then firsts seen rest else item :: firsts (seen ++ [key item]) rest

theorem firsts_append (seen : List κ) (first second : List α) :
    firsts key seen (first ++ second) =
      firsts key seen first ++ firsts key (seen ++ (firsts key seen first).map key) second := by
  induction first generalizing seen with
  | nil => simp [firsts]
  | cons item rest ih =>
      by_cases h : key item ∈ seen
      · simp only [List.cons_append, firsts, if_pos h, ih]
      · simp only [List.cons_append, firsts, if_neg h, ih, List.map_cons, List.append_assoc,
          List.nil_append]

theorem firsts_not_mem (seen : List κ) (items : List α) :
    ∀ item ∈ firsts key seen items, key item ∉ seen := by
  induction items generalizing seen with
  | nil => simp [firsts]
  | cons item rest ih =>
      intro other hmem
      by_cases h : key item ∈ seen
      · rw [firsts, if_pos h] at hmem
        exact ih seen other hmem
      · rw [firsts, if_neg h] at hmem
        rcases List.mem_cons.mp hmem with hsame | hrest
        · rw [hsame]
          exact h
        · intro hseen
          exact ih _ other hrest (List.mem_append_left _ hseen)

/-- Every key occurs once. -/
theorem firsts_nodup (seen : List κ) (items : List α) : ((firsts key seen items).map key).Nodup := by
  induction items generalizing seen with
  | nil => simp [firsts]
  | cons item rest ih =>
      by_cases h : key item ∈ seen
      · rw [firsts, if_pos h]
        exact ih seen
      · rw [firsts, if_neg h, List.map_cons, List.nodup_cons]
        refine ⟨?_, ih _⟩
        intro hmem
        obtain ⟨other, hother, hkey⟩ := List.mem_map.mp hmem
        apply firsts_not_mem key _ rest other hother
        rw [hkey]
        simp

theorem mem_map_firsts (seen : List κ) (items : List α) (k : κ) :
    k ∈ (firsts key seen items).map key ↔ k ∈ items.map key ∧ k ∉ seen := by
  induction items generalizing seen with
  | nil => simp [firsts]
  | cons item rest ih =>
      by_cases h : key item ∈ seen
      · rw [firsts, if_pos h, ih, List.map_cons, List.mem_cons]
        constructor
        · intro hrest
          exact ⟨.inr hrest.1, hrest.2⟩
        · intro hmem
          refine ⟨hmem.1.resolve_left ?_, hmem.2⟩
          intro hitem
          exact hmem.2 (by rw [hitem]; exact h)
      · rw [firsts, if_neg h, List.map_cons, List.mem_cons, ih, List.map_cons, List.mem_cons,
          List.mem_append, List.mem_singleton]
        by_cases hitem : k = key item
        · simp [hitem, h]
        · simp [hitem]

/-- As many first occurrences as keys. -/
theorem firsts_length (items : List α) :
    (firsts key [] items).length = (items.map key).toFinset.card := by
  have hsame : (items.map key).toFinset = ((firsts key [] items).map key).toFinset := by
    ext k
    rw [List.mem_toFinset, List.mem_toFinset, mem_map_firsts]
    simp
  rw [hsame, List.toFinset_card_of_nodup (firsts_nodup key [] items), List.length_map]

theorem firsts_ne_nil {items : List α} (h : items ≠ []) : firsts key [] items ≠ [] := by
  cases items with
  | nil => exact absurd rfl h
  | cons item rest => simp [firsts]

end TxnOpt
