import Mathlib.Data.List.Basic
import Mathlib.Tactic.TypeStar

/-!
# Loops that can fail

A loop whose rounds all succeed succeeds, and its results are those of the rounds.
-/

namespace TxnOpt

variable {α β ε : Type} {f : α → Except ε β} {items : List α}

theorem mapM_eq_ok {g : α → β} (h : ∀ item ∈ items, f item = .ok (g item)) :
    items.mapM f = .ok (items.map g) := by
  induction items with
  | nil => rfl
  | cons item items ih =>
      rw [List.forall_mem_cons] at h
      rw [List.mapM_cons, h.1, ih h.2]
      rfl

theorem exists_mapM_eq_ok (h : ∀ item ∈ items, ∃ result, f item = .ok result) :
    ∃ results, items.mapM f = .ok results ∧
      ∀ result, result ∈ results ↔ ∃ item ∈ items, f item = .ok result := by
  induction items with
  | nil => exact ⟨[], rfl, by simp⟩
  | cons item items ih =>
      rw [List.forall_mem_cons] at h
      obtain ⟨⟨first, hfirst⟩, hrest⟩ := h
      obtain ⟨results, hresults, hmem⟩ := ih hrest
      refine ⟨first :: results, ?_, ?_⟩
      · rw [List.mapM_cons, hfirst, hresults]
        rfl
      · intro result
        simp only [List.mem_cons, hmem, exists_eq_or_imp, hfirst, Except.ok.injEq]
        exact or_congr_left eq_comm

theorem mapM_congr {g : α → Except ε β} (h : ∀ item ∈ items, f item = g item) : items.mapM f = items.mapM g := by
  induction items with
  | nil => rfl
  | cons item items ih =>
      rw [List.mapM_cons, List.mapM_cons, h item List.mem_cons_self,
        ih (fun other hother => h other (List.mem_cons_of_mem item hother))]

theorem exists_of_isOk {result : Except ε α} (h : result.isOk = true) : ∃ value, result = .ok value := by
  cases result with
  | error error => cases h
  | ok value => exact ⟨value, rfl⟩

theorem ok_bind {value : α} {next : α → Except ε β} : (Except.ok value >>= next) = next value := rfl

/-- What is bound has succeeded. -/
theorem exists_of_bind_eq_ok {first : Except ε α} {next : α → Except ε β} {result : β}
    (h : first >>= next = .ok result) : ∃ value, first = .ok value ∧ next value = .ok result := by
  cases first with
  | error error => cases h
  | ok value => exact ⟨value, rfl, h⟩

theorem forall₂_of_mapM_eq_ok {results : List β} (h : items.mapM f = .ok results) :
    List.Forall₂ (fun item result => f item = .ok result) items results := by
  induction items generalizing results with
  | nil =>
      rw [← Except.ok.inj h]
      exact .nil
  | cons item items ih =>
      rw [List.mapM_cons] at h
      cases hfirst : f item with
      | error error =>
          rw [hfirst] at h
          cases h
      | ok first =>
          cases hrest : items.mapM f with
          | error error =>
              rw [hfirst, hrest] at h
              cases h
          | ok rest =>
              rw [hfirst, hrest] at h
              rw [← Except.ok.inj h]
              exact .cons hfirst (ih hrest)

theorem mapM_eq_ok_iff {results : List β} :
    items.mapM f = .ok results ↔ List.Forall₂ (fun item result => f item = .ok result) items results := by
  constructor
  · exact forall₂_of_mapM_eq_ok
  · intro h
    induction h with
    | nil => rfl
    | cons hitem _ ih =>
        rw [List.mapM_cons, hitem, ih]
        rfl

/-- Items that are told from their results are told from all of them. -/
theorem map_eq_of_mapM_eq_some {find : α → Option β} {g : β → α}
    (h : ∀ item result, find item = some result → g result = item) {results : List β} (hresults : items.mapM find = some results) : results.map g = items := by
  induction items generalizing results with
  | nil =>
      rw [← Option.some.inj hresults]
      rfl
  | cons item items ih =>
      rw [List.mapM_cons] at hresults
      obtain ⟨first, hfirst, hresults⟩ := Option.bind_eq_some_iff.mp hresults
      obtain ⟨rest, hrest, hresults⟩ := Option.bind_eq_some_iff.mp hresults
      rw [← Option.some.inj hresults, List.map_cons, h item first hfirst, ih hrest]

/-- Two loops whose rounds agree up to a projection of their states agree up to it. -/
theorem foldlM_map_congr {γ : Type} {project : β → γ} {f g : β → α → Except ε β}
    (hround : ∀ first second item, project first = project second →
      (f first item).map project = (g second item).map project)
    {first second : β} (h : project first = project second) :
    (items.foldlM f first).map project = (items.foldlM g second).map project := by
  induction items generalizing first second with
  | nil => exact congrArg Except.ok h
  | cons item items ih =>
      have hitem := hround first second item h
      rw [List.foldlM_cons, List.foldlM_cons]
      cases hfirst : f first item with
      | error error =>
          rw [hfirst] at hitem
          cases hsecond : g second item with
          | error other =>
              rw [hsecond] at hitem
              exact hitem
          | ok next =>
              rw [hsecond] at hitem
              cases hitem
      | ok next =>
          rw [hfirst] at hitem
          cases hsecond : g second item with
          | error other =>
              rw [hsecond] at hitem
              cases hitem
          | ok other =>
              rw [hsecond] at hitem
              exact ih (Except.ok.inj hitem)

end TxnOpt
