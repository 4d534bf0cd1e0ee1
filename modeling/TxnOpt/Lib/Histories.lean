import Mathlib.Data.List.Basic

/-!
# Histories

A history grows at its end, by items that may follow what stands before them. A reader that goes through it
from the front keeps what stands before as an accumulator.
-/

namespace TxnOpt

variable {α : Type} {Follows : List α → α → Prop}

/-- A history that grew from nothing. -/
inductive Grown (Follows : List α → α → Prop) : List α → Prop
  | nil : Grown Follows []
  | snoc {history : List α} {item : α} : Grown Follows history → Follows history item →
      Grown Follows (history ++ [item])

/-- The items may follow one after the other, from `before` on. -/
def Continues (Follows : List α → α → Prop) : List α → List α → Prop
  | _, [] => True
  | before, item :: items => Follows before item ∧ Continues Follows (before ++ [item]) items

theorem Grown.last {history : List α} {item : α} (h : Grown Follows (history ++ [item])) :
    Grown Follows history ∧ Follows history item := by
  generalize hwhole : history ++ [item] = whole at h
  cases h with
  | nil => exact absurd hwhole (by simp)
  | @snoc before last hbefore hfollows =>
      obtain ⟨hhistory, hitem⟩ := List.append_inj' hwhole rfl
      rw [hhistory, List.head_eq_of_cons_eq hitem]
      exact ⟨hbefore, hfollows⟩

theorem grown_append_iff {before items : List α} :
    Grown Follows (before ++ items) ↔ Grown Follows before ∧ Continues Follows before items := by
  induction items generalizing before with
  | nil => simp [Continues]
  | cons item items ih =>
      rw [List.append_cons, ih, Continues]
      constructor
      · intro h
        obtain ⟨hgrown, hitems⟩ := h
        exact ⟨hgrown.last.1, hgrown.last.2, hitems⟩
      · intro h
        exact ⟨.snoc h.1 h.2.1, h.2.2⟩

theorem grown_iff {items : List α} : Grown Follows items ↔ Continues Follows [] items := by
  have h := @grown_append_iff α Follows [] items
  rw [List.nil_append] at h
  rw [h]
  exact and_iff_right .nil

end TxnOpt
