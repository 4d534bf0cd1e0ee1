import Mathlib.Data.List.Basic
import Mathlib.Data.List.Induction

/-!
# Texts joined with a separator

The join of some parts gives them back when their lengths are known, or when no part holds the separator.
-/

namespace TxnOpt

variable {α : Type} {first second : List (List α)}

/-- Parts with the same lengths and the same join are the same. -/
theorem intercalate_inj_of_lengths {separator : List α} (hlengths : first.map List.length = second.map List.length)
    (h : separator.intercalate first = separator.intercalate second) : first = second := by
  induction first generalizing second with
  | nil =>
      rw [List.map_nil, eq_comm, List.map_eq_nil_iff] at hlengths
      exact hlengths.symm
  | cons part parts ih =>
      cases second with
      | nil => cases hlengths
      | cons other others =>
          rw [List.map_cons, List.map_cons, List.cons.injEq] at hlengths
          obtain ⟨hpart, hparts⟩ := hlengths
          cases parts with
          | nil =>
              rw [List.map_nil, eq_comm, List.map_eq_nil_iff] at hparts
              rw [hparts] at h ⊢
              rw [List.intercalate_singleton, List.intercalate_singleton] at h
              rw [h]
          | cons next parts =>
              cases others with
              | nil => cases hparts
              | cons another others =>
                  rw [List.intercalate_cons_cons, List.intercalate_cons_cons, List.append_assoc,
                    List.append_assoc] at h
                  obtain ⟨hhead, htail⟩ := List.append_inj h hpart
                  rw [hhead, ih hparts (List.append_cancel_left htail)]

/-- Parts without the separator that have the same join are the same. -/
theorem intercalate_inj_of_not_mem [DecidableEq α] {separator : α} (hfirst : ∀ part ∈ first, separator ∉ part)
    (hsecond : ∀ part ∈ second, separator ∉ part) (hfirstNe : first ≠ []) (hsecondNe : second ≠ [])
    (h : [separator].intercalate first = [separator].intercalate second) : first = second := by
  calc
    first = ([separator].intercalate first).splitOn separator := (List.splitOn_intercalate _ hfirst hfirstNe).symm
    _ = ([separator].intercalate second).splitOn separator := by rw [h]
    _ = second := List.splitOn_intercalate _ hsecond hsecondNe

/-- A text without the separator is no longer than another one after the last separator. -/
theorem eq_nil_of_cons_eq_append {separator : α} {part other middle : List α} (hpart : separator ∉ part)
    (h : separator :: part = middle ++ separator :: other) : middle = [] := by
  cases middle with
  | nil => rfl
  | cons first middle =>
      rw [List.cons_append, List.cons.injEq] at h
      rw [h.2] at hpart
      exact absurd (List.mem_append_right middle List.mem_cons_self) hpart

/-- The last separator splits a text in one way. -/
theorem append_cons_inj_of_not_mem {separator : α} {front otherFront part other : List α} (hpart : separator ∉ part)
    (hother : separator ∉ other) (h : front ++ separator :: part = otherFront ++ separator :: other) :
    front = otherFront ∧ part = other := by
  rcases List.append_eq_append_iff.mp h with ⟨middle, hfront, hmiddle⟩ | ⟨middle, hfront, hmiddle⟩
  · rw [eq_nil_of_cons_eq_append hpart hmiddle] at hfront hmiddle
    rw [hfront, List.append_nil]
    exact ⟨rfl, (List.cons.inj hmiddle).2⟩
  · rw [eq_nil_of_cons_eq_append hother hmiddle] at hfront hmiddle
    rw [hfront, List.append_nil]
    exact ⟨rfl, (List.cons.inj hmiddle).2.symm⟩

/-- As many parts without the separator at the ends of two texts are the same when the texts are. -/
theorem append_flatMap_inj {separator : α} {front otherFront : List α} (hlength : first.length = second.length)
    (hfirst : ∀ part ∈ first, separator ∉ part) (hsecond : ∀ part ∈ second, separator ∉ part)
    (h : front ++ first.flatMap (separator :: ·) = otherFront ++ second.flatMap (separator :: ·)) :
    front = otherFront ∧ first = second := by
  induction first using List.reverseRecOn generalizing second with
  | nil =>
      rw [List.length_nil, eq_comm, List.length_eq_zero_iff] at hlength
      rw [hlength, List.flatMap_nil, List.append_nil, List.append_nil] at h
      exact ⟨h, hlength.symm⟩
  | append_singleton first part ih =>
      induction second using List.reverseRecOn with
      | nil => simp at hlength
      | append_singleton second other _ =>
          simp only [List.length_append, List.length_singleton, Nat.add_right_cancel_iff] at hlength
          simp only [List.flatMap_append, List.flatMap_singleton, ← List.append_assoc] at h
          obtain ⟨hfronts, hparts⟩ := append_cons_inj_of_not_mem (hfirst part (by simp)) (hsecond other (by simp)) h
          obtain ⟨hfront, hrest⟩ := ih hlength (fun piece hpiece => hfirst piece (List.mem_append_left _ hpiece))
            (fun piece hpiece => hsecond piece (List.mem_append_left _ hpiece)) hfronts
          rw [hrest, hparts]
          exact ⟨hfront, rfl⟩

end TxnOpt
