import Mathlib.Data.List.Flatten
import Mathlib.Data.List.Nodup
import Mathlib.Tactic.Common

/-!
# Lists of rows

Replacing a row, dropping rows by their index, and entries by row and position.
-/

namespace TxnOpt

variable {α : Type}

/-- Replacing a row exchanges its entries. -/
theorem count_flatten_set [DecidableEq α] {rows : List (List α)} {index : ℕ} {row : List α}
    (h : rows[index]? = some row) (other : List α) (entry : α) :
    (rows.set index other).flatten.count entry + row.count entry =
      rows.flatten.count entry + other.count entry := by
  induction rows generalizing index with
  | nil => simp at h
  | cons first rows ih =>
      cases index with
      | zero =>
          rw [List.getElem?_cons_zero, Option.some.injEq] at h
          rw [List.set_cons_zero, List.flatten_cons, List.flatten_cons, List.count_append, List.count_append, h]
          omega
      | succ index =>
          rw [List.getElem?_cons_succ] at h
          have hrest := ih h
          rw [List.set_cons_succ, List.flatten_cons, List.flatten_cons, List.count_append, List.count_append]
          omega

/-- Keeping every index keeps every row. -/
theorem kept_eq_self {rows : List α} {start : ℕ} {keep : α × ℕ → Bool}
    (h : ∀ row index, start ≤ index → index < start + rows.length → keep (row, index) = true) :
    ((rows.zipIdx start).filter keep).map Prod.fst = rows := by
  have hkept : (rows.zipIdx start).filter keep = rows.zipIdx start := by
    rw [List.filter_eq_self]
    intro entry hentry
    obtain ⟨hlower, hupper, -⟩ := List.mem_zipIdx hentry
    exact h entry.1 entry.2 hlower hupper
  rw [hkept, List.zipIdx_map_fst]

/-- The entry of a row at a position. -/
def entry (rows : List (List α)) (index position : ℕ) : Option α := rows[index]?.bind fun row => row[position]?

theorem entry_eq_some_iff {rows : List (List α)} {index position : ℕ} {item : α} :
    entry rows index position = some item ↔ ∃ row, rows[index]? = some row ∧ row[position]? = some item := by
  unfold entry
  rw [Option.bind_eq_some_iff]

theorem mem_flatten_iff_entry {rows : List (List α)} {item : α} :
    item ∈ rows.flatten ↔ ∃ index position, entry rows index position = some item := by
  rw [List.mem_flatten]
  simp only [entry_eq_some_iff, List.mem_iff_getElem?]
  constructor
  · intro h
    obtain ⟨row, ⟨index, hrow⟩, position, hitem⟩ := h
    exact ⟨index, position, row, hrow, hitem⟩
  · intro h
    obtain ⟨index, position, row, hrow, hitem⟩ := h
    exact ⟨row, ⟨index, hrow⟩, position, hitem⟩

/-- Rows of the same lengths with the same entries. -/
theorem rows_ext {rows others : List (List α)} (hlengths : rows.map List.length = others.map List.length)
    (hentries : ∀ index position, entry rows index position = entry others index position) : rows = others := by
  apply List.ext_getElem?
  intro index
  have hlength := congrArg (fun lengths => lengths[index]?) hlengths
  simp only [List.getElem?_map] at hlength
  cases hrow : rows[index]? with
  | none =>
      rw [hrow, Option.map_none] at hlength
      exact (Option.map_eq_none_iff.mp hlength.symm).symm
  | some row =>
      rw [hrow, Option.map_some] at hlength
      obtain ⟨other, hother, -⟩ := Option.map_eq_some_iff.mp hlength.symm
      rw [hother]
      congr 1
      apply List.ext_getElem?
      intro position
      have hentry := hentries index position
      unfold entry at hentry
      rwa [hrow, hother] at hentry

/-- An item is in one place. -/
theorem entry_unique {rows : List (List α)} (hnodup : rows.flatten.Nodup)
    {first second firstPosition secondPosition : ℕ} {item : α}
    (hfirst : entry rows first firstPosition = some item) (hsecond : entry rows second secondPosition = some item) :
    first = second ∧ firstPosition = secondPosition := by
  obtain ⟨hrows, hdisjoint⟩ := List.nodup_flatten.mp hnodup
  obtain ⟨firstRow, hfirstRow, hfirstItem⟩ := entry_eq_some_iff.mp hfirst
  obtain ⟨secondRow, hsecondRow, hsecondItem⟩ := entry_eq_some_iff.mp hsecond
  have hindex : first = second := by
    by_contra hne
    obtain ⟨hfirstLt, hfirstGet⟩ := List.getElem?_eq_some_iff.mp hfirstRow
    obtain ⟨hsecondLt, hsecondGet⟩ := List.getElem?_eq_some_iff.mp hsecondRow
    have hfirstMem := List.mem_of_getElem? hfirstItem
    have hsecondMem := List.mem_of_getElem? hsecondItem
    rw [← hfirstGet] at hfirstMem
    rw [← hsecondGet] at hsecondMem
    obtain hlt | hgt := Nat.lt_or_gt_of_ne hne
    · exact List.pairwise_iff_getElem.mp hdisjoint _ _ hfirstLt hsecondLt hlt hfirstMem hsecondMem
    · exact List.pairwise_iff_getElem.mp hdisjoint _ _ hsecondLt hfirstLt hgt hsecondMem hfirstMem
  refine ⟨hindex, ?_⟩
  rw [← hindex, hfirstRow, Option.some.injEq] at hsecondRow
  rw [← hsecondRow] at hsecondItem
  obtain ⟨hlt, -⟩ := List.getElem?_eq_some_iff.mp hfirstItem
  exact (List.getElem?_inj hlt (hrows firstRow (List.mem_of_getElem? hfirstRow))).mp
    (hfirstItem.trans hsecondItem.symm)

/-- Replacing one entry. -/
theorem entry_modify_set (rows : List (List α)) (index position : ℕ) (item : α) (other place : ℕ) :
    entry (rows.modify index fun row => row.set position item) other place =
      if index = other ∧ position = place then (entry rows other place).map fun _ => item
      else entry rows other place := by
  unfold entry
  rw [List.getElem?_modify]
  cases rows[other]? with
  | none => simp
  | some row =>
      by_cases hindex : index = other
      · by_cases hposition : position = place
        · simp [hindex, hposition, List.getElem?_set_self', Function.const_def]
        · simp [hindex, hposition, List.getElem?_set_ne hposition]
      · simp [hindex]

theorem map_length_modify_set (rows : List (List α)) (index position : ℕ) (item : α) :
    (rows.modify index fun row => row.set position item).map List.length = rows.map List.length := by
  apply List.ext_getElem?
  intro other
  rw [List.getElem?_map, List.getElem?_map, List.getElem?_modify]
  cases rows[other]? with
  | none => rfl
  | some row =>
      by_cases hindex : index = other
      · simp [hindex]
      · simp [hindex]

theorem entry_map (rows : List (List α)) (f : α → α) (index position : ℕ) :
    entry (rows.map (List.map f)) index position = (entry rows index position).map f := by
  unfold entry
  rw [List.getElem?_map]
  cases rows[index]? with
  | none => rfl
  | some row => simp

end TxnOpt
