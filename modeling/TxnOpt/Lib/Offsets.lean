import Mathlib.Data.List.Basic
import Mathlib.Data.Nat.Notation

/-!
# Rows in one array

A list of rows stored as one flat list with the offsets of the rows: `offsets` starts at zero and has one
more entry than there are rows, and row `i` lies between its entries `i` and `i + 1`.
-/

namespace TxnOpt

variable {α : Type}

/-- The offset after each row, when the first one starts at `base`. -/
def rowEnds (base : ℕ) : List (List α) → List ℕ
  | [] => []
  | row :: rest => (base + row.length) :: rowEnds (base + row.length) rest

def rowOffsets (rows : List (List α)) : List ℕ :=
  0 :: rowEnds 0 rows

@[simp]
theorem rowEnds_length (rows : List (List α)) (base : ℕ) : (rowEnds base rows).length = rows.length := by
  induction rows generalizing base with
  | nil => rfl
  | cons row rest ih => simp [rowEnds, ih]

@[simp]
theorem rowOffsets_length (rows : List (List α)) : (rowOffsets rows).length = rows.length + 1 := by
  simp [rowOffsets]

/-- A later start moves all offsets by as much. -/
theorem rowEnds_add (rows : List (List α)) (base shift : ℕ) :
    rowEnds (shift + base) rows = (rowEnds base rows).map (fun offset => shift + offset) := by
  induction rows generalizing base with
  | nil => rfl
  | cons row rest ih => simp [rowEnds, Nat.add_assoc, ih]

theorem rowEnds_append (first second : List (List α)) (base : ℕ) :
    rowEnds base (first ++ second) =
      rowEnds base first ++ rowEnds (base + first.flatten.length) second := by
  induction first generalizing base with
  | nil => simp [rowEnds]
  | cons row rest ih => simp [rowEnds, ih, Nat.add_assoc]

/-- The offsets of a second block of rows, rebased on the end of the first. -/
theorem rowOffsets_append (first second : List (List α)) :
    rowOffsets (first ++ second) =
      rowOffsets first ++ (rowEnds 0 second).map (fun offset => first.flatten.length + offset) := by
  rw [rowOffsets, rowEnds_append, rowOffsets, ← rowEnds_add, Nat.zero_add, Nat.add_zero]
  rfl

theorem rowEnds_getElem? (rows : List (List α)) (base row : ℕ) (h : row < rows.length) :
    (rowEnds base rows)[row]? = some (base + (rows.take (row + 1)).flatten.length) := by
  induction rows generalizing base row with
  | nil => simp at h
  | cons first rest ih =>
      cases row with
      | zero => simp [rowEnds]
      | succ row =>
          rw [rowEnds, List.getElem?_cons_succ, ih _ _ (by simpa using h)]
          simp [Nat.add_assoc]

/-- An offset is the number of entries in the rows before it. -/
theorem rowOffsets_getElem? (rows : List (List α)) (row : ℕ) (h : row ≤ rows.length) :
    (rowOffsets rows)[row]? = some (rows.take row).flatten.length := by
  cases row with
  | zero => simp [rowOffsets]
  | succ row =>
      rw [rowOffsets, List.getElem?_cons_succ, rowEnds_getElem? rows 0 row (by omega), Nat.zero_add]

theorem rowOffsets_getLast? (rows : List (List α)) :
    (rowOffsets rows).getLast? = some rows.flatten.length := by
  rw [List.getLast?_eq_getElem?, rowOffsets_length, Nat.add_sub_cancel,
    rowOffsets_getElem? rows _ (Nat.le_refl _), List.take_length]

theorem take_succ_flatten (rows : List (List α)) {row : ℕ} (h : row < rows.length) :
    (rows.take (row + 1)).flatten = (rows.take row).flatten ++ rows[row] := by
  rw [List.take_succ_eq_append_getElem h, List.flatten_append]
  simp

/-- The offsets cut each row out of the flat list. -/
theorem slice_row (rows : List (List α)) {row : ℕ} (h : row < rows.length) :
    (rows.flatten.drop (rows.take row).flatten.length).take
      ((rows.take (row + 1)).flatten.length - (rows.take row).flatten.length) = rows[row] := by
  have hsplit : rows.flatten =
      (rows.take row).flatten ++ (rows[row] ++ (rows.drop (row + 1)).flatten) := by
    rw [← List.append_assoc, ← take_succ_flatten rows h, ← List.flatten_append, List.take_append_drop]
  have hlength : (rows.take (row + 1)).flatten.length - (rows.take row).flatten.length =
      rows[row].length := by
    rw [take_succ_flatten rows h, List.length_append]
    omega
  rw [hlength, hsplit, List.drop_left, List.take_left]

end TxnOpt
