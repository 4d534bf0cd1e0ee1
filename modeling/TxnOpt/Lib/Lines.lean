import Mathlib.Data.List.Basic
import Mathlib.Data.Nat.Notation

/-!
# Lines and words

`str.splitlines`, `str.split` and `str.strip`, and the digits that `int` reads. Lines that are each ended by a line feed are the lines of their
concatenation, and a text is its only word when it has no white space.
-/

namespace TxnOpt

/-- `character.isspace()`. -/
def isWhitespace (c : Char) : Bool :=
  (9 ≤ c.toNat && c.toNat ≤ 13) || (28 ≤ c.toNat && c.toNat ≤ 32) || c.toNat = 0x85 || c.toNat = 0xa0 ||
    c.toNat = 0x1680 || (0x2000 ≤ c.toNat && c.toNat ≤ 0x200a) || c.toNat = 0x2028 || c.toNat = 0x2029 ||
    c.toNat = 0x202f || c.toNat = 0x205f || c.toNat = 0x3000

/-- The characters that end a line. -/
def isLineBoundary (c : Char) : Bool :=
  (10 ≤ c.toNat && c.toNat ≤ 13) || (28 ≤ c.toNat && c.toNat ≤ 30) || c.toNat = 0x85 || c.toNat = 0x2028 ||
    c.toNat = 0x2029

/-- A carriage return, with the line feed after it, as one line feed. -/
def universalNewlines : List Char → List Char
  | [] => []
  | '\r' :: '\n' :: rest => '\n' :: universalNewlines rest
  | c :: rest => (if c = '\r' then '\n' else c) :: universalNewlines rest

/-- `text.splitlines()`. -/
def splitlines (text : List Char) : List (List Char) :=
  let lines := (universalNewlines text).splitOnP isLineBoundary
  if lines.getLast? = some [] then lines.dropLast else lines

/-- `text.split()`. -/
def words (text : List Char) : List (List Char) := (text.splitOnP isWhitespace).filter fun word => word ≠ []

/-- `text.strip()`. -/
def strip (text : List Char) : List Char :=
  ((text.dropWhile isWhitespace).reverse.dropWhile isWhitespace).reverse

/-- The zeros of the decimal digits of Unicode 15. -/
def decimalZeros : List ℕ :=
  [0x30, 0x660, 0x6f0, 0x7c0, 0x966, 0x9e6, 0xa66, 0xae6, 0xb66, 0xbe6, 0xc66, 0xce6, 0xd66, 0xde6, 0xe50,
    0xed0, 0xf20, 0x1040, 0x1090, 0x17e0, 0x1810, 0x1946, 0x19d0, 0x1a80, 0x1a90, 0x1b50, 0x1bb0, 0x1c40,
    0x1c50, 0xa620, 0xa8d0, 0xa900, 0xa9d0, 0xa9f0, 0xaa50, 0xabf0, 0xff10, 0x104a0, 0x10d30, 0x11066,
    0x110f0, 0x11136, 0x111d0, 0x112f0, 0x11450, 0x114d0, 0x11650, 0x116c0, 0x11730, 0x118e0, 0x11950,
    0x11c50, 0x11d50, 0x11da0, 0x11f50, 0x16a60, 0x16ac0, 0x16b50, 0x1d7ce, 0x1d7d8, 0x1d7e2, 0x1d7ec,
    0x1d7f6, 0x1e140, 0x1e2f0, 0x1e4f0, 0x1e950, 0x1fbf0]

/-- The value of a decimal digit. -/
def decimalValue (c : Char) : Option ℕ :=
  (decimalZeros.find? fun start => start ≤ c.toNat ∧ c.toNat < start + 10).map fun start => c.toNat - start

/-- `int(word)` of a nonempty word of decimal digits. -/
def decimalNumber (word : List Char) : Option ℕ :=
  (word.mapM decimalValue).map fun digits => digits.foldl (fun value digit => value * 10 + digit) 0

theorem universalNewlines_eq {text : List Char} (h : '\r' ∉ text) : universalNewlines text = text := by
  induction text with
  | nil => rfl
  | cons c text ih =>
      rw [List.mem_cons, not_or] at h
      rw [universalNewlines, if_neg (Ne.symm h.1), ih h.2]
      intro rest hreturn
      exact absurd hreturn.symm h.1

/-! ### Lines -/

theorem splitOnP_lines {lines : List (List Char)} (h : ∀ line ∈ lines, ∀ c ∈ line, isLineBoundary c = false) :
    (lines.flatMap fun line => line ++ ['\n']).splitOnP isLineBoundary = lines ++ [[]] := by
  induction lines with
  | nil => rfl
  | cons line lines ih =>
      rw [List.flatMap_cons, List.append_assoc, List.singleton_append,
        List.splitOnP_append_cons_of_forall_mem (h line List.mem_cons_self) '\n' (by decide),
        ih (List.forall_mem_of_forall_mem_cons h), List.cons_append]

theorem splitlines_lines {lines : List (List Char)}
    (h : ∀ line ∈ lines, ∀ c ∈ line, isLineBoundary c = false) :
    splitlines (lines.flatMap fun line => line ++ ['\n']) = lines := by
  have hreturn : '\r' ∉ lines.flatMap fun line => line ++ ['\n'] := by
    intro hmem
    obtain ⟨line, hline, hc⟩ := List.mem_flatMap.mp hmem
    rcases List.mem_append.mp hc with hc | hc
    · exact absurd (h line hline _ hc) (by decide)
    · exact absurd (List.mem_singleton.mp hc) (by decide)
  rw [splitlines, universalNewlines_eq hreturn, splitOnP_lines h]
  simp

/-! ### Words -/

theorem word_of_mem_splitOnP {text word : List Char} (h : word ∈ text.splitOnP isWhitespace) :
    ∀ c ∈ word, isWhitespace c = false := by
  induction text generalizing word with
  | nil =>
      rw [List.splitOnP_nil, List.mem_singleton] at h
      simp [h]
  | cons c text ih =>
      rw [List.splitOnP_cons_eq_if_modifyHead] at h
      by_cases hc : isWhitespace c = true
      · rw [if_pos hc, List.mem_cons] at h
        rcases h with h | h
        · simp [h]
        · exact ih h
      · rw [if_neg hc] at h
        obtain ⟨first, later, hsplit⟩ := List.exists_cons_of_ne_nil (List.splitOnP_ne_nil isWhitespace text)
        rw [hsplit, List.modifyHead_cons, List.mem_cons] at h
        rcases h with h | h
        · rw [h, List.forall_mem_cons]
          exact ⟨by simpa using hc, ih (by rw [hsplit]; exact List.mem_cons_self)⟩
        · exact ih (by rw [hsplit]; exact List.mem_cons_of_mem _ h)

theorem words_append_space (first rest : List Char) {space : Char} (hspace : isWhitespace space = true) :
    words (first ++ space :: rest) = words first ++ words rest := by
  rw [words, List.splitOnP_append_cons first rest hspace, List.filter_append]
  rfl

theorem words_eq_self_iff {text : List Char} :
    words text = [text] ↔ text ≠ [] ∧ ∀ c ∈ text, isWhitespace c = false := by
  constructor
  · intro h
    have hmem : text ∈ words text := by
      rw [h]
      exact List.mem_singleton_self text
    obtain ⟨hsplit, hne⟩ := List.mem_filter.mp hmem
    exact ⟨by simpa using hne, word_of_mem_splitOnP hsplit⟩
  · intro h
    rw [words, List.splitOnP_eq_singleton h.2, List.filter_singleton, decide_eq_true h.1]
    rfl

end TxnOpt
