import TxnOpt.Lib.JsonSorting

/-!
# What the printer writes

Compact JSON is one line of printable ASCII.
-/

namespace TxnOpt

namespace Json

/-- From the space to the tilde. -/
def Printable (text : List Char) : Prop := ∀ c ∈ text, 32 ≤ c.toNat ∧ c.toNat ≤ 126

instance (text : List Char) : Decidable (Printable text) := List.decidableBAll _ _

theorem Printable.append {first second : List Char} (hfirst : Printable first) (hsecond : Printable second) :
    Printable (first ++ second) := by
  intro c hc
  rcases List.mem_append.mp hc with hc | hc
  · exact hfirst c hc
  · exact hsecond c hc

theorem Printable.cons {c : Char} {text : List Char} (hc : 32 ≤ c.toNat ∧ c.toNat ≤ 126) (h : Printable text) :
    Printable (c :: text) := by
  intro other hother
  rcases List.mem_cons.mp hother with hother | hother
  · rw [hother]
    exact hc
  · exact h other hother

theorem printable_nil : Printable [] := by
  intro c hc
  cases hc

theorem printable_digits {digits : List Char} (h : ∀ c ∈ digits, c.isDigit = true) : Printable digits := by
  intro c hc
  have hdigit := h c hc
  simp only [Char.isDigit, Bool.and_eq_true, decide_eq_true_eq, UInt32.le_iff_toNat_le] at hdigit
  change 48 ≤ c.toNat ∧ c.toNat ≤ 57 at hdigit
  omega

theorem digitChar_printable {digit : ℕ} (h : digit < 16) :
    32 ≤ digit.digitChar.toNat ∧ digit.digitChar.toNat ≤ 126 := by
  revert digit
  decide

theorem unicodeEscape_printable (unit : ℕ) : Printable (unicodeEscape unit) := by
  have hdigit (n : ℕ) := digitChar_printable (Nat.mod_lt n (by decide : 0 < 16))
  exact .cons (by decide) (.cons (by decide) (.cons (hdigit _) (.cons (hdigit _) (.cons (hdigit _)
    (.cons (hdigit _) printable_nil)))))

theorem escapeChar_printable (c : Char) : Printable (escapeChar c) := by
  have hescape (written : Char) (hwritten : 32 ≤ written.toNat ∧ written.toNat ≤ 126) :
      Printable ['\\', written] := .cons (by decide) (.cons hwritten printable_nil)
  unfold escapeChar
  split
  · exact hescape _ (by decide)
  split
  · exact hescape _ (by decide)
  split
  · exact hescape _ (by decide)
  split
  · exact hescape _ (by decide)
  split
  · exact hescape _ (by decide)
  split
  · exact hescape _ (by decide)
  split
  · exact hescape _ (by decide)
  split
  · rename_i hplain
    exact .cons hplain printable_nil
  split
  · exact unicodeEscape_printable _
  · exact (unicodeEscape_printable _).append (unicodeEscape_printable _)

theorem renderString_printable (value : String) : Printable (renderString value) := by
  apply Printable.append (.cons (by decide) ?_) (.cons (by decide) printable_nil)
  intro c hc
  obtain ⟨source, -, hwritten⟩ := List.mem_flatMap.mp hc
  exact escapeChar_printable source c hwritten

theorem toDigits_printable (n : ℕ) : Printable (Nat.toDigits 10 n) := printable_digits (toDigits_isDigit n)

theorem renderInt_printable (value : Int) : Printable (renderInt value) := by
  cases value with
  | ofNat n => exact toDigits_printable n
  | negSucc n => exact .cons (by decide) (toDigits_printable (n + 1))

theorem renderFloat_printable {literal : FloatLiteral} (h : WellFormedLiteral literal) :
    Printable (renderFloat literal) := by
  have hsign : Printable (if literal.negative then ['-'] else []) := by
    split
    · exact .cons (by decide) printable_nil
    · exact printable_nil
  have hfraction : Printable (renderFraction literal.fraction) := by
    unfold renderFraction
    split
    · exact printable_nil
    · exact .cons (by decide) (printable_digits h.fraction)
  have hexponent : Printable (renderExponent literal.exponent) := by
    cases hliteral : literal.exponent with
    | none => exact printable_nil
    | some exponent =>
        obtain ⟨negative, digits⟩ := exponent
        have hdigits := printable_digits (h.exponent negative digits hliteral).2
        cases negative with
        | true => exact .cons (by decide) (.cons (by decide) hdigits)
        | false => exact .cons (by decide) (.cons (by decide) hdigits)
  exact hsign.append ((toDigits_printable _).append (hfraction.append hexponent))

theorem open_printable {c : Char} (hc : 32 ≤ c.toNat ∧ c.toNat ≤ 126) (level : ℕ) :
    Printable (c :: compact.newline level) := .cons hc printable_nil

theorem close_printable {c : Char} (hc : 32 ≤ c.toNat ∧ c.toNat ≤ 126) {text : List Char} (h : Printable text)
    (level : ℕ) : Printable (text ++ compact.newline level ++ [c]) :=
  (h.append printable_nil).append (.cons hc printable_nil)

theorem member_printable {text value : List Char} (htext : Printable text) (key : String)
    (hvalue : Printable value) : Printable (text ++ renderString key ++ ':' :: compact.gap ++ value) :=
  ((htext.append (renderString_printable key)).append (.cons (by decide) printable_nil)).append hvalue

mutual

theorem render_printable : ∀ (value : Json), WellFormed value → ∀ level, Printable (render compact level value)
  | .null, _, _ => by
      rw [render]
      decide
  | .bool true, _, _ => by
      rw [render]
      decide
  | .bool false, _, _ => by
      rw [render]
      decide
  | .int value, _, _ => by
      rw [render]
      exact renderInt_printable value
  | .float literal, h, _ => by
      rw [render]
      exact renderFloat_printable h
  | .str value, _, _ => by
      rw [render]
      exact renderString_printable value
  | .arr [], _, _ => by
      rw [render]
      decide
  | .arr (item :: items), h, level => by
      rw [render]
      apply close_printable (by decide)
      exact ((open_printable (by decide) _).append (render_printable item h.1 _)).append
        (renderItems_printable items h.2 _)
  | .obj [], _, _ => by
      rw [render]
      decide
  | .obj ((key, value) :: members), h, level => by
      rw [render]
      apply close_printable (by decide)
      exact (member_printable (open_printable (by decide) _) key (render_printable value h.2.1 _)).append
        (renderMembers_printable members h.2.2 _)

theorem renderItems_printable :
    ∀ (items : List Json), WellFormedItems items → ∀ level, Printable (renderItems compact level items)
  | [], _, _ => by
      rw [renderItems]
      exact printable_nil
  | item :: items, h, level => by
      rw [renderItems]
      exact ((open_printable (by decide) _).append (render_printable item h.1 level)).append
        (renderItems_printable items h.2 level)

theorem renderMembers_printable :
    ∀ (members : List (String × Json)), WellFormedMembers members → ∀ level,
      Printable (renderMembers compact level members)
  | [], _, _ => by
      rw [renderMembers]
      exact printable_nil
  | (key, value) :: members, h, level => by
      rw [renderMembers]
      exact (member_printable (open_printable (by decide) _) key (render_printable value h.1 _)).append
        (renderMembers_printable members h.2 _)

end

end Json

end TxnOpt
