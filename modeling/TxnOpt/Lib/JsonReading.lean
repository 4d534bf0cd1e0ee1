import TxnOpt.Lib.Json
import Mathlib.Data.List.TakeWhile
import Mathlib.Tactic.Common

/-!
# Reading back a printed value

The parser returns the value that was printed, in every layout whose gaps are space, and leaves the text
after it.
-/

namespace TxnOpt

namespace Json

/-! ### Strings -/

theorem hexValue_digitChar {digit : ℕ} (h : digit < 16) : hexValue digit.digitChar = some digit := by
  revert digit
  decide

theorem parseUnit_unicodeEscape {unit : ℕ} (h : unit < 65536) (rest : List Char) :
    parseUnit (unicodeEscape unit ++ rest) = some (.escaped unit, rest) := by
  have hunit : unit / 4096 % 16 * 4096 + unit / 256 % 16 * 256 + unit / 16 % 16 * 16 + unit % 16 = unit := by
    omega
  simp only [unicodeEscape, List.cons_append, List.nil_append, parseUnit, hexUnit,
    hexValue_digitChar (Nat.mod_lt _ (by decide : 0 < 16)), Option.bind_eq_bind, Option.bind_some,
    Option.pure_def, Option.map_some, hunit]

/-- The text `before` is the given units followed by `after`. -/
inductive Reads : List StringUnit → List Char → List Char → Prop
  | nil {text : List Char} : Reads [] text text
  | cons {unit : StringUnit} {units : List StringUnit} {before middle after : List Char} :
      before.head? ≠ some '"' → parseUnit before = some (unit, middle) → Reads units middle after →
      Reads (unit :: units) before after

theorem Reads.append {first second : List StringUnit} {before middle after : List Char}
    (hfirst : Reads first before middle) (hsecond : Reads second middle after) :
    Reads (first ++ second) before after := by
  induction hfirst with
  | nil => exact hsecond
  | cons hquote hunit _ ih => exact .cons hquote hunit (ih hsecond)

theorem parseUnits_succ {fuel : ℕ} {text : List Char} (hquote : text.head? ≠ some '"') :
    parseUnits (fuel + 1) text = (parseUnit text).bind fun (unit, rest) =>
      (parseUnits fuel rest).map fun (units, rest) => (unit :: units, rest) := by
  cases text with
  | nil => rfl
  | cons c text =>
      have hc : c ≠ '"' := by simpa using hquote
      simp [parseUnits, hc]

theorem Reads.parseUnits {units : List StringUnit} {before rest : List Char}
    (h : Reads units before ('"' :: rest)) {fuel : ℕ} (hfuel : units.length < fuel) :
    parseUnits fuel before = some (units, rest) := by
  generalize hafter : '"' :: rest = after at h
  induction h generalizing fuel with
  | nil =>
      cases fuel with
      | zero => omega
      | succ fuel =>
          rw [← hafter]
          rfl
  | @cons unit units before middle after hquote hunit _ ih =>
      cases fuel with
      | zero => omega
      | succ fuel =>
          rw [List.length_cons] at hfuel
          have hlater : Json.parseUnits fuel middle = some (units, rest) := ih (by omega) hafter
          rw [parseUnits_succ hquote, hunit, Option.bind_some]
          simp only [hlater, Option.map_some]

theorem ofNat_toNat_escaped {c : Char} (hlow : c.toNat < 65536) (units : List StringUnit) :
    joinUnits (.escaped c.toNat :: units) = (joinUnits units).map (c :: ·) := by
  have hvalid : c.toNat < 55296 ∨ 57343 < c.toNat ∧ c.toNat < 1114112 := c.valid
  have hhigh : ¬ (55296 ≤ c.toNat ∧ c.toNat < 56320) := by omega
  have hlower : ¬ (56320 ≤ c.toNat ∧ c.toNat < 57344) := by omega
  have hboth : ¬ (55296 ≤ c.toNat ∧ c.toNat < 57344) := by omega
  cases units with
  | nil => simp only [joinUnits, if_neg hboth, Char.ofNat_toNat]
  | cons unit units =>
      cases unit with
      | plain other => simp only [joinUnits, if_neg hboth, Char.ofNat_toNat]
      | escaped other => rw [joinUnits, if_neg hhigh, if_neg hlower, Char.ofNat_toNat]

theorem joinUnits_pair {c : Char} (hhigh : 65536 ≤ c.toNat) (units : List StringUnit) :
    joinUnits (.escaped (55296 + (c.toNat - 65536) / 1024) ::
      .escaped (56320 + (c.toNat - 65536) % 1024) :: units) = (joinUnits units).map (c :: ·) := by
  have hvalid : c.toNat < 55296 ∨ 57343 < c.toNat ∧ c.toNat < 1114112 := c.valid
  have hsame : 65536 + (55296 + (c.toNat - 65536) / 1024 - 55296) * 1024 +
      (56320 + (c.toNat - 65536) % 1024 - 56320) = c.toNat := by omega
  rw [joinUnits, if_pos (by omega), if_pos (by omega), hsame, Char.ofNat_toNat]

theorem parseUnit_simple {c written : Char} (hwritten : simpleEscape written = some c)
    (hu : written ≠ 'u') (rest : List Char) : parseUnit ('\\' :: written :: rest) = some (.plain c, rest) := by
  unfold parseUnit
  split
  · next heq => exact absurd (List.cons.inj (List.cons.inj heq).2).1 hu
  · next heq =>
      obtain ⟨hsame, hrest⟩ := List.cons.inj (List.cons.inj heq).2
      rw [← hsame, ← hrest, hwritten]
      rfl
  · next hother heq =>
      obtain ⟨hbackslash, hrest⟩ := List.cons.inj heq
      exact absurd hrest.symm (hother written rest hbackslash.symm)
  · next heq => cases heq

theorem parseUnit_plain {c : Char} (hbackslash : c ≠ '\\') (hprintable : 32 ≤ c.toNat) (rest : List Char) :
    parseUnit (c :: rest) = some (.plain c, rest) := by
  unfold parseUnit
  split
  · next heq => exact absurd (List.cons.inj heq).1 hbackslash
  · next heq => exact absurd (List.cons.inj heq).1 hbackslash
  · next heq =>
      obtain ⟨hsame, hrest⟩ := List.cons.inj heq
      have hallowed : ¬ (c = '\\' ∨ c.toNat < 32) := by
        rw [not_or, not_lt]
        exact ⟨hbackslash, hprintable⟩
      rw [← hsame, ← hrest, if_neg hallowed]
  · next heq => cases heq

theorem reads_plain {c : Char} {written rest : List Char} (hquote : (written ++ rest).head? ≠ some '"')
    (hunit : parseUnit (written ++ rest) = some (.plain c, rest)) :
    Reads [.plain c] (written ++ rest) rest :=
  .cons hquote hunit .nil

theorem reads_escaped {unit : ℕ} (h : unit < 65536) (rest : List Char) :
    Reads [.escaped unit] (unicodeEscape unit ++ rest) rest :=
  .cons (by simp [unicodeEscape]) (parseUnit_unicodeEscape h rest) .nil

/-- The text is a way to write the character inside a string. -/
def Spells (text : List Char) (c : Char) : Prop :=
  ∃ units, units.length ≤ text.length ∧ (∀ rest, Reads units (text ++ rest) rest) ∧
    ∀ more, joinUnits (units ++ more) = (joinUnits more).map (c :: ·)

theorem spells_simple {c written : Char} (hwritten : simpleEscape written = some c) (hu : written ≠ 'u') :
    Spells ['\\', written] c :=
  ⟨[.plain c], by simp, fun rest => reads_plain (by simp) (parseUnit_simple hwritten hu rest), fun _ => rfl⟩

theorem spells_plain {c : Char} (hquote : c ≠ '"') (hbackslash : c ≠ '\\') (hprintable : 32 ≤ c.toNat) :
    Spells [c] c :=
  ⟨[.plain c], by simp, fun rest => reads_plain (by simpa using hquote)
    (parseUnit_plain hbackslash hprintable rest), fun _ => rfl⟩

theorem spells_escaped {c : Char} (hlow : c.toNat < 65536) : Spells (unicodeEscape c.toNat) c :=
  ⟨[.escaped c.toNat], by simp [unicodeEscape], fun rest => reads_escaped hlow rest,
    fun more => ofNat_toNat_escaped hlow more⟩

theorem spells_pair {c : Char} (hhigh : 65536 ≤ c.toNat) :
    Spells (unicodeEscape (55296 + (c.toNat - 65536) / 1024) ++
      unicodeEscape (56320 + (c.toNat - 65536) % 1024)) c := by
  have hvalid : c.toNat < 55296 ∨ 57343 < c.toNat ∧ c.toNat < 1114112 := c.valid
  refine ⟨[_] ++ [_], by simp [unicodeEscape], ?_, fun more => joinUnits_pair hhigh more⟩
  intro rest
  rw [List.append_assoc]
  exact (reads_escaped (by omega) _).append (reads_escaped (by omega) rest)

theorem escapeChar_spells (c : Char) : Spells (escapeChar c) c := by
  unfold escapeChar
  by_cases hquote : c = '"'
  · rw [if_pos hquote, hquote]
    exact spells_simple rfl (by decide)
  rw [if_neg hquote]
  by_cases hbackslash : c = '\\'
  · rw [if_pos hbackslash, hbackslash]
    exact spells_simple rfl (by decide)
  rw [if_neg hbackslash]
  by_cases hnewline : c = '\n'
  · rw [if_pos hnewline, hnewline]
    exact spells_simple rfl (by decide)
  rw [if_neg hnewline]
  by_cases hreturn : c = '\r'
  · rw [if_pos hreturn, hreturn]
    exact spells_simple rfl (by decide)
  rw [if_neg hreturn]
  by_cases htab : c = '\t'
  · rw [if_pos htab, htab]
    exact spells_simple rfl (by decide)
  rw [if_neg htab]
  by_cases hfeed : c = '\x0c'
  · rw [if_pos hfeed, hfeed]
    exact spells_simple rfl (by decide)
  rw [if_neg hfeed]
  by_cases hback : c = '\x08'
  · rw [if_pos hback, hback]
    exact spells_simple rfl (by decide)
  rw [if_neg hback]
  by_cases hprintable : 32 ≤ c.toNat ∧ c.toNat ≤ 126
  · rw [if_pos hprintable]
    exact spells_plain hquote hbackslash hprintable.1
  rw [if_neg hprintable]
  by_cases hlow : c.toNat < 65536
  · rw [if_pos hlow]
    exact spells_escaped hlow
  · rw [if_neg hlow]
    exact spells_pair (by omega)

theorem flatMap_escapeChar_reads (chars : List Char) :
    ∃ units, units.length ≤ (chars.flatMap escapeChar).length ∧
      (∀ rest, Reads units (chars.flatMap escapeChar ++ rest) rest) ∧ joinUnits units = some chars := by
  induction chars with
  | nil => exact ⟨[], by simp, fun rest => .nil, rfl⟩
  | cons c chars ih =>
      obtain ⟨units, hlength, hreads, hjoin⟩ := ih
      obtain ⟨first, hfirstLength, hfirstReads, hfirstJoin⟩ := escapeChar_spells c
      refine ⟨first ++ units, ?_, ?_, ?_⟩
      · rw [List.flatMap_cons, List.length_append, List.length_append]
        omega
      · intro rest
        rw [List.flatMap_cons, List.append_assoc]
        exact (hfirstReads _).append (hreads rest)
      · rw [hfirstJoin, hjoin]
        rfl

theorem parseString_render (value : String) (rest : List Char) :
    parseString (value.toList.flatMap escapeChar ++ '"' :: rest) = some (value, rest) := by
  obtain ⟨units, hlength, hreads, hjoin⟩ := flatMap_escapeChar_reads value.toList
  have hunits := (hreads ('"' :: rest)).parseUnits
    (by rw [List.length_append]; omega :
      units.length < (value.toList.flatMap escapeChar ++ '"' :: rest).length + 1)
  rw [parseString, hunits, Option.bind_some]
  simp only [hjoin, Option.map_some, String.ofList_toList]

/-! ### Numbers -/

/-- The text does not go on with a digit. -/
def NoDigit (rest : List Char) : Prop := ∀ c ∈ rest.head?, c.isDigit = false

/-- The text does not go on with a part of a number. -/
structure Delimited (rest : List Char) : Prop where
  noDigit : NoDigit rest
  noPoint : rest.head? ≠ some '.'
  noExponent : rest.head? ≠ some 'e' ∧ rest.head? ≠ some 'E'

theorem span_digits {digits rest : List Char} (hdigits : ∀ c ∈ digits, c.isDigit = true)
    (hrest : NoDigit rest) : (digits ++ rest).takeWhile Char.isDigit = digits ∧
      (digits ++ rest).dropWhile Char.isDigit = rest := by
  have hstop : rest.takeWhile Char.isDigit = [] ∧ rest.dropWhile Char.isDigit = rest := by
    cases rest with
    | nil => exact ⟨rfl, rfl⟩
    | cons c rest =>
        have hc : c.isDigit = false := hrest c rfl
        simp [hc]
  rw [List.takeWhile_append_of_pos hdigits, List.dropWhile_append_of_pos hdigits, hstop.1, hstop.2,
    List.append_nil]
  exact ⟨rfl, rfl⟩

theorem toDigits_isDigit (n : ℕ) : ∀ c ∈ Nat.toDigits 10 n, c.isDigit = true :=
  fun _ hc => Nat.isDigit_of_mem_toDigits (by decide) (by decide) hc

theorem digitChar_ne_zero {digit : ℕ} (hpos : 0 < digit) (hlt : digit < 10) : digit.digitChar ≠ '0' := by
  have hall : ∀ digit < 10, 0 < digit → digit.digitChar ≠ '0' := by decide
  exact hall digit hlt hpos

/-- The digits of a positive number do not start with `0`. -/
theorem toDigits_head_ne_zero {n : ℕ} (hpos : 0 < n) : (Nat.toDigits 10 n).head? ≠ some '0' := by
  induction n using Nat.strong_induction_on with
  | h n ih =>
      by_cases hlt : n < 10
      · rw [Nat.toDigits_of_lt_base hlt]
        simpa using digitChar_ne_zero hpos hlt
      · rw [Nat.toDigits_of_base_le (by decide) (by omega), List.head?_append_of_ne_nil _ Nat.toDigits_ne_nil]
        exact ih (n / 10) (by omega) (by omega)

theorem parseWhole_toDigits (n : ℕ) {rest : List Char} (hrest : NoDigit rest) :
    parseWhole (Nat.toDigits 10 n ++ rest) = some (n, rest) := by
  by_cases hzero : n = 0
  · rw [hzero, Nat.toDigits_zero]
    rfl
  · obtain ⟨htake, hdrop⟩ := span_digits (toDigits_isDigit n) hrest
    have hhead : (Nat.toDigits 10 n ++ rest).head? ≠ some '0' := by
      rw [List.head?_append_of_ne_nil _ Nat.toDigits_ne_nil]
      exact toDigits_head_ne_zero (by omega)
    unfold parseWhole
    split
    · next heq => exact absurd (by rw [heq]; rfl) hhead
    · rw [htake, hdrop, if_neg Nat.toDigits_ne_nil, Nat.ofDigitChars_ten_toDigits]

theorem parseFraction_none {rest : List Char} (hrest : rest.head? ≠ some '.') :
    parseFraction rest = ([], rest) := by
  unfold parseFraction
  split
  · exact absurd rfl hrest
  · rfl

theorem parseFraction_digits {digits rest : List Char} (hne : digits ≠ [])
    (hdigits : ∀ c ∈ digits, c.isDigit = true) (hrest : NoDigit rest) :
    parseFraction ('.' :: digits ++ rest) = (digits, rest) := by
  obtain ⟨htake, hdrop⟩ := span_digits hdigits hrest
  simp only [List.cons_append, parseFraction, htake, hdrop, if_neg hne]

theorem parseExponent_none {rest : List Char} (hrest : rest.head? ≠ some 'e' ∧ rest.head? ≠ some 'E') :
    parseExponent rest = (none, rest) := by
  have hneither : ¬ (rest.head? = some 'e' ∨ rest.head? = some 'E') := not_or.mpr hrest
  rw [parseExponent, if_neg hneither]

theorem parseExponent_digits (negative : Bool) {digits rest : List Char} (hne : digits ≠ [])
    (hdigits : ∀ c ∈ digits, c.isDigit = true) (hrest : NoDigit rest) :
    parseExponent ('e' :: (if negative then '-' else '+') :: digits ++ rest) =
      (some (negative, digits), rest) := by
  obtain ⟨htake, hdrop⟩ := span_digits hdigits hrest
  have hsign : parseSign ((if negative then '-' else '+') :: (digits ++ rest)) = (negative, digits ++ rest) := by
    cases negative with
    | true => rfl
    | false => rfl
  rw [parseExponent, if_pos (.inl rfl)]
  simp only [List.cons_append, List.tail_cons, hsign, htake, hdrop, if_neg hne]

/-- A literal that the parser can return. -/
structure WellFormedLiteral (literal : FloatLiteral) : Prop where
  fraction : ∀ c ∈ literal.fraction, c.isDigit = true
  exponent : ∀ negative digits, literal.exponent = some (negative, digits) →
    digits ≠ [] ∧ ∀ c ∈ digits, c.isDigit = true
  isFloat : ¬ (literal.fraction = [] ∧ literal.exponent = none)

theorem parseNumber_signed {text : List Char} (negative : Bool) (hsign : text.head? ≠ some '-') :
    parseNumber ((if negative then ['-'] else []) ++ text) =
      (parseWhole text).map fun (whole, rest) =>
        let (fraction, rest) := parseFraction rest
        let (exponent, rest) := parseExponent rest
        if fraction = [] ∧ exponent = none then (.int (if negative then -whole else whole), rest)
        else (.float ⟨negative, whole, fraction, exponent⟩, rest) := by
  cases negative with
  | true => rfl
  | false =>
      cases text with
      | nil => rfl
      | cons c text =>
          have hc : c ≠ '-' := by simpa using hsign
          simp [parseNumber, hc]

theorem toDigits_head_ne_minus (n : ℕ) (rest : List Char) : (Nat.toDigits 10 n ++ rest).head? ≠ some '-' := by
  rw [List.head?_append_of_ne_nil _ Nat.toDigits_ne_nil]
  intro hminus
  have hdigit := toDigits_isDigit n '-' (List.mem_of_head? hminus)
  simp at hdigit

theorem parseNumber_renderInt (value : Int) {rest : List Char} (hrest : Delimited rest) :
    parseNumber (renderInt value ++ rest) = some (.int value, rest) := by
  have hsigned : ∀ (negative : Bool) (n : ℕ),
      parseNumber ((if negative then ['-'] else []) ++ (Nat.toDigits 10 n ++ rest)) =
        some (.int (if negative then -n else n), rest) := by
    intro negative n
    rw [parseNumber_signed negative (toDigits_head_ne_minus n rest), parseWhole_toDigits n hrest.noDigit]
    simp [parseFraction_none hrest.noPoint, parseExponent_none hrest.noExponent]
  cases value with
  | ofNat n => exact hsigned false n
  | negSucc n => exact hsigned true (n + 1)

theorem exponent_read {exponent : Option (Bool × List Char)} {rest : List Char}
    (hexponent : ∀ negative digits, exponent = some (negative, digits) →
      digits ≠ [] ∧ ∀ c ∈ digits, c.isDigit = true) (hrest : Delimited rest) :
    parseExponent (renderExponent exponent ++ rest) = (exponent, rest) ∧
      NoDigit (renderExponent exponent ++ rest) ∧ (renderExponent exponent ++ rest).head? ≠ some '.' := by
  cases exponent with
  | none => exact ⟨parseExponent_none hrest.noExponent, hrest.noDigit, hrest.noPoint⟩
  | some signed =>
      obtain ⟨negative, digits⟩ := signed
      obtain ⟨hne, hdigits⟩ := hexponent negative digits rfl
      refine ⟨parseExponent_digits negative hne hdigits hrest.noDigit, ?_, by simp [renderExponent]⟩
      intro c hc
      have he : 'e' = c := Option.some.inj hc
      rw [← he]
      rfl

theorem fraction_read {digits rest : List Char} (hdigits : ∀ c ∈ digits, c.isDigit = true)
    (hrest : NoDigit rest) (hpoint : rest.head? ≠ some '.') :
    parseFraction (renderFraction digits ++ rest) = (digits, rest) ∧ NoDigit (renderFraction digits ++ rest) := by
  by_cases hne : digits = []
  · rw [hne]
    exact ⟨parseFraction_none hpoint, hrest⟩
  · rw [renderFraction, if_neg hne]
    refine ⟨parseFraction_digits hne hdigits hrest, ?_⟩
    intro c hc
    have hsame : '.' = c := Option.some.inj hc
    rw [← hsame]
    rfl

theorem parseNumber_renderFloat {literal : FloatLiteral} (hliteral : WellFormedLiteral literal) {rest : List Char}
    (hrest : Delimited rest) : parseNumber (renderFloat literal ++ rest) = some (.float literal, rest) := by
  obtain ⟨hexponent, hexponentDigit, hexponentPoint⟩ := exponent_read hliteral.exponent hrest
  obtain ⟨hfraction, hfractionDigit⟩ := fraction_read hliteral.fraction hexponentDigit hexponentPoint
  rw [renderFloat, List.append_assoc, List.append_assoc, List.append_assoc,
    parseNumber_signed literal.negative (toDigits_head_ne_minus _ _),
    parseWhole_toDigits _ hfractionDigit, Option.map_some]
  simp only [hfraction, hexponent, if_neg hliteral.isFloat]

/-! ### Values -/

/-- Every gap of the layout is space. -/
structure Layout.Spaced (layout : Layout) : Prop where
  newline : ∀ level, ∀ c ∈ layout.newline level, isSpace c = true
  gap : ∀ c ∈ layout.gap, isSpace c = true

theorem compact_spaced : compact.Spaced := ⟨by simp [compact], by simp [compact]⟩

theorem indented_spaced (width : ℕ) : (indented width).Spaced := by
  refine ⟨?_, ?_⟩
  · intro level c hc
    rcases List.mem_cons.mp hc with hnewline | hblank
    · rw [hnewline]
      rfl
    · rw [(List.mem_replicate.mp hblank).2]
      rfl
  · intro c hc
    rw [List.mem_singleton.mp hc]
    rfl

mutual

/-- Objects have distinct keys, and literals are literals. -/
def WellFormed : Json → Prop
  | .null | .bool _ | .int _ | .str _ => True
  | .float literal => WellFormedLiteral literal
  | .arr items => WellFormedItems items
  | .obj members => (members.map Prod.fst).Nodup ∧ WellFormedMembers members

def WellFormedItems : List Json → Prop
  | [] => True
  | item :: items => WellFormed item ∧ WellFormedItems items

def WellFormedMembers : List (String × Json) → Prop
  | [] => True
  | (_, value) :: members => WellFormed value ∧ WellFormedMembers members

end

theorem dictOf_eq {pairs : List (String × Json)} (h : (pairs.map Prod.fst).Nodup) : dictOf pairs = pairs := by
  have hfold : ∀ (pairs members : List (String × Json)), ((members ++ pairs).map Prod.fst).Nodup →
      pairs.foldl (fun members pair =>
        if pair.1 ∈ members.map Prod.fst then
          members.map fun member => if member.1 = pair.1 then pair else member
        else members ++ [pair]) members = members ++ pairs := by
    intro pairs
    induction pairs with
    | nil =>
        intro members _
        simp
    | cons pair pairs ih =>
        intro members hnodup
        have hfresh : pair.1 ∉ members.map Prod.fst := by
          rw [List.map_append, List.nodup_append] at hnodup
          intro hmem
          exact hnodup.2.2 _ hmem _ List.mem_cons_self rfl
        rw [List.foldl_cons, if_neg hfresh, ih (members ++ [pair]) (by simpa using hnodup)]
        simp
  exact hfold pairs [] (by simpa using h)

theorem skipSpace_append {spaces : List Char} (hspaces : ∀ c ∈ spaces, isSpace c = true) {c : Char}
    (hc : isSpace c = false) (rest : List Char) : skipSpace (spaces ++ c :: rest) = c :: rest := by
  rw [skipSpace, List.dropWhile_append_of_pos hspaces]
  simp [hc]

theorem delimited_cons {c : Char} (hdigit : c.isDigit = false) (hpoint : c ≠ '.') (hlower : c ≠ 'e')
    (hupper : c ≠ 'E') (rest : List Char) : Delimited (c :: rest) := by
  refine ⟨?_, by simpa using hpoint, by simpa using ⟨hlower, hupper⟩⟩
  intro other hother
  rw [← Option.some.inj hother]
  exact hdigit

theorem delimited_space {c : Char} (hc : isSpace c = true) (rest : List Char) : Delimited (c :: rest) := by
  have hcases : ((c = ' ' ∨ c = '\t') ∨ c = '\n') ∨ c = '\r' := by simpa [isSpace] using hc
  rcases hcases with ((h | h) | h) | h <;> rw [h] <;>
    exact delimited_cons (by decide) (by decide) (by decide) (by decide) rest

/-- What follows the last item or member. -/
theorem delimited_close {spaces : List Char} (hspaces : ∀ c ∈ spaces, isSpace c = true) {close : Char}
    (hclose : close = ']' ∨ close = '}') (rest : List Char) : Delimited (spaces ++ close :: rest) := by
  cases spaces with
  | nil =>
      rcases hclose with h | h <;> rw [h] <;>
        exact delimited_cons (by decide) (by decide) (by decide) (by decide) rest
  | cons c spaces => exact delimited_space (hspaces c List.mem_cons_self) _

theorem digit_not_space {c : Char} (h : c.isDigit = true) : isSpace c = false ∧ c ≠ ']' ∧ c ≠ 'n' ∧ c ≠ 't' ∧
    c ≠ 'f' ∧ c ≠ '"' ∧ c ≠ '[' ∧ c ≠ '{' := by
  refine ⟨?_, ?_, ?_, ?_, ?_, ?_, ?_, ?_⟩
  · cases hspace : isSpace c with
    | false => rfl
    | true =>
        have hcases : ((c = ' ' ∨ c = '\t') ∨ c = '\n') ∨ c = '\r' := by simpa [isSpace] using hspace
        rcases hcases with ((heq | heq) | heq) | heq <;> rw [heq] at h <;> exact absurd h (by decide)
  all_goals
    intro heq
    rw [heq] at h
    exact absurd h (by decide)

/-- The text of a number starts with a sign or a digit. -/
theorem parseValue_number {c : Char} (hc : c = '-' ∨ c.isDigit = true) (fuel : ℕ) (rest : List Char) :
    parseValue (fuel + 1) (c :: rest) = parseNumber (c :: rest) := by
  have hothers : c ≠ 'n' ∧ c ≠ 't' ∧ c ≠ 'f' ∧ c ≠ '"' ∧ c ≠ '[' ∧ c ≠ '{' := by
    rcases hc with hminus | hdigit
    · rw [hminus]
      decide
    · exact (digit_not_space hdigit).2.2
  obtain ⟨hn, ht, hf, hq, hb, ho⟩ := hothers
  unfold parseValue
  split <;> simp_all

variable {layout : Layout}

variable (layout) in
theorem render_head (level : ℕ) (value : Json) :
    ∃ c text, render layout level value = c :: text ∧ isSpace c = false ∧ c ≠ ']' := by
  have hdigits : ∀ n rest, ∃ c text, Nat.toDigits 10 n ++ rest = c :: text ∧ isSpace c = false ∧ c ≠ ']' := by
    intro n rest
    cases hn : Nat.toDigits 10 n with
    | nil => exact absurd hn Nat.toDigits_ne_nil
    | cons c text =>
        have hdigit := digit_not_space (toDigits_isDigit n c (by rw [hn]; exact List.mem_cons_self))
        exact ⟨c, text ++ rest, rfl, hdigit.1, hdigit.2.1⟩
  cases value with
  | null => exact ⟨_, _, rfl, by decide, by decide⟩
  | bool value =>
      cases value with
      | true => exact ⟨_, _, rfl, by decide, by decide⟩
      | false => exact ⟨_, _, rfl, by decide, by decide⟩
  | int value =>
      cases value with
      | ofNat n => simpa [render, renderInt] using hdigits n []
      | negSucc n => exact ⟨_, _, rfl, by decide, by decide⟩
  | float literal =>
      rw [render, renderFloat]
      cases literal.negative with
      | true => exact ⟨_, _, rfl, by decide, by decide⟩
      | false => exact hdigits literal.whole _
  | str value => exact ⟨_, _, rfl, by decide, by decide⟩
  | arr items =>
      cases items with
      | nil => exact ⟨_, _, rfl, by decide, by decide⟩
      | cons item items => exact ⟨_, _, rfl, by decide, by decide⟩
  | obj members =>
      cases members with
      | nil => exact ⟨_, _, rfl, by decide, by decide⟩
      | cons member members => exact ⟨_, _, rfl, by decide, by decide⟩

/-- The items of an array, from the first on. -/
def renderArray (layout : Layout) (level : ℕ) : List Json → List Char
  | [] => []
  | item :: items => render layout level item ++ renderItems layout level items

def renderObject (layout : Layout) (level : ℕ) : List (String × Json) → List Char
  | [] => []
  | (key, value) :: members =>
      renderString key ++ ':' :: layout.gap ++ render layout level value ++ renderMembers layout level members

theorem renderItems_eq (level : ℕ) (item : Json) (items : List Json) :
    renderItems layout level (item :: items) =
      ',' :: (layout.newline level ++ renderArray layout level (item :: items)) := by
  simp [renderItems, renderArray]

theorem renderMembers_eq (level : ℕ) (member : String × Json) (members : List (String × Json)) :
    renderMembers layout level (member :: members) =
      ',' :: (layout.newline level ++ renderObject layout level (member :: members)) := by
  obtain ⟨key, value⟩ := member
  simp [renderMembers, renderObject]

theorem render_arr (level : ℕ) (item : Json) (items : List Json) :
    render layout level (.arr (item :: items)) =
      '[' :: (layout.newline (level + 1) ++ (renderArray layout (level + 1) (item :: items) ++
        (layout.newline level ++ [']']))) := by
  simp [render, renderArray]

theorem render_obj (level : ℕ) (member : String × Json) (members : List (String × Json)) :
    render layout level (.obj (member :: members)) =
      '{' :: (layout.newline (level + 1) ++ (renderObject layout (level + 1) (member :: members) ++
        (layout.newline level ++ ['}']))) := by
  obtain ⟨key, value⟩ := member
  simp [render, renderObject]

variable (layout) in
theorem skipSpace_renderArray {spaces : List Char} (hspaces : ∀ c ∈ spaces, isSpace c = true) (level : ℕ)
    (item : Json) (items : List Json) (rest : List Char) :
    skipSpace (spaces ++ (renderArray layout level (item :: items) ++ rest)) =
        renderArray layout level (item :: items) ++ rest ∧
      ∀ text, renderArray layout level (item :: items) ++ rest ≠ ']' :: text := by
  obtain ⟨c, text, hrender, hspace, hclose⟩ := render_head layout level item
  rw [renderArray, hrender]
  refine ⟨skipSpace_append hspaces hspace _, ?_⟩
  intro other hother
  exact hclose (List.cons.inj hother).1

variable (layout) in
theorem skipSpace_renderObject {spaces : List Char} (hspaces : ∀ c ∈ spaces, isSpace c = true) (level : ℕ)
    (member : String × Json) (members : List (String × Json)) (rest : List Char) :
    skipSpace (spaces ++ (renderObject layout level (member :: members) ++ rest)) =
        renderObject layout level (member :: members) ++ rest ∧
      ∀ text, renderObject layout level (member :: members) ++ rest ≠ '}' :: text := by
  obtain ⟨key, value⟩ := member
  refine ⟨skipSpace_append hspaces (by decide) _, ?_⟩
  intro other hother
  exact absurd (List.cons.inj hother).1 (by decide)

variable (layout) in
theorem skipSpace_render {spaces : List Char} (hspaces : ∀ c ∈ spaces, isSpace c = true) (level : ℕ)
    (value : Json) (rest : List Char) :
    skipSpace (spaces ++ (render layout level value ++ rest)) = render layout level value ++ rest := by
  obtain ⟨c, text, hrender, hspace, -⟩ := render_head layout level value
  rw [hrender]
  exact skipSpace_append hspaces hspace _

theorem skipSpace_cons {c : Char} (hc : isSpace c = false) (rest : List Char) :
    skipSpace (c :: rest) = c :: rest := by
  have hnone : ∀ other ∈ ([] : List Char), isSpace other = true := by simp
  exact skipSpace_append hnone hc rest

theorem toDigits_head (n : ℕ) (rest : List Char) :
    ∃ c text, Nat.toDigits 10 n ++ rest = c :: text ∧ c.isDigit = true := by
  cases hn : Nat.toDigits 10 n with
  | nil => exact absurd hn Nat.toDigits_ne_nil
  | cons c text => exact ⟨c, text ++ rest, rfl, toDigits_isDigit n c (by rw [hn]; exact List.mem_cons_self)⟩

theorem parseValue_of_number {text : List Char} (hhead : ∃ c rest, text = c :: rest ∧ (c = '-' ∨ c.isDigit = true))
    (fuel : ℕ) : parseValue (fuel + 1) text = parseNumber text := by
  obtain ⟨c, rest, htext, hc⟩ := hhead
  rw [htext]
  exact parseValue_number hc fuel rest

theorem renderInt_head (value : Int) (rest : List Char) :
    ∃ c text, renderInt value ++ rest = c :: text ∧ (c = '-' ∨ c.isDigit = true) := by
  cases value with
  | ofNat n =>
      obtain ⟨c, text, htext, hc⟩ := toDigits_head n rest
      exact ⟨c, text, htext, .inr hc⟩
  | negSucc n => exact ⟨_, _, rfl, .inl rfl⟩

theorem renderFloat_head (literal : FloatLiteral) (rest : List Char) :
    ∃ c text, renderFloat literal ++ rest = c :: text ∧ (c = '-' ∨ c.isDigit = true) := by
  rw [renderFloat]
  cases literal.negative with
  | true => exact ⟨_, _, rfl, .inl rfl⟩
  | false =>
      obtain ⟨c, text, htext, hc⟩ := toDigits_head literal.whole
        ((renderFraction literal.fraction ++ renderExponent literal.exponent) ++ rest)
      refine ⟨c, text, ?_, .inr hc⟩
      rw [← htext]
      simp

mutual

theorem parseValue_render (hlayout : layout.Spaced) :
    ∀ (value : Json), WellFormed value → ∀ (level fuel : ℕ) (rest : List Char),
      (render layout level value).length < fuel → Delimited rest →
      parseValue fuel (render layout level value ++ rest) = some (value, rest)
  | _, _, _, 0, _, hfuel, _ => absurd hfuel (Nat.not_lt_zero _)
  | .null, _, _, fuel + 1, _, _, _ => rfl
  | .bool true, _, _, fuel + 1, _, _, _ => rfl
  | .bool false, _, _, fuel + 1, _, _, _ => rfl
  | .int value, _, level, fuel + 1, rest, _, hrest => by
      rw [render, parseValue_of_number (renderInt_head value rest)]
      exact parseNumber_renderInt value hrest
  | .float literal, hliteral, level, fuel + 1, rest, _, hrest => by
      rw [render, parseValue_of_number (renderFloat_head literal rest)]
      exact parseNumber_renderFloat hliteral hrest
  | .str value, _, _, fuel + 1, rest, _, _ => by
      have hread := parseString_render value rest
      simp only [render, renderString, List.cons_append, List.append_assoc, List.nil_append, parseValue, hread,
        Option.map_some]
  | .arr [], _, _, fuel + 1, _, _, _ => rfl
  | .arr (item :: items), hitems, level, fuel + 1, rest, hfuel, _ => by
      obtain ⟨hskip, hopen⟩ := skipSpace_renderArray layout (hlayout.newline (level + 1)) (level + 1)
        item items (layout.newline level ++ ']' :: rest)
      rw [render_arr] at hfuel ⊢
      have hread := parseItems_render hlayout (item :: items) hitems (by simp) (level + 1) fuel
        (layout.newline level) rest (hlayout.newline level) (by simp at hfuel; omega)
      simp only [List.cons_append, List.append_assoc, List.nil_append, parseValue, hskip]
      rw [hread, Option.map_some]
  | .obj [], _, _, fuel + 1, _, _, _ => rfl
  | .obj (member :: members), hmembers, level, fuel + 1, rest, hfuel, _ => by
      obtain ⟨hskip, hopen⟩ := skipSpace_renderObject layout (hlayout.newline (level + 1)) (level + 1)
        member members (layout.newline level ++ '}' :: rest)
      rw [render_obj] at hfuel ⊢
      have hread := parseMembers_render hlayout (member :: members) hmembers.2 (by simp) (level + 1) fuel
        (layout.newline level) rest (hlayout.newline level) (by simp at hfuel; omega)
      simp only [List.cons_append, List.append_assoc, List.nil_append, parseValue, hskip]
      rw [hread, Option.map_some]
      simp only [dictOf_eq hmembers.1]

theorem parseItems_render (hlayout : layout.Spaced) :
    ∀ (items : List Json), WellFormedItems items → items ≠ [] →
      ∀ (level fuel : ℕ) (spaces rest : List Char), (∀ c ∈ spaces, isSpace c = true) →
        (renderArray layout level items).length + 1 < fuel →
        parseItems fuel (renderArray layout level items ++ (spaces ++ ']' :: rest)) = some (items, rest)
  | [], _, hne, _, _, _, _, _, _ => absurd rfl hne
  | _ :: _, _, _, _, 0, _, _, _, hfuel => absurd hfuel (Nat.not_lt_zero _)
  | [item], hitems, _, level, fuel + 1, spaces, rest, hspaces, hfuel => by
      have hitem := parseValue_render hlayout item hitems.1 level fuel (spaces ++ ']' :: rest)
        (by simp [renderArray, renderItems] at hfuel; omega) (delimited_close hspaces (.inl rfl) rest)
      have hskip := skipSpace_append hspaces (by decide : isSpace ']' = false) rest
      simp only [renderArray, renderItems, List.append_nil, parseItems, hitem, Option.bind_some, hskip]
  | item :: next :: items, hitems, _, level, fuel + 1, spaces, rest, hspaces, hfuel => by
      have hlater := parseItems_render hlayout (next :: items) hitems.2 (by simp) level fuel spaces rest hspaces
        (by rw [renderArray, renderItems_eq] at hfuel; simp at hfuel; omega)
      have hitem := parseValue_render hlayout item hitems.1 level fuel
        (',' :: (layout.newline level ++ (renderArray layout level (next :: items) ++ (spaces ++ ']' :: rest))))
        (by rw [renderArray, renderItems_eq] at hfuel; simp at hfuel; omega)
        (delimited_cons (by decide) (by decide) (by decide) (by decide) _)
      have hskip := (skipSpace_renderArray layout (hlayout.newline level) level next items
        (spaces ++ ']' :: rest)).1
      rw [renderArray, renderItems_eq, List.append_assoc, List.cons_append, List.append_assoc, parseItems, hitem,
        Option.bind_some]
      simp only [skipSpace_cons (by decide : isSpace ',' = false), hskip, hlater, Option.map_some]

theorem parseMembers_render (hlayout : layout.Spaced) :
    ∀ (members : List (String × Json)), WellFormedMembers members → members ≠ [] →
      ∀ (level fuel : ℕ) (spaces rest : List Char), (∀ c ∈ spaces, isSpace c = true) →
        (renderObject layout level members).length + 1 < fuel →
        parseMembers fuel (renderObject layout level members ++ (spaces ++ '}' :: rest)) =
          some (members, rest)
  | [], _, hne, _, _, _, _, _, _ => absurd rfl hne
  | _ :: _, _, _, _, 0, _, _, _, hfuel => absurd hfuel (Nat.not_lt_zero _)
  | [(key, value)], hmembers, _, level, fuel + 1, spaces, rest, hspaces, hfuel => by
      have hvalue := parseValue_render hlayout value hmembers.1 level fuel (spaces ++ '}' :: rest)
        (by simp [renderObject, renderMembers] at hfuel; omega) (delimited_close hspaces (.inr rfl) rest)
      have hskip := skipSpace_append hspaces (by decide : isSpace '}' = false) rest
      have hgap := skipSpace_render layout hlayout.gap level value (spaces ++ '}' :: rest)
      simp only [renderObject, renderMembers, renderString, List.append_nil, List.cons_append, List.append_assoc,
        List.nil_append, parseMembers, parseString_render, Option.bind_some,
        skipSpace_cons (by decide : isSpace ':' = false), hgap, hvalue, hskip]
  | (key, value) :: next :: members, hmembers, _, level, fuel + 1, spaces, rest, hspaces, hfuel => by
      have hlater := parseMembers_render hlayout (next :: members) hmembers.2 (by simp) level fuel spaces rest
        hspaces (by rw [renderObject, renderMembers_eq] at hfuel; simp at hfuel; omega)
      have hvalue := parseValue_render hlayout value hmembers.1 level fuel
        (',' :: (layout.newline level ++ (renderObject layout level (next :: members) ++ (spaces ++ '}' :: rest))))
        (by rw [renderObject, renderMembers_eq] at hfuel; simp at hfuel; omega)
        (delimited_cons (by decide) (by decide) (by decide) (by decide) _)
      have hskip := (skipSpace_renderObject layout (hlayout.newline level) level next members
        (spaces ++ '}' :: rest)).1
      have hgap := skipSpace_render layout hlayout.gap level value
        (',' :: (layout.newline level ++ (renderObject layout level (next :: members) ++ (spaces ++ '}' :: rest))))
      rw [renderObject, renderMembers_eq]
      simp only [renderString, List.cons_append, List.append_assoc, List.nil_append, parseMembers,
        parseString_render, Option.bind_some, skipSpace_cons (by decide : isSpace ':' = false), hgap, hvalue,
        skipSpace_cons (by decide : isSpace ',' = false), hskip, hlater, Option.map_some]

end

/-- `json.loads(json.dumps(value))`, with space around the text. -/
theorem loads_render (hlayout : layout.Spaced) {value : Json} (hvalue : WellFormed value) {spaces : List Char}
    (hspaces : ∀ c ∈ spaces, isSpace c = true) : loads (render layout 0 value ++ spaces) = some value := by
  have hdelimited : Delimited spaces := by
    cases spaces with
    | nil => exact ⟨by simp [NoDigit], by simp, by simp⟩
    | cons c spaces => exact delimited_space (hspaces c List.mem_cons_self) _
  have hread := parseValue_render hlayout value hvalue 0 ((render layout 0 value ++ spaces).length + 1) spaces
    (by rw [List.length_append]; omega) hdelimited
  have hskip : skipSpace ([] ++ (render layout 0 value ++ spaces)) = render layout 0 value ++ spaces :=
    skipSpace_render layout (by simp) 0 value spaces
  have hend : skipSpace spaces = [] := List.dropWhile_eq_nil_iff.mpr hspaces
  rw [List.nil_append] at hskip
  rw [loads, hskip, hread, Option.bind_some]
  simp only [hend, if_true]

end Json

end TxnOpt
