import TxnOpt.Lib.Lexicographic
import Mathlib.Data.List.Nodup
import Mathlib.Data.Nat.Notation
import Mathlib.Data.String.Basic

/-!
# JSON texts

JSON values, an ASCII printer with a layout for nesting, and a parser. A floating-point number stays the
literal it was written as; NaN and the infinities, which are not JSON, are left out.
-/

namespace TxnOpt

/-- A number literal with a fraction or an exponent. -/
structure FloatLiteral where
  negative : Bool
  whole : ℕ
  /-- the digits after the point; none without a point -/
  fraction : List Char
  /-- sign and digits after the `e`; none without an `e` -/
  exponent : Option (Bool × List Char)
  deriving DecidableEq, Repr

inductive Json where
  | null
  | bool (value : Bool)
  | int (value : Int)
  | float (literal : FloatLiteral)
  | str (value : String)
  | arr (items : List Json)
  | obj (members : List (String × Json))
  deriving Repr

namespace Json

/-! ### Printing -/

/-- How nested values are laid out. -/
structure Layout where
  /-- the text after a bracket or a comma, at a nesting level -/
  newline : ℕ → List Char
  /-- the text between a colon and its value -/
  gap : List Char

/-- `separators=(",", ":")`. -/
def compact : Layout := ⟨fun _ => [], []⟩

/-- `indent=width`. -/
def indented (width : ℕ) : Layout := ⟨fun level => '\n' :: List.replicate (width * level) ' ', [' ']⟩

/-- A UTF-16 unit as a `\u` escape. -/
def unicodeEscape (unit : ℕ) : List Char :=
  ['\\', 'u', Nat.digitChar (unit / 4096 % 16), Nat.digitChar (unit / 256 % 16),
    Nat.digitChar (unit / 16 % 16), Nat.digitChar (unit % 16)]

def escapeChar (c : Char) : List Char :=
  if c = '"' then ['\\', '"']
  else if c = '\\' then ['\\', '\\']
  else if c = '\n' then ['\\', 'n']
  else if c = '\r' then ['\\', 'r']
  else if c = '\t' then ['\\', 't']
  else if c = '\x0c' then ['\\', 'f']
  else if c = '\x08' then ['\\', 'b']
  else if 32 ≤ c.toNat ∧ c.toNat ≤ 126 then [c]
  else if c.toNat < 65536 then unicodeEscape c.toNat
  else unicodeEscape (55296 + (c.toNat - 65536) / 1024) ++ unicodeEscape (56320 + (c.toNat - 65536) % 1024)

def renderString (value : String) : List Char := '"' :: value.toList.flatMap escapeChar ++ ['"']

def renderInt : Int → List Char
  | .ofNat n => Nat.toDigits 10 n
  | .negSucc n => '-' :: Nat.toDigits 10 (n + 1)

def renderFraction (digits : List Char) : List Char := if digits = [] then [] else '.' :: digits

def renderExponent : Option (Bool × List Char) → List Char
  | none => []
  | some (negative, digits) => 'e' :: (if negative then '-' else '+') :: digits

def renderFloat (literal : FloatLiteral) : List Char :=
  (if literal.negative then ['-'] else []) ++ (Nat.toDigits 10 literal.whole ++
    (renderFraction literal.fraction ++ renderExponent literal.exponent))

variable (layout : Layout)

mutual

/-- The text of a value at a nesting level. -/
def render (level : ℕ) : Json → List Char
  | .null => ['n', 'u', 'l', 'l']
  | .bool true => ['t', 'r', 'u', 'e']
  | .bool false => ['f', 'a', 'l', 's', 'e']
  | .int value => renderInt value
  | .float literal => renderFloat literal
  | .str value => renderString value
  | .arr [] => ['[', ']']
  | .arr (item :: items) =>
      '[' :: layout.newline (level + 1) ++ render (level + 1) item ++ renderItems (level + 1) items ++
        layout.newline level ++ [']']
  | .obj [] => ['{', '}']
  | .obj ((key, value) :: members) =>
      '{' :: layout.newline (level + 1) ++ renderString key ++ ':' :: layout.gap ++
        render (level + 1) value ++ renderMembers (level + 1) members ++ layout.newline level ++ ['}']

/-- The further items of an array. -/
def renderItems (level : ℕ) : List Json → List Char
  | [] => []
  | item :: items => ',' :: layout.newline level ++ render level item ++ renderItems level items

/-- The further members of an object. -/
def renderMembers (level : ℕ) : List (String × Json) → List Char
  | [] => []
  | (key, value) :: members =>
      ',' :: layout.newline level ++ renderString key ++ ':' :: layout.gap ++ render level value ++
        renderMembers level members

end

mutual

/-- `sort_keys=True`. -/
def sortKeys : Json → Json
  | .arr items => .arr (sortItems items)
  | .obj members => .obj (sortedBy Prod.fst (sortMembers members))
  | value => value

def sortItems : List Json → List Json
  | [] => []
  | item :: items => sortKeys item :: sortItems items

def sortMembers : List (String × Json) → List (String × Json)
  | [] => []
  | (key, value) :: members => (key, sortKeys value) :: sortMembers members

end

/-! ### Parsing -/

def isSpace (c : Char) : Bool := c = ' ' || c = '\t' || c = '\n' || c = '\r'

def skipSpace (text : List Char) : List Char := text.dropWhile isSpace

/-- A character of a string, written plainly or as a `\u` escape. -/
inductive StringUnit where
  | plain (c : Char)
  | escaped (unit : ℕ)
  deriving DecidableEq, Repr

def hexValue (c : Char) : Option ℕ :=
  if '0' ≤ c ∧ c ≤ '9' then some (c.toNat - 48)
  else if 'a' ≤ c ∧ c ≤ 'f' then some (c.toNat - 87)
  else if 'A' ≤ c ∧ c ≤ 'F' then some (c.toNat - 55)
  else none

def hexUnit (a b c d : Char) : Option ℕ := do
  let a ← hexValue a
  let b ← hexValue b
  let c ← hexValue c
  let d ← hexValue d
  pure (a * 4096 + b * 256 + c * 16 + d)

def simpleEscape (c : Char) : Option Char :=
  if c = '"' then some '"'
  else if c = '\\' then some '\\'
  else if c = '/' then some '/'
  else if c = 'n' then some '\n'
  else if c = 'r' then some '\r'
  else if c = 't' then some '\t'
  else if c = 'f' then some '\x0c'
  else if c = 'b' then some '\x08'
  else none

/-- One unit of a string body, and the text after it. -/
def parseUnit : List Char → Option (StringUnit × List Char)
  | '\\' :: 'u' :: a :: b :: c :: d :: rest => (hexUnit a b c d).map fun unit => (.escaped unit, rest)
  | '\\' :: c :: rest => (simpleEscape c).map fun c => (.plain c, rest)
  | c :: rest => if c = '\\' ∨ c.toNat < 32 then none else some (.plain c, rest)
  | [] => none

/-- The units of a string body up to the closing quote, and the text after it. -/
def parseUnits : ℕ → List Char → Option (List StringUnit × List Char)
  | 0, _ => none
  | _, '"' :: rest => some ([], rest)
  | fuel + 1, text =>
      (parseUnit text).bind fun (unit, rest) =>
        (parseUnits fuel rest).map fun (units, rest) => (unit :: units, rest)

/-- Put surrogate pairs together. A lone surrogate is not a character. -/
def joinUnits : List StringUnit → Option (List Char)
  | [] => some []
  | .plain c :: units => (joinUnits units).map (c :: ·)
  | .escaped high :: .escaped low :: units =>
      if 55296 ≤ high ∧ high < 56320 then
        if 56320 ≤ low ∧ low < 57344 then
          (joinUnits units).map (Char.ofNat (65536 + (high - 55296) * 1024 + (low - 56320)) :: ·)
        else none
      else if 56320 ≤ high ∧ high < 57344 then none
      else (joinUnits (.escaped low :: units)).map (Char.ofNat high :: ·)
  | .escaped unit :: units =>
      if 55296 ≤ unit ∧ unit < 57344 then none else (joinUnits units).map (Char.ofNat unit :: ·)

def parseString (text : List Char) : Option (String × List Char) :=
  (parseUnits (text.length + 1) text).bind fun (units, rest) =>
    (joinUnits units).map fun chars => (String.ofList chars, rest)

/-- `0` or digits that do not start with `0`. -/
def parseWhole (text : List Char) : Option (ℕ × List Char) :=
  match text with
  | '0' :: rest => some (0, rest)
  | text =>
      let digits := text.takeWhile Char.isDigit
      if digits = [] then none else some (Nat.ofDigitChars 10 digits 0, text.dropWhile Char.isDigit)

/-- `(\.[0-9]+)?`. -/
def parseFraction (text : List Char) : List Char × List Char :=
  match text with
  | '.' :: rest =>
      if rest.takeWhile Char.isDigit = [] then ([], text) else (rest.takeWhile Char.isDigit, rest.dropWhile Char.isDigit)
  | text => ([], text)

/-- `[-+]?`. -/
def parseSign : List Char → Bool × List Char
  | '-' :: rest => (true, rest)
  | '+' :: rest => (false, rest)
  | text => (false, text)

/-- `([eE][-+]?[0-9]+)?`. -/
def parseExponent (text : List Char) : Option (Bool × List Char) × List Char :=
  if text.head? = some 'e' ∨ text.head? = some 'E' then
    let (negative, rest) := parseSign text.tail
    if rest.takeWhile Char.isDigit = [] then (none, text)
    else (some (negative, rest.takeWhile Char.isDigit), rest.dropWhile Char.isDigit)
  else (none, text)

def parseNumber (text : List Char) : Option (Json × List Char) :=
  let (negative, text) := match text with
    | '-' :: rest => (true, rest)
    | text => (false, text)
  (parseWhole text).map fun (whole, rest) =>
    let (fraction, rest) := parseFraction rest
    let (exponent, rest) := parseExponent rest
    if fraction = [] ∧ exponent = none then (.int (if negative then -whole else whole), rest)
    else (.float ⟨negative, whole, fraction, exponent⟩, rest)

/-- `dict(pairs)`: on a repeated key the last value wins. -/
def dictOf (pairs : List (String × Json)) : List (String × Json) :=
  pairs.foldl (fun members pair =>
    if pair.1 ∈ members.map Prod.fst then
      members.map fun member => if member.1 = pair.1 then pair else member
    else members ++ [pair]) []

mutual

/-- A value, without space before it, and the text after it. -/
def parseValue : ℕ → List Char → Option (Json × List Char)
  | 0, _ => none
  | _ + 1, 'n' :: 'u' :: 'l' :: 'l' :: rest => some (.null, rest)
  | _ + 1, 't' :: 'r' :: 'u' :: 'e' :: rest => some (.bool true, rest)
  | _ + 1, 'f' :: 'a' :: 'l' :: 's' :: 'e' :: rest => some (.bool false, rest)
  | _ + 1, '"' :: rest => (parseString rest).map fun (value, rest) => (.str value, rest)
  | fuel + 1, '[' :: rest =>
      match skipSpace rest with
      | ']' :: rest => some (.arr [], rest)
      | rest => (parseItems fuel rest).map fun (items, rest) => (.arr items, rest)
  | fuel + 1, '{' :: rest =>
      match skipSpace rest with
      | '}' :: rest => some (.obj [], rest)
      | rest => (parseMembers fuel rest).map fun (members, rest) => (.obj (dictOf members), rest)
  | _ + 1, text => parseNumber text

/-- Items up to the closing bracket. -/
def parseItems : ℕ → List Char → Option (List Json × List Char)
  | 0, _ => none
  | fuel + 1, text =>
      (parseValue fuel text).bind fun (item, rest) =>
        match skipSpace rest with
        | ']' :: rest => some ([item], rest)
        | ',' :: rest => (parseItems fuel (skipSpace rest)).map fun (items, rest) => (item :: items, rest)
        | _ => none

/-- Members up to the closing brace. -/
def parseMembers : ℕ → List Char → Option (List (String × Json) × List Char)
  | fuel + 1, '"' :: text =>
      (parseString text).bind fun (key, rest) =>
        match skipSpace rest with
        | ':' :: rest =>
            (parseValue fuel (skipSpace rest)).bind fun (value, rest) =>
              match skipSpace rest with
              | '}' :: rest => some ([(key, value)], rest)
              | ',' :: rest =>
                  (parseMembers fuel (skipSpace rest)).map fun (members, rest) =>
                    ((key, value) :: members, rest)
              | _ => none
        | _ => none
  | _, _ => none

end

def asStr? : Json → Option String
  | .str value => some value
  | _ => none

def asInt? : Json → Option Int
  | .int value => some value
  | _ => none

def asArr? : Json → Option (List Json)
  | .arr items => some items
  | _ => none

/-- `json.loads`. -/
def loads (text : List Char) : Option Json :=
  (parseValue (text.length + 1) (skipSpace text)).bind fun (value, rest) =>
    if skipSpace rest = [] then some value else none

end Json

end TxnOpt
