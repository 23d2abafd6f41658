import CalculatorCatalog.Json.Value
import CalculatorCatalog.Number.Shortest

/-!
# JSON texts

`Json.compact` writes a value without any blanks; `Json.pretty` indents by two spaces and puts every
item and member on a line of its own, empty arrays and objects apart. Strings escape the double
quote, the backslash and the controls below the space, and nothing else. Numbers that are not whole
have the shortest digits that read back; they are written positionally, with a fraction, from 10⁻⁵
up to but not including 10¹⁶, and with an exponent elsewhere. What is not finite is written `null`.
-/

set_option autoImplicit false
set_option relaxedAutoImplicit false

namespace CalculatorCatalog.Json

open CalculatorCatalog.Number

/-- A hexadecimal digit in lower case. -/
def hexDigit (value : Nat) : Char :=
  if value < 10 then Char.ofNat (48 + value) else Char.ofNat (87 + value)

/-- The written form of one character of a string. -/
def escapeCharacter (c : Char) : List Char :=
  if c = '\x22' then ['\\', '\x22']
  else if c = '\\' then ['\\', '\\']
  else if c = '\n' then ['\\', 'n']
  else if c = '\r' then ['\\', 'r']
  else if c = '\t' then ['\\', 't']
  else if c.toNat = 8 then ['\\', 'b']
  else if c.toNat = 12 then ['\\', 'f']
  else if c.toNat < 32 then
    ['\\', 'u', '0', '0', hexDigit (c.toNat / 16), hexDigit (c.toNat % 16)]
  else [c]

/-- A string between double quotes. -/
def quote (text : String) : List Char :=
  '\x22' :: text.toList.flatMap escapeCharacter ++ ['\x22']

/-- Whether a decimal is written positionally. -/
def isPositional (decimal : Decimal) : Bool :=
  -5 ≤ decimal.magnitude && decimal.magnitude < 16

/-- A number of the 64-bit binary format. -/
def floatText : Binary64 → List Char
  | .finite negative units =>
    let sign := if negative then ['-'] else []
    if units = 0 then sign ++ ['0', '.', '0']
    else
      let decimal := Binary64.shortest units
      sign ++ (if isPositional decimal then decimal.plain else decimal.scientific)
  | _ => "null".toList

/-- A whole number. -/
def integerText (value : Int) : List Char :=
  (if value < 0 then ['-'] else []) ++ Nat.toDigits 10 value.natAbs

/-- A truth value. -/
def boolText (value : Bool) : List Char :=
  if value then "true".toList else "false".toList

mutual

/-- The text of a value without blanks. -/
def compactText : Json → List Char
  | .null => "null".toList
  | .bool value => boolText value
  | .integer value => integerText value
  | .float value => floatText value
  | .string value => quote value
  | .array items => '[' :: compactItems items ++ [']']
  | .object members => '\x7b' :: compactMembers members ++ ['\x7d']

/-- The items of an array, divided by commas. -/
def compactItems : List Json → List Char
  | [] => []
  | [value] => compactText value
  | value :: items => compactText value ++ ',' :: compactItems items

/-- The members of an object, divided by commas. -/
def compactMembers : List (String × Json) → List Char
  | [] => []
  | [(name, value)] => quote name ++ ':' :: compactText value
  | (name, value) :: members =>
    quote name ++ ':' :: compactText value ++ ',' :: compactMembers members

end

/-- A line break and the indentation of the given level. -/
def lineBreak (level : Nat) : List Char :=
  '\n' :: List.replicate (2 * level) ' '

mutual

/-- The indented text of a value that stands at the given level. -/
def prettyText (level : Nat) : Json → List Char
  | .null => "null".toList
  | .bool value => boolText value
  | .integer value => integerText value
  | .float value => floatText value
  | .string value => quote value
  | .array [] => ['[', ']']
  | .array (value :: items) =>
    '[' :: prettyItems (level + 1) (value :: items) ++ lineBreak level ++ [']']
  | .object [] => ['\x7b', '\x7d']
  | .object (first :: members) =>
    '\x7b' :: prettyMembers (level + 1) (first :: members) ++ lineBreak level ++ ['\x7d']

/-- The items of an array, each on a line of its own. -/
def prettyItems (level : Nat) : List Json → List Char
  | [] => []
  | [value] => lineBreak level ++ prettyText level value
  | value :: items => lineBreak level ++ prettyText level value ++ ',' :: prettyItems level items

/-- The members of an object, each on a line of its own. -/
def prettyMembers (level : Nat) : List (String × Json) → List Char
  | [] => []
  | [(name, value)] => lineBreak level ++ quote name ++ ':' :: ' ' :: prettyText level value
  | (name, value) :: members =>
    lineBreak level ++ quote name ++ ':' :: ' ' :: prettyText level value
      ++ ',' :: prettyMembers level members

end

/-- The text of a value without blanks. -/
def compact (value : Json) : String :=
  String.ofList (compactText value)

/-- The text of a value, indented by two spaces. -/
def pretty (value : Json) : String :=
  String.ofList (prettyText 0 value)

end CalculatorCatalog.Json
