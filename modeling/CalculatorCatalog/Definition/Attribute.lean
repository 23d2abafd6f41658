import CalculatorCatalog.Number.Binary64
import CalculatorCatalog.Text.Recognizer

/-!
# Attributes of a declaration

Inside a declaration each attribute is found by a recogniser of its own, so that their order does
not matter: `stringAttribute`, `numberAttribute`, `flagAttribute` and `computationAttribute` read
the name of the attribute, a colon and the value. `bracketAttribute` finds the bracket that opens
the value of a nested attribute, `resultLabelPair` one entry of the result labels.

A number is a decimal: digits with an optional fraction, or a fraction alone, and an optional
exponent; it is rounded to the nearest representable number.
-/

set_option autoImplicit false
set_option relaxedAutoImplicit false

namespace CalculatorCatalog.Definition

open CalculatorCatalog.Number CalculatorCatalog.Text

/-! ### Numbers -/

/-- The number that decimal digits stand for. -/
def digitsValue (digits : List Char) : Nat :=
  digits.foldl (fun value c ↦ 10 * value + (c.toNat - 48)) 0

/-- The decimal exponent at the beginning of a text, or zero if there is none, and what follows. -/
def readExponent (text : List Char) : Int × List Char :=
  match text with
  | mark :: rest =>
    if mark = 'e' ∨ mark = 'E' then
      let negative := rest.head? = some '-'
      let unsigned := if rest.head? = some '-' ∨ rest.head? = some '+' then rest.drop 1 else rest
      match unsigned.takeWhile Char.isDigit with
      | [] => (0, text)
      | digits =>
        let value : Int := digitsValue digits
        (if negative then -value else value, unsigned.dropWhile Char.isDigit)
    else (0, text)
  | [] => (0, [])

/-- The digits of a decimal without its sign and exponent: those before the point and those after
it, and what follows. A point counts only if a digit comes after it. -/
def readMantissa? (text : List Char) : Option (List Char × List Char × List Char) :=
  let whole := text.takeWhile Char.isDigit
  let rest := text.dropWhile Char.isDigit
  let fraction := match rest with
    | '.' :: after => after.takeWhile Char.isDigit
    | _ => []
  if !fraction.isEmpty then some (whole, fraction, rest.drop (fraction.length + 1))
  else if !whole.isEmpty then some (whole, [], rest)
  else none

/-- A decimal at the beginning of a text. -/
def readNumber? (text : List Char) : Option (Binary64 × List Char) := do
  let negative := text.head? = some '-'
  let (whole, fraction, rest) ← readMantissa? (if negative then text.drop 1 else text)
  let (exponent, rest) := readExponent rest
  return (.ofDecimal negative (digitsValue (whole ++ fraction)) (exponent - fraction.length), rest)

/-! ### Recognisers -/

/-- An attribute whose value stands between quotes. -/
def stringAttribute (name : String) : Recognizer String := fun before text ↦ do
  let (value, rest) ← quotedValue? (← afterAttributeName? name.toList before text)
  return (String.ofList value, rest)

/-- An attribute whose value is a number. -/
def numberAttribute (name : String) : Recognizer Binary64 := fun before text ↦ do
  readNumber? (← afterAttributeName? name.toList before text)

/-- The text after a word that ends at a word boundary. -/
def afterWholeWord? (word text : List Char) : Option (List Char) := do
  let rest ← afterWord? word text
  if isWordAt rest.head? then none else some rest

/-- An attribute whose value is a truth value. -/
def flagAttribute (name : String) : Recognizer Bool := fun before text ↦ do
  let text ← afterAttributeName? name.toList before text
  ((afterWholeWord? "true".toList text).map (true, ·)) <|>
    ((afterWholeWord? "false".toList text).map (false, ·))

/-- The name of a call: word characters, then an opening bracket. -/
def callName? (text : List Char) : Option (String × List Char) := do
  let name := text.takeWhile isWordCharacter
  if name.isEmpty then none
  else
    let rest ← afterWord? ['('] (skipWhite (text.dropWhile isWordCharacter))
    return (String.ofList name, rest)

/-- The attribute that names the unit which computes the results by calling its constructor. -/
def computationAttribute : Recognizer String := fun before text ↦ do
  let text ← afterAttributeName? "useCase".toList before text
  (afterConst? text >>= callName?) <|> callName? text

/-- An attribute whose value is a nested text that begins with the given bracket, constant or not.
What it reads ends right after the bracket. -/
def bracketAttribute (name : String) (bracket : Char) : Recognizer Unit := fun before text ↦ do
  let text ← afterAttributeName? name.toList before text
  let constant := (afterWord? constWord text).bind fun rest ↦ afterWord? [bracket] (skipWhite rest)
  let rest ← constant <|> afterWord? [bracket] text
  return ((), rest)

/-- One entry of the result labels: a quoted name, a colon and a quoted label key. -/
def resultLabelPair : Recognizer (String × String) := fun _ text ↦ do
  let (name, rest) ← quotedValue? text
  let rest ← afterWord? [':'] (skipWhite rest)
  let (labelKey, rest) ← quotedValue? (skipWhite rest)
  return ((String.ofList name, String.ofList labelKey), rest)

end CalculatorCatalog.Definition
