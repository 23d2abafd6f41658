import CalculatorCatalog.Text.LetterCase
import CalculatorCatalog.Text.Recognizer
import CalculatorCatalog.Vocabulary

/-!
# Names

How names are derived from names: `snakeCase` turns a camel-case name into the name of a file,
`readable` turns a short key into a label, and `chooseLabel` prefers a label that is known
beforehand. `plural` picks the form of a noun that goes with a count.
-/

set_option autoImplicit false
set_option relaxedAutoImplicit false

namespace CalculatorCatalog.Naming

open CalculatorCatalog.Text

/-! ### Snake case -/

/-- A capitalised word and the character before it, which must be on the same line; the two are
divided by an underscore. Only ASCII letters make a word. -/
def wordStart : Recognizer (List Char) := fun _ text ↦
  match text with
  | c :: capital :: small :: rest =>
    if c ≠ '\n' ∧ capital.isUpper ∧ small.isLower then
      some (c :: '_' :: capital :: small :: rest.takeWhile Char.isLower,
        rest.dropWhile Char.isLower)
    else none
  | _ => none

/-- A small letter or digit and a capital after it, divided by an underscore. -/
def lowerUpper : Recognizer (List Char) := fun _ text ↦
  match text with
  | small :: capital :: rest =>
    if (small.isLower ∨ small.isDigit) ∧ capital.isUpper then some ([small, '_', capital], rest)
    else none
  | _ => none

/-- A camel-case name in snake case. A run of capitals stays together, except that its last one
begins the word that follows. -/
def snakeCase (name : String) : String :=
  String.ofList (lowercaseText (replaceAll lowerUpper (replaceAll wordStart name.toList)))

/-! ### Labels -/

/-- Puts a space before every capital that follows a small letter. -/
def spaced (afterLower : Bool) : List Char → List Char
  | [] => []
  | c :: text =>
    (if afterLower && isUppercase c then [' ', c] else [c]) ++ spaced (isLowercase c) text

/-- A camel-case key as a label in sentence case. -/
def readable (key : String) : String :=
  match spaced false key.toList with
  | [] => ""
  | first :: rest => String.ofList (uppercase first ++ rest.flatMap lowercase)

/-- Where the text of a label comes from. -/
inductive LabelSource where
  /-- It is known beforehand. -/
  | curated
  /-- It is derived from the key. -/
  | generated
  deriving DecidableEq, Repr

/-- The text to enter for a short key, and where it comes from. -/
def chooseLabel (shortKey : String) : String × LabelSource :=
  match Vocabulary.curatedLabel? shortKey with
  | some label => (label, .curated)
  | none => (readable shortKey, .generated)

/-- The form of a noun that goes with a count. -/
def plural (count : Nat) (one many : String) : String :=
  if count = 1 then one else many

end CalculatorCatalog.Naming
