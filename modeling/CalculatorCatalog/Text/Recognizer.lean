import CalculatorCatalog.Text.WhiteSpace
import CalculatorCatalog.Text.WordCharacter
import CalculatorCatalog.Text.Lexical

/-!
# Recognisers

A `Recognizer` looks at one place of a text, given by the character before it and the text after
it, and either declines or gives a value and the text that follows what it has read. `first?` finds
the first place at which it does not decline; `pieces` reads a text from left to right into what it
recognises and the single characters in between, without overlaps.

The rest of the module holds the recognisers that several parts of the library share: a fixed word,
the name of an attribute with its colon, a quoted value, and a call of a constructor.
-/

set_option autoImplicit false
set_option relaxedAutoImplicit false

namespace CalculatorCatalog.Text

/-- Reads a value at a place of a text, given the character before the place and the text after it;
the answer comes with what is left. -/
abbrev Recognizer (α : Type) : Type :=
  Option Char → List Char → Option (α × List Char)

/-! ### Searching -/

/-- A value found in a text: what was passed over, the value, and what follows it. -/
structure Occurrence (α : Type) where
  passed : List Char
  value : α
  rest : List Char

/-- The first occurrence of what a recogniser reads, the end of the text included. -/
def first? {α : Type} (recognize : Recognizer α) (before : Option Char) :
    List Char → Option (Occurrence α)
  | [] => (recognize before []).map fun (value, rest) ↦ ⟨[], value, rest⟩
  | c :: text =>
    match recognize before (c :: text) with
    | some (value, rest) => some ⟨[], value, rest⟩
    | none => (first? recognize (some c) text).map fun found ↦
        { found with passed := c :: found.passed }

/-- The value of the first occurrence. -/
def firstValue? {α : Type} (recognize : Recognizer α) (text : List Char) : Option α :=
  (first? recognize none text).map (·.value)

/-- A part of a text that has been read: one character, or what a recogniser has matched together
with its value. -/
inductive Piece (α : Type) where
  | plain (c : Char)
  | found (matched : List Char) (value : α)

/-- The text that a piece covers. -/
def Piece.source {α : Type} : Piece α → List Char
  | .plain c => [c]
  | .found matched _ => matched

/-- Reads a text into pieces after passing over `skip` characters. -/
def piecesFrom {α : Type} (recognize : Recognizer α) :
    Nat → Option Char → List Char → List (Piece α)
  | _, _, [] => []
  | skip + 1, _, c :: text => piecesFrom recognize skip (some c) text
  | 0, before, c :: text =>
    match recognize before (c :: text) with
    | none => .plain c :: piecesFrom recognize 0 (some c) text
    | some (value, rest) =>
      .found ((c :: text).take ((c :: text).length - rest.length)) value ::
        piecesFrom recognize (text.length - rest.length) (some c) text

/-- Reads a text from left to right into occurrences, which do not overlap, and the characters
between them. The recogniser is expected to read at least one character. -/
def pieces {α : Type} (recognize : Recognizer α) (text : List Char) : List (Piece α) :=
  piecesFrom recognize 0 none text

/-- The values of all occurrences. -/
def values {α : Type} (recognize : Recognizer α) (text : List Char) : List α :=
  (pieces recognize text).filterMap fun
    | .plain _ => none
    | .found _ value => some value

/-- Replaces every occurrence by the text that the recogniser gives for it. -/
def replaceAll (recognize : Recognizer (List Char)) (text : List Char) : List Char :=
  (pieces recognize text).flatMap fun
    | .plain c => [c]
    | .found _ replacement => replacement

/-! ### Shared recognisers -/

/-- The text after a fixed word, if it begins with that word. -/
def afterWord? (word text : List Char) : Option (List Char) :=
  match word, text with
  | [], text => some text
  | _ :: _, [] => none
  | expected :: word, c :: text => if c = expected then afterWord? word text else none

/-- The text after a fixed word that begins at a word boundary. -/
def afterBoundedWord? (word : List Char) (before : Option Char) (text : List Char) :
    Option (List Char) :=
  if isWordBoundary before text.head? then afterWord? word text else none

/-- The text after an attribute's name and its colon; white space may stand around the colon. -/
def afterAttributeName? (name : List Char) (before : Option Char) (text : List Char) :
    Option (List Char) := do
  let text ← afterBoundedWord? name before text
  let text ← afterWord? [':'] (skipWhite text)
  return skipWhite text

/-- A value between quotes of either kind: not empty, and without quotes of either kind. -/
def quotedValue? (text : List Char) : Option (List Char × List Char) :=
  match text with
  | [] => none
  | quote :: text =>
    if isQuote quote then
      match text.takeWhile (!isQuote ·), text.dropWhile (!isQuote ·) with
      | c :: value, _ :: rest => some (c :: value, rest)
      | _, _ => none
    else none

/-- The text after the opening bracket of a call of the named constructor. -/
def afterCall? (constructor text : List Char) : Option (List Char) := do
  let text ← afterWord? constructor text
  afterWord? ['('] (skipWhite text)

/-- The word that marks a constant expression. -/
def constWord : List Char := "const".toList

/-- The text after the constant marker and the white space that must follow it. -/
def afterConst? (text : List Char) : Option (List Char) := do
  let text ← afterWord? constWord text
  match text with
  | [] => none
  | c :: rest => if isWhiteSpace c then some (skipWhite rest) else none

end CalculatorCatalog.Text
