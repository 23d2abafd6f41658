import CalculatorCatalog.Text.Recognizer
import CalculatorCatalog.Text.SortedStrings

/-!
# Citations of building norms

Sources cite building norms by one of five abbreviations, in any letter case, with an optional code
after it. `citation` recognises one citation and `citations` collects those of a text, each once and
in ascending order.

A code follows the abbreviation directly or after one hyphen or space. The longest code counts that
ends at a word boundary; if there is none, the abbreviation alone is a citation, provided that a
word ends after it.
-/

set_option autoImplicit false
set_option relaxedAutoImplicit false

namespace CalculatorCatalog.Citation

open CalculatorCatalog.Text

/-- An abbreviation of a kind of norm. -/
structure Abbreviation where
  /-- For each letter the characters that may stand for it. -/
  letters : List (List Char)
  /-- The characters besides digits that its codes may hold. -/
  codeMarks : List Char

/-- The rounded letters have forms of their own in old manuscripts. -/
def abbreviations : List Abbreviation :=
  let es : List Char := ['С', 'с', '\u1C83']
  let pe : List Char := ['П', 'п']
  [⟨[['Г', 'г'], ['Э', 'э'], es, ['Н', 'н']], []⟩,
    ⟨[['Ф', 'ф'], ['Е', 'е'], ['Р', 'р']], []⟩,
    ⟨[es, ['Н', 'н'], ['И', 'и'], pe], ['.']⟩,
    ⟨[es, pe], ['.']⟩,
    ⟨[['Г', 'г'], ['О', 'о', '\u1C82'], es, ['Т', 'т', '\u1C84', '\u1C85']], ['-']⟩]

/-- The text after an abbreviation. -/
def afterLetters? : List (List Char) → List Char → Option (List Char)
  | [], text => some text
  | _ :: _, [] => none
  | forms :: letters, c :: text => if c ∈ forms then afterLetters? letters text else none

/-- The text after the longest run of code characters that ends at a word boundary. The run is not
empty. -/
def afterRun? (codeMarks : List Char) : List Char → Option (List Char)
  | [] => none
  | c :: text =>
    if isDecimalDigit c || codeMarks.contains c then
      afterRun? codeMarks text <|> (if isWordBoundary (some c) text.head? then some text else none)
    else none

/-- The text after an optional code that follows an abbreviation. -/
def afterCode? (codeMarks : List Char) (text : List Char) : Option (List Char) :=
  let separated := match text with
    | c :: rest => if c = '-' ∨ c = ' ' then afterRun? codeMarks rest else none
    | [] => none
  separated <|> afterRun? codeMarks text <|> (if isWordAt text.head? then none else some text)

/-- A citation: it begins at a word boundary with one of the abbreviations. -/
def citation : Recognizer Unit := fun before text ↦
  if isWordBoundary before text.head? then
    abbreviations.findSome? fun abbreviation ↦
      ((afterLetters? abbreviation.letters text).bind
        (afterCode? abbreviation.codeMarks)).map ((), ·)
  else none

/-- The citations in a text, as they are written, each once and in ascending order. -/
def citations (text : List Char) : List String :=
  sortedSet ((pieces citation text).filterMap fun
    | .plain _ => none
    | .found matched _ => some (String.ofList matched))

end CalculatorCatalog.Citation
