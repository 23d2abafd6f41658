import CalculatorCatalog.Text.Utf8

/-!
# Places in source files

A `Location` names a file, a line and a column, both counted from one, the column in characters.
An `Excerpt` adds the text of the line for display. `lineNumber` and `excerptAt` find them for a
byte offset; `excerptAt?` answers only for offsets at which a character begins or the text ends.
-/

set_option autoImplicit false
set_option relaxedAutoImplicit false

namespace CalculatorCatalog

open CalculatorCatalog.Text

/-- A place in a file. -/
structure Location where
  file : String
  line : Nat
  column : Nat
  deriving DecidableEq, Repr

/-- A place in a file with the text of its line. -/
structure Excerpt where
  location : Location
  sourceLine : String
  deriving DecidableEq, Repr

namespace Source

/-- The text without the carriage returns at its end. -/
def trimReturns (text : List Char) : List Char :=
  text.reverse.dropWhile (· == '\r') |>.reverse

/-- One more than the number of line breaks before the offset. -/
def lineNumber (text : List Char) (offset : Nat) : Nat :=
  1 + (takeBytes offset text).count '\n'

/-- The part of a line that a text ends with, when the text is cut in the middle of the line. -/
def openLine (text : List Char) : List Char :=
  text.reverse.takeWhile (· != '\n') |>.reverse

/-- The place between two parts of a text, with the line it is on. -/
def excerptBetween (file : String) (before after : List Char) : Excerpt where
  location := ⟨file, 1 + before.count '\n', 1 + (openLine before).length⟩
  sourceLine := String.ofList (trimReturns (openLine before ++ after.takeWhile (· != '\n')))

/-- The place at a byte offset. -/
def excerptAt (file : String) (text : List Char) (offset : Nat) : Excerpt :=
  excerptBetween file (takeBytes offset text) (dropBytes offset text)

/-- The place at a byte offset, if a character begins there or the text ends there. -/
def excerptAt? (file : String) (text : List Char) (offset : Nat) : Option Excerpt :=
  (splitBytes? offset text).map fun (before, after) ↦ excerptBetween file before after

/-! ### Lines by number -/

/-- The text after the given number of lines. -/
def afterLines : Nat → List Char → List Char
  | 0, text => text
  | _ + 1, [] => []
  | count + 1, c :: text =>
    if c = '\n' then afterLines count text else afterLines (count + 1) text

/-- The text without one carriage return at its end. -/
def trimReturn (text : List Char) : List Char :=
  if text.getLast? = some '\r' then text.dropLast else text

/-- The text of the line with the given number, empty if there is none. A carriage return belongs to
the line break after it; at the end of the text it belongs to the line. -/
def lineText (text : List Char) (number : Nat) : List Char :=
  let rest := afterLines (number - 1) text
  let line := rest.takeWhile (· != '\n')
  if line.length < rest.length then trimReturn line else line

end Source

end CalculatorCatalog
