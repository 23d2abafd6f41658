import CalculatorCatalog.Text.Recognizer

/-!
# Spans of declarations

A declaration is a call of a constructor. `spans` cuts a text into such calls without a grammar: a
span opens where the constructor is called and closes at the first closing bracket that is followed
by another call of the same constructor or by the end of the list. The search for the next span
resumes right after the bracket that closed the last one, or after the opening if nothing closes it,
so spans do not overlap.
-/

set_option autoImplicit false
set_option relaxedAutoImplicit false

namespace CalculatorCatalog.Definition

open CalculatorCatalog.Text

/-- The name of the constructor of definitions. -/
def definitionConstructor : List Char := "CalculatorDefinition".toList

/-- The name of the constructor of input fields. -/
def fieldConstructor : List Char := "InputFieldDefinition".toList

/-- A call of a constructor, constant or not, up to and including its opening bracket. -/
def afterConstructor? (constructor text : List Char) : Option (List Char) :=
  (afterConst? text >>= afterCall? constructor) <|> afterCall? constructor text

/-- Where a declaration opens: a call of the constructor at a word boundary. -/
def opening (constructor : List Char) : Recognizer Unit := fun before text ↦
  if isWordBoundary before text.head? then (afterConstructor? constructor text).map ((), ·)
  else none

/-- The text after a closing bracket, an optional comma and the white space around it. -/
def afterSeparator? (text : List Char) : Option (List Char) := do
  let text := skipWhite (← afterWord? [')'] text)
  return match text with
    | ',' :: rest => skipWhite rest
    | _ => text

/-- Where a definition closes: at a bracket that is followed by another definition or by the end
of a list and its semicolon. -/
def definitionClosing : Recognizer Unit := fun _ text ↦ do
  let text ← afterSeparator? text
  let listEnd := (afterWord? [']'] text).bind fun rest ↦ afterWord? [';'] (skipWhite rest)
  return ((), ← afterConstructor? definitionConstructor text <|> listEnd)

/-- Where a field closes: at a bracket that is followed by another field or by nothing. -/
def fieldClosing : Recognizer Unit := fun _ text ↦ do
  let text ← afterSeparator? text
  let listEnd := if text.isEmpty then some [] else none
  return ((), ← afterConstructor? fieldConstructor text <|> listEnd)

/-- A call of a constructor as it stands in a text, at byte offsets of that text. -/
inductive Span where
  /-- A span that closes: where it opens, where its inside begins, what is inside, and the text
  from the closing bracket on. -/
  | closed (offset innerOffset : Nat) (inner following : List Char)
  /-- A span without an end. -/
  | unterminated (offset : Nat)
  deriving DecidableEq, Repr

/-- The span whose inside begins at `innerOffset`, and the number of characters from there on that
the search passes over. -/
def closeSpan (closing : Recognizer Unit) (offset innerOffset : Nat) (inside : List Char) :
    Span × Nat :=
  match first? closing none inside with
  | some found =>
    (.closed offset innerOffset found.passed (inside.drop found.passed.length),
      found.passed.length + 1)
  | none => (.unterminated offset, 0)

/-- The spans of a text that begins at the byte `offset`, after passing over `skip` characters. -/
def spansFrom (opens closes : Recognizer Unit) :
    Nat → Option Char → Nat → List Char → List Span
  | _, _, _, [] => []
  | skip + 1, _, offset, c :: text =>
    spansFrom opens closes skip (some c) (offset + c.utf8Size) text
  | 0, before, offset, c :: text =>
    match opens before (c :: text) with
    | none => spansFrom opens closes 0 (some c) (offset + c.utf8Size) text
    | some (_, inside) =>
      let innerOffset := offset + byteLength ((c :: text).take ((c :: text).length - inside.length))
      let (span, passed) := closeSpan closes offset innerOffset inside
      span :: spansFrom opens closes (text.length - inside.length + passed) (some c)
        (offset + c.utf8Size) text

/-- The spans of a text that begins at the given byte offset. -/
def spans (opens closes : Recognizer Unit) (offset : Nat) (text : List Char) : List Span :=
  spansFrom opens closes 0 none offset text

end CalculatorCatalog.Definition
