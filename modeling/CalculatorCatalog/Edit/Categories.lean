import CalculatorCatalog.Edit.Basic
import CalculatorCatalog.Text.Recognizer
import CalculatorCatalog.Vocabulary

/-!
# Renaming categories

Generated sources name their category as a member of an enumeration: `category: Namespace.name`.
`renameCategories` gives every such name that is out of date its new name and leaves all other text
as it is, comments and literals included in the search.
-/

set_option autoImplicit false
set_option relaxedAutoImplicit false

namespace CalculatorCatalog.Edit

open CalculatorCatalog.Text

/-- Passes over white space, as much as possible, to where a reading succeeds. -/
def afterWhite? {α : Type} (reading : List Char → Option α) : List Char → Option α
  | [] => reading []
  | c :: text =>
    if isWhiteSpace c then afterWhite? reading text <|> reading (c :: text) else reading (c :: text)

/-- The member of an enumeration, and the text after it. -/
def memberName? (namespaceName : List Char) (text : List Char) :
    Option (List Char × List Char) := do
  let text ← afterWord? namespaceName text
  let text ← afterWord? ['.'] text
  let name := text.takeWhile isWordCharacter
  if name.isEmpty then none else some (name, text.dropWhile isWordCharacter)

/-- A category attribute whose value is a member of the given enumeration. The name of the
enumeration is taken literally, even if it begins with white space. -/
def categoryMember (namespaceName : List Char) : Recognizer (List Char) := fun before text ↦ do
  let text ← afterBoundedWord? "category".toList before text
  let text ← afterWord? [':'] (skipWhite text)
  afterWhite? (memberName? namespaceName) text

/-- The new name for the name of a category. -/
def newName (name : List Char) : List Char :=
  (Vocabulary.renamedCategory (String.ofList name)).toList

/-- The text of a piece after renaming: only the name at its end changes. -/
def renamedPiece : Piece (List Char) → List Char
  | .plain c => [c]
  | .found matched name => matched.take (matched.length - name.length) ++ newName name

/-- The changes that renaming makes to pieces which begin on the given line. -/
def renames (line : Nat) : List (Piece (List Char)) → List Change
  | [] => []
  | .plain c :: rest => renames (if c = '\n' then line + 1 else line) rest
  | .found matched name :: rest =>
    let line := line + matched.count '\n'
    if newName name = name then renames line rest
    else .categoryRenamed line (String.ofList name) (String.ofList (newName name))
      :: renames line rest

/-- Gives every category of an enumeration its new name. -/
def renameCategories (namespaceName content : String) : Edit :=
  let found := pieces (categoryMember namespaceName.toList) content.toList
  ⟨String.ofList (found.flatMap renamedPiece), renames 1 found⟩

end CalculatorCatalog.Edit
