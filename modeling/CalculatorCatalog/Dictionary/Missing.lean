import CalculatorCatalog.Definition.Basic
import CalculatorCatalog.Dictionary.Basic
import CalculatorCatalog.Text.SortedStrings

/-!
# Missing label texts

`Dictionary.missing` lists the label keys of a definition that the dictionary has no text for, in
the order of the declaration and each once. An empty text counts as missing. `missingKeys` collects
the keys of many definitions as a sorted set.
-/

set_option autoImplicit false
set_option relaxedAutoImplicit false

namespace CalculatorCatalog

/-- A label key without a text, and the first role that it has in its definition. -/
structure MissingLabel where
  key : String
  role : LabelRole
  /-- The key is not a section and a short key, so no text could be found for it. -/
  malformed : Bool
  deriving DecidableEq, Repr

namespace Dictionary

/-- The label keys of a list that are neither in `seen` nor repeated. -/
def firstUses (seen : List String) : List (LabelRole × String) → List (LabelRole × String)
  | [] => []
  | (role, key) :: keys =>
    if key ∈ seen then firstUses seen keys else (role, key) :: firstUses (key :: seen) keys

/-- The label as missing, if the dictionary has no text for its key. -/
def missingLabel? (dictionary : Dictionary) (role : LabelRole) (key : String) :
    Option MissingLabel :=
  match dictionary.resolve key with
  | .found _ => none
  | .malformed => some ⟨key, role, true⟩
  | .empty => some ⟨key, role, false⟩
  | .absent => some ⟨key, role, false⟩

/-- The labels of a definition that the dictionary has no text for. -/
def missing (dictionary : Dictionary) (definition : Definition) : List MissingLabel :=
  (firstUses [] definition.labelKeys).filterMap fun (role, key) ↦
    dictionary.missingLabel? role key

/-- The text of a definition's title, if there is one. -/
def title? (dictionary : Dictionary) (definition : Definition) : Option String :=
  match dictionary.resolve definition.titleKey with
  | .found text => some text
  | _ => none

/-- The keys of missing labels, ascending and each once. -/
def missingKeys (labels : List MissingLabel) : List String :=
  Text.sortedSet (labels.map (·.key))

end Dictionary

end CalculatorCatalog
