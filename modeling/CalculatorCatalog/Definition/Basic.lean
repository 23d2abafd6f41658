import CalculatorCatalog.Json.Value
import CalculatorCatalog.Source

/-!
# Calculator definitions

A `Definition` is one declared calculator: its names, its input fields, and the labels of its
results. Texts that a user reads are not part of it; it refers to them by dotted label keys, which
`Definition.labelKeys` lists together with the role each plays. `Definition.toJson` is its form in
reports.
-/

set_option autoImplicit false
set_option relaxedAutoImplicit false

namespace CalculatorCatalog

open CalculatorCatalog.Number

/-- One input of a calculator. A bound that is absent does not limit the input. -/
structure Field where
  key : String
  labelKey : String
  defaultValue : Binary64
  minValue : Option Binary64
  maxValue : Option Binary64
  required : Bool
  deriving DecidableEq, Repr

/-- The name of a result and the key of the label it is shown with. -/
structure ResultLabel where
  name : String
  labelKey : String
  deriving DecidableEq, Repr

/-- One declared calculator. The identifier and the key of the title are never missing; the other
attributes are empty or absent when the declaration does not give them. -/
structure Definition where
  id : String
  titleKey : String
  category : String
  subCategory : String
  /-- The name of the unit that computes the results. -/
  computation : Option String
  fields : List Field
  resultLabels : List ResultLabel
  location : Location
  deriving DecidableEq, Repr

/-- The part that a label key plays in a definition. -/
inductive LabelRole where
  | title
  | field
  | result
  deriving DecidableEq, Repr

/-- The role in words. -/
def LabelRole.phrase : LabelRole → String
  | .title => "title"
  | .field => "field label"
  | .result => "result label"

/-- The value of a field that declares no default. -/
def Field.standardDefault : Binary64 := .finite false 0

/-- An optional number; an absent bound is null. -/
def Field.boundJson : Option Binary64 → Json
  | none => .null
  | some value => .float value

/-- A field as reports show it. -/
def Field.toJson (field : Field) : Json :=
  .object [
    ("key", .string field.key),
    ("labelKey", .string field.labelKey),
    ("defaultValue", .float field.defaultValue),
    ("minValue", boundJson field.minValue),
    ("maxValue", boundJson field.maxValue),
    ("required", .bool field.required)]

namespace Definition

/-- Every label key that a definition refers to: its title, its fields, its results. -/
def labelKeys (definition : Definition) : List (LabelRole × String) :=
  (LabelRole.title, definition.titleKey)
    :: definition.fields.map (fun field ↦ (LabelRole.field, field.labelKey))
    ++ definition.resultLabels.map (fun label ↦ (LabelRole.result, label.labelKey))

/-- The result labels as members of an object, by name; a name that is declared twice is written
twice. -/
def resultLabelsJson (definition : Definition) : Json :=
  .object (definition.resultLabels.map fun label ↦ (label.name, .string label.labelKey))

/-- The members that a definition contributes to a report. -/
def jsonMembers (definition : Definition) : List (String × Json) := [
  ("id", .string definition.id),
  ("titleKey", .string definition.titleKey),
  ("category", .string definition.category),
  ("subCategory", .string definition.subCategory),
  ("computationRef", Json.ofOption definition.computation),
  ("fields", .array (definition.fields.map Field.toJson)),
  ("resultLabels", definition.resultLabelsJson),
  ("file", .string definition.location.file),
  ("line", .integer definition.location.line)]

/-- A definition as reports show it. -/
def toJson (definition : Definition) : Json :=
  .object definition.jsonMembers

end Definition

end CalculatorCatalog
