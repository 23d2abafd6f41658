import CalculatorCatalog.Definition.Attribute
import CalculatorCatalog.Definition.Basic
import CalculatorCatalog.Definition.Span

/-!
# Extraction of definitions

`extract` recovers the definitions declared in one source file. It works on the source with its
comments hidden: `spans` finds the declarations, everything nested inside a declaration is masked so
that its own attributes are not confused with those of its fields, and each attribute is searched
for on its own. Fields repeat these steps inside the list of fields.

What opens like a declaration but cannot be used is kept as a `Dropped` with its place and the
reason. A definition needs an identifier and a title, a field a key and a label; everything else has
a default. A definition without an identifier or a title reports nothing about its fields.
-/

set_option autoImplicit false
set_option relaxedAutoImplicit false

namespace CalculatorCatalog

open CalculatorCatalog.Text

/-- The two kinds of declaration. -/
inductive DeclarationKind where
  | definition
  | field
  deriving DecidableEq, Repr

/-- The kind in words. -/
def DeclarationKind.phrase : DeclarationKind → String
  | .definition => "definition"
  | .field => "field"

/-- Why a declaration cannot be used. -/
inductive DropReason where
  | unterminated
  | missingId
  | missingTitleKey
  | missingFieldKey
  | missingFieldLabel
  deriving DecidableEq, Repr

/-- The reason in words. -/
def DropReason.phrase : DropReason → String
  | .unterminated => "no closing boundary found"
  | .missingId => "no `id` attribute"
  | .missingTitleKey => "no `titleKey` attribute"
  | .missingFieldKey => "field has no `key` attribute"
  | .missingFieldLabel => "field has no `labelKey` attribute"

/-- A declaration that cannot be used. -/
structure Dropped where
  kind : DeclarationKind
  excerpt : Excerpt
  reason : DropReason
  deriving DecidableEq, Repr

/-- What one source file declares: the definitions, and what had to be dropped, in the order in
which it was found. -/
structure Extraction where
  definitions : List Definition
  dropped : List Dropped
  deriving DecidableEq, Repr

/-- The number of definitions that were dropped. -/
def Extraction.failureCount (extraction : Extraction) : Nat :=
  extraction.dropped.countP (·.kind = .definition)

namespace Definition

/-- A value, or the given reason if there is none. -/
def required {α : Type} (reason : DropReason) : Option α → Except DropReason α
  | some value => .ok value
  | none => .error reason

/-- Reads a field from the text between its brackets. -/
def readField (inner : List Char) : Except DropReason Field := do
  let masked := maskNested inner
  let key ← required .missingFieldKey (firstValue? (stringAttribute "key") masked)
  let labelKey ← required .missingFieldLabel (firstValue? (stringAttribute "labelKey") masked)
  return {
    key, labelKey
    defaultValue :=
      (firstValue? (numberAttribute "defaultValue") masked).getD Field.standardDefault
    minValue := firstValue? (numberAttribute "minValue") masked
    maxValue := firstValue? (numberAttribute "maxValue") masked
    required := (firstValue? (flagAttribute "required") masked).getD true }

/-- Reads the field of one span; a field that cannot be used is dropped with its place, which
`place` finds for an offset. -/
def fieldOfSpan (place : Nat → Excerpt) : Span → Except Dropped Field
  | .unterminated offset => .error ⟨.field, place offset, .unterminated⟩
  | .closed offset _ inner _ => (readField inner).mapError fun reason ↦
      ⟨.field, place offset, reason⟩

/-- The values among a list of results. -/
def successes {ε α : Type} (results : List (Except ε α)) : List α :=
  results.filterMap Except.toOption

/-- The errors among a list of results. -/
def failures {ε α : Type} (results : List (Except ε α)) : List ε :=
  results.filterMap fun
    | .error error => some error
    | .ok _ => none

/-- The text between the brackets of a nested attribute, with its offset. The bracket is searched
for at the top level of the declaration; its partner may lie anywhere in the text that begins with
the inside of the declaration and runs to the end of the source. -/
def nestedRegion? (name : String) (bracket : Char) (innerOffset : Nat) (masked text : List Char) :
    Option (Nat × List Char) := do
  let found ← first? (bracketAttribute name bracket) none masked
  let start := byteLength masked - byteLength found.rest
  let (region, _) ← enclosed? (dropBytes start text)
  return (innerOffset + start, region)

/-- The results of reading the fields that a definition lists. -/
def readFields (place : Nat → Excerpt) (innerOffset : Nat) (masked text : List Char) :
    List (Except Dropped Field) :=
  match nestedRegion? "fields" '[' innerOffset masked text with
  | none => []
  | some (offset, region) =>
    (spans (opening fieldConstructor) fieldClosing offset region).map (fieldOfSpan place)

/-- The result labels that a definition lists. -/
def readResultLabels (innerOffset : Nat) (masked text : List Char) : List ResultLabel :=
  match nestedRegion? "resultLabels" '\x7b' innerOffset masked text with
  | none => []
  | some (_, region) => (values resultLabelPair region).map fun (name, labelKey) ↦ ⟨name, labelKey⟩

/-- Reads a definition from the text between its brackets, which `following` continues to the end
of the source: the fields that were dropped, and the definition or the reason to drop it. -/
def readDefinition (place : Nat → Excerpt) (offset innerOffset : Nat)
    (inner following : List Char) : List Dropped × Except DropReason Definition :=
  let masked := maskNested inner
  match firstValue? (stringAttribute "id") masked,
      firstValue? (stringAttribute "titleKey") masked with
  | none, _ => ([], .error .missingId)
  | some _, none => ([], .error .missingTitleKey)
  | some id, some titleKey =>
    let fields := readFields place innerOffset masked (inner ++ following)
    (failures fields, .ok {
      id, titleKey
      category := (firstValue? (stringAttribute "category") masked).getD ""
      subCategory := (firstValue? (stringAttribute "subCategory") masked).getD ""
      computation := firstValue? computationAttribute masked
      fields := successes fields
      resultLabels := readResultLabels innerOffset masked (inner ++ following)
      location := (place offset).location })

/-- What one span contributes to the extraction. -/
def extractSpan (place : Nat → Excerpt) : Span → Extraction
  | .unterminated offset => ⟨[], [⟨.definition, place offset, .unterminated⟩]⟩
  | .closed offset innerOffset inner following =>
    match readDefinition place offset innerOffset inner following with
    | (dropped, .ok definition) => ⟨[definition], dropped⟩
    | (dropped, .error reason) => ⟨[], dropped ++ [⟨.definition, place offset, reason⟩]⟩

/-- The definitions declared in a source file and what had to be dropped. -/
def extract (file content : String) : Extraction :=
  let text := content.toList
  let found := (spans (opening definitionConstructor) definitionClosing 0 (blankComments text)).map
    (extractSpan (Source.excerptAt file text))
  ⟨found.flatMap (·.definitions), found.flatMap (·.dropped)⟩

end Definition

end CalculatorCatalog
