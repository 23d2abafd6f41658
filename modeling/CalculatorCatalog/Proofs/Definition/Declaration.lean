import CalculatorCatalog.Definition.Extraction
import CalculatorCatalog.Proofs.Text.Layout

/-!
# Declarations and how they are written

A `Declaration` is what the author of a source has in mind: the attributes of a definition, of which
all but the identifier and the key of the title may be left out, and its fields and result labels.
`Declaration.toDefinition` is the definition it stands for, with a default for everything that is
left out.

The rest of the module is the grammar of the sources that declare them, as relations between what is
written and the texts it may be written as. The attributes of a declaration stand in any order, a
literal has quotes of either kind, constructors and collections may be marked as constant, and white
space may stand between any two tokens. `SourceText` relates a list of declarations to the sources
that list them.
-/

set_option autoImplicit false
set_option relaxedAutoImplicit false

namespace CalculatorCatalog.Definition

open CalculatorCatalog.Number CalculatorCatalog.Text

/-! ### Declarations -/

/-- The characters of identifiers, names and keys. -/
def isPhraseCharacter (c : Char) : Bool :=
  isWordCharacter c || c == ' ' || c == '.' || c == '-'

/-- An identifier, a name or a key: a text in which nothing has to be escaped. -/
structure Phrase where
  text : String
  ne_nil : text.toList ≠ []
  phrase : text.toList.all isPhraseCharacter = true

/-- The name of the unit that computes the results. -/
structure UnitName where
  text : String
  word : IsWord text.toList

/-- A whole number that the 64-bit binary format represents together with its neighbours. -/
structure WholeNumber where
  value : Int
  small : value.natAbs < Nat.pow 2 53

/-- The number as a binary one. -/
def WholeNumber.toBinary64 (number : WholeNumber) : Binary64 :=
  .finite (number.value < 0) (number.value.natAbs * Binary64.one)

/-- What is declared of a field. -/
structure FieldDeclaration where
  key : Phrase
  labelKey : Phrase
  defaultValue : Option WholeNumber
  minValue : Option WholeNumber
  maxValue : Option WholeNumber
  required : Option Bool

/-- What is declared of a result: its name and the key of its label. -/
structure LabelDeclaration where
  name : Phrase
  labelKey : Phrase

/-- What is declared of a calculator. -/
structure Declaration where
  id : Phrase
  titleKey : Phrase
  category : Option Phrase
  subCategory : Option Phrase
  computation : Option UnitName
  fields : Option (List FieldDeclaration)
  resultLabels : Option (List LabelDeclaration)

/-- The field that is declared. -/
def FieldDeclaration.toField (field : FieldDeclaration) : Field where
  key := field.key.text
  labelKey := field.labelKey.text
  defaultValue := (field.defaultValue.map WholeNumber.toBinary64).getD Field.standardDefault
  minValue := field.minValue.map WholeNumber.toBinary64
  maxValue := field.maxValue.map WholeNumber.toBinary64
  required := field.required.getD true

/-- The result label that is declared. -/
def LabelDeclaration.toLabel (label : LabelDeclaration) : ResultLabel where
  name := label.name.text
  labelKey := label.labelKey.text

/-- The definition that is declared at a place of a source. -/
def Declaration.toDefinition (declaration : Declaration) (location : Location) : Definition where
  id := declaration.id.text
  titleKey := declaration.titleKey.text
  category := (declaration.category.map Phrase.text).getD ""
  subCategory := (declaration.subCategory.map Phrase.text).getD ""
  computation := declaration.computation.map UnitName.text
  fields := (declaration.fields.getD []).map FieldDeclaration.toField
  resultLabels := (declaration.resultLabels.getD []).map LabelDeclaration.toLabel
  location := location

/-! ### Tokens and values -/

/-- A literal with quotes of either kind. -/
inductive Quoted (value : List Char) : List Char → Prop
  | single : Quoted value ('\x27' :: (value ++ ['\x27']))
  | double : Quoted value ('\x22' :: (value ++ ['\x22']))

/-- The decimal digits of a whole number, after a minus sign if it is negative. -/
def decimal (value : Int) : List Char :=
  if value < 0 then '-' :: Nat.toDigits 10 value.natAbs else Nat.toDigits 10 value.natAbs

/-- A text with or without the constant marker before it. White space must stand between the marker
and a word. -/
inductive MaybeConst (text : List Char) : List Char → Prop
  | unmarked : MaybeConst text text
  | marked {gap : List Char} (hgap : isBlank gap = true)
      (hdivided : gap ≠ [] ∨ isWordAt text.head? = false) :
      MaybeConst text (constWord ++ (gap ++ text))

/-- A call of a constructor with the given text between its brackets. -/
inductive CallText (constructor : List Char) (writes : List Char → Prop) : List Char → Prop
  | intro {gap inner text : List Char} (hgap : isBlank gap = true) (hinner : writes inner)
      (htext : MaybeConst (constructor ++ (gap ++ '(' :: (inner ++ [')']))) text) :
      CallText constructor writes text

/-- A collection between brackets. -/
inductive CollectionText (opens closes : Char) (writes : List Char → Prop) : List Char → Prop
  | intro {inner text : List Char} (hinner : writes inner)
      (htext : MaybeConst (opens :: (inner ++ [closes])) text) :
      CollectionText opens closes writes text

/-- A name and a value, divided by a colon. -/
inductive PairText (writesName writesValue : List Char → Prop) : List Char → Prop
  | intro {name gap gap' value : List Char} (hname : writesName name) (hgap : isBlank gap = true)
      (hgap' : isBlank gap' = true) (hvalue : writesValue value) :
      PairText writesName writesValue (name ++ (gap ++ ':' :: (gap' ++ value)))

/-! ### Fields -/

/-- One attribute of a field. -/
inductive FieldAttribute where
  | key (value : Phrase)
  | labelKey (value : Phrase)
  | defaultValue (value : WholeNumber)
  | minValue (value : WholeNumber)
  | maxValue (value : WholeNumber)
  | required (value : Bool)

namespace FieldAttribute

/-- The name of an attribute in a source. -/
def name : FieldAttribute → String
  | key _ => "key"
  | labelKey _ => "labelKey"
  | defaultValue _ => "defaultValue"
  | minValue _ => "minValue"
  | maxValue _ => "maxValue"
  | required _ => "required"

/-- How the value of an attribute is written. -/
def WritesValue : FieldAttribute → List Char → Prop
  | key value => Quoted value.text.toList
  | labelKey value => Quoted value.text.toList
  | defaultValue value => (· = decimal value.value)
  | minValue value => (· = decimal value.value)
  | maxValue value => (· = decimal value.value)
  | required value => (· = if value then "true".toList else "false".toList)

/-- How an attribute is written. -/
def Writes (item : FieldAttribute) : List Char → Prop :=
  PairText (· = item.name.toList) item.WritesValue

end FieldAttribute

namespace FieldDeclaration

/-- The attributes that are declared. -/
def attributes (field : FieldDeclaration) : List FieldAttribute :=
  [.key field.key, .labelKey field.labelKey] ++
    field.defaultValue.toList.map .defaultValue ++ field.minValue.toList.map .minValue ++
    field.maxValue.toList.map .maxValue ++ field.required.toList.map .required

/-- How the inside of a declaration is written: its attributes in any order. -/
def WritesInner (field : FieldDeclaration) (text : List Char) : Prop :=
  ∃ order, List.Perm order field.attributes ∧ Separated FieldAttribute.Writes order text

/-- How a field is written. -/
def Writes (field : FieldDeclaration) : List Char → Prop :=
  CallText fieldConstructor field.WritesInner

end FieldDeclaration

/-- How a result label is written. -/
def LabelDeclaration.Writes (label : LabelDeclaration) : List Char → Prop :=
  PairText (Quoted label.name.text.toList) (Quoted label.labelKey.text.toList)

/-! ### Definitions -/

/-- One attribute of a definition. -/
inductive DefinitionAttribute where
  | id (value : Phrase)
  | titleKey (value : Phrase)
  | category (value : Phrase)
  | subCategory (value : Phrase)
  | computation (value : UnitName)
  | fields (value : List FieldDeclaration)
  | resultLabels (value : List LabelDeclaration)

namespace DefinitionAttribute

/-- The name of an attribute in a source. -/
def name : DefinitionAttribute → String
  | id _ => "id"
  | titleKey _ => "titleKey"
  | category _ => "category"
  | subCategory _ => "subCategory"
  | computation _ => "useCase"
  | fields _ => "fields"
  | resultLabels _ => "resultLabels"

/-- How the value of an attribute is written. -/
def WritesValue : DefinitionAttribute → List Char → Prop
  | id value => Quoted value.text.toList
  | titleKey value => Quoted value.text.toList
  | category value => Quoted value.text.toList
  | subCategory value => Quoted value.text.toList
  | computation value => CallText value.text.toList (isBlank · = true)
  | fields value => CollectionText '[' ']' (Separated FieldDeclaration.Writes value)
  | resultLabels value => CollectionText '\x7b' '\x7d' (Separated LabelDeclaration.Writes value)

/-- How an attribute is written. -/
def Writes (item : DefinitionAttribute) : List Char → Prop :=
  PairText (· = item.name.toList) item.WritesValue

end DefinitionAttribute

namespace Declaration

/-- The attributes that are declared. -/
def attributes (declaration : Declaration) : List DefinitionAttribute :=
  [.id declaration.id, .titleKey declaration.titleKey] ++
    declaration.category.toList.map .category ++ declaration.subCategory.toList.map .subCategory ++
    declaration.computation.toList.map .computation ++ declaration.fields.toList.map .fields ++
    declaration.resultLabels.toList.map .resultLabels

/-- How the inside of a declaration is written: its attributes in any order. -/
def WritesInner (declaration : Declaration) (text : List Char) : Prop :=
  ∃ order, List.Perm order declaration.attributes ∧ Separated DefinitionAttribute.Writes order text

/-- How a declaration is written. -/
def Writes (declaration : Declaration) : List Char → Prop :=
  CallText definitionConstructor declaration.WritesInner

end Declaration

/-- A source that consists of a list of declarations and a semicolon. -/
inductive SourceText (declarations : List Declaration) : List Char → Prop
  | intro {gap list gap' gap'' : List Char} (hgap : isBlank gap = true)
      (hlist : CollectionText '[' ']' (Separated Declaration.Writes declarations) list)
      (hgap' : isBlank gap' = true) (hgap'' : isBlank gap'' = true) :
      SourceText declarations (gap ++ (list ++ (gap' ++ ';' :: gap'')))

/-! ### Every declaration can be written -/

theorem exists_callText {constructor : List Char} {writes : List Char → Prop}
    (h : ∃ inner, writes inner) : ∃ text, CallText constructor writes text := by
  obtain ⟨inner, hinner⟩ := h
  exact ⟨_, .intro isBlank_nil hinner .unmarked⟩

theorem exists_collectionText {opens closes : Char} {writes : List Char → Prop}
    (h : ∃ inner, writes inner) : ∃ text, CollectionText opens closes writes text := by
  obtain ⟨inner, hinner⟩ := h
  exact ⟨_, .intro hinner .unmarked⟩

theorem exists_pairText {name : List Char} {writesName writesValue : List Char → Prop}
    (hname : writesName name) (h : ∃ value, writesValue value) :
    ∃ text, PairText writesName writesValue text := by
  obtain ⟨value, hvalue⟩ := h
  exact ⟨_, .intro hname isBlank_nil isBlank_nil hvalue⟩

theorem FieldAttribute.exists_writes (item : FieldAttribute) : ∃ text, item.Writes text := by
  refine exists_pairText rfl ?_
  cases item with
  | key value => exact ⟨_, .single⟩
  | labelKey value => exact ⟨_, .single⟩
  | defaultValue value => exact ⟨_, rfl⟩
  | minValue value => exact ⟨_, rfl⟩
  | maxValue value => exact ⟨_, rfl⟩
  | required value => exact ⟨_, rfl⟩

theorem FieldDeclaration.exists_writes (field : FieldDeclaration) : ∃ text, field.Writes text := by
  obtain ⟨inner, hinner⟩ := exists_separated FieldAttribute.exists_writes field.attributes
  exact exists_callText ⟨inner, field.attributes, .refl _, hinner⟩

theorem LabelDeclaration.exists_writes (label : LabelDeclaration) : ∃ text, label.Writes text :=
  exists_pairText .single ⟨_, .single⟩

theorem DefinitionAttribute.exists_writes (item : DefinitionAttribute) :
    ∃ text, item.Writes text := by
  refine exists_pairText rfl ?_
  cases item with
  | id value => exact ⟨_, .single⟩
  | titleKey value => exact ⟨_, .single⟩
  | category value => exact ⟨_, .single⟩
  | subCategory value => exact ⟨_, .single⟩
  | computation value => exact exists_callText ⟨[], isBlank_nil⟩
  | fields value =>
    exact exists_collectionText (exists_separated FieldDeclaration.exists_writes value)
  | resultLabels value =>
    exact exists_collectionText (exists_separated LabelDeclaration.exists_writes value)

theorem Declaration.exists_writes (declaration : Declaration) :
    ∃ text, declaration.Writes text := by
  obtain ⟨inner, hinner⟩ :=
    exists_separated DefinitionAttribute.exists_writes declaration.attributes
  exact exists_callText ⟨inner, declaration.attributes, .refl _, hinner⟩

/-- Every list of declarations has a source. -/
theorem exists_sourceText (declarations : List Declaration) :
    ∃ text, SourceText declarations text := by
  obtain ⟨list, hlist⟩ :=
    exists_collectionText (exists_separated Declaration.exists_writes declarations)
  exact ⟨_, .intro isBlank_nil hlist isBlank_nil isBlank_nil⟩

end CalculatorCatalog.Definition
