import CalculatorCatalog.Proofs.Definition.Lists

/-!
# The attributes of fields and definitions

`fieldGrammar` and `definitionGrammar` say of the attributes of fields and of definitions what the
search for attributes needs to know: their names are words and their values can be told apart from
what surrounds them (`IsValue`). `FieldDeclaration.declares` and `Declaration.declares` say which
attributes a declaration has under each name.
-/

set_option autoImplicit false
set_option relaxedAutoImplicit false

namespace CalculatorCatalog.Definition

open CalculatorCatalog.Text

/-! ### Balanced texts -/

theorem CallText.balanced {constructor : List Char} {writes : List Char → Prop} {text : List Char}
    (h : CallText constructor writes text) (hconstructor : IsWord constructor)
    (hwrites : ∀ inner, writes inner → Balanced inner) : Balanced text := by
  obtain ⟨hgap, hinner, htext⟩ := h
  refine htext.balanced ((Balanced.of_plain hconstructor.isPlain).append ?_)
  exact (Balanced.of_plain (isPlain_gap hgap)).append (.brackets rfl (hwrites _ hinner) rfl)

theorem LabelDeclaration.Writes.balanced {label : LabelDeclaration} {text : List Char}
    (h : label.Writes text) : Balanced text := by
  obtain ⟨hname, hgap, hgap', hkey⟩ := h
  refine hname.isValue.balanced.append ((Balanced.of_plain (isPlain_gap hgap)).append ?_)
  exact .plain rfl ((Balanced.of_plain (isPlain_gap hgap')).append hkey.isValue.balanced)

/-- The names of all attributes are words. -/
theorem isWord_attributeNames :
    ∀ name ∈ ["key", "labelKey", "defaultValue", "minValue", "maxValue", "required", "id",
      "titleKey", "category", "subCategory", "useCase", "fields", "resultLabels"],
      IsWord name.toList := by
  have hnames : ∀ name ∈ ["key", "labelKey", "defaultValue", "minValue", "maxValue", "required",
      "id", "titleKey", "category", "subCategory", "useCase", "fields", "resultLabels"],
      name.toList ≠ [] ∧ name.toList.all isWordCharacter = true := by decide
  exact fun name hname ↦ ⟨(hnames name hname).1, (hnames name hname).2⟩

/-! ### Fields -/

/-- The attributes of a field. -/
def fieldGrammar : AttributeSyntax FieldAttribute where
  name := FieldAttribute.name
  writesValue := FieldAttribute.WritesValue
  isWord_name item := by
    apply isWord_attributeNames
    cases item <;> simp [FieldAttribute.name]
  isValue item text h := by
    cases item with
    | key value => exact Quoted.isValue h
    | labelKey value => exact Quoted.isValue h
    | defaultValue value =>
      obtain rfl := h
      exact isValue_decimal value.value
    | minValue value =>
      obtain rfl := h
      exact isValue_decimal value.value
    | maxValue value =>
      obtain rfl := h
      exact isValue_decimal value.value
    | required value =>
      obtain rfl := h
      cases value <;> exact isValue_of_isWord ⟨by decide, rfl⟩

/-- An attribute of a field is told by its name. -/
theorem FieldAttribute.exists_of_name :
    (∀ item : FieldAttribute, item.name = "key" → ∃ value, item = .key value) ∧
    (∀ item : FieldAttribute, item.name = "labelKey" → ∃ value, item = .labelKey value) ∧
    (∀ item : FieldAttribute, item.name = "defaultValue" → ∃ value, item = .defaultValue value) ∧
    (∀ item : FieldAttribute, item.name = "minValue" → ∃ value, item = .minValue value) ∧
    (∀ item : FieldAttribute, item.name = "maxValue" → ∃ value, item = .maxValue value) ∧
    (∀ item : FieldAttribute, item.name = "required" → ∃ value, item = .required value) := by
  refine ⟨?_, ?_, ?_, ?_, ?_, ?_⟩ <;> intro item hname <;> cases item <;>
    simp_all [FieldAttribute.name]

namespace FieldDeclaration

variable (field : FieldDeclaration)

/-- The attributes that a field has. -/
theorem mem_attributes_iff (item : FieldAttribute) :
    item ∈ field.attributes ↔
      match item with
      | .key value => some field.key = some value
      | .labelKey value => some field.labelKey = some value
      | .defaultValue value => field.defaultValue = some value
      | .minValue value => field.minValue = some value
      | .maxValue value => field.maxValue = some value
      | .required value => field.required = some value := by
  cases item <;> simp [attributes, eq_comm]

/-- What a field declares under each name. -/
theorem declares :
    fieldGrammar.Declares field.attributes "key" .key (some field.key) ∧
    fieldGrammar.Declares field.attributes "labelKey" .labelKey (some field.labelKey) ∧
    fieldGrammar.Declares field.attributes "defaultValue" .defaultValue field.defaultValue ∧
    fieldGrammar.Declares field.attributes "minValue" .minValue field.minValue ∧
    fieldGrammar.Declares field.attributes "maxValue" .maxValue field.maxValue ∧
    fieldGrammar.Declares field.attributes "required" .required field.required := by
  have hmem := field.mem_attributes_iff
  have hword {name : String} := isWord_attributeNames name
  obtain ⟨hkey, hlabelKey, hdefault, hmin, hmax, hrequired⟩ := FieldAttribute.exists_of_name
  exact ⟨⟨hword (by decide), fun _ ↦ rfl, fun _ ↦ hmem _, hkey⟩,
    ⟨hword (by decide), fun _ ↦ rfl, fun _ ↦ hmem _, hlabelKey⟩,
    ⟨hword (by decide), fun _ ↦ rfl, fun _ ↦ hmem _, hdefault⟩,
    ⟨hword (by decide), fun _ ↦ rfl, fun _ ↦ hmem _, hmin⟩,
    ⟨hword (by decide), fun _ ↦ rfl, fun _ ↦ hmem _, hmax⟩,
    ⟨hword (by decide), fun _ ↦ rfl, fun _ ↦ hmem _, hrequired⟩⟩

end FieldDeclaration

theorem FieldDeclaration.WritesInner.balanced {field : FieldDeclaration} {inner : List Char}
    (h : field.WritesInner inner) : Balanced inner := by
  obtain ⟨order, -, hinner⟩ := h
  exact hinner.balanced fun item text hitem ↦
    (show fieldGrammar.Writes item text from hitem).balanced

theorem FieldDeclaration.Writes.balanced {field : FieldDeclaration} {text : List Char}
    (h : field.Writes text) : Balanced text :=
  CallText.balanced h isConstructor_field.isWord fun _ ↦ WritesInner.balanced

/-! ### Definitions -/

section Values

variable {opens closes : Char} {writes : List Char → Prop} {text : List Char}

/-- A collection with a balanced inside is a value. -/
theorem CollectionText.isValue (h : CollectionText opens closes writes text)
    (hopens : isOpening opens = true) (hcloses : isClosing closes = true)
    (hwrites : ∀ inner, writes inner → Balanced inner) : IsValue text := by
  obtain ⟨hinner, htext⟩ := h
  rename_i inner
  have hmask := Balanced.maskNested_brackets hopens (hwrites _ hinner) hcloses
  have hwhite : isWhiteSpace opens = false := isWhiteSpace_of_isOpening hopens
  have hbrackets : IsValue (opens :: (inner ++ [closes])) := by
    refine ⟨.brackets hopens (hwrites _ hinner) hcloses, ?_, fun rest ↦ ?_⟩
    · have hfirst : ':' ≠ opens := by
        rintro rfl
        cases hopens
      have hlast : ':' ≠ closes := by
        rintro rfl
        cases hcloses
      have hblanks : ':' ∉ blanks inner := notMem_gap (blank_blanks inner) (by decide)
      rw [hmask]
      simp [hfirst, hlast, hblanks]
    · rw [hmask]
      exact skipWhite_cons hwhite _
  exact hbrackets.of_maybeConst (by rw [hmask]; rfl) htext

/-- A call, masked: what stands between its brackets is hidden. -/
theorem maskNested_call {name gap inner : List Char} (hname : IsWord name)
    (hgap : isBlank gap = true) (hinner : Balanced inner) :
    maskNested (name ++ (gap ++ '(' :: (inner ++ [')']))) =
      name ++ (gap ++ '(' :: (blanks inner ++ [')'])) := by
  rw [maskNested_plain_append hname.isPlain, maskNested_plain_append (isPlain_gap hgap),
    Balanced.maskNested_brackets rfl hinner rfl]

/-- A call with a balanced inside is a value. -/
theorem CallText.isValue {name : List Char} (h : CallText name writes text) (hname : IsWord name)
    (hwrites : ∀ inner, writes inner → Balanced inner) : IsValue text := by
  obtain ⟨hgap, hinner, htext⟩ := h
  rename_i gap inner
  have hmask := maskNested_call hname hgap (hwrites _ hinner)
  have hcall : IsValue (name ++ (gap ++ '(' :: (inner ++ [')']))) := by
    refine ⟨?_, ?_, fun rest ↦ ?_⟩
    · exact (Balanced.of_plain hname.isPlain).append ((Balanced.of_plain (isPlain_gap hgap)).append
        (.brackets rfl (hwrites _ hinner) rfl))
    · have hblanks : ':' ∉ blanks inner := notMem_gap (blank_blanks inner) (by decide)
      have hgap' : ':' ∉ gap := notMem_gap hgap (by decide)
      have hname' : ':' ∉ name := hname.notMem (by decide)
      rw [hmask]
      simp [hname', hgap', hblanks]
    · rw [hmask, List.append_assoc]
      exact hname.skipWhite_append _
  refine hcall.of_maybeConst ?_ htext
  rw [hmask, hname.isWordAt_head?, hname.isWordAt_head?]

end Values

/-- The attributes of a definition. -/
def definitionGrammar : AttributeSyntax DefinitionAttribute where
  name := DefinitionAttribute.name
  writesValue := DefinitionAttribute.WritesValue
  isWord_name item := by
    apply isWord_attributeNames
    cases item <;> simp [DefinitionAttribute.name]
  isValue item text h := by
    cases item with
    | id value => exact Quoted.isValue h
    | titleKey value => exact Quoted.isValue h
    | category value => exact Quoted.isValue h
    | subCategory value => exact Quoted.isValue h
    | computation value =>
      exact CallText.isValue h value.word fun inner hinner ↦ .of_plain (isPlain_gap hinner)
    | fields value =>
      exact CollectionText.isValue h rfl rfl fun inner hinner ↦
        hinner.balanced fun _ _ ↦ FieldDeclaration.Writes.balanced
    | resultLabels value =>
      exact CollectionText.isValue h rfl rfl fun inner hinner ↦
        hinner.balanced fun _ _ ↦ LabelDeclaration.Writes.balanced

/-- An attribute of a definition is told by its name. -/
theorem DefinitionAttribute.exists_of_name :
    (∀ item : DefinitionAttribute, item.name = "id" → ∃ value, item = .id value) ∧
    (∀ item : DefinitionAttribute, item.name = "titleKey" → ∃ value, item = .titleKey value) ∧
    (∀ item : DefinitionAttribute, item.name = "category" → ∃ value, item = .category value) ∧
    (∀ item : DefinitionAttribute,
      item.name = "subCategory" → ∃ value, item = .subCategory value) ∧
    (∀ item : DefinitionAttribute, item.name = "useCase" → ∃ value, item = .computation value) ∧
    (∀ item : DefinitionAttribute, item.name = "fields" → ∃ value, item = .fields value) ∧
    (∀ item : DefinitionAttribute,
      item.name = "resultLabels" → ∃ value, item = .resultLabels value) := by
  refine ⟨?_, ?_, ?_, ?_, ?_, ?_, ?_⟩ <;> intro item hname <;> cases item <;>
    simp_all [DefinitionAttribute.name]

namespace Declaration

variable (declaration : Declaration)

/-- The attributes that a definition has. -/
theorem mem_attributes_iff (item : DefinitionAttribute) :
    item ∈ declaration.attributes ↔
      match item with
      | .id value => some declaration.id = some value
      | .titleKey value => some declaration.titleKey = some value
      | .category value => declaration.category = some value
      | .subCategory value => declaration.subCategory = some value
      | .computation value => declaration.computation = some value
      | .fields value => declaration.fields = some value
      | .resultLabels value => declaration.resultLabels = some value := by
  cases item <;> simp [attributes, eq_comm]

/-- What a definition declares under each name. -/
theorem declares :
    definitionGrammar.Declares declaration.attributes "id" .id (some declaration.id) ∧
    definitionGrammar.Declares declaration.attributes "titleKey" .titleKey
      (some declaration.titleKey) ∧
    definitionGrammar.Declares declaration.attributes "category" .category declaration.category ∧
    definitionGrammar.Declares declaration.attributes "subCategory" .subCategory
      declaration.subCategory ∧
    definitionGrammar.Declares declaration.attributes "useCase" .computation
      declaration.computation ∧
    definitionGrammar.Declares declaration.attributes "fields" .fields declaration.fields ∧
    definitionGrammar.Declares declaration.attributes "resultLabels" .resultLabels
      declaration.resultLabels := by
  have hmem := declaration.mem_attributes_iff
  have hword {name : String} := isWord_attributeNames name
  obtain ⟨hid, htitleKey, hcategory, hsubCategory, hcomputation, hfields, hresultLabels⟩ :=
    DefinitionAttribute.exists_of_name
  exact ⟨⟨hword (by decide), fun _ ↦ rfl, fun _ ↦ hmem _, hid⟩,
    ⟨hword (by decide), fun _ ↦ rfl, fun _ ↦ hmem _, htitleKey⟩,
    ⟨hword (by decide), fun _ ↦ rfl, fun _ ↦ hmem _, hcategory⟩,
    ⟨hword (by decide), fun _ ↦ rfl, fun _ ↦ hmem _, hsubCategory⟩,
    ⟨hword (by decide), fun _ ↦ rfl, fun _ ↦ hmem _, hcomputation⟩,
    ⟨hword (by decide), fun _ ↦ rfl, fun _ ↦ hmem _, hfields⟩,
    ⟨hword (by decide), fun _ ↦ rfl, fun _ ↦ hmem _, hresultLabels⟩⟩

end Declaration

theorem Declaration.WritesInner.balanced {declaration : Declaration} {inner : List Char}
    (h : declaration.WritesInner inner) : Balanced inner := by
  obtain ⟨order, -, hinner⟩ := h
  exact hinner.balanced fun item text hitem ↦
    (show definitionGrammar.Writes item text from hitem).balanced

theorem Declaration.Writes.balanced {declaration : Declaration} {text : List Char}
    (h : declaration.Writes text) : Balanced text :=
  CallText.balanced h isConstructor_definition.isWord fun _ ↦ WritesInner.balanced

end CalculatorCatalog.Definition
