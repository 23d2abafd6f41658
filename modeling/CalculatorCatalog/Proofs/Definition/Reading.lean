import CalculatorCatalog.Proofs.Definition.Boundaries
import CalculatorCatalog.Proofs.Text.Offset

/-!
# Reading declarations back

`readField_writesInner` says that a field is read back from any way of writing its attributes, and
`readDefinition_writesInner` the same of a definition. The attributes of a definition that hold
further declarations take two steps: the bracket that opens them is found in the masked inside of
the definition (`exists_nestedRegion?`), and what stands between it and its partner in the source
itself is read as a list of fields or of result labels.
-/

set_option autoImplicit false
set_option relaxedAutoImplicit false

namespace CalculatorCatalog.Definition

open CalculatorCatalog.Number CalculatorCatalog.Text

/-! ### What the recognisers of attributes read -/

theorem readsAttribute_string (name : String) :
    ReadsAttribute name (fun text ↦ (quotedValue? text).map fun (value, rest) ↦
      (String.ofList value, rest)) (stringAttribute name) := by
  intro before text
  rw [stringAttribute]
  cases afterAttributeName? name.toList before text with
  | none => rfl
  | some text =>
    simp only [Option.bind_eq_bind, Option.bind_some, Option.map_eq_bind]
    rfl

theorem readsAttribute_number (name : String) :
    ReadsAttribute name readNumber? (numberAttribute name) :=
  fun _ _ ↦ rfl

theorem readsAttribute_flag (name : String) :
    ReadsAttribute name (fun text ↦ ((afterWholeWord? "true".toList text).map (true, ·)) <|>
      ((afterWholeWord? "false".toList text).map (false, ·))) (flagAttribute name) :=
  fun _ _ ↦ rfl

theorem readsAttribute_computation :
    ReadsAttribute "useCase" (fun text ↦ (afterConst? text >>= callName?) <|> callName? text)
      computationAttribute :=
  fun _ _ ↦ rfl

theorem readsAttribute_bracket (name : String) (bracket : Char) :
    ReadsAttribute name (fun text ↦
      ((afterWord? constWord text).bind (fun rest ↦ afterWord? [bracket] (skipWhite rest)) <|>
        afterWord? [bracket] text).map ((), ·)) (bracketAttribute name bracket) := by
  intro before text
  rw [bracketAttribute]
  cases afterAttributeName? name.toList before text with
  | none => rfl
  | some text =>
    simp only [Option.bind_eq_bind, Option.bind_some, Option.map_eq_bind]
    rfl

/-! ### Attributes of either kind -/

section Attribute

variable {α γ : Type} {grammar : AttributeSyntax α} {attributes : List α} {text : List Char}
  {name : String} {make : γ → α} {declared : Option γ}

/-- The text that is declared under a name is read back. -/
theorem firstValue?_string {make : Phrase → α} {declared : Option Phrase}
    (htext : grammar.WritesAll attributes text)
    (hdeclares : grammar.Declares attributes name make declared)
    (hwrites : ∀ value written, grammar.writesValue (make value) written →
      Quoted value.text.toList written) :
    firstValue? (stringAttribute name) (maskNested text) = declared.map Phrase.text := by
  refine htext.firstValue?_eq hdeclares (readsAttribute_string name) _
    fun value written back hwritten _ ↦ ⟨back, ?_⟩
  have hquoted := hwrites value written hwritten
  rw [hquoted.maskNested_eq, quotedValue?_of_quoted hquoted, Option.map_some]
  simp only [String.ofList_toList]

/-- The number that is declared under a name is read back. -/
theorem firstValue?_number {make : WholeNumber → α} {declared : Option WholeNumber}
    (htext : grammar.WritesAll attributes text)
    (hdeclares : grammar.Declares attributes name make declared)
    (hwrites : ∀ value written, grammar.writesValue (make value) written →
      written = decimal value.value) :
    firstValue? (numberAttribute name) (maskNested text) =
      declared.map WholeNumber.toBinary64 := by
  refine htext.firstValue?_eq hdeclares (readsAttribute_number name) _
    fun value written back hwritten hstops ↦ ⟨back, ?_⟩
  obtain rfl := hwrites value written hwritten
  rw [maskNested_of_plain (isPlain_decimal value.value), readNumber?_decimal value hstops]

/-- The truth value that is declared under a name is read back. -/
theorem firstValue?_flag {make : Bool → α} {declared : Option Bool}
    (htext : grammar.WritesAll attributes text)
    (hdeclares : grammar.Declares attributes name make declared)
    (hwrites : ∀ value written, grammar.writesValue (make value) written →
      written = if value then "true".toList else "false".toList) :
    firstValue? (flagAttribute name) (maskNested text) = declared := by
  have hfound := htext.firstValue?_eq hdeclares (readsAttribute_flag name)
    (fun value ↦ value) fun value written back hwritten hstops ↦ ⟨back, ?_⟩
  · rwa [Option.map_id'] at hfound
  · obtain rfl := hwrites value written hwritten
    cases value with
    | true =>
      have hplain : "true".toList.all isPlain = true := rfl
      simp only [if_true, maskNested_of_plain hplain, afterWholeWord?_append _ hstops]
      rfl
    | false =>
      have hplain : "false".toList.all isPlain = true := rfl
      have hother : afterWholeWord? "true".toList ("false".toList ++ back) = none := rfl
      simp only [Bool.false_eq_true, if_false, maskNested_of_plain hplain, hother,
        afterWholeWord?_append _ hstops]
      rfl

end Attribute

/-! ### Fields -/

/-- A field is read back from any way of writing it. -/
theorem readField_writesInner {field : FieldDeclaration} {inner : List Char}
    (h : field.WritesInner inner) : readField inner = .ok field.toField := by
  have h : fieldGrammar.WritesAll field.attributes inner := h
  obtain ⟨hkey, hlabelKey, hdefault, hmin, hmax, hrequired⟩ := field.declares
  have hkey := firstValue?_string h hkey fun _ _ hwritten ↦ hwritten
  have hlabelKey := firstValue?_string h hlabelKey fun _ _ hwritten ↦ hwritten
  have hdefault := firstValue?_number h hdefault fun _ _ hwritten ↦ hwritten
  have hmin := firstValue?_number h hmin fun _ _ hwritten ↦ hwritten
  have hmax := firstValue?_number h hmax fun _ _ hwritten ↦ hwritten
  have hrequired := firstValue?_flag h hrequired fun _ _ hwritten ↦ hwritten
  rw [readField]
  simp only [hkey, hlabelKey, hdefault, hmin, hmax, hrequired]
  rfl

/-- Reading a field ends in one of three ways: a text that it needs is not found, or its texts and
numbers are what is found for them. -/
theorem readField_cases (inner : List Char) :
    (firstValue? (stringAttribute "key") (maskNested inner) = none ∧
      readField inner = .error .missingFieldKey) ∨
    (firstValue? (stringAttribute "labelKey") (maskNested inner) = none ∧
      readField inner = .error .missingFieldLabel) ∨
    ∃ field, firstValue? (stringAttribute "key") (maskNested inner) = some field.key ∧
      firstValue? (stringAttribute "labelKey") (maskNested inner) = some field.labelKey ∧
      (firstValue? (numberAttribute "defaultValue") (maskNested inner)).getD Field.standardDefault =
        field.defaultValue ∧
      firstValue? (numberAttribute "minValue") (maskNested inner) = field.minValue ∧
      firstValue? (numberAttribute "maxValue") (maskNested inner) = field.maxValue ∧
      readField inner = .ok field := by
  rw [readField]
  cases firstValue? (stringAttribute "key") (maskNested inner) with
  | none => exact .inl ⟨rfl, rfl⟩
  | some key =>
    cases firstValue? (stringAttribute "labelKey") (maskNested inner) with
    | none => exact .inr (.inl ⟨rfl, rfl⟩)
    | some labelKey => exact .inr (.inr ⟨_, rfl, rfl, rfl, rfl, rfl, rfl⟩)

/-! ### Nested attributes -/

section Nested

variable {α γ : Type} {grammar : AttributeSyntax α} {attributes : List α} {text : List Char}
  {name : String} {make : γ → α} {opens closes : Char}

/-- The bracket of a nested attribute that is left out is not found. -/
theorem nestedRegion?_eq_none (htext : grammar.WritesAll attributes text)
    (hdeclares : grammar.Declares attributes name make none) (innerOffset : Nat)
    (source : List Char) :
    nestedRegion? name opens innerOffset (maskNested text) source = none := by
  rw [nestedRegion?, htext.first?_eq_none hdeclares (readsAttribute_bracket name opens) rfl]
  rfl

/-- What stands between the brackets of a nested attribute is found in the source. -/
theorem exists_nestedRegion? {value : γ} {writes : List Char → Prop}
    (htext : grammar.WritesAll attributes text)
    (hdeclares : grammar.Declares attributes name make (some value))
    (hopens : isOpening opens = true) (hcloses : isClosing closes = true)
    (hwrites : ∀ written, grammar.writesValue (make value) written →
      CollectionText opens closes writes written)
    (hbalanced : ∀ inner, writes inner → Balanced inner) (innerOffset : Nat)
    (following : List Char) :
    ∃ offset region, writes region ∧
      nestedRegion? name opens innerOffset (maskNested text) (text ++ following) =
        some (offset, region) := by
  obtain ⟨front, written, back, rfl, hwritten, -, hfound⟩ :=
    htext.exists_first? hdeclares (readsAttribute_bracket name opens) rfl
  obtain ⟨hinner, hmarked⟩ := hwrites written hwritten
  rename_i inner
  have hinner' := hbalanced inner hinner
  have hmask := maskNested_marked_brackets hmarked hopens hinner' hcloses
  obtain ⟨passed, hfirst⟩ := hfound () (blanks inner ++ [closes] ++ maskNested back) (by
    rw [afterBracket_of_maybeConst hmask hopens]
    rfl)
  obtain ⟨lead, rfl, -, -⟩ := hmarked.exists_lead
  -- Hiding keeps offsets, so that the place of the bracket is the same in the source.
  have hstart : byteLength (maskNested (front ++ (lead ++ opens :: (inner ++ [closes]) ++ back))) -
      byteLength (blanks inner ++ [closes] ++ maskNested back) =
        byteLength (front ++ (lead ++ [opens])) := by
    simp only [byteLength_maskNested, byteLength_append, byteLength_cons, byteLength_nil,
      byteLength_blanks]
    omega
  have hsplit : front ++ (lead ++ opens :: (inner ++ [closes]) ++ back) ++ following =
      front ++ (lead ++ [opens]) ++ (inner ++ closes :: (back ++ following)) := by simp
  have hregion := hinner'.enclosed?_append hcloses (back ++ following)
  refine ⟨innerOffset + byteLength (front ++ (lead ++ [opens])), inner, hinner, ?_⟩
  rw [nestedRegion?, hfirst]
  simp only [Option.bind_eq_bind, Option.bind_some, hstart, hsplit, dropBytes_byteLength_append,
    hregion]
  rfl

end Nested

/-! ### Fields of a definition -/

theorem successes_map_ok {ε α β : Type} (items : List α) (value : α → β) :
    successes (items.map fun item ↦ (.ok (value item) : Except ε β)) = items.map value := by
  induction items with
  | nil => rfl
  | cons item items ih => exact congrArg (value item :: ·) ih

theorem failures_map_ok {ε α β : Type} (items : List α) (value : α → β) :
    failures (items.map fun item ↦ (.ok (value item) : Except ε β)) = [] := by
  induction items with
  | nil => rfl
  | cons item items ih => exact ih

/-- Nothing comes after the last field of a list. -/
theorem endsList_nil : EndsList fieldListEnd [] :=
  ⟨rfl, by simp, rfl, rfl⟩

theorem map_fieldOfSpan {fields : List FieldDeclaration} {found : List Span}
    (h : List.Forall₂ (SpanOf FieldDeclaration.WritesInner) fields found)
    (place : Nat → Excerpt) :
    found.map (fieldOfSpan place) = fields.map fun field ↦ .ok field.toField := by
  induction h with
  | nil => rfl
  | @cons field span fields found hspan _ ih =>
    rw [List.map_cons, List.map_cons, ih]
    cases span with
    | unterminated offset => cases hspan
    | closed offset innerOffset inner following =>
      rw [fieldOfSpan, readField_writesInner hspan]
      rfl

/-- A list of fields is read back. -/
theorem map_fieldOfSpan_spans {fields : List FieldDeclaration} {region : List Char}
    (h : Separated FieldDeclaration.Writes fields region) (place : Nat → Excerpt) (offset : Nat) :
    (spans (opening fieldConstructor) fieldClosing offset region).map (fieldOfSpan place) =
      fields.map fun field ↦ .ok field.toField := by
  have hspans : List.Forall₂ (SpanOf FieldDeclaration.WritesInner) fields
      (spansFrom (opening fieldConstructor) fieldClosing 0 none offset (region ++ [])) :=
    spansFrom_separated isConstructor_field readsEnd_fieldClosing endsList_nil
      (fun _ _ _ hinner ↦ readsEnd_fieldClosing.declines
        (FieldDeclaration.WritesInner.bracket_notMem hinner) _) h rfl
  rw [List.append_nil] at hspans
  exact map_fieldOfSpan hspans place

/-- The fields of a definition are read back. -/
theorem readFields_writesInner {declaration : Declaration} {inner : List Char}
    (h : declaration.WritesInner inner) (place : Nat → Excerpt) (innerOffset : Nat)
    (following : List Char) :
    readFields place innerOffset (maskNested inner) (inner ++ following) =
      (declaration.fields.getD []).map fun field ↦ .ok field.toField := by
  have h : definitionGrammar.WritesAll declaration.attributes inner := h
  obtain ⟨-, -, -, -, -, hdeclares, -⟩ := declaration.declares
  rw [readFields]
  cases hfields : declaration.fields with
  | none =>
    rw [hfields] at hdeclares
    rw [nestedRegion?_eq_none h hdeclares]
    rfl
  | some fields =>
    rw [hfields] at hdeclares
    obtain ⟨offset, region, hregion, hfound⟩ := exists_nestedRegion? h hdeclares rfl rfl
      (fun _ hwritten ↦ hwritten)
      (fun _ hinner ↦ hinner.balanced fun _ _ ↦ FieldDeclaration.Writes.balanced)
      innerOffset following
    rw [hfound]
    exact map_fieldOfSpan_spans hregion place offset

/-! ### Result labels of a definition -/

theorem resultLabelPair_of_not_quote (before : Option Char) {c : Char} (hc : isQuote c = false)
    (text : List Char) : resultLabelPair before (c :: text) = none := by
  rw [resultLabelPair, quotedValue?, hc]
  rfl

/-- A result label is read with its name and its key. -/
theorem resultLabelPair_append {label : LabelDeclaration} {text : List Char}
    (h : label.Writes text) (before : Option Char) (rest : List Char) :
    resultLabelPair before (text ++ rest) =
      some ((label.name.text, label.labelKey.text), rest) := by
  obtain ⟨hname, hgap, hgap', hkey⟩ := h
  rename_i name gap gap' key
  have hassoc : name ++ (gap ++ ':' :: (gap' ++ key)) ++ rest =
      name ++ (gap ++ ':' :: (gap' ++ (key ++ rest))) := by simp
  have hcolon : afterWord? [':'] (skipWhite (gap ++ ':' :: (gap' ++ (key ++ rest)))) =
      some (gap' ++ (key ++ rest)) :=
    (afterWord?_skipWhite_eq_some_iff (by decide)).mpr ⟨gap, hgap, rfl⟩
  have hskip : skipWhite (gap' ++ (key ++ rest)) = key ++ rest := by
    rw [skipWhite_append hgap', skipWhite_quoted hkey]
  rw [hassoc, resultLabelPair, quotedValue?_of_quoted hname]
  simp only [Option.bind_eq_bind, Option.bind_some, hcolon, hskip, quotedValue?_of_quoted hkey,
    String.ofList_toList]
  rfl

/-- A list of result labels is read back. -/
theorem valuesFrom_resultLabels {labels : List LabelDeclaration} {region : List Char}
    (h : Separated LabelDeclaration.Writes labels region) :
    valuesFrom resultLabelPair none region =
      labels.map fun label ↦ (label.name.text, label.labelKey.text) := by
  refine valuesFrom_separated ?_ ?_ h
  · intro before c text hc
    refine resultLabelPair_of_not_quote before ?_ text
    rcases hc with hwhite | rfl
    · exact (isPlain_iff.mp (isPlain_of_isWhiteSpace hwhite)).1
    · rfl
  · intro label text hlabel
    refine ⟨?_, resultLabelPair_append hlabel⟩
    obtain ⟨-, -, -, -⟩ := hlabel
    simp

/-- The result labels of a definition are read back. -/
theorem readResultLabels_writesInner {declaration : Declaration} {inner : List Char}
    (h : declaration.WritesInner inner) (innerOffset : Nat) (following : List Char) :
    readResultLabels innerOffset (maskNested inner) (inner ++ following) =
      (declaration.resultLabels.getD []).map LabelDeclaration.toLabel := by
  have h : definitionGrammar.WritesAll declaration.attributes inner := h
  obtain ⟨-, -, -, -, -, -, hdeclares⟩ := declaration.declares
  rw [readResultLabels]
  cases hlabels : declaration.resultLabels with
  | none =>
    rw [hlabels] at hdeclares
    rw [nestedRegion?_eq_none h hdeclares]
    rfl
  | some labels =>
    rw [hlabels] at hdeclares
    obtain ⟨offset, region, hregion, hfound⟩ := exists_nestedRegion? h hdeclares rfl rfl
      (fun _ hwritten ↦ hwritten)
      (fun _ hinner ↦ hinner.balanced fun _ _ ↦ LabelDeclaration.Writes.balanced)
      innerOffset following
    rw [hfound]
    show (valuesFrom resultLabelPair none region).map _ = _
    rw [valuesFrom_resultLabels hregion, List.map_map]
    rfl

/-! ### Definitions -/

/-- The computation that is declared is read back. -/
theorem firstValue?_computation {attributes : List DefinitionAttribute} {text : List Char}
    {declared : Option UnitName} (htext : definitionGrammar.WritesAll attributes text)
    (hdeclares : definitionGrammar.Declares attributes "useCase" .computation declared) :
    firstValue? computationAttribute (maskNested text) = declared.map UnitName.text := by
  refine htext.firstValue?_eq hdeclares readsAttribute_computation _
    fun name written back hwritten _ ↦ ?_
  have hwritten : CallText name.text.toList (isBlank · = true) written := hwritten
  obtain ⟨hgap, hinner, hmarked⟩ := hwritten
  rename_i gap inner
  have hmask := maskNested_call name.word hgap (.of_plain (isPlain_gap hinner))
  have hmarked' := hmarked.maskNested (by
    rw [hmask, name.word.isWordAt_head?, name.word.isWordAt_head?])
  rw [hmask] at hmarked'
  exact ⟨_, computation_of_maybeConst name hgap hmarked' back⟩

/-- A definition is read back from any way of writing it, and nothing of it is dropped. -/
theorem readDefinition_writesInner {declaration : Declaration} {inner : List Char}
    (h : declaration.WritesInner inner) (place : Nat → Excerpt) (offset innerOffset : Nat)
    (following : List Char) :
    readDefinition place offset innerOffset inner following =
      ([], .ok (declaration.toDefinition (place offset).location)) := by
  have hfields := readFields_writesInner h place innerOffset following
  have hlabels := readResultLabels_writesInner h innerOffset following
  have h : definitionGrammar.WritesAll declaration.attributes inner := h
  obtain ⟨hid, htitleKey, hcategory, hsubCategory, hcomputation, -, -⟩ := declaration.declares
  have hid := firstValue?_string h hid fun _ _ hwritten ↦ hwritten
  have htitleKey := firstValue?_string h htitleKey fun _ _ hwritten ↦ hwritten
  have hcategory := firstValue?_string h hcategory fun _ _ hwritten ↦ hwritten
  have hsubCategory := firstValue?_string h hsubCategory fun _ _ hwritten ↦ hwritten
  have hcomputation := firstValue?_computation h hcomputation
  rw [readDefinition]
  simp only [hid, htitleKey, hcategory, hsubCategory, hcomputation, hfields, hlabels,
    successes_map_ok, failures_map_ok, Option.map_some]
  rfl

/-- Reading a definition ends in one of three ways: a text that it needs is not found, or all its
texts are what is found for them. -/
theorem readDefinition_cases (place : Nat → Excerpt) (offset innerOffset : Nat)
    (inner following : List Char) :
    (firstValue? (stringAttribute "id") (maskNested inner) = none ∧
      (readDefinition place offset innerOffset inner following).2 = .error .missingId) ∨
    (firstValue? (stringAttribute "titleKey") (maskNested inner) = none ∧
      (readDefinition place offset innerOffset inner following).2 = .error .missingTitleKey) ∨
    ∃ definition, firstValue? (stringAttribute "id") (maskNested inner) = some definition.id ∧
      firstValue? (stringAttribute "titleKey") (maskNested inner) = some definition.titleKey ∧
      (firstValue? (stringAttribute "category") (maskNested inner)).getD "" =
        definition.category ∧
      (firstValue? (stringAttribute "subCategory") (maskNested inner)).getD "" =
        definition.subCategory ∧
      (readDefinition place offset innerOffset inner following).2 = .ok definition := by
  rw [readDefinition]
  cases firstValue? (stringAttribute "id") (maskNested inner) with
  | none => exact .inl ⟨rfl, rfl⟩
  | some id =>
    cases firstValue? (stringAttribute "titleKey") (maskNested inner) with
    | none => exact .inr (.inl ⟨rfl, rfl⟩)
    | some titleKey => exact .inr (.inr ⟨_, rfl, rfl, rfl, rfl, rfl⟩)

end CalculatorCatalog.Definition
