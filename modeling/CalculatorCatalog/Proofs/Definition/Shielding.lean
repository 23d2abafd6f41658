import CalculatorCatalog.Proofs.Definition.Settling

/-!
# Literals that are no attribute values

A literal that is the value of an attribute which nobody reads, such as a hint, stays visible at the
top level of its declaration. `UnreadLiteral` is such a literal with the text around it, apart from
what it holds. A search for any attribute finds what stands before the literal, or else looks inside
it (`UnreadLiteral.firstValue?_text`). So what the literal holds is without effect exactly when
every attribute is given before it: on a field there is nothing else to ask for, and on a definition
the nested texts must not reach into the literal either (`shielded_iff`).
-/

set_option autoImplicit false
set_option relaxedAutoImplicit false

namespace CalculatorCatalog.Definition

open CalculatorCatalog.Number CalculatorCatalog.Text

variable {α : Type}

/-! ### Literals and their surroundings -/

/-- The attributes of a field that are read. -/
def fieldNames : List String :=
  ["key", "labelKey", "defaultValue", "minValue", "maxValue", "required"]

/-- The attributes of a definition that are read. -/
def definitionNames : List String :=
  ["id", "titleKey", "category", "subCategory", "useCase", "fields", "resultLabels"]

/-- A literal at the top level of a declaration that is the value of an attribute with none of the
given names, and the text around its content. -/
structure UnreadLiteral (names : List String) where
  lead : List Char
  name : List Char
  gap : List Char
  gap' : List Char
  quote : Char
  after : List Char
  isWord : IsWord name
  unread : ∀ other ∈ names, other.toList ≠ name
  isWordAt_lead : isWordAt lead.getLast? = false
  atTopLevel : AtTopLevel lead name.head?
  isBlank_gap : isBlank gap = true
  isBlank_gap' : isBlank gap' = true
  isQuote_quote : isQuote quote = true

/-- What may be put between the quotes of a literal in the place of its content: neither its quote
nor a backslash, a line break or a bracket. -/
def IsReplacement (quote : Char) (content : List Char) : Prop :=
  ∀ c ∈ content, c ≠ quote ∧ c ≠ '\\' ∧ c ≠ '\n' ∧ isOpening c = false ∧ isClosing c = false

theorem isReplacement_nil (quote : Char) : IsReplacement quote [] :=
  fun _ hmem ↦ absurd hmem List.not_mem_nil

theorem IsReplacement.literalContent {quote : Char} {content : List Char}
    (h : IsReplacement quote content) : LiteralContent quote content :=
  literalContent_of_forall fun c hc ↦ ⟨(h c hc).1, (h c hc).2.1, (h c hc).2.2.1⟩

/-- A search for the value of the attribute of a given name that is settled before a literal. -/
structure SearchesFor (wanted : String) (recognize : Recognizer α) : Prop where
  isWord : IsWord wanted.toList
  exists_read : ∃ read, ReadsAttribute wanted read recognize ∧ SettlesAtLiteral read

theorem searchesFor_string {wanted : String} (h : IsWord wanted.toList) :
    SearchesFor wanted (stringAttribute wanted) :=
  ⟨h, _, readsAttribute_string wanted, settlesAtLiteral_string⟩

theorem searchesFor_number {wanted : String} (h : IsWord wanted.toList) :
    SearchesFor wanted (numberAttribute wanted) :=
  ⟨h, _, readsAttribute_number wanted, endsAtColon_readNumber?.settlesAtLiteral⟩

theorem searchesFor_flag {wanted : String} (h : IsWord wanted.toList) :
    SearchesFor wanted (flagAttribute wanted) :=
  ⟨h, _, readsAttribute_flag wanted, endsAtColon_flag.settlesAtLiteral⟩

theorem searchesFor_computation : SearchesFor "useCase" computationAttribute :=
  ⟨⟨by decide, by decide⟩, _, readsAttribute_computation, endsAtColon_computation.settlesAtLiteral⟩

theorem searchesFor_bracket {wanted : String} (h : IsWord wanted.toList) {bracket : Char}
    (hbracket : bracket ≠ ':') : SearchesFor wanted (bracketAttribute wanted bracket) :=
  ⟨h, _, readsAttribute_bracket wanted bracket, (endsAtColon_bracket hbracket).settlesAtLiteral⟩

theorem isQuote_iff {c : Char} : isQuote c = true ↔ c = '\x27' ∨ c = '\x22' := by
  rw [isQuote, Bool.or_eq_true, beq_iff_eq, beq_iff_eq]

/-- The value that is found from the opening quote of a literal on, given the content of the literal
and what comes after its closing quote. -/
def later (quote : Char) (recognize : Recognizer α) (content tail : List Char) : Option α :=
  (first? recognize (some quote) (content ++ quote :: tail)).map (·.value)

namespace UnreadLiteral

variable {names : List String} (l : UnreadLiteral names)

/-- The inside of the declaration up to the opening quote. -/
def front : List Char :=
  l.lead ++ (l.name ++ (l.gap ++ ':' :: l.gap'))

/-- The inside of the declaration when the literal holds the given content. -/
def text (content : List Char) : List Char :=
  l.front ++ l.quote :: (content ++ l.quote :: l.after)

/-- What is visible of the declaration up to the opening quote. -/
def visible : List Char :=
  maskedTo l.lead l.name.head? ++ (l.name ++ (l.gap ++ ':' :: l.gap'))

theorem attributeFront_visible : AttributeFront l.name l.visible :=
  ⟨l.isWord, _, l.gap, l.gap', isWordAt_maskedTo l.isWordAt_lead _, l.isBlank_gap, l.isBlank_gap',
    rfl⟩

variable {l} {content : List Char}

theorem maskNested_text (hcontent : LiteralContent l.quote content) :
    maskNested (l.text content) =
      l.visible ++ l.quote :: (content ++ l.quote :: maskNested l.after) := by
  obtain ⟨c, name, hname, -⟩ := l.isWord.exists_cons
  have hsplit : l.text content = l.lead ++ (l.name ++ (l.gap ++ ([':'] ++ (l.gap' ++
      l.quote :: (content ++ l.quote :: l.after))))) := by simp [text, front]
  have htop : AtTopLevel l.lead (l.name ++ (l.gap ++ ([':'] ++ (l.gap' ++
      l.quote :: (content ++ l.quote :: l.after))))).head? := by
    have htop := l.atTopLevel
    rw [hname] at htop ⊢
    exact htop
  have hhead : (l.name ++ (l.gap ++ ([':'] ++ (l.gap' ++
      l.quote :: (content ++ l.quote :: l.after))))).head? = l.name.head? := by
    rw [hname]
    rfl
  rw [hsplit, htop.maskNested_append, hhead, maskNested_plain_append l.isWord.isPlain,
    maskNested_plain_append (isPlain_gap l.isBlank_gap), maskNested_plain_append rfl,
    maskNested_plain_append (isPlain_gap l.isBlank_gap'),
    hcontent.maskNested_quoted l.isQuote_quote]
  simp [visible]

/-! ### Searching around a literal -/

variable (l) in
/-- The value that is found before the literal. -/
def given (recognize : Recognizer α) : Option α :=
  firstValue? recognize (l.visible ++ [l.quote])

/-- A search for an attribute finds what it finds before the literal, or else looks behind its opening
quote. -/
theorem first?_text {wanted : String} {recognize : Recognizer α}
    (h : SearchesFor wanted recognize) (hwanted : wanted ∈ names)
    (hcontent : LiteralContent l.quote content) :
    first? recognize none (maskNested (l.text content)) =
      ((first? recognize none (l.visible ++ [l.quote])).map fun found ↦
        { found with rest := found.rest ++ (content ++ l.quote :: maskNested l.after) }).or
      ((first? recognize (some l.quote) (content ++ l.quote :: maskNested l.after)).map fun found ↦
        { found with passed := l.visible ++ l.quote :: found.passed }) := by
  obtain ⟨hword, read, hreads, hsettles⟩ := h
  have hfront : AttributeFront l.name ([] ++ l.visible) := l.attributeFront_visible
  rw [maskNested_text hcontent]
  exact hreads.first?_append hsettles hword (l.unread wanted hwanted) l.isQuote_quote hfront _

/-- The value of an attribute is the one before the literal, or else the first behind its opening
quote. -/
theorem firstValue?_text {wanted : String} {recognize : Recognizer α}
    (h : SearchesFor wanted recognize) (hwanted : wanted ∈ names)
    (hcontent : LiteralContent l.quote content) :
    firstValue? recognize (maskNested (l.text content)) =
      (l.given recognize).or (later l.quote recognize content (maskNested l.after)) := by
  rw [firstValue?, first?_text h hwanted hcontent, given, firstValue?, later]
  cases first? recognize none (l.visible ++ [l.quote]) with
  | some found => rfl
  | none =>
    cases first? recognize (some l.quote) (content ++ l.quote :: maskNested l.after) <;> rfl

end UnreadLiteral

/-! ### Fields -/

namespace UnreadLiteral

/-- Every attribute of a field is given before the literal. -/
structure GivesField (l : UnreadLiteral fieldNames) : Prop where
  key : (l.given (stringAttribute "key")).isSome
  labelKey : (l.given (stringAttribute "labelKey")).isSome
  defaultValue : (l.given (numberAttribute "defaultValue")).isSome
  minValue : (l.given (numberAttribute "minValue")).isSome
  maxValue : (l.given (numberAttribute "maxValue")).isSome
  required : (l.given (flagAttribute "required")).isSome

/-- A field is read alike whatever is put in the place of what the literal holds. -/
def ShieldsField (l : UnreadLiteral fieldNames) : Prop :=
  ∀ content replacement, LiteralContent l.quote content → IsReplacement l.quote replacement →
    readField (l.text replacement) = readField (l.text content)

/-- Every attribute of a field is the one before the literal, or else the first behind its opening
quote. -/
theorem readField_text (l : UnreadLiteral fieldNames) {content : List Char}
    (h : LiteralContent l.quote content) :
    readField (l.text content) = (do
      let found {α : Type} (recognize : Recognizer α) : Option α :=
        (l.given recognize).or (later l.quote recognize content (maskNested l.after))
      let key ← Definition.required .missingFieldKey (found (stringAttribute "key"))
      let labelKey ← Definition.required .missingFieldLabel (found (stringAttribute "labelKey"))
      return {
        key, labelKey
        defaultValue := (found (numberAttribute "defaultValue")).getD Field.standardDefault
        minValue := found (numberAttribute "minValue")
        maxValue := found (numberAttribute "maxValue")
        required := (found (flagAttribute "required")).getD true }) := by
  have hkey := firstValue?_text (searchesFor_string ⟨by decide, by decide⟩)
    (by decide : "key" ∈ fieldNames) h
  have hlabelKey := firstValue?_text (searchesFor_string ⟨by decide, by decide⟩)
    (by decide : "labelKey" ∈ fieldNames) h
  have hdefaultValue := firstValue?_text (searchesFor_number ⟨by decide, by decide⟩)
    (by decide : "defaultValue" ∈ fieldNames) h
  have hminValue := firstValue?_text (searchesFor_number ⟨by decide, by decide⟩)
    (by decide : "minValue" ∈ fieldNames) h
  have hmaxValue := firstValue?_text (searchesFor_number ⟨by decide, by decide⟩)
    (by decide : "maxValue" ∈ fieldNames) h
  have hrequired := firstValue?_text (searchesFor_flag ⟨by decide, by decide⟩)
    (by decide : "required" ∈ fieldNames) h
  simp only [readField, hkey, hlabelKey, hdefaultValue, hminValue, hmaxValue, hrequired]

theorem GivesField.shieldsField {l : UnreadLiteral fieldNames} (h : l.GivesField) :
    l.ShieldsField := by
  intro content replacement hcontent hreplacement
  rw [readField_text l hcontent, readField_text l hreplacement.literalContent]
  simp only [Option.or_of_isSome h.key, Option.or_of_isSome h.labelKey,
    Option.or_of_isSome h.defaultValue, Option.or_of_isSome h.minValue,
    Option.or_of_isSome h.maxValue, Option.or_of_isSome h.required]

end UnreadLiteral

/-- A text of one letter; there are two of them. -/
def sampleWord (second : Bool) : List Char :=
  [if second then 'b' else 'a']

/-- Zero, with or without a sign. -/
def sampleNumber (second : Bool) : List Char :=
  if second then "-0".toList else "0".toList

/-- The quote of the other kind. -/
def otherQuote (quote : Char) : Char :=
  if quote = '\x27' then '\x22' else '\x27'

/-- The text of one letter between quotes that are not those of the literal. -/
def sampleQuoted (quote : Char) (second : Bool) : List Char :=
  otherQuote quote :: (sampleWord second ++ [otherQuote quote])

/-- A content of a literal that gives every attribute of a field, in quotes that are not those of
the literal; there are two of them, without a value in common. -/
def sampleField (quote : Char) (second : Bool) : List Char :=
  "key: ".toList ++ sampleQuoted quote second ++ " labelKey: ".toList ++
    sampleQuoted quote second ++
    " defaultValue: ".toList ++ sampleNumber second ++ " minValue: ".toList ++ sampleNumber second ++
    " maxValue: ".toList ++ sampleNumber second ++
    " required: ".toList ++ (if second then "true" else "false").toList

section Sample

variable {quote : Char}

theorem literalContent_sampleField (h : isQuote quote = true) (second : Bool) :
    LiteralContent quote (sampleField quote second) := by
  obtain rfl | rfl := isQuote_iff.mp h <;> cases second <;>
    exact literalContent_of_all rfl

theorem later_sampleField (h : isQuote quote = true) (second : Bool) (tail : List Char) :
    later quote (stringAttribute "key") (sampleField quote second) tail =
        some (String.ofList (sampleWord second)) ∧
      later quote (stringAttribute "labelKey") (sampleField quote second) tail =
        some (String.ofList (sampleWord second)) ∧
      later quote (numberAttribute "defaultValue") (sampleField quote second) tail =
        some (.finite second 0) ∧
      later quote (numberAttribute "minValue") (sampleField quote second) tail =
        some (.finite second 0) ∧
      later quote (numberAttribute "maxValue") (sampleField quote second) tail =
        some (.finite second 0) ∧
      later quote (flagAttribute "required") (sampleField quote second) tail = some second := by
  obtain rfl | rfl := isQuote_iff.mp h <;> cases second <;> exact ⟨rfl, rfl, rfl, rfl, rfl, rfl⟩

/-- A value that does not depend on its default is there. -/
theorem isSome_of_getD_eq {value : Option α} {default default' : α}
    (h : value.getD default = value.getD default') (hne : default ≠ default') :
    value.isSome = true := by
  cases value with
  | none => exact absurd h hne
  | some value => rfl

end Sample

namespace UnreadLiteral

theorem ShieldsField.givesField {l : UnreadLiteral fieldNames} (h : l.ShieldsField) :
    l.GivesField := by
  have hcontent := literalContent_sampleField l.isQuote_quote
  have hsample (second : Bool) := readField_text l (hcontent second)
  have hlater (second : Bool) := later_sampleField l.isQuote_quote second (maskNested l.after)
  have hsame : readField (l.text (sampleField l.quote false)) =
      readField (l.text (sampleField l.quote true)) := by
    rw [← h _ [] (hcontent false) (isReplacement_nil _),
      ← h _ [] (hcontent true) (isReplacement_nil _)]
  obtain ⟨hkey, hlabelKey, hdefaultValue, hminValue, hmaxValue, hrequired⟩ := hlater false
  obtain ⟨hkey', hlabelKey', hdefaultValue', hminValue', hmaxValue', hrequired'⟩ := hlater true
  rw [hsample, hsample] at hsame
  simp only [hkey, hlabelKey, hdefaultValue, hminValue, hmaxValue, hrequired, hkey', hlabelKey',
    hdefaultValue', hminValue', hmaxValue', hrequired', Option.or_some, Definition.required,
    Option.getD_some] at hsame
  obtain ⟨hkeys, hlabelKeys, hdefaults, hminima, hmaxima, hflags⟩ :=
    Field.mk.inj (Except.ok.inj hsame)
  exact {
    key := isSome_of_getD_eq hkeys (by decide)
    labelKey := isSome_of_getD_eq hlabelKeys (by decide)
    defaultValue := isSome_of_getD_eq hdefaults (by decide)
    minValue := isSome_of_getD_eq (Option.some.inj hminima) (by decide)
    maxValue := isSome_of_getD_eq (Option.some.inj hmaxima) (by decide)
    required := isSome_of_getD_eq hflags (by decide) }

end UnreadLiteral

/-! ### Definitions -/

namespace UnreadLiteral

/-- Every attribute of a definition is given before the literal. -/
structure GivesDefinition (l : UnreadLiteral definitionNames) : Prop where
  id : (l.given (stringAttribute "id")).isSome
  titleKey : (l.given (stringAttribute "titleKey")).isSome
  category : (l.given (stringAttribute "category")).isSome
  subCategory : (l.given (stringAttribute "subCategory")).isSome
  computation : (l.given computationAttribute).isSome
  fields : (l.given (bracketAttribute "fields" '[')).isSome
  resultLabels : (l.given (bracketAttribute "resultLabels" '\x7b')).isSome

/-- A definition is read alike whatever is put in the place of what the literal holds. -/
def ShieldsDefinition (l : UnreadLiteral definitionNames) : Prop :=
  ∀ place offset innerOffset following content replacement, LiteralContent l.quote content →
    IsReplacement l.quote replacement →
      (readDefinition place offset innerOffset (l.text replacement) following).2 =
        (readDefinition place offset innerOffset (l.text content) following).2

/-- The fields and the result labels of a definition are read alike whatever is put in the place of
what the literal holds. -/
def ShieldsNested (l : UnreadLiteral definitionNames) : Prop :=
  ∀ place innerOffset following content replacement, LiteralContent l.quote content →
    IsReplacement l.quote replacement →
      successes (readFields place innerOffset (maskNested (l.text replacement))
          (l.text replacement ++ following)) =
        successes (readFields place innerOffset (maskNested (l.text content))
          (l.text content ++ following)) ∧
      readResultLabels innerOffset (maskNested (l.text replacement))
          (l.text replacement ++ following) =
        readResultLabels innerOffset (maskNested (l.text content)) (l.text content ++ following)

/-- The bracket of a nested attribute that is found before the literal closes before it. -/
def ClosesBefore (l : UnreadLiteral definitionNames) (name : String) (bracket : Char) : Prop :=
  (nestedRegion? name bracket 0 (l.visible ++ [l.quote]) l.front).isSome

variable {l : UnreadLiteral definitionNames} {content : List Char}

/-- Every attribute of a definition is the one before the literal, or else the first behind its
opening quote. -/
theorem readDefinition_text (h : LiteralContent l.quote content) (place : Nat → Excerpt)
    (offset innerOffset : Nat) (following : List Char) :
    (readDefinition place offset innerOffset (l.text content) following).2 = (do
      let found {α : Type} (recognize : Recognizer α) : Option α :=
        (l.given recognize).or (later l.quote recognize content (maskNested l.after))
      let id ← required .missingId (found (stringAttribute "id"))
      let titleKey ← required .missingTitleKey (found (stringAttribute "titleKey"))
      return {
        id, titleKey
        category := (found (stringAttribute "category")).getD ""
        subCategory := (found (stringAttribute "subCategory")).getD ""
        computation := found computationAttribute
        fields := successes (readFields place innerOffset (maskNested (l.text content))
          (l.text content ++ following))
        resultLabels := readResultLabels innerOffset (maskNested (l.text content))
          (l.text content ++ following)
        location := (place offset).location }) := by
  have hid := firstValue?_text (searchesFor_string ⟨by decide, by decide⟩)
    (by decide : "id" ∈ definitionNames) h
  have htitleKey := firstValue?_text (searchesFor_string ⟨by decide, by decide⟩)
    (by decide : "titleKey" ∈ definitionNames) h
  have hcategory := firstValue?_text (searchesFor_string ⟨by decide, by decide⟩)
    (by decide : "category" ∈ definitionNames) h
  have hsubCategory := firstValue?_text (searchesFor_string ⟨by decide, by decide⟩)
    (by decide : "subCategory" ∈ definitionNames) h
  have hcomputation := firstValue?_text searchesFor_computation
    (by decide : "useCase" ∈ definitionNames) h
  simp only [readDefinition, hid, htitleKey, hcategory, hsubCategory, hcomputation]
  cases (l.given (stringAttribute "id")).or
      (later l.quote (stringAttribute "id") content (maskNested l.after)) with
  | none => rfl
  | some id =>
    cases (l.given (stringAttribute "titleKey")).or
        (later l.quote (stringAttribute "titleKey") content (maskNested l.after)) with
    | none => rfl
    | some titleKey => rfl

/-! ### Nested texts of a definition -/

section Nested

variable {wanted : String} {bracket : Char}

theorem byteLength_visible (l : UnreadLiteral definitionNames) :
    byteLength l.visible = byteLength l.front := by
  simp only [visible, front, byteLength_append, byteLength_maskedTo]

/-- A nested text that ends before the literal is found whatever the literal holds. -/
theorem nestedRegion?_text_of_before (h : SearchesFor wanted (bracketAttribute wanted bracket))
    (hwanted : wanted ∈ definitionNames) {start : Nat} {region : List Char}
    (hbefore : nestedRegion? wanted bracket 0 (l.visible ++ [l.quote]) l.front =
      some (start, region))
    (hcontent : LiteralContent l.quote content) (innerOffset : Nat) (following : List Char) :
    nestedRegion? wanted bracket innerOffset (maskNested (l.text content))
      (l.text content ++ following) = some (innerOffset + start, region) := by
  obtain ⟨found, hfound, hregion⟩ := Option.bind_eq_some_iff.mp hbefore
  obtain ⟨⟨region', after⟩, henclosed, heq⟩ := Option.bind_eq_some_iff.mp hregion
  obtain ⟨hstart, rfl⟩ := Prod.mk.inj (Option.some.inj heq)
  rw [Nat.zero_add] at hstart
  rw [hstart] at henclosed
  have hne : dropBytes start l.front ≠ [] := by
    intro hnil
    rw [hnil] at henclosed
    cases henclosed
  obtain ⟨c, hc, hsplit⟩ := enclosed?_eq_some henclosed
  have hmasked : byteLength (maskNested (l.text content)) -
      byteLength (found.rest ++ (content ++ l.quote :: maskNested l.after)) = start := by
    rw [maskNested_text hcontent, ← hstart]
    simp only [byteLength_append, byteLength_cons, byteLength_nil]
    omega
  have htext : l.text content ++ following =
      l.front ++ (l.quote :: (content ++ l.quote :: (l.after ++ following))) := by simp [text]
  rw [hsplit] at henclosed
  rw [nestedRegion?, first?_text h hwanted hcontent, hfound]
  simp only [Option.map_some, Option.some_or, Option.bind_eq_bind, Option.bind_some, hmasked, htext,
    dropBytes_append hne, hsplit, List.append_assoc, List.cons_append,
    enclosed?_congr_after henclosed hc]
  rfl

/-- Where no nested text is given before the literal, the literal gives one. -/
theorem exists_nestedRegion?_text (h : SearchesFor wanted (bracketAttribute wanted bracket))
    (hwanted : wanted ∈ definitionNames)
    (hgiven : l.given (bracketAttribute wanted bracket) = none) {front inside region : List Char}
    {passed : List Char} (hcontent : LiteralContent l.quote (front ++ inside))
    (hfound : ∀ tail, first? (bracketAttribute wanted bracket) (some l.quote)
      (front ++ inside ++ l.quote :: tail) = some ⟨passed, (), inside ++ l.quote :: tail⟩)
    (hregion : ∀ tail, (enclosed? (inside ++ l.quote :: tail)).map (·.1) = some region)
    (innerOffset : Nat) (following : List Char) :
    ∃ offset, nestedRegion? wanted bracket innerOffset (maskNested (l.text (front ++ inside)))
      (l.text (front ++ inside) ++ following) = some (offset, region) := by
  rw [given, firstValue?, Option.map_eq_none_iff] at hgiven
  have hmasked : byteLength (maskNested (l.text (front ++ inside))) -
      byteLength (inside ++ l.quote :: maskNested l.after) =
        byteLength (l.front ++ l.quote :: front) := by
    rw [maskNested_text hcontent]
    simp only [byteLength_append, byteLength_cons, byteLength_visible]
    omega
  have htext : l.text (front ++ inside) ++ following =
      (l.front ++ l.quote :: front) ++ (inside ++ l.quote :: (l.after ++ following)) := by
    simp [text]
  obtain ⟨⟨region', after⟩, henclosed, rfl⟩ :=
    Option.map_eq_some_iff.mp (hregion (l.after ++ following))
  refine ⟨innerOffset + byteLength (l.front ++ l.quote :: front), ?_⟩
  rw [nestedRegion?, first?_text h hwanted hcontent, hgiven, hfound]
  simp only [Option.map_none, Option.none_or, Option.map_some, Option.bind_eq_bind,
    Option.bind_some, hmasked, htext, dropBytes_byteLength_append, henclosed]
  rfl

/-- Nested texts that end before the literal are read alike. -/
theorem shieldsNested (hfields : l.ClosesBefore "fields" '[')
    (hlabels : l.ClosesBefore "resultLabels" '\x7b') : l.ShieldsNested := by
  obtain ⟨⟨start, region⟩, hfields⟩ := Option.isSome_iff_exists.mp hfields
  obtain ⟨⟨start', region'⟩, hlabels⟩ := Option.isSome_iff_exists.mp hlabels
  have hsearchFields : SearchesFor "fields" (bracketAttribute "fields" '[') :=
    searchesFor_bracket ⟨by decide, by decide⟩ (by decide)
  have hsearchLabels : SearchesFor "resultLabels" (bracketAttribute "resultLabels" '\x7b') :=
    searchesFor_bracket ⟨by decide, by decide⟩ (by decide)
  intro place innerOffset following content replacement hcontent hreplacement
  have hreplacement := hreplacement.literalContent
  simp only [readFields, readResultLabels,
    nestedRegion?_text_of_before hsearchFields (by decide) hfields hcontent,
    nestedRegion?_text_of_before hsearchFields (by decide) hfields hreplacement,
    nestedRegion?_text_of_before hsearchLabels (by decide) hlabels hcontent,
    nestedRegion?_text_of_before hsearchLabels (by decide) hlabels hreplacement, and_self]

end Nested

theorem GivesDefinition.shieldsDefinition (h : l.GivesDefinition) (hnested : l.ShieldsNested) :
    l.ShieldsDefinition := by
  intro place offset innerOffset following content replacement hcontent hreplacement
  obtain ⟨hfields, hlabels⟩ :=
    hnested place innerOffset following content replacement hcontent hreplacement
  rw [readDefinition_text hcontent, readDefinition_text hreplacement.literalContent, hfields,
    hlabels]
  simp only [Option.or_of_isSome h.id, Option.or_of_isSome h.titleKey,
    Option.or_of_isSome h.category, Option.or_of_isSome h.subCategory,
    Option.or_of_isSome h.computation]

end UnreadLiteral

/-- The values in a content of a literal that gives every attribute of a definition, apart from its
nested texts. -/
def sampleValues (quote : Char) (second : Bool) : List Char :=
  "id: ".toList ++ sampleQuoted quote second ++ " titleKey: ".toList ++ sampleQuoted quote second ++
    " category: ".toList ++ sampleQuoted quote second ++ " subCategory: ".toList ++
    sampleQuoted quote second ++ " useCase: ".toList ++ sampleWord second ++ "() ".toList

/-- One field. -/
def sampleFields (quote : Char) (second : Bool) : List Char :=
  "InputFieldDefinition(key: ".toList ++ sampleQuoted quote second ++ ", labelKey: ".toList ++
    sampleQuoted quote second ++ ")".toList

/-- One result label. -/
def sampleLabels (quote : Char) (second : Bool) : List Char :=
  sampleQuoted quote second ++ ": ".toList ++ sampleQuoted quote second

/-- A content of a literal that gives every attribute of a definition. -/
def sampleDefinition (quote : Char) (second : Bool) : List Char :=
  (sampleValues quote second ++ "fields: [".toList) ++
    (sampleFields quote second ++ "] resultLabels: \x7b".toList ++
      (sampleLabels quote second ++ "\x7d".toList))

section Sample

variable {quote : Char}

theorem literalContent_sampleDefinition (h : isQuote quote = true) (second : Bool) :
    LiteralContent quote (sampleDefinition quote second) := by
  obtain rfl | rfl := isQuote_iff.mp h <;> cases second <;>
    exact literalContent_of_all (by decide +kernel)

theorem later_sampleDefinition (h : isQuote quote = true) (second : Bool) (tail : List Char) :
    later quote (stringAttribute "id") (sampleDefinition quote second) tail =
        some (String.ofList (sampleWord second)) ∧
      later quote (stringAttribute "titleKey") (sampleDefinition quote second) tail =
        some (String.ofList (sampleWord second)) ∧
      later quote (stringAttribute "category") (sampleDefinition quote second) tail =
        some (String.ofList (sampleWord second)) ∧
      later quote (stringAttribute "subCategory") (sampleDefinition quote second) tail =
        some (String.ofList (sampleWord second)) ∧
      later quote computationAttribute (sampleDefinition quote second) tail =
        some (String.ofList (sampleWord second)) := by
  obtain rfl | rfl := isQuote_iff.mp h <;> cases second <;> exact ⟨rfl, rfl, rfl, rfl, rfl⟩

theorem first?_sampleFields (h : isQuote quote = true) (second : Bool) (tail : List Char) :
    first? (bracketAttribute "fields" '[') (some quote)
      (sampleDefinition quote second ++ quote :: tail) =
        some ⟨sampleValues quote second, (), sampleFields quote second ++
          "] resultLabels: \x7b".toList ++ (sampleLabels quote second ++ "\x7d".toList) ++
            quote :: tail⟩ := by
  obtain rfl | rfl := isQuote_iff.mp h <;> cases second <;> rfl

set_option maxRecDepth 2000 in
theorem first?_sampleLabels (h : isQuote quote = true) (second : Bool) (tail : List Char) :
    first? (bracketAttribute "resultLabels" '\x7b') (some quote)
      (sampleDefinition quote second ++ quote :: tail) =
        some ⟨sampleValues quote second ++ "fields: [".toList ++ sampleFields quote second ++
          "] ".toList, (), (sampleLabels quote second ++ "\x7d".toList) ++ quote :: tail⟩ := by
  obtain rfl | rfl := isQuote_iff.mp h <;> cases second <;> rfl

theorem enclosed?_sampleFields (h : isQuote quote = true) (second : Bool) (tail : List Char) :
    (enclosed? (sampleFields quote second ++ "] resultLabels: \x7b".toList ++
      (sampleLabels quote second ++ "\x7d".toList) ++ quote :: tail)).map (·.1) =
        some (sampleFields quote second) := by
  obtain rfl | rfl := isQuote_iff.mp h <;> cases second <;> rfl

theorem enclosed?_sampleLabels (h : isQuote quote = true) (second : Bool) (tail : List Char) :
    (enclosed? ((sampleLabels quote second ++ "\x7d".toList) ++ quote :: tail)).map (·.1) =
      some (sampleLabels quote second) := by
  obtain rfl | rfl := isQuote_iff.mp h <;> cases second <;> rfl

theorem successes_sampleFields (h : isQuote quote = true) (second : Bool) (place : Nat → Excerpt)
    (offset : Nat) :
    (successes ((spans (opening fieldConstructor) fieldClosing offset
      (sampleFields quote second)).map (fieldOfSpan place))).map (·.key) =
        [String.ofList (sampleWord second)] := by
  obtain rfl | rfl := isQuote_iff.mp h <;> cases second <;> rfl

theorem values_sampleLabels (h : isQuote quote = true) (second : Bool) :
    values resultLabelPair (sampleLabels quote second) =
      [(String.ofList (sampleWord second), String.ofList (sampleWord second))] := by
  obtain rfl | rfl := isQuote_iff.mp h <;> cases second <;> rfl

end Sample

namespace UnreadLiteral

variable {l : UnreadLiteral definitionNames}

/-- A definition is read from a content that gives every attribute as far as they are not given
before the literal. -/
theorem readDefinition_sample (l : UnreadLiteral definitionNames) (second : Bool)
    (place : Nat → Excerpt) (offset innerOffset : Nat) (following : List Char) :
    (readDefinition place offset innerOffset (l.text (sampleDefinition l.quote second))
      following).2 = .ok {
        id := (l.given (stringAttribute "id")).getD (String.ofList (sampleWord second))
        titleKey := (l.given (stringAttribute "titleKey")).getD (String.ofList (sampleWord second))
        category := (l.given (stringAttribute "category")).getD (String.ofList (sampleWord second))
        subCategory :=
          (l.given (stringAttribute "subCategory")).getD (String.ofList (sampleWord second))
        computation :=
          some ((l.given computationAttribute).getD (String.ofList (sampleWord second)))
        fields := successes (readFields place innerOffset
          (maskNested (l.text (sampleDefinition l.quote second)))
            (l.text (sampleDefinition l.quote second) ++ following))
        resultLabels := readResultLabels innerOffset
          (maskNested (l.text (sampleDefinition l.quote second)))
            (l.text (sampleDefinition l.quote second) ++ following)
        location := (place offset).location } := by
  obtain ⟨hid, htitleKey, hcategory, hsubCategory, hcomputation⟩ :=
    later_sampleDefinition l.isQuote_quote second (maskNested l.after)
  rw [readDefinition_text (literalContent_sampleDefinition l.isQuote_quote second)]
  simp only [hid, htitleKey, hcategory, hsubCategory, hcomputation, Option.or_some, required,
    Option.getD_some]
  rfl

/-- The fields of a definition are read from the content if none are given before it. -/
theorem successes_readFields_sample (hgiven : l.given (bracketAttribute "fields" '[') = none)
    (second : Bool) (place : Nat → Excerpt) (innerOffset : Nat) (following : List Char) :
    (successes (readFields place innerOffset
      (maskNested (l.text (sampleDefinition l.quote second)))
        (l.text (sampleDefinition l.quote second) ++ following))).map (·.key) =
      [String.ofList (sampleWord second)] := by
  have hquote := l.isQuote_quote
  obtain ⟨offset, hregion⟩ := exists_nestedRegion?_text
    (searchesFor_bracket ⟨by decide, by decide⟩ (by decide)) (by decide) hgiven
    (literalContent_sampleDefinition hquote second) (first?_sampleFields hquote second)
    (enclosed?_sampleFields hquote second) innerOffset following
  change nestedRegion? "fields" '[' innerOffset
    (maskNested (l.text (sampleDefinition l.quote second)))
      (l.text (sampleDefinition l.quote second) ++ following) = _ at hregion
  rw [readFields, hregion]
  exact successes_sampleFields hquote second place offset

/-- The result labels of a definition are read from the content if none are given before it. -/
theorem readResultLabels_sample
    (hgiven : l.given (bracketAttribute "resultLabels" '\x7b') = none) (second : Bool)
    (innerOffset : Nat) (following : List Char) :
    readResultLabels innerOffset (maskNested (l.text (sampleDefinition l.quote second)))
        (l.text (sampleDefinition l.quote second) ++ following) =
      [⟨String.ofList (sampleWord second), String.ofList (sampleWord second)⟩] := by
  have hquote := l.isQuote_quote
  have hsplit : sampleDefinition l.quote second =
      (sampleValues l.quote second ++ "fields: [".toList ++ sampleFields l.quote second ++
        "] resultLabels: \x7b".toList) ++ (sampleLabels l.quote second ++ "\x7d".toList) := by
    simp only [sampleDefinition, List.append_assoc]
  have hcontent := literalContent_sampleDefinition hquote second
  have hfound := first?_sampleLabels hquote second
  rw [hsplit] at hcontent hfound ⊢
  obtain ⟨offset, hregion⟩ := exists_nestedRegion?_text
    (searchesFor_bracket ⟨by decide, by decide⟩ (by decide)) (by decide) hgiven hcontent hfound
    (enclosed?_sampleLabels hquote second) innerOffset following
  rw [readResultLabels, hregion]
  simp only [values_sampleLabels hquote second]
  rfl

theorem ShieldsDefinition.same_sample (h : l.ShieldsDefinition) (place : Nat → Excerpt)
    (offset innerOffset : Nat) (following : List Char) :
    (readDefinition place offset innerOffset (l.text (sampleDefinition l.quote false))
        following).2 =
      (readDefinition place offset innerOffset (l.text (sampleDefinition l.quote true))
        following).2 := by
  have hcontent := literalContent_sampleDefinition l.isQuote_quote
  rw [← h place offset innerOffset following _ [] (hcontent false) (isReplacement_nil _),
    ← h place offset innerOffset following _ [] (hcontent true) (isReplacement_nil _)]

theorem ShieldsDefinition.givesDefinition (h : l.ShieldsDefinition) : l.GivesDefinition := by
  have hsame := h.same_sample (fun _ ↦ ⟨⟨"", 0, 0⟩, ""⟩) 0 0 []
  rw [readDefinition_sample, readDefinition_sample] at hsame
  obtain ⟨hid, htitleKey, hcategory, hsubCategory, hcomputation, hfields, hlabels, -⟩ :=
    Definition.mk.inj (Except.ok.inj hsame)
  refine {
    id := isSome_of_getD_eq hid (by decide)
    titleKey := isSome_of_getD_eq htitleKey (by decide)
    category := isSome_of_getD_eq hcategory (by decide)
    subCategory := isSome_of_getD_eq hsubCategory (by decide)
    computation := isSome_of_getD_eq (Option.some.inj hcomputation) (by decide)
    fields := ?_
    resultLabels := ?_ }
  · refine Option.isSome_iff_ne_none.mpr fun hnone ↦ ?_
    have hkeys := congrArg (List.map (·.key)) hfields
    rw [successes_readFields_sample hnone, successes_readFields_sample hnone] at hkeys
    exact absurd hkeys (by decide)
  · refine Option.isSome_iff_ne_none.mpr fun hnone ↦ ?_
    rw [readResultLabels_sample hnone, readResultLabels_sample hnone] at hlabels
    exact absurd hlabels (by decide)

theorem ShieldsDefinition.shieldsNested (h : l.ShieldsDefinition) : l.ShieldsNested := by
  intro place innerOffset following content replacement hcontent hreplacement
  obtain ⟨id, hid⟩ := Option.isSome_iff_exists.mp h.givesDefinition.id
  obtain ⟨titleKey, htitleKey⟩ := Option.isSome_iff_exists.mp h.givesDefinition.titleKey
  have hsame := h place 0 innerOffset following content replacement hcontent hreplacement
  rw [readDefinition_text hcontent, readDefinition_text hreplacement.literalContent] at hsame
  simp only [hid, htitleKey, Option.some_or, required] at hsame
  obtain ⟨-, -, -, -, -, hfields, hlabels, -⟩ := Definition.mk.inj (Except.ok.inj hsame)
  exact ⟨hfields, hlabels⟩

end UnreadLiteral

/-- An attribute that nobody reads is without effect on a field exactly when every attribute of the
field is given before it. On a definition the nested texts must be read alike too, and they are if
they end before it. -/
theorem shielded_iff (ofField : UnreadLiteral fieldNames)
    (ofDefinition : UnreadLiteral definitionNames) :
    (ofField.ShieldsField ↔ ofField.GivesField) ∧
      (ofDefinition.ShieldsDefinition ↔
        ofDefinition.GivesDefinition ∧ ofDefinition.ShieldsNested) ∧
      (ofDefinition.ClosesBefore "fields" '[' ∧ ofDefinition.ClosesBefore "resultLabels" '\x7b' →
        ofDefinition.ShieldsNested) :=
  ⟨⟨UnreadLiteral.ShieldsField.givesField, UnreadLiteral.GivesField.shieldsField⟩,
    ⟨fun h ↦ ⟨h.givesDefinition, h.shieldsNested⟩, fun h ↦ h.1.shieldsDefinition h.2⟩,
    fun h ↦ UnreadLiteral.shieldsNested h.1 h.2⟩

/-- A hint behind the key and the label of a field. -/
def hintLiteral : UnreadLiteral fieldNames where
  lead := "key: 'k', labelKey: 'l', ".toList
  name := "hint".toList
  gap := []
  gap' := [' ']
  quote := '\x27'
  after := []
  isWord := ⟨by decide, by decide⟩
  unread := by decide
  isWordAt_lead := rfl
  atTopLevel := ⟨rfl, rfl⟩
  isBlank_gap := rfl
  isBlank_gap' := rfl
  isQuote_quote := rfl

/-- A hint with the text of a bound gives the field that bound. -/
theorem not_shieldsField_hintLiteral : ¬hintLiteral.ShieldsField := by
  intro h
  have hall : ("minValue: 5".toList.all fun c ↦ c != '\x27' && c != '\\' && c != '\n' &&
      !isOpening c && !isClosing c) = true := rfl
  have hreplacement : IsReplacement '\x27' "minValue: 5".toList := fun c hc ↦ by
    simpa [and_assoc] using List.all_eq_true.mp hall c hc
  have hsame := h "plain".toList _ (literalContent_of_all rfl) hreplacement
  have hbound := congrArg (fun read ↦ read.toOption.bind (·.minValue) |>.isSome) hsame
  have hgiven : ((readField (hintLiteral.text "minValue: 5".toList)).toOption.bind
      (·.minValue)).isSome = true := rfl
  have hmissing : ((readField (hintLiteral.text "plain".toList)).toOption.bind
      (·.minValue)).isSome = false := rfl
  rw [hgiven, hmissing] at hbound
  cases hbound

end CalculatorCatalog.Definition
