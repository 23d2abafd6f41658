import CalculatorCatalog.Proofs.Definition.Standing

/-!
# Literals that are read whole

The attributes of a declaration that are texts are read from literals (`definitionTexts`,
`fieldTexts`). The reader of the source ends a literal at the quote that opened it, while a quoted
value is taken up to the next quote of either kind. So of a literal that holds a quote of the other
kind at most a part is taken. `TextLiteral.ReadsWhole` is the exact condition under which the value
of an attribute is what its literal holds, whatever stands around it, and `readsWhole_iff` says so
of both kinds of declaration.
-/

set_option autoImplicit false
set_option relaxedAutoImplicit false

namespace CalculatorCatalog.Definition

open CalculatorCatalog.Text

/-! ### Attributes that are texts -/

/-- An attribute that is a text: its name, its value in a declaration, and the reason to drop a
declaration without it, if there is one. -/
structure TextAttribute (α : Type) where
  name : String
  value : α → String
  reason? : Option DropReason

/-- The title of a definition. -/
def titleText : TextAttribute Definition :=
  ⟨"titleKey", (·.titleKey), some .missingTitleKey⟩

/-- The key of a field. -/
def keyText : TextAttribute Field :=
  ⟨"key", (·.key), some .missingFieldKey⟩

/-- The attributes of a definition that are texts. -/
def definitionTexts : List (TextAttribute Definition) :=
  [⟨"id", (·.id), some .missingId⟩, titleText, ⟨"category", (·.category), none⟩,
    ⟨"subCategory", (·.subCategory), none⟩]

/-- The attributes of a field that are texts. -/
def fieldTexts : List (TextAttribute Field) :=
  [keyText, ⟨"labelKey", (·.labelKey), some .missingFieldLabel⟩]

namespace TextAttribute

variable {α : Type} (item : TextAttribute α)

/-- A declaration is not dropped unless it is for want of this attribute. -/
def LacksNothingElse (result : Except DropReason α) : Prop :=
  ∀ reason, result = .error reason → item.reason? = some reason

/-- A declaration is read, with the given value of the attribute. -/
def IsReadAs (result : Except DropReason α) (text : String) : Prop :=
  ∃ declaration, result = .ok declaration ∧ item.value declaration = text

/-- A declaration is read with the value that is found for the attribute, and it is dropped for want
of the attribute only if none is found. -/
structure Takes (result : Except DropReason α) (found : Option String) : Prop where
  value_eq : ∀ declaration, result = .ok declaration → item.value declaration = found.getD ""
  eq_none : ∀ reason, result = .error reason → item.reason? = some reason → found = none

variable {item}

theorem Takes.isReadAs_iff {result : Except DropReason α} {found : Option String}
    (h : item.Takes result found) (hlacks : item.LacksNothingElse result) {text : String}
    (htext : text ≠ "") : item.IsReadAs result text ↔ found = some text := by
  constructor
  · rintro ⟨declaration, hresult, rfl⟩
    rw [h.value_eq declaration hresult] at htext ⊢
    cases found with
    | none => exact absurd rfl htext
    | some value => rfl
  · rintro rfl
    cases hresult : result with
    | ok declaration => exact ⟨declaration, rfl, h.value_eq declaration hresult⟩
    | error reason =>
      cases h.eq_none reason hresult (hlacks reason hresult)

end TextAttribute

theorem takes_readField {item : TextAttribute Field} (hitem : item ∈ fieldTexts)
    (inner : List Char) :
    item.Takes (readField inner) (firstValue? (stringAttribute item.name) (maskNested inner)) := by
  simp only [fieldTexts, List.mem_cons, List.not_mem_nil, or_false] at hitem
  rcases readField_cases inner with
    ⟨hnone, hread⟩ | ⟨hnone, hread⟩ | ⟨field, hkey, hlabelKey, -, -, -, hread⟩
  · rw [hread]
    rcases hitem with rfl | rfl <;> constructor <;> simp [keyText, hnone]
  · rw [hread]
    rcases hitem with rfl | rfl <;> constructor <;> simp [keyText, hnone]
  · rw [hread]
    rcases hitem with rfl | rfl <;> constructor <;> simp [keyText, hkey, hlabelKey]

theorem takes_readDefinition {item : TextAttribute Definition} (hitem : item ∈ definitionTexts)
    (place : Nat → Excerpt) (offset innerOffset : Nat) (inner following : List Char) :
    item.Takes (readDefinition place offset innerOffset inner following).2
      (firstValue? (stringAttribute item.name) (maskNested inner)) := by
  simp only [definitionTexts, List.mem_cons, List.not_mem_nil, or_false] at hitem
  rcases readDefinition_cases place offset innerOffset inner following with
    ⟨hnone, hread⟩ | ⟨hnone, hread⟩ | ⟨definition, hid, htitle, hcategory, hsub, hread⟩
  · rw [hread]
    rcases hitem with rfl | rfl | rfl | rfl <;> constructor <;> simp [titleText, hnone]
  · rw [hread]
    rcases hitem with rfl | rfl | rfl | rfl <;> constructor <;> simp [titleText, hnone]
  · rw [hread]
    rcases hitem with rfl | rfl | rfl | rfl <;> constructor <;>
      simp [titleText, hid, htitle, hcategory, hsub]

/-! ### Literals -/

/-- A literal that is the value of an attribute at the top level of a declaration: the white space
before it, its quote, its content, and the source behind it. -/
structure TextLiteral (name : String) extends AttributePlace name where
  gap' : List Char
  quote : Char
  content : List Char
  after : List Char
  isBlank_gap' : isBlank gap' = true
  isQuote_quote : isQuote quote = true
  content_ne_nil : content ≠ []
  plain_content : ∀ c ∈ content, c ≠ quote ∧ c ≠ '\\' ∧ c ≠ '\n'

namespace TextLiteral

variable {name : String} (l : TextLiteral name)

/-- The source from the inside of the declaration up to the opening quote. -/
def opening : List Char :=
  l.front ++ (l.gap' ++ [l.quote])

/-- The source from the inside of the declaration on. -/
def source : List Char :=
  l.opening ++ (l.content ++ l.quote :: l.after)

/-- What is taken for the inside of the declaration begins like the source, and the literal begins
in it. -/
structure BeginsIn (inner : List Char) : Prop where
  opening : l.opening <+: inner
  source : inner <+: l.source

/-- The literal ends in what is taken for the inside of the declaration. -/
def LiesIn (inner : List Char) : Prop :=
  l.opening ++ (l.content ++ [l.quote]) <+: inner

/-- The value that is found before the literal. -/
def given : Option String :=
  l.toAttributePlace.given (stringAttribute name) (l.gap' ++ [l.quote])

/-- What the literal holds is found as the value of its attribute: it is before the literal already,
or else nothing is, the literal holds no quote, and it ends in the declaration. -/
def ReadsWhole (inner : List Char) : Prop :=
  l.given = some (String.ofList l.content) ∨
    (l.given = none ∧ (∀ c ∈ l.content, isQuote c = false) ∧ l.LiesIn inner)

variable {l} {inner : List Char}

theorem literalContent_part {part : List Char} (h : part <+: l.content) :
    LiteralContent l.quote part :=
  literalContent_of_forall fun c hc ↦ l.plain_content c (h.subset hc)

/-- What is visible of the declaration: the literal as far as it lies in it. -/
theorem BeginsIn.exists_shown (h : l.BeginsIn inner) :
    (l.LiesIn inner ∧ ∃ rest, maskNested inner =
      l.visible ++ ((l.gap' ++ [l.quote]) ++ (l.content ++ l.quote :: rest))) ∨
    (¬l.LiesIn inner ∧ ∃ held, held <+: l.content ∧
      maskNested inner = l.visible ++ ((l.gap' ++ [l.quote]) ++ held)) := by
  obtain ⟨⟨held, rfl⟩, hsource⟩ := h
  rw [TextLiteral.source, List.prefix_append_right_inj] at hsource
  have hmask (held : List Char) : maskNested (l.opening ++ held) =
      l.visible ++ (l.gap' ++ maskNested (l.quote :: held)) := by
    rw [TextLiteral.opening, List.append_assoc, l.maskNested_front_append, List.append_assoc,
      maskNested_plain_append (isPlain_gap l.isBlank_gap')]
    rfl
  have hwhole : l.content ++ [l.quote] <+: l.content ++ l.quote :: l.after :=
    ⟨l.after, by simp⟩
  rw [LiesIn, List.prefix_append_right_inj]
  by_cases hlies : l.content ++ [l.quote] <+: held
  · obtain ⟨rest, rfl⟩ := hlies
    have hcontent := literalContent_part (List.prefix_refl l.content)
    refine .inl ⟨⟨rest, rfl⟩, maskNested rest, ?_⟩
    rw [hmask, List.append_assoc, List.singleton_append,
      hcontent.maskNested_quoted l.isQuote_quote]
    simp
  · have hlength : held.length ≤ l.content.length := by
      by_contra hlong
      refine hlies (List.prefix_of_prefix_length_le hwhole hsource ?_)
      rw [List.length_append, List.length_singleton]
      omega
    have hheld : held <+: l.content :=
      List.prefix_of_prefix_length_le hsource (List.prefix_append _ _) hlength
    refine .inr ⟨hlies, held, hheld, ?_⟩
    rw [hmask, (literalContent_part hheld).maskNested_cutOff l.isQuote_quote]
    simp

/-! ### What is found -/

/-- What is found behind the opening quote: the value that is read there, or else the first one
further behind. -/
def found (l : TextLiteral name) (shown : List Char) : Option String :=
  ((quotedValue? (l.quote :: shown)).map (String.ofList ·.1)).or
    ((first? (stringAttribute name) (some l.quote) shown).map (·.value))

/-- The value that is found is the one before the literal, or else one behind its opening quote. -/
theorem firstValue?_eq (shown : List Char) :
    firstValue? (stringAttribute name) (l.visible ++ ((l.gap' ++ [l.quote]) ++ shown)) =
      l.given.or (l.found shown) := by
  have hreads := readsAttribute_string name
  have hquote := l.isQuote_quote
  have hgap := l.isBlank_gap'
  have hskip (shown : List Char) :
      skipWhite ((l.gap' ++ [l.quote]) ++ shown) = l.quote :: shown := by
    rw [List.append_assoc, skipWhite_append hgap]
    exact skipWhite_cons (isWhiteSpace_of_isQuote hquote) shown
  -- Between the colon and the content there is no place where a name begins.
  have hsearch (shown : List Char) :
      (first? (stringAttribute name) (some ':') ((l.gap' ++ [l.quote]) ++ shown)).map (·.value) =
        (first? (stringAttribute name) (some l.quote) shown).map (·.value) := by
    have hpassed : Declines (stringAttribute name) (some ':') (l.gap' ++ [l.quote]) shown :=
      declines_append.mpr ⟨declines_gap hreads l.isWord hgap _,
        hreads.eq_none_of_quote l.isWord hquote _ _, trivial⟩
    rw [first?_append_of_declines hpassed, lastOr_append, Option.map_map]
    rfl
  have hbarrier : first? (stringAttribute name) (some ':') (l.gap' ++ [l.quote]) = none := by
    have hend := hsearch []
    rw [List.append_nil, first?, hreads.eq_none_of_nil l.isWord] at hend
    exact Option.map_eq_none_iff.mp hend
  have hread : (quotedValue? (skipWhite (l.gap' ++ [l.quote]))).map
      (fun result ↦ (String.ofList result.1, result.2)) = none := by
    have hempty := hskip []
    rw [List.append_nil] at hempty
    rw [hempty, quotedValue?, if_pos hquote]
    rfl
  rw [l.toAttributePlace.firstValue?_eq hreads (settlesAtLiteral_string.settledBy hgap hquote) hread
    hbarrier, hskip, hsearch, Option.map_map]
  rfl

/-- A value is read from between quotes, and holds none. -/
theorem of_stringAttribute {before : Option Char} {text rest : List Char} {value : String}
    (h : stringAttribute name before text = some (value, rest)) :
    (∀ c ∈ value.toList, isQuote c = false) ∧ ∃ c ∈ text, isQuote c = true := by
  rw [readsAttribute_string name] at h
  obtain ⟨left, hleft, hread⟩ := Option.bind_eq_some_iff.mp h
  obtain ⟨-, gap, tail, -, rfl, rfl⟩ := afterAttributeName?_eq_some hleft
  obtain ⟨⟨held, rest'⟩, hquoted, heq⟩ := Option.map_eq_some_iff.mp hread
  obtain ⟨rfl, -⟩ := Prod.mk.inj heq
  obtain ⟨-, hheld, opens, closes, hopens, -, htail⟩ := quotedValue?_eq_some_iff.mp hquoted
  have hmem : opens ∈ tail := by
    rw [← takeWhile_append_skipWhite tail, htail]
    simp
  refine ⟨by simpa using hheld, opens, ?_, hopens⟩
  simp [hmem]

/-- What is found behind the opening quote holds no quote, and a further quote stands behind that
one. -/
theorem of_found {shown : List Char} {value : String} (h : l.found shown = some value) :
    (∀ c ∈ value.toList, isQuote c = false) ∧ ∃ c ∈ shown, isQuote c = true := by
  rcases Option.or_eq_some_iff.mp h with hread | ⟨-, hlater⟩
  · obtain ⟨⟨held, rest⟩, hquoted, rfl⟩ := Option.map_eq_some_iff.mp hread
    obtain ⟨-, hheld, opens, closes, -, hcloses, htext⟩ := quotedValue?_eq_some_iff.mp hquoted
    obtain ⟨-, rfl⟩ := List.cons.inj htext
    exact ⟨by simpa using hheld, closes, by simp, hcloses⟩
  · obtain ⟨occurrence, hfirst, rfl⟩ := Option.map_eq_some_iff.mp hlater
    obtain ⟨after, rfl, hrecognized⟩ := first?_eq_some hfirst
    obtain ⟨hvalue, c, hc, hquote⟩ := of_stringAttribute hrecognized
    exact ⟨hvalue, c, List.mem_append_right _ hc, hquote⟩

/-- The value that is found for the attribute is what the literal holds exactly if the literal is
read whole. -/
theorem BeginsIn.firstValue?_eq_iff (h : l.BeginsIn inner) :
    firstValue? (stringAttribute name) (maskNested inner) = some (String.ofList l.content) ↔
      l.ReadsWhole inner := by
  have hfound (shown : List Char) (hshown : l.found shown = some (String.ofList l.content)) :
      (∀ c ∈ l.content, isQuote c = false) ∧ ∃ c ∈ shown, isQuote c = true := by
    simpa using of_found hshown
  rw [ReadsWhole]
  rcases h.exists_shown with ⟨hlies, rest, hmask⟩ | ⟨hlies, held, hheld, hmask⟩
  · rw [hmask, firstValue?_eq, Option.or_eq_some_iff]
    refine or_congr Iff.rfl (and_congr Iff.rfl ?_)
    constructor
    · exact fun hshown ↦ ⟨(hfound _ hshown).1, hlies⟩
    · rintro ⟨hcontent, -⟩
      have hread : quotedValue? (l.quote :: (l.content ++ l.quote :: rest)) =
          some (l.content, rest) :=
        quotedValue?_eq_some_iff.mpr
          ⟨l.content_ne_nil, hcontent, l.quote, l.quote, l.isQuote_quote, l.isQuote_quote, rfl⟩
      rw [found, hread]
      rfl
  · rw [hmask, firstValue?_eq, Option.or_eq_some_iff]
    refine or_congr Iff.rfl (and_congr Iff.rfl ?_)
    constructor
    · -- The literal is cut off, so that no quote can follow its content.
      intro hshown
      obtain ⟨hcontent, c, hc, hquote⟩ := hfound _ hshown
      rw [hcontent c (hheld.subset hc)] at hquote
      cases hquote
    · rintro ⟨-, hlies'⟩
      exact absurd hlies' hlies

end TextLiteral

/-! ### Declarations -/

theorem TextLiteral.ofList_content_ne {name : String} (l : TextLiteral name) :
    String.ofList l.content ≠ "" := by
  intro h
  have hcontent := congrArg String.toList h
  rw [String.toList_ofList] at hcontent
  exact l.content_ne_nil hcontent

/-- An attribute of a definition or of a field that is a text is read with what its literal holds
exactly if the literal is read whole: if that is found before the literal already, or if nothing is
and the literal holds no quote of the other kind and ends in the declaration. -/
theorem readsWhole_iff (place : Nat → Excerpt) (offset innerOffset : Nat)
    (inner following : List Char) :
    (∀ item ∈ definitionTexts, ∀ l : TextLiteral item.name, l.BeginsIn inner →
      item.LacksNothingElse (readDefinition place offset innerOffset inner following).2 →
      (item.IsReadAs (readDefinition place offset innerOffset inner following).2
        (String.ofList l.content) ↔ l.ReadsWhole inner)) ∧
    ∀ item ∈ fieldTexts, ∀ l : TextLiteral item.name, l.BeginsIn inner →
      item.LacksNothingElse (readField inner) →
      (item.IsReadAs (readField inner) (String.ofList l.content) ↔ l.ReadsWhole inner) := by
  constructor
  · intro item hitem l hbegins hlacks
    have htakes := takes_readDefinition hitem place offset innerOffset inner following
    rw [htakes.isReadAs_iff hlacks l.ofList_content_ne, hbegins.firstValue?_eq_iff]
  · intro item hitem l hbegins hlacks
    have htakes := takes_readField hitem inner
    rw [htakes.isReadAs_iff hlacks l.ofList_content_ne, hbegins.firstValue?_eq_iff]

/-- A title in double quotes that holds a single one. -/
def titleLiteral : TextLiteral titleText.name where
  lead := "id: 'a', ".toList
  gap := []
  isWord := ⟨by decide, by decide⟩
  isWordAt_lead := rfl
  atTopLevel := ⟨rfl, rfl⟩
  isBlank_gap := isBlank_nil
  gap' := " ".toList
  quote := '\x22'
  content := "it's".toList
  after := []
  isBlank_gap' := rfl
  isQuote_quote := rfl
  content_ne_nil := by decide
  plain_content := forall_of_all rfl

/-- The key of a field, with nothing around it. -/
def keyLiteral : TextLiteral keyText.name where
  lead := []
  gap := []
  isWord := ⟨by decide, by decide⟩
  isWordAt_lead := rfl
  atTopLevel := ⟨rfl, rfl⟩
  isBlank_gap := isBlank_nil
  gap' := []
  quote := '\x22'
  content := "k".toList
  after := ", labelKey: 'l'".toList
  isBlank_gap' := isBlank_nil
  isQuote_quote := rfl
  content_ne_nil := by decide
  plain_content := forall_of_all rfl

/-- The title is not read with what it holds, and the key is. -/
theorem readsWhole_titleLiteral :
    (titleLiteral.BeginsIn titleLiteral.source ∧
      ¬titleText.IsReadAs (readDefinition (fun _ ↦ ⟨⟨"", 0, 0⟩, ""⟩) 0 0 titleLiteral.source []).2
        (String.ofList titleLiteral.content)) ∧
    keyLiteral.BeginsIn keyLiteral.source ∧
      keyText.IsReadAs (readField keyLiteral.source) (String.ofList keyLiteral.content) := by
  have htitle : titleLiteral.BeginsIn titleLiteral.source := ⟨⟨_, rfl⟩, List.prefix_rfl⟩
  have hkey : keyLiteral.BeginsIn keyLiteral.source := ⟨⟨_, rfl⟩, List.prefix_rfl⟩
  have htitleRead : titleText.LacksNothingElse
      (readDefinition (fun _ ↦ ⟨⟨"", 0, 0⟩, ""⟩) 0 0 titleLiteral.source []).2 := by
    intro reason h
    cases h
  have hkeyRead : keyText.LacksNothingElse (readField keyLiteral.source) := by
    intro reason h
    cases h
  refine ⟨⟨htitle, fun hread ↦ ?_⟩, hkey, ?_⟩
  · rcases ((readsWhole_iff _ 0 0 _ []).1 titleText (by simp [definitionTexts]) titleLiteral htitle
      htitleRead).mp hread with hgiven | ⟨-, hcontent, -⟩
    · exact absurd hgiven (by decide)
    · exact absurd (hcontent '\x27' (by decide)) (by decide)
  · refine ((readsWhole_iff (fun _ ↦ ⟨⟨"", 0, 0⟩, ""⟩) 0 0 _ []).2 keyText (by simp [fieldTexts])
      keyLiteral hkey hkeyRead).mpr (.inr ⟨by decide, fun c hc ↦ ?_, ⟨_, rfl⟩⟩)
    have hquotes : keyLiteral.content.all (!isQuote ·) = true := rfl
    simpa using List.all_eq_true.mp hquotes c hc

/-- Of a title in double quotes nothing is taken from the first single quote on, although the literal
stands in the declaration as a whole and no other title does. -/
theorem not_readsWhole_titleLiteral :
    titleLiteral.LiesIn titleLiteral.source ∧ titleLiteral.given = none ∧
      titleLiteral.source = "id: 'a', titleKey: \x22it's\x22".toList ∧
      (extract "m.dart"
        "[CalculatorDefinition(id: 'a', titleKey: \x22it's\x22)];").definitions.map (·.titleKey) ≠
          [String.ofList titleLiteral.content] ∧
      (extract "m.dart"
        "[CalculatorDefinition(id: 'a', titleKey: \x22it's\x22)];").definitions.map (·.titleKey) =
          ["it"] := by
  refine ⟨⟨_, rfl⟩, by decide, by decide, ?_⟩
  have hread : (extract "m.dart"
      "[CalculatorDefinition(id: 'a', titleKey: \x22it's\x22)];").definitions.map (·.titleKey) =
        ["it"] := by decide +kernel
  rw [hread]
  exact ⟨by decide, rfl⟩

end CalculatorCatalog.Definition
