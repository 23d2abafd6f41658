import CalculatorCatalog.Proofs.Definition.Standing

/-!
# Expressions that are read as numbers

The value of an attribute of a field runs up to the next comma of the top level, or to the end of the
field (`NumberExpression`). If it is a complete decimal it is read as that number. The reader of
numbers also takes a decimal from the beginning of a longer expression, such as the zero of `0x10`,
so that an expression which is no decimal need not count as absent. `numberRead_iff` gives the exact
conditions under which complete decimals are read as what they are and all other expressions leave
the attribute absent.
-/

set_option autoImplicit false
set_option relaxedAutoImplicit false

namespace CalculatorCatalog.Definition

open CalculatorCatalog.Number CalculatorCatalog.Text

/-! ### Attributes that are numbers -/

/-- An attribute of a field that is a number: its name, its value if there is one, and the value that
counts if it is absent. -/
structure NumberAttribute where
  name : String
  value : Field → Option Binary64
  fallback? : Option Binary64

/-- The lower bound of a field. -/
def minNumber : NumberAttribute :=
  ⟨"minValue", (·.minValue), none⟩

/-- The upper bound of a field. -/
def maxNumber : NumberAttribute :=
  ⟨"maxValue", (·.maxValue), none⟩

/-- The attributes of a field that are numbers. -/
def fieldNumbers : List NumberAttribute :=
  [⟨"defaultValue", fun field ↦ some field.defaultValue, some Field.standardDefault⟩, minNumber,
    maxNumber]

/-- A number of a field is the first one that is found in what is visible of it, or the one that
counts if it is absent. -/
theorem fieldNumber_eq {item : NumberAttribute} (hitem : item ∈ fieldNumbers) {inner : List Char}
    {field : Field} (h : readField inner = .ok field) :
    item.value field =
      (firstValue? (numberAttribute item.name) (maskNested inner)).or item.fallback? := by
  simp only [fieldNumbers, List.mem_cons, List.not_mem_nil, or_false] at hitem
  rcases readField_cases inner with
    ⟨-, hread⟩ | ⟨-, hread⟩ | ⟨found, -, -, hdefault, hmin, hmax, hread⟩
  · rw [hread] at h
    cases h
  · rw [hread] at h
    cases h
  · rw [hread] at h
    obtain rfl := Except.ok.inj h
    rcases hitem with rfl | rfl | rfl
    · simp [Option.or_some, hdefault]
    · simp [minNumber, hmin]
    · simp [maxNumber, hmax]

/-! ### Expressions -/

/-- The expression behind the colon of an attribute: it runs up to the first comma of the top level,
or to the end of the field. -/
structure NumberExpression (name : String) extends AttributePlace name where
  expression : List Char
  tail : List Char
  ends : tail = [] ∨ tail.head? = some ',' ∧ AtTopLevel expression (some ',')
  noComma : ∀ first second, expression = first ++ ',' :: second → ¬AtTopLevel first (some ',')

namespace NumberExpression

variable {name : String} (l : NumberExpression name)

/-- The inside of the field. -/
def text : List Char :=
  l.front ++ (l.expression ++ l.tail)

/-- What is visible of the expression. -/
def shown : List Char :=
  maskedTo l.expression l.tail.head?

/-- The expression is a complete decimal, white space around it apart. -/
def Holds (decimal : Decimal) : Prop :=
  ∃ gap gap', isBlank gap = true ∧ isBlank gap' = true ∧
    l.expression = gap ++ (decimal.text ++ gap')

/-- The number that is found before the attribute. -/
def given : Option Binary64 :=
  l.toAttributePlace.given (numberAttribute name) []

/-- The number with which the expression begins. -/
def leading : Option Binary64 :=
  (readNumber? (skipWhite (maskNested (l.expression ++ l.tail)))).map (·.1)

/-- The number that is found behind the colon of the attribute under its name. -/
def behind : Option Binary64 :=
  (first? (numberAttribute name) (some ':') (maskNested (l.expression ++ l.tail))).map (·.value)

/-- The number that is found. -/
def found : Option Binary64 :=
  l.given.or (l.leading.or l.behind)

/-- No number is found: none under the name of the attribute before it or behind its colon, and the
expression does not begin with one. -/
structure IsAbsent : Prop where
  given : l.given = none
  leading : ¬BeginsWithDecimal (skipWhite l.shown)
  behind : l.behind = none

variable {l}

theorem firstValue?_eq : firstValue? (numberAttribute name) (maskNested l.text) = l.found := by
  have hbarrier : first? (numberAttribute name) (some ':') [] = none := by
    rw [first?, (readsAttribute_number name).eq_none_of_nil l.isWord]
    rfl
  rw [text, l.maskNested_front_append]
  exact l.toAttributePlace.firstValue?_eq (readsAttribute_number name)
    endsAtColon_readNumber?.settledBy rfl hbarrier (maskNested (l.expression ++ l.tail))

/-- What is visible behind the expression begins with a comma, if there is anything. -/
theorem exists_maskNested_eq (l : NumberExpression name) :
    ∃ rest, (rest = [] ∨ rest.head? = some ',') ∧ maskNested l.tail = rest ∧
      maskNested (l.expression ++ l.tail) = l.shown ++ rest := by
  rcases l.ends with htail | ⟨hcomma, htop⟩
  · refine ⟨[], .inl rfl, by rw [htail]; rfl, ?_⟩
    rw [shown, htail, List.append_nil, List.append_nil]
    exact (maskedTo_none l.expression).symm
  · obtain ⟨rest, htail⟩ := List.head?_eq_some_iff.mp hcomma
    have hplain : [','].all isPlain = true := rfl
    have hrest : maskNested l.tail = ',' :: maskNested rest := by
      rw [htail]
      exact maskNested_plain_append hplain rest
    refine ⟨',' :: maskNested rest, .inr rfl, hrest, ?_⟩
    rw [← hcomma] at htop
    rw [htop.maskNested_append, hrest, shown]

/-- The expression begins with a number exactly if its visible part does. -/
theorem leading_eq_none_iff : l.leading = none ↔ ¬BeginsWithDecimal (skipWhite l.shown) := by
  obtain ⟨rest, hrest, -, hmask⟩ := l.exists_maskNested_eq
  rw [leading, Option.map_eq_none_iff, readNumber?_eq_none_iff, hmask]
  rcases hrest with rfl | hcomma
  · rw [List.append_nil]
  · obtain ⟨rest, rfl⟩ := List.head?_eq_some_iff.mp hcomma
    rw [skipWhite_append_cons (by decide), beginsWithDecimal_append_comma]

theorem found_eq_none_iff : l.found = none ↔ l.IsAbsent := by
  rw [found, Option.or_eq_none_iff, Option.or_eq_none_iff, leading_eq_none_iff]
  exact ⟨fun ⟨hgiven, hleading, hbehind⟩ ↦ ⟨hgiven, hleading, hbehind⟩,
    fun ⟨hgiven, hleading, hbehind⟩ ↦ ⟨hgiven, hleading, hbehind⟩⟩

/-- A complete decimal is read as what it is. -/
theorem Holds.leading_eq {decimal : Decimal} (h : l.Holds decimal) :
    l.leading = some decimal.value := by
  obtain ⟨gap, gap', hgap, hgap', hexpression⟩ := h
  obtain ⟨rest, hrest, htail, -⟩ := l.exists_maskNested_eq
  have hstops : Stops (gap' ++ rest) := by
    rcases hrest with rfl | hcomma
    · rw [List.append_nil]
      exact AttributeSyntax.stops_gap hgap'
    · obtain ⟨rest, rfl⟩ := List.head?_eq_some_iff.mp hcomma
      exact AttributeSyntax.stops_comma hgap' rest
  have hmask : maskNested (l.expression ++ l.tail) = gap ++ (decimal.text ++ (gap' ++ rest)) := by
    rw [hexpression, List.append_assoc, maskNested_plain_append (isPlain_gap hgap),
      List.append_assoc, maskNested_plain_append decimal.isPlain_text,
      maskNested_plain_append (isPlain_gap hgap'), htail]
  rw [leading, hmask, skipWhite_append hgap, decimal.skipWhite_append,
    decimal.readNumber?_append hstops]
  rfl

end NumberExpression

/-! ### Fields -/

/-- What is asked of a number: that a complete decimal is read as what it is, and that any other
expression leaves the attribute absent. -/
structure NumberAttribute.IsReadAsWritten (item : NumberAttribute)
    (l : NumberExpression item.name) (field : Field) : Prop where
  complete : ∀ decimal, l.Holds decimal → item.value field = some decimal.value
  otherwise : (∀ decimal, ¬l.Holds decimal) → item.value field = item.fallback?

/-- A complete decimal is read as what it is exactly if no other number is found before it. Any other
expression leaves the attribute absent exactly if it does not begin with a number and none is found
before it or behind its colon, or if what is found is the value that counts anyway. -/
theorem isReadAsWritten_iff {item : NumberAttribute} (hitem : item ∈ fieldNumbers)
    (l : NumberExpression item.name) {field : Field} (hfield : readField l.text = .ok field) :
    item.IsReadAsWritten l field ↔
      (∃ decimal, l.Holds decimal ∧ (l.given = none ∨ l.given = some decimal.value)) ∨
      ((∀ decimal, ¬l.Holds decimal) ∧ (l.IsAbsent ∨ l.found = item.fallback?)) := by
  have hvalue := fieldNumber_eq hitem hfield
  rw [NumberExpression.firstValue?_eq] at hvalue
  have hcomplete {decimal : Decimal} (h : l.Holds decimal) :
      item.value field = some decimal.value ↔ l.given = none ∨ l.given = some decimal.value := by
    rw [hvalue, NumberExpression.found, h.leading_eq]
    cases l.given <;> simp
  have hotherwise : item.value field = item.fallback? ↔ l.IsAbsent ∨ l.found = item.fallback? := by
    rw [hvalue, ← NumberExpression.found_eq_none_iff]
    cases l.found <;> simp
  by_cases hholds : ∃ decimal, l.Holds decimal
  · obtain ⟨decimal, h⟩ := hholds
    constructor
    · exact fun hread ↦ .inl ⟨decimal, h, (hcomplete h).mp (hread.complete decimal h)⟩
    · rintro (⟨decimal, h, hgiven⟩ | ⟨hnone, -⟩)
      · have hnumber := (hcomplete h).mpr hgiven
        refine ⟨fun other hother ↦ ?_, fun hnone ↦ absurd h (hnone decimal)⟩
        -- The same expression is read as one number only.
        rw [hnumber, ← h.leading_eq, hother.leading_eq]
      · exact absurd h (hnone decimal)
  · have hnone : ∀ decimal, ¬l.Holds decimal := fun decimal h ↦ hholds ⟨decimal, h⟩
    constructor
    · exact fun hread ↦ .inr ⟨hnone, hotherwise.mp (hread.otherwise hnone)⟩
    · rintro (⟨decimal, h, -⟩ | ⟨-, habsent⟩)
      · exact absurd h (hnone decimal)
      · exact ⟨fun decimal h ↦ absurd h (hnone decimal), fun _ ↦ hotherwise.mpr habsent⟩

/-- The keys of a field, in front of a bound. -/
def boundLead : List Char :=
  "key: 'k', labelKey: 'l', ".toList

/-- A lower bound that is a decimal. -/
def minExpression : NumberExpression minNumber.name where
  lead := boundLead
  gap := []
  isWord := ⟨by decide, by decide⟩
  isWordAt_lead := rfl
  atTopLevel := ⟨rfl, rfl⟩
  isBlank_gap := isBlank_nil
  expression := " -2".toList
  tail := ", maxValue: 7".toList
  ends := .inr ⟨rfl, rfl, rfl⟩
  noComma := fun first second hsplit _ ↦ by
    have hmem : ',' ∈ " -2".toList := by
      rw [hsplit]
      simp
    exact absurd hmem (by decide)

/-- An upper bound in hexadecimal digits. -/
def maxExpression : NumberExpression maxNumber.name where
  lead := boundLead
  gap := []
  isWord := ⟨by decide, by decide⟩
  isWordAt_lead := rfl
  atTopLevel := ⟨rfl, rfl⟩
  isBlank_gap := isBlank_nil
  expression := " 0x10".toList
  tail := []
  ends := .inl rfl
  noComma := fun first second hsplit _ ↦ by
    have hmem : ',' ∈ " 0x10".toList := by
      rw [hsplit]
      simp
    exact absurd hmem (by decide)

/-- Minus two is a complete decimal, and it is read as what it is. -/
theorem isReadAsWritten_minExpression :
    ∃ field, readField minExpression.text = .ok field ∧
      minNumber.IsReadAsWritten minExpression field := by
  refine ⟨⟨"k", "l", .finite false 0, some (.ofDecimal true 2 0), some (.ofDecimal false 7 0), true⟩,
    by decide +kernel, ?_⟩
  refine (isReadAsWritten_iff (by simp [fieldNumbers]) minExpression (by decide +kernel)).mpr
    (.inl ⟨⟨true, ['2'], [], none, by decide, rfl, rfl⟩, ?_, .inl (by decide)⟩)
  exact ⟨[' '], [], rfl, rfl, rfl⟩

/-- Of sixteen in hexadecimal digits the zero is read, so that the field has an upper bound, although
the expression is no decimal and nothing else is found. -/
theorem not_isReadAsWritten_maxExpression :
    maxExpression.text = "key: 'k', labelKey: 'l', maxValue: 0x10".toList ∧
      maxExpression.given = none ∧ maxExpression.behind = none ∧
      (readField maxExpression.text).toOption.map maxNumber.value = some (some (.finite false 0)) ∧
      ¬∃ field, readField maxExpression.text = .ok field ∧
        maxNumber.IsReadAsWritten maxExpression field := by
  refine ⟨by decide, by decide, by decide, by decide +kernel, ?_⟩
  rintro ⟨field, hread, hwritten⟩
  have hnone (decimal : Decimal) : ¬maxExpression.Holds decimal := by
    rintro ⟨gap, gap', hgap, hgap', hexpression⟩
    have hmem : 'x' ∈ gap ++ (decimal.text ++ gap') := by
      rw [← hexpression]
      decide
    rcases List.mem_append.mp hmem with hx | hx
    · exact notMem_gap hgap (by decide) hx
    rcases List.mem_append.mp hx with hx | hx
    · rcases Decimal.mem_text hx with hdigit | hmark
      · cases hdigit
      · exact absurd hmark (by decide)
    · exact notMem_gap hgap' (by decide) hx
  have hvalue : (readField maxExpression.text).toOption.map maxNumber.value =
      some (some (.finite false 0)) := by decide +kernel
  rw [hread] at hvalue
  have hfield := Option.some.inj hvalue
  rw [hwritten.otherwise hnone] at hfield
  cases hfield

end CalculatorCatalog.Definition
