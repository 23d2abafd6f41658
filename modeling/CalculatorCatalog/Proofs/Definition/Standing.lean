import CalculatorCatalog.Proofs.Definition.Settling

/-!
# Where an attribute stands

An attribute that stands at the top level of a declaration (`AttributePlace`) is not simply read from
behind its colon. The search for it takes the first place where something is recognised, and that
can be one before its name, or one behind its colon if nothing is read there.
`AttributePlace.firstValue?_eq` says which of the three it is. It asks the reading to be settled by
some text behind the colon (`SettledBy`): what is read before the name must not depend on how the
value goes on behind that text.
-/

set_option autoImplicit false
set_option relaxedAutoImplicit false

namespace CalculatorCatalog.Definition

open CalculatorCatalog.Text

variable {α : Type} {read : List Char → Option (α × List Char)} {recognize : Recognizer α}

/-- A reading from before a colon is settled by a text behind that colon: it takes nothing of what
comes behind that text, and does not depend on it. -/
def SettledBy (read : List Char → Option (α × List Char)) (barrier : List Char) : Prop :=
  ∀ text tail, read (text ++ ':' :: (barrier ++ tail)) =
    (read (text ++ ':' :: barrier)).map fun (value, left) ↦ (value, left ++ tail)

theorem EndsAtColon.settledBy (h : EndsAtColon read) : SettledBy read [] := by
  intro text tail
  rw [h, h, Option.map_map]
  refine congrArg (Option.map · (read text)) (funext fun result ↦ ?_)
  simp

theorem SettlesAtLiteral.settledBy (h : SettlesAtLiteral read) {gap : List Char} {quote : Char}
    (hgap : isBlank gap = true) (hquote : isQuote quote = true) :
    SettledBy read (gap ++ [quote]) := by
  intro text tail
  rw [List.append_assoc]
  exact h text gap quote tail hgap hquote

/-! ### Places before the name -/

/-- Before the name of an attribute its name is recognised in the same way whatever the value is, and
the colon of the attribute comes behind the one that is recognised. -/
theorem afterAttributeName?_before_name {name passed rest gap : List Char} {c : Char}
    (hname : IsWord name) (hgap : isBlank gap = true)
    (hlead : isWordAt (passed ++ c :: rest).getLast? = false) :
    (∀ value, afterAttributeName? name passed.getLast?
        (c :: rest ++ (name ++ (gap ++ ':' :: value))) = none) ∨
    ∃ middle, ∀ value, afterAttributeName? name passed.getLast?
        (c :: rest ++ (name ++ (gap ++ ':' :: value))) = some (middle ++ ':' :: value) := by
  have htext (value : List Char) : c :: rest ++ (name ++ (gap ++ ':' :: value)) =
      (c :: rest ++ (name ++ gap)) ++ ':' :: value := by simp
  simp only [htext]
  refine afterAttributeName?_before_colon hname fun _ inner hinner hword heq ↦ ?_
  -- The same name would end where it does and begin further ahead.
  have hplaces : passed ++ (name ++ inner) = (passed ++ c :: rest) ++ (name ++ gap) := by
    rw [← heq]
    simp
  have hlead := (eq_of_word_before_colon hname hname hgap hinner hlead hword hplaces).1
  simp at hlead

section Search

variable {name : String}

/-- What is recognised before the name of an attribute does not depend on how its value goes on
behind the text by which it is settled. -/
theorem ReadsAttribute.eq_map_before_name (h : ReadsAttribute name read recognize)
    (hname : IsWord name.toList) {barrier : List Char} (hsettled : SettledBy read barrier)
    {passed rest gap : List Char} {c : Char} (hgap : isBlank gap = true)
    (hlead : isWordAt (passed ++ c :: rest).getLast? = false) (tail : List Char) :
    recognize passed.getLast?
        (c :: rest ++ (name.toList ++ (gap ++ ':' :: (barrier ++ tail)))) =
      (recognize passed.getLast? (c :: rest ++ (name.toList ++ (gap ++ ':' :: barrier)))).map
        fun (value, left) ↦ (value, left ++ tail) := by
  rw [h, h]
  rcases afterAttributeName?_before_name hname hgap hlead with hnone | ⟨middle, hsome⟩
  · rw [hnone, hnone]
    rfl
  · rw [hsome, hsome]
    exact hsettled middle tail

/-- From its name on, an attribute is read from behind its colon, or else the search goes on behind
the colon. -/
theorem ReadsAttribute.first?_at_name (h : ReadsAttribute name read recognize)
    (hname : IsWord name.toList) {before : Option Char} (hbefore : isWordAt before = false)
    {gap : List Char} (hgap : isBlank gap = true) (value : List Char) :
    (first? recognize before (name.toList ++ (gap ++ ':' :: value))).map (·.value) =
      ((read (skipWhite value)).map (·.1)).or
        ((first? recognize (some ':') value).map (·.value)) := by
  have hplace := h before (name.toList ++ (gap ++ ':' :: value))
  rw [afterAttributeName?_append hname hbefore hgap, Option.bind_some] at hplace
  cases hread : read (skipWhite value) with
  | some result =>
    rw [hread] at hplace
    rw [first?_of_some hplace]
    rfl
  | none =>
    rw [hread] at hplace
    have hword : Declines recognize before name.toList (gap ++ ':' :: value) :=
      declines_word (fun before text hbefore hhead ↦
        h.eq_none (afterAttributeName?_of_inside hbefore hhead)) hname.word hplace
    have hcolon : Declines recognize (lastOr before (name.toList ++ gap)) [':'] value :=
      ⟨h.eq_none (afterAttributeName?_of_not_word hname rfl), trivial⟩
    have hpassed : Declines recognize before (name.toList ++ gap ++ [':']) value :=
      declines_append.mpr ⟨declines_append.mpr ⟨hword, declines_gap h hname hgap _⟩, hcolon⟩
    have htext : name.toList ++ (gap ++ ':' :: value) = name.toList ++ gap ++ [':'] ++ value := by
      simp
    rw [htext, first?_append_of_declines hpassed, lastOr_append, Option.map_map]
    rfl

/-- Up to the name of an attribute the search finds what it finds without the value, if that ends
with the text by which the search is settled, and otherwise it goes on from the name. -/
theorem ReadsAttribute.first?_before_name (h : ReadsAttribute name read recognize)
    (hname : IsWord name.toList) {barrier : List Char} (hsettled : SettledBy read barrier)
    {passed rest gap : List Char} (hgap : isBlank gap = true)
    (hlead : isWordAt (passed ++ rest).getLast? = false)
    (hnone : (first? recognize (passed ++ rest).getLast?
      (name.toList ++ (gap ++ ':' :: barrier))).map (·.value) = none) (tail : List Char) :
    (first? recognize passed.getLast?
        (rest ++ (name.toList ++ (gap ++ ':' :: (barrier ++ tail))))).map (·.value) =
      ((first? recognize passed.getLast?
        (rest ++ (name.toList ++ (gap ++ ':' :: barrier)))).map (·.value)).or
      ((first? recognize (passed ++ rest).getLast?
        (name.toList ++ (gap ++ ':' :: (barrier ++ tail)))).map (·.value)) := by
  induction rest generalizing passed with
  | nil =>
    rw [List.append_nil] at hnone ⊢
    rw [List.nil_append, List.nil_append, hnone, Option.none_or]
  | cons c rest ih =>
    have hhere := h.eq_map_before_name hname hsettled hgap hlead tail
    have hpassed : passed ++ c :: rest = passed ++ [c] ++ rest := by simp
    rw [hpassed] at hlead hnone ⊢
    have hlater := ih hlead hnone
    rw [List.getLast?_concat] at hlater
    rw [List.cons_append, List.cons_append] at hhere
    rw [List.cons_append, List.cons_append, first?, first?, hhere]
    cases recognize passed.getLast? (c :: (rest ++ (name.toList ++ (gap ++ ':' :: barrier)))) with
    | some result => rfl
    | none =>
      simp only [Option.map_none, Option.map_map]
      exact hlater

end Search

/-! ### Attributes at the top level -/

/-- Where an attribute stands at the top level of a declaration: the text before its name, and the
white space before its colon. -/
structure AttributePlace (name : String) where
  lead : List Char
  gap : List Char
  isWord : IsWord name.toList
  isWordAt_lead : isWordAt lead.getLast? = false
  atTopLevel : AtTopLevel lead name.toList.head?
  isBlank_gap : isBlank gap = true

namespace AttributePlace

variable {name : String} (place : AttributePlace name)

/-- The inside of the declaration up to the colon of the attribute. -/
def front : List Char :=
  place.lead ++ (name.toList ++ (place.gap ++ [':']))

/-- What is visible of the declaration up to the colon of the attribute. -/
def visible : List Char :=
  maskedTo place.lead name.toList.head? ++ (name.toList ++ (place.gap ++ [':']))

/-- What is visible behind the colon is what is visible of the rest on its own. -/
theorem maskNested_front_append (value : List Char) :
    maskNested (place.front ++ value) = place.visible ++ maskNested value := by
  obtain ⟨c, word, hname, -⟩ := place.isWord.exists_cons
  have hsplit : place.front ++ value =
      place.lead ++ (name.toList ++ (place.gap ++ ([':'] ++ value))) := by simp [front]
  have hhead : (name.toList ++ (place.gap ++ ([':'] ++ value))).head? = name.toList.head? := by
    rw [hname]
    rfl
  have htop : AtTopLevel place.lead (name.toList ++ (place.gap ++ ([':'] ++ value))).head? :=
    hhead ▸ place.atTopLevel
  rw [hsplit, htop.maskNested_append, hhead, maskNested_plain_append place.isWord.isPlain,
    maskNested_plain_append (isPlain_gap place.isBlank_gap), maskNested_plain_append rfl]
  simp [visible]

/-- The value that is found before the attribute, where a text behind its colon settles the
search. -/
def given (recognize : Recognizer α) (barrier : List Char) : Option α :=
  firstValue? recognize (place.visible ++ barrier)

/-- The value of an attribute is one that is found before its name, or else the one behind its colon,
or else the first one that is found further behind. -/
theorem firstValue?_eq (h : ReadsAttribute name read recognize) {barrier : List Char}
    (hsettled : SettledBy read barrier) (hread : read (skipWhite barrier) = none)
    (hbarrier : first? recognize (some ':') barrier = none) (tail : List Char) :
    firstValue? recognize (place.visible ++ (barrier ++ tail)) =
      (place.given recognize barrier).or
        (((read (skipWhite (barrier ++ tail))).map (·.1)).or
          ((first? recognize (some ':') (barrier ++ tail)).map (·.value))) := by
  have hname := place.isWord
  have hgap := place.isBlank_gap
  have hlead := isWordAt_maskedTo place.isWordAt_lead name.toList.head?
  have hsplit (value : List Char) : place.visible ++ value =
      maskedTo place.lead name.toList.head? ++ (name.toList ++ (place.gap ++ ':' :: value)) := by
    simp [visible]
  have hnone : (first? recognize (maskedTo place.lead name.toList.head?).getLast?
      (name.toList ++ (place.gap ++ ':' :: barrier))).map (·.value) = none := by
    rw [h.first?_at_name hname hlead hgap, hread, hbarrier]
    rfl
  rw [given, firstValue?, firstValue?, hsplit, hsplit, ← h.first?_at_name hname hlead hgap]
  rw [← List.nil_append (maskedTo place.lead name.toList.head?)] at hlead hnone
  exact h.first?_before_name hname hsettled hgap hlead hnone tail

end AttributePlace

end CalculatorCatalog.Definition
