import CalculatorCatalog.Proofs.Definition.Decimals
import CalculatorCatalog.Proofs.Definition.Declaration
import CalculatorCatalog.Proofs.Number.Whole

/-!
# Reading values back

Every value of the grammar is balanced, so that it can be masked on its own, and holds no colon once
it is masked, so that no attribute seems to begin inside it. The readers of `Definition.Attribute`
give back the value that was written (`quotedValue?_of_quoted`, `readNumber?_decimal`,
`computation_of_maybeConst` and the others), some of them only if white space, a comma or the end of
the declaration follows it (`Stops`).
-/

set_option autoImplicit false
set_option relaxedAutoImplicit false

namespace CalculatorCatalog.Definition

open CalculatorCatalog.Number CalculatorCatalog.Text

/-- What the search for attributes needs to know of a value: it can be masked on its own, no
attribute seems to begin inside it, and it begins without white space. -/
structure IsValue (text : List Char) : Prop where
  balanced : Balanced text
  colon_notMem : ':' ∉ maskNested text
  skipWhite_append : ∀ rest, skipWhite (maskNested text ++ rest) = maskNested text ++ rest

/-- A plain text without a colon is a value. -/
theorem IsValue.of_plain {text : List Char} (hplain : text.all isPlain = true) (hcolon : ':' ∉ text)
    (hwhite : ∀ rest, skipWhite (text ++ rest) = text ++ rest) : IsValue text where
  balanced := .of_plain hplain
  colon_notMem := by rwa [maskNested_of_plain hplain]
  skipWhite_append := by rwa [maskNested_of_plain hplain]

/-! ### Literals -/

theorem isVerbatim_of_isPhraseCharacter {c : Char} (h : isPhraseCharacter c = true) :
    isVerbatim c = true := by
  have hne : ∀ d ∈ ['\x27', '\x22', '\\', '\n'], c ≠ d := by
    have hkind : ['\x27', '\x22', '\\', '\n'].all (!isPhraseCharacter ·) = true := by decide
    rintro d hd rfl
    have hother := List.all_eq_true.mp hkind c hd
    rw [h] at hother
    cases hother
  simp only [List.forall_mem_cons, List.not_mem_nil, false_imp_iff, implies_true, and_true] at hne
  simp [isVerbatim, isQuote, hne]

namespace Phrase

variable (phrase : Phrase)

theorem isVerbatim : phrase.text.toList.all isVerbatim = true := by
  rw [List.all_eq_true]
  exact fun c hc ↦ isVerbatim_of_isPhraseCharacter (List.all_eq_true.mp phrase.phrase c hc)

theorem colon_notMem : ':' ∉ phrase.text.toList := by
  intro hmem
  have hphrase := List.all_eq_true.mp phrase.phrase ':' hmem
  exact absurd hphrase (by decide)

end Phrase

section Quoted

variable {phrase : Phrase} {text : List Char}

theorem Quoted.exists_quote {value : List Char} (h : Quoted value text) :
    ∃ quote, isQuote quote = true ∧ text = quote :: (value ++ [quote]) := by
  cases h with
  | single => exact ⟨'\x27', rfl, rfl⟩
  | double => exact ⟨'\x22', rfl, rfl⟩

theorem Quoted.maskNested_eq (h : Quoted phrase.text.toList text) : maskNested text = text := by
  obtain ⟨quote, hquote, rfl⟩ := h.exists_quote
  exact maskNested_literal hquote phrase.isVerbatim

theorem skipWhite_quoted {value : List Char} (h : Quoted value text) (rest : List Char) :
    skipWhite (text ++ rest) = text ++ rest := by
  cases h with
  | single => exact skipWhite_cons (by decide) _
  | double => exact skipWhite_cons (by decide) _

theorem Quoted.isValue (h : Quoted phrase.text.toList text) : IsValue text where
  balanced := by
    obtain ⟨quote, hquote, rfl⟩ := h.exists_quote
    exact .literal hquote phrase.isVerbatim
  colon_notMem := by
    rw [h.maskNested_eq]
    obtain ⟨quote, hquote, rfl⟩ := h.exists_quote
    have hne : ':' ≠ quote := by
      rintro rfl
      cases hquote
    simp [hne, phrase.colon_notMem]
  skipWhite_append := by
    rw [h.maskNested_eq]
    exact skipWhite_quoted h

/-- A quoted value is what stands up to the next quote of either kind. -/
theorem quotedValue?_eq_some_iff {text value rest : List Char} :
    quotedValue? text = some (value, rest) ↔
      value ≠ [] ∧ (∀ c ∈ value, isQuote c = false) ∧ ∃ opens closes, isQuote opens = true ∧
        isQuote closes = true ∧ text = opens :: (value ++ closes :: rest) := by
  constructor
  · intro h
    cases text with
    | nil => cases h
    | cons quote text =>
      rw [quotedValue?] at h
      split_ifs at h with hquote
      split at h
      · rename_i c taken d left htaken hleft
        obtain ⟨rfl, rfl⟩ := Prod.mk.inj (Option.some.inj h)
        have hvalue : (text.takeWhile (!isQuote ·)).all (!isQuote ·) = true := List.all_takeWhile
        have hcloses : isQuote d = true := by
          have hhead := List.head?_dropWhile_not (!isQuote ·) text
          rw [hleft] at hhead
          simpa using hhead
        refine ⟨by simp, fun e he ↦ ?_, quote, d, hquote, hcloses, ?_⟩
        · rw [htaken] at hvalue
          simpa using List.all_eq_true.mp hvalue e he
        · rw [← htaken, ← hleft, List.takeWhile_append_dropWhile]
      · cases h
  · rintro ⟨hne, hvalue, opens, closes, hopens, hcloses, rfl⟩
    have hall : value.all (!isQuote ·) = true :=
      List.all_eq_true.mpr fun c hc ↦ by simp [hvalue c hc]
    have hstop : ∀ c, (closes :: rest).head? = some c → (!isQuote c) = false := by
      intro c hc
      obtain rfl := Option.some.inj hc
      simp [hcloses]
    have htake := takeWhile_append_of_stop hall hstop
    have hdrop := dropWhile_append_of_stop hall hstop
    obtain ⟨c, value, rfl⟩ := List.exists_cons_of_ne_nil hne
    rw [quotedValue?, if_pos hopens, htake, hdrop]

/-- A literal is read up to its closing quote. -/
theorem quotedValue?_of_quoted (h : Quoted phrase.text.toList text) (rest : List Char) :
    quotedValue? (text ++ rest) = some (phrase.text.toList, rest) := by
  obtain ⟨quote, hquote, rfl⟩ := h.exists_quote
  refine quotedValue?_eq_some_iff.mpr ⟨phrase.ne_nil, fun c hc ↦ ?_, quote, quote, hquote, hquote,
    by simp⟩
  exact (isVerbatim_iff.mp (List.all_eq_true.mp phrase.isVerbatim c hc)).1

end Quoted

/-! ### Numbers -/

theorem digitsValue_toDigits (value : Nat) : digitsValue (Nat.toDigits 10 value) = value :=
  Nat.ofDigitChars_ten_toDigits

/-- A whole number as a decimal without a fraction and an exponent. -/
def WholeNumber.toDecimal (number : WholeNumber) : Decimal where
  negative := number.value < 0
  whole := Nat.toDigits 10 number.value.natAbs
  fraction := []
  exponent := none
  whole_ne_nil := Nat.toDigits_ne_nil
  isDigit_whole := isDigit_toDigits _
  isDigit_fraction := rfl

theorem WholeNumber.text_toDecimal (number : WholeNumber) :
    number.toDecimal.text = decimal number.value := by
  rw [decimal, Decimal.text, Decimal.mantissaText, Decimal.exponentText]
  simp only [toDecimal, if_true, List.append_nil, decide_eq_true_eq]
  split_ifs <;> rfl

theorem WholeNumber.value_toDecimal (number : WholeNumber) :
    number.toDecimal.value = number.toBinary64 := by
  simp only [Decimal.value, toDecimal, List.append_nil, digitsValue_toDigits]
  exact Binary64.ofDecimal_of_small _ number.small

/-- A whole number is read back. -/
theorem readNumber?_decimal (number : WholeNumber) {rest : List Char} (h : Stops rest) :
    readNumber? (decimal number.value ++ rest) = some (number.toBinary64, rest) := by
  rw [← number.text_toDecimal, number.toDecimal.readNumber?_append h, number.value_toDecimal]

theorem isWord_toDigits (value : Nat) : IsWord (Nat.toDigits 10 value) where
  ne_nil := Nat.toDigits_ne_nil
  word := by
    rw [List.all_eq_true]
    intro c hc
    exact isWordCharacter_of_isDigit (List.all_eq_true.mp (isDigit_toDigits value) c hc)

theorem isPlain_decimal (value : Int) : (decimal value).all isPlain = true := by
  rw [decimal]
  split_ifs
  · rw [List.all_cons, (isWord_toDigits _).isPlain]
    rfl
  · exact (isWord_toDigits _).isPlain

theorem isValue_decimal (value : Int) : IsValue (decimal value) := by
  have hword := isWord_toDigits value.natAbs
  have hcolon : ':' ∉ Nat.toDigits 10 value.natAbs := hword.notMem (by decide)
  refine .of_plain (isPlain_decimal value) ?_ ?_
  · rw [decimal]
    split_ifs
    · simpa using hcolon
    · exact hcolon
  · intro rest
    rw [decimal]
    split_ifs
    · exact skipWhite_cons (by decide) _
    · exact hword.skipWhite_append rest

/-! ### Truth values -/

theorem afterWholeWord?_append (word : List Char) {rest : List Char} (h : Stops rest) :
    afterWholeWord? word (word ++ rest) = some rest := by
  have hword : isWordAt rest.head? = false := by
    cases hhead : rest.head? with
    | none => rfl
    | some c => exact h.isWordCharacter c hhead
  rw [afterWholeWord?, afterWord?_append]
  simp [hword]

theorem isValue_of_isWord {text : List Char} (h : IsWord text) : IsValue text :=
  .of_plain h.isPlain (h.notMem (by decide)) h.skipWhite_append

/-! ### Constant markers -/

section MaybeConst

variable {text marked : List Char}

/-- What a constant marker puts before a text. -/
theorem MaybeConst.exists_lead (h : MaybeConst text marked) :
    ∃ lead, marked = lead ++ text ∧ lead.all isPlain = true ∧ ':' ∉ lead := by
  cases h with
  | unmarked => exact ⟨[], rfl, rfl, List.not_mem_nil⟩
  | @marked gap hgap hdivided =>
    refine ⟨constWord ++ gap, by rw [List.append_assoc], ?_, ?_⟩
    · rw [List.all_append, isPlain_gap hgap]
      rfl
    · rw [List.mem_append, not_or]
      exact ⟨by decide, notMem_gap hgap (by decide)⟩

theorem MaybeConst.balanced (h : MaybeConst text marked) (htext : Balanced text) :
    Balanced marked := by
  obtain ⟨lead, rfl, hlead, -⟩ := h.exists_lead
  exact (Balanced.of_plain hlead).append htext

/-- A constant marker stays when what is nested is hidden. -/
theorem MaybeConst.maskNested (h : MaybeConst text marked)
    (hhead : isWordAt (maskNested text).head? = isWordAt text.head?) :
    MaybeConst (maskNested text) (maskNested marked) := by
  cases h with
  | unmarked => exact .unmarked
  | @marked gap hgap hdivided =>
    have hword : constWord.all isPlain = true := rfl
    rw [maskNested_plain_append hword, maskNested_plain_append (isPlain_gap hgap)]
    exact .marked hgap (by rwa [hhead])

theorem MaybeConst.colon_notMem (h : MaybeConst text marked) (htext : ':' ∉ text) :
    ':' ∉ marked := by
  obtain ⟨lead, rfl, -, hlead⟩ := h.exists_lead
  rw [List.mem_append, not_or]
  exact ⟨hlead, htext⟩

theorem skipWhite_maybeConst (h : MaybeConst text marked)
    (htext : ∀ rest, skipWhite (text ++ rest) = text ++ rest) (rest : List Char) :
    skipWhite (marked ++ rest) = marked ++ rest := by
  cases h with
  | unmarked => exact htext rest
  | marked hgap hdivided => exact skipWhite_cons (by decide) _

/-- A value may be marked as constant. -/
theorem IsValue.of_maybeConst (htext : IsValue text)
    (hhead : isWordAt (Text.maskNested text).head? = isWordAt text.head?)
    (h : MaybeConst text marked) : IsValue marked where
  balanced := h.balanced htext.balanced
  colon_notMem := (h.maskNested hhead).colon_notMem htext.colon_notMem
  skipWhite_append := skipWhite_maybeConst (h.maskNested hhead) htext.skipWhite_append

end MaybeConst

/-! ### Collections -/

section Collection

variable {opens closes : Char} {inner text : List Char}

theorem blank_blanks (text : List Char) : isBlank (blanks text) = true := by
  rw [isBlank, List.all_eq_true]
  intro c hc
  rw [List.eq_of_mem_replicate hc]
  rfl

theorem isWhiteSpace_of_isOpening {c : Char} (h : isOpening c = true) : isWhiteSpace c = false := by
  simp only [isOpening, Bool.or_eq_true, beq_iff_eq, or_assoc] at h
  rcases h with rfl | rfl | rfl <;> rfl

theorem maskNested_marked_brackets (h : MaybeConst (opens :: (inner ++ [closes])) text)
    (hopens : isOpening opens = true) (hinner : Balanced inner)
    (hcloses : isClosing closes = true) :
    MaybeConst (opens :: (blanks inner ++ [closes])) (maskNested text) := by
  have hmask := Balanced.maskNested_brackets hopens hinner hcloses
  have hmarked := h.maskNested (by rw [hmask]; rfl)
  rwa [hmask] at hmarked

/-- The opening bracket of a collection is found behind the constant marker. -/
theorem afterBracket_of_maybeConst (h : MaybeConst (opens :: inner) text)
    (hopens : isOpening opens = true) (rest : List Char) :
    ((afterWord? constWord (text ++ rest)).bind (fun rest ↦ afterWord? [opens] (skipWhite rest)) <|>
      afterWord? [opens] (text ++ rest)) = some (inner ++ rest) := by
  cases h with
  | unmarked =>
    simp only [isOpening, Bool.or_eq_true, beq_iff_eq, or_assoc] at hopens
    rcases hopens with rfl | rfl | rfl <;> rfl
  | @marked gap hgap hdivided =>
    have hwhite := isWhiteSpace_of_isOpening hopens
    have hbracket : afterWord? [opens] (skipWhite (gap ++ (opens :: (inner ++ rest)))) =
        some (inner ++ rest) :=
      (afterWord?_skipWhite_eq_some_iff hwhite).mpr ⟨gap, hgap, rfl⟩
    have htext : constWord ++ (gap ++ opens :: inner) ++ rest =
        constWord ++ (gap ++ opens :: (inner ++ rest)) := by simp
    rw [htext, afterWord?_append, Option.bind_some, hbracket]
    rfl

end Collection

/-! ### Calls -/

/-- The name of a call is read up to its opening bracket. -/
theorem callName?_append (name : UnitName) {gap : List Char} (hgap : isBlank gap = true)
    (rest : List Char) :
    callName? (name.text.toList ++ (gap ++ '(' :: rest)) = some (name.text, rest) := by
  obtain ⟨htake, hdrop⟩ := name.word.split (c := '(') hgap rfl rest
  have hname : (name.text.toList).isEmpty = false :=
    List.isEmpty_eq_false_iff.mpr name.word.ne_nil
  have hbracket : afterWord? ['('] (skipWhite (gap ++ '(' :: rest)) = some rest :=
    (afterWord?_skipWhite_eq_some_iff (by decide)).mpr ⟨gap, hgap, rfl⟩
  rw [callName?]
  simp only [htake, hdrop, hname, hbracket]
  simp

theorem isWord_constWord : IsWord constWord := ⟨by decide, rfl⟩

/-- If a call seems to begin with the constant marker, then the marker is its name, and no call
follows it. -/
theorem callName?_afterConst?_append {word gap rest left : List Char} (hword : IsWord word)
    (hgap : isBlank gap = true) (h : afterConst? (word ++ (gap ++ '(' :: rest)) = some left) :
    callName? left = none := by
  obtain ⟨c, tail, hc, htext, rfl⟩ := afterConst?_eq_some_iff.mp h
  have hfirst : (word ++ (gap ++ '(' :: rest)).takeWhile isWordCharacter = constWord := by
    have hstop : ∀ d, (c :: tail).head? = some d → isWordCharacter d = false := by
      intro d hd
      obtain rfl := Option.some.inj hd
      exact isWordCharacter_of_isWhiteSpace hc
    rw [htext]
    exact takeWhile_append_of_stop isWord_constWord.word hstop
  rw [(hword.split hgap rfl rest).1] at hfirst
  subst hfirst
  have htail : gap ++ '(' :: rest = c :: tail := List.append_cancel_left htext
  cases gap with
  | nil =>
    obtain ⟨rfl, -⟩ := List.cons.inj htail
    cases hc
  | cons d gap =>
    rw [List.cons_append] at htail
    obtain ⟨rfl, rfl⟩ := List.cons.inj htail
    rw [isBlank, List.all_cons, Bool.and_eq_true] at hgap
    rw [skipWhite_append hgap.2, skipWhite_cons (by decide)]
    rfl

/-- A call is found behind the constant marker, also if its name is that of the marker. -/
theorem computation_of_maybeConst (name : UnitName) {gap inner text : List Char}
    (hgap : isBlank gap = true)
    (h : MaybeConst (name.text.toList ++ (gap ++ '(' :: inner)) text) (rest : List Char) :
    ((afterConst? (text ++ rest) >>= callName?) <|> callName? (text ++ rest)) =
      some (name.text, inner ++ rest) := by
  have hcall := callName?_append name hgap (inner ++ rest)
  have hassoc : name.text.toList ++ (gap ++ '(' :: inner) ++ rest =
      name.text.toList ++ (gap ++ '(' :: (inner ++ rest)) := by simp
  cases h with
  | unmarked =>
    rw [hassoc]
    cases hconst : afterConst? (name.text.toList ++ (gap ++ '(' :: (inner ++ rest))) with
    | none => exact hcall
    | some left =>
      rw [Option.bind_eq_bind, Option.bind_some,
        callName?_afterConst?_append name.word hgap hconst]
      exact hcall
  | @marked gap' hgap' hdivided =>
    have htext : constWord ++ (gap' ++ (name.text.toList ++ (gap ++ '(' :: inner))) ++ rest =
        constWord ++ (gap' ++ (name.text.toList ++ (gap ++ '(' :: (inner ++ rest)))) := by simp
    rw [htext, name.word.afterConst?_append hgap' hdivided, Option.bind_eq_bind, Option.bind_some,
      hcall]
    rfl

end CalculatorCatalog.Definition
