import CalculatorCatalog.Proofs.Definition.Attributes
import CalculatorCatalog.Proofs.Definition.Spans

/-!
# Lists of declarations

A list of calls of a constructor is cut into one span for each call, whatever the white space and
whether or not a comma follows the last call: `spansFrom_separated`. The closing bracket of a call
is recognised by what comes after it, another call or the end of the list (`ReadsEnd`), so nothing
inside a call may look like such a place; for definitions and fields this is shown where their
attributes are known.
-/

set_option autoImplicit false
set_option relaxedAutoImplicit false

namespace CalculatorCatalog.Definition

open CalculatorCatalog.Text

/-! ### Calls -/

/-- The name of a constructor: a word with which the constant marker cannot be confused. -/
structure IsConstructor (constructor : List Char) : Prop where
  isWord : IsWord constructor
  not_const : ∀ rest, afterWord? constWord (constructor ++ rest) = none

theorem isConstructor_definition : IsConstructor definitionConstructor where
  isWord := ⟨by decide, rfl⟩
  not_const _ := rfl

theorem isConstructor_field : IsConstructor fieldConstructor where
  isWord := ⟨by decide, rfl⟩
  not_const _ := rfl

section Call

variable {constructor : List Char} {writes : List Char → Prop} {text : List Char}

/-- A call begins with a word, and its opening is what comes before the text between its
brackets. -/
theorem exists_opening (hconstructor : IsConstructor constructor)
    (h : CallText constructor writes text) :
    ∃ head inner, text = head ++ (inner ++ [')']) ∧ writes inner ∧
      (∀ rest, isWordAt (head ++ rest).head? = true) ∧
      ∀ rest, afterConstructor? constructor (head ++ rest) = some rest := by
  obtain ⟨hgap, hinner, htext⟩ := h
  rename_i gap inner
  have hword := hconstructor.isWord
  have hcall (rest : List Char) :
      afterCall? constructor (constructor ++ (gap ++ '(' :: rest)) = some rest :=
    afterCall?_eq_some_iff.mpr ⟨gap, hgap, by rw [List.append_assoc]⟩
  cases htext with
  | unmarked =>
    refine ⟨constructor ++ (gap ++ ['(']), inner, by simp, hinner, fun rest ↦ ?_, fun rest ↦ ?_⟩
    · rw [List.append_assoc]
      exact hword.isWordAt_head? _
    · have hnone : afterConst? (constructor ++ (gap ++ '(' :: rest)) = none := by
        rw [afterConst?, hconstructor.not_const]
        rfl
      have hassoc : constructor ++ (gap ++ ['(']) ++ rest =
          constructor ++ (gap ++ '(' :: rest) := by simp
      rw [hassoc, afterConstructor?, hnone, hcall]
      rfl
  | @marked gap' hgap' hdivided =>
    refine ⟨constWord ++ (gap' ++ (constructor ++ (gap ++ ['(']))), inner, by simp, hinner,
      fun rest ↦ ?_, fun rest ↦ ?_⟩
    · rw [List.append_assoc]
      exact isWord_constWord.isWordAt_head? _
    · have hconst := hword.afterConst?_append hgap' hdivided (gap ++ '(' :: rest)
      have hassoc : constWord ++ (gap' ++ (constructor ++ (gap ++ ['(']))) ++ rest =
          constWord ++ (gap' ++ (constructor ++ (gap ++ '(' :: rest))) := by simp
      rw [hassoc, afterConstructor?, hconst, Option.bind_eq_bind, Option.bind_some, hcall]
      rfl

/-- No call begins where no word does. -/
theorem afterConstructor?_of_not_word (hconstructor : IsConstructor constructor)
    (h : isWordAt text.head? = false) : afterConstructor? constructor text = none := by
  have hnone {word : List Char} (hword : IsWord word) : afterWord? word text = none := by
    refine Option.eq_none_iff_forall_ne_some.mpr fun rest hrest ↦ ?_
    rw [afterWord?_eq_some_iff.mp hrest, hword.isWordAt_head?] at h
    cases h
  rw [afterConstructor?, afterConst?, afterCall?, hnone isWord_constWord,
    hnone hconstructor.isWord]
  rfl

theorem opening_of_not_word (hconstructor : IsConstructor constructor) (before : Option Char)
    (h : isWordAt text.head? = false) : opening constructor before text = none := by
  rw [opening, afterConstructor?_of_not_word hconstructor h]
  simp

/-- No call begins in a text without words. -/
theorem declines_opening (hconstructor : IsConstructor constructor) {before : Option Char}
    {passed : List Char} (h : passed.all (!isWordCharacter ·) = true) (rest : List Char) :
    Declines (opening constructor) before passed rest := by
  refine declines_of_forall (fun c hc before text ↦ ?_) before rest
  have hword : isWordCharacter c = false := by simpa using List.all_eq_true.mp h c hc
  exact opening_of_not_word hconstructor before hword

theorem noWord_gap {gap : List Char} (hgap : isBlank gap = true) :
    gap.all (!isWordCharacter ·) = true := by
  rw [List.all_eq_true]
  intro c hc
  simp [isWordCharacter_of_isWhiteSpace (List.all_eq_true.mp hgap c hc)]

end Call

/-! ### Closing brackets -/

/-- A closing place: a bracket behind which, after white space and perhaps a comma, another call of
the constructor comes or the list ends. -/
def ReadsEnd (constructor : List Char) (listEnd : List Char → Option (List Char))
    (closes : Recognizer Unit) : Prop :=
  ∀ before text, closes before text = (afterSeparator? text).bind fun text ↦
    (afterConstructor? constructor text <|> listEnd text).map ((), ·)

/-- The end of a list of definitions: a bracket and a semicolon. -/
def definitionListEnd (text : List Char) : Option (List Char) :=
  (afterWord? [']'] text).bind fun rest ↦ afterWord? [';'] (skipWhite rest)

/-- The end of a list of fields: nothing comes after it. -/
def fieldListEnd (text : List Char) : Option (List Char) :=
  if text.isEmpty then some [] else none

theorem readsEnd_definitionClosing :
    ReadsEnd definitionConstructor definitionListEnd definitionClosing := by
  intro before text
  rw [definitionClosing]
  cases afterSeparator? text with
  | none => rfl
  | some text =>
    simp only [Option.bind_eq_bind, Option.bind_some, Option.map_eq_bind]
    rfl

theorem readsEnd_fieldClosing : ReadsEnd fieldConstructor fieldListEnd fieldClosing := by
  intro before text
  rw [fieldClosing]
  cases afterSeparator? text with
  | none => rfl
  | some text =>
    simp only [Option.bind_eq_bind, Option.bind_some, Option.map_eq_bind]
    rfl

theorem afterSeparator?_comma {gap : List Char} (hgap : isBlank gap = true) (rest : List Char) :
    afterSeparator? (')' :: (gap ++ ',' :: rest)) = some (skipWhite rest) := by
  have hbracket : afterWord? [')'] (')' :: (gap ++ ',' :: rest)) = some (gap ++ ',' :: rest) := rfl
  have hcomma : isWhiteSpace ',' = false := by decide
  rw [afterSeparator?, hbracket]
  simp only [Option.bind_eq_bind, Option.bind_some, skipWhite_append hgap, skipWhite_cons hcomma]
  rfl

/-- What comes behind the white space after a closing bracket, if it is no comma. -/
theorem afterSeparator?_gap {gap : List Char} (hgap : isBlank gap = true) {rest : List Char}
    (hwhite : skipWhite rest = rest) (hcomma : rest.head? ≠ some ',') :
    afterSeparator? (')' :: (gap ++ rest)) = some rest := by
  have hbracket : afterWord? [')'] (')' :: (gap ++ rest)) = some (gap ++ rest) := rfl
  rw [afterSeparator?, hbracket]
  simp only [Option.bind_eq_bind, Option.bind_some, skipWhite_append hgap, hwhite]
  split
  · exact absurd rfl hcomma
  · rfl

section Closing

variable {constructor : List Char} {listEnd : List Char → Option (List Char)}
  {closes : Recognizer Unit}

/-- A span closes only at a bracket. -/
theorem ReadsEnd.eq_none_of_ne (h : ReadsEnd constructor listEnd closes) (before : Option Char)
    {c : Char} (hc : c ≠ ')') (text : List Char) : closes before (c :: text) = none := by
  have hseparator : afterSeparator? (c :: text) = none := by
    rw [afterSeparator?, afterWord?, if_neg hc]
    rfl
  rw [h, hseparator]
  rfl

/-- A text without closing brackets closes no span. -/
theorem ReadsEnd.declines (h : ReadsEnd constructor listEnd closes) {before : Option Char}
    {passed : List Char} (hpassed : ')' ∉ passed) (rest : List Char) :
    Declines closes before passed rest := by
  refine declines_of_forall (fun c hc before text ↦ h.eq_none_of_ne before ?_ text) before rest
  rintro rfl
  exact hpassed hc

/-- A span closes at a bracket behind which another call comes or the list ends. -/
theorem ReadsEnd.isSome (h : ReadsEnd constructor listEnd closes) (before : Option Char)
    {text rest : List Char} (hseparator : afterSeparator? text = some rest)
    (hnext : (afterConstructor? constructor rest <|> listEnd rest).isSome = true) :
    (closes before text).isSome = true := by
  rw [h, hseparator, Option.bind_some, Option.isSome_map]
  exact hnext

end Closing

/-! ### From call to call -/

section Spans

variable {α : Type} {constructor : List Char} {listEnd : List Char → Option (List Char)}
  {closes : Recognizer Unit} {writesInner : α → List Char → Prop} {items : List α}
  {text tail : List Char} {before : Option Char} {offset : Nat}

/-- A closed span with the inside of an item. -/
def SpanOf (writesInner : α → List Char → Prop) (item : α) : Span → Prop
  | .closed _ _ inner _ => writesInner item inner
  | .unterminated _ => False

/-- What can follow a list of calls: no white space, no comma and no word, and the list ends. -/
structure EndsList (listEnd : List Char → Option (List Char)) (tail : List Char) : Prop where
  skipWhite_eq : skipWhite tail = tail
  head_ne : tail.head? ≠ some ','
  noWord : tail.all (!isWordCharacter ·) = true
  isSome : (listEnd tail).isSome = true

/-- Another call is recognised behind white space. -/
theorem afterConstructor?_callText (hconstructor : IsConstructor constructor) {gap call : List Char}
    {writes : List Char → Prop} (hgap : isBlank gap = true)
    (hcall : CallText constructor writes call) (rest : List Char) :
    (afterConstructor? constructor (skipWhite (gap ++ (call ++ rest)))).isSome = true := by
  obtain ⟨head, inner, rfl, -, hhead, hread⟩ := exists_opening hconstructor hcall
  have hassoc : head ++ (inner ++ [')']) ++ rest = head ++ (inner ++ ')' :: rest) := by simp
  have hskip : skipWhite (head ++ (inner ++ ')' :: rest)) = head ++ (inner ++ ')' :: rest) := by
    cases htext : head ++ (inner ++ ')' :: rest) with
    | nil => rfl
    | cons c text =>
      have hc := hhead (inner ++ ')' :: rest)
      rw [htext] at hc
      exact skipWhite_cons (isWhiteSpace_of_isWordCharacter hc) text
  rw [hassoc, skipWhite_append hgap, hskip, hread]
  rfl

theorem isSome_or_left {β : Type} {first second : Option β} (h : first.isSome = true) :
    (first <|> second).isSome = true := by
  cases first with
  | none => cases h
  | some value => rfl

theorem isSome_or_right {β : Type} {first second : Option β} (h : second.isSome = true) :
    (first <|> second).isSome = true := by
  cases first with
  | none => exact h
  | some value => rfl

/-- Another call or the end of the list is recognised behind a closing bracket and its comma. -/
theorem isSome_next (hconstructor : IsConstructor constructor) (htail : EndsList listEnd tail)
    (h : Separated (fun item ↦ CallText constructor (writesInner item)) items text) :
    (afterConstructor? constructor (skipWhite (text ++ tail)) <|>
      listEnd (skipWhite (text ++ tail))).isSome = true := by
  cases h with
  | nil hgap =>
    rw [skipWhite_append hgap, htail.skipWhite_eq]
    exact isSome_or_right htail.isSome
  | last hgap hitem hgap' =>
    rw [List.append_assoc, List.append_assoc]
    exact isSome_or_left (afterConstructor?_callText hconstructor hgap hitem _)
  | cons hgap hitem hgap' hrest =>
    rw [List.append_assoc, List.append_assoc]
    exact isSome_or_left (afterConstructor?_callText hconstructor hgap hitem _)

/-- A call in a list gives a closed span, and the search goes on behind its bracket. -/
theorem spansFrom_call (hconstructor : IsConstructor constructor) {writes : List Char → Prop}
    {gap call rest : List Char} (hgap : isBlank gap = true)
    (hcall : CallText constructor writes call) (hbefore : isWordAt before = false)
    (hinner : ∀ inner, writes inner → Declines closes none inner (')' :: rest))
    (hcloses : ∀ before, (closes before (')' :: rest)).isSome = true) :
    ∃ offset' innerOffset inner offset'', writes inner ∧
      spansFrom (opening constructor) closes 0 before offset (gap ++ (call ++ rest)) =
        .closed offset' innerOffset inner (')' :: rest) ::
          spansFrom (opening constructor) closes 0 (some ')') offset'' rest := by
  obtain ⟨head, inner, rfl, hwrites, hhead, hread⟩ := exists_opening hconstructor hcall
  have hne : head ≠ [] := by
    rintro rfl
    cases hhead []
  have hopens : opening constructor (lastOr before gap) (head ++ (inner ++ ')' :: rest)) =
      some ((), inner ++ ')' :: rest) := by
    have hboundary : isWordBoundary (lastOr before gap)
        (head ++ (inner ++ ')' :: rest)).head? = true := by
      rw [isWordBoundary, isWordAt_lastOr_gap hgap hbefore, hhead]
      rfl
    rw [opening, if_pos hboundary, hread]
    rfl
  obtain ⟨⟨⟨⟩, left⟩, hclosed⟩ := Option.isSome_iff_exists.mp (hcloses (lastOr none inner))
  have hfound : first? closes none (inner ++ ')' :: rest) = some ⟨inner, (), left⟩ := by
    rw [first?_append_of_declines (hinner inner hwrites), first?_of_some hclosed]
    simp
  have hpassed : (⟨inner, (), left⟩ : Occurrence Unit).passed = inner := rfl
  have hassoc : head ++ (inner ++ [')']) ++ rest = head ++ (inner ++ ')' :: rest) := by simp
  rw [hassoc, spansFrom_append_of_declines (declines_opening hconstructor (noWord_gap hgap) _),
    spansFrom_of_closed hne hpassed hopens hfound]
  exact ⟨_, _, inner, _, hwrites, rfl⟩

/-- A list of calls is cut into one closed span for each call. -/
theorem spansFrom_separated (hconstructor : IsConstructor constructor)
    (hcloses : ReadsEnd constructor listEnd closes) (htail : EndsList listEnd tail)
    (hinner : ∀ item inner rest, writesInner item inner → Declines closes none inner (')' :: rest))
    (h : Separated (fun item ↦ CallText constructor (writesInner item)) items text)
    (hbefore : isWordAt before = false) :
    List.Forall₂ (SpanOf writesInner) items
      (spansFrom (opening constructor) closes 0 before offset (text ++ tail)) := by
  have hend {before : Option Char} {offset : Nat} {gap : List Char} (hgap : isBlank gap = true) :
      spansFrom (opening constructor) closes 0 before offset (gap ++ tail) = [] := by
    have hnoWord : (gap ++ tail).all (!isWordCharacter ·) = true := by
      rw [List.all_append, noWord_gap hgap, htail.noWord]
      rfl
    have hpassed : spansFrom (opening constructor) closes 0 before offset (gap ++ tail ++ []) = _ :=
      spansFrom_append_of_declines (declines_opening hconstructor hnoWord [])
    rw [List.append_nil] at hpassed
    rw [hpassed, spansFrom]
  induction h generalizing before offset with
  | nil hgap =>
    rw [hend hgap]
    exact .nil
  | @last item gap text gap' hgap hitem hgap' =>
    have hnext (before : Option Char) : (closes before (')' :: (gap' ++ tail))).isSome = true :=
      hcloses.isSome before (afterSeparator?_gap hgap' htail.skipWhite_eq htail.head_ne)
        (isSome_or_right htail.isSome)
    obtain ⟨offset', innerOffset, inner, offset'', hwrites, hspans⟩ :=
      spansFrom_call hconstructor hgap hitem hbefore (fun inner ↦ hinner item inner _) hnext
    rw [List.append_assoc, List.append_assoc, hspans, hend hgap']
    exact .cons hwrites .nil
  | @cons item items gap text gap' rest hgap hitem hgap' hrest ih =>
    have hnext (before : Option Char) :
        (closes before (')' :: (gap' ++ ',' :: (rest ++ tail)))).isSome = true :=
      hcloses.isSome before (afterSeparator?_comma hgap' _) (isSome_next hconstructor htail hrest)
    obtain ⟨offset', innerOffset, inner, offset'', hwrites, hspans⟩ :=
      spansFrom_call hconstructor hgap hitem hbefore (fun inner ↦ hinner item inner _) hnext
    have hassoc : gap ++ (text ++ (gap' ++ ',' :: rest)) ++ tail =
        gap ++ (text ++ (gap' ++ ',' :: (rest ++ tail))) := by simp
    have hcomma : gap' ++ ',' :: (rest ++ tail) = gap' ++ [','] ++ (rest ++ tail) := by simp
    have hnoWord : (gap' ++ [',']).all (!isWordCharacter ·) = true := by
      rw [List.all_append, noWord_gap hgap']
      rfl
    rw [hassoc, hspans]
    refine .cons hwrites ?_
    rw [hcomma, spansFrom_append_of_declines (declines_opening hconstructor hnoWord _),
      lastOr_append]
    exact ih rfl

end Spans

end CalculatorCatalog.Definition
