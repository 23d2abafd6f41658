import CalculatorCatalog.Proofs.Definition.Grammar

/-!
# Where definitions close

A definition closes at the first bracket behind which another definition comes or the list of
definitions ends. Brackets also close the calls inside a definition, those of its fields and of the
unit that computes its results. Behind them the definition goes on (`Continues`): with another field
or the end of the fields, with the name of another attribute, or with the bracket of the definition
itself. So no bracket inside a definition closes it: `Declaration.WritesInner.declines`.
-/

set_option autoImplicit false
set_option relaxedAutoImplicit false

namespace CalculatorCatalog.Definition

open CalculatorCatalog.Text

/-! ### Behind a bracket -/

/-- A text that begins neither with another definition nor with the end of a list of them. -/
structure StaysInside (text : List Char) : Prop where
  no_definition : afterConstructor? definitionConstructor text = none
  no_end : definitionListEnd text = none

/-- What comes behind a part of a definition: a bracket before it does not close the definition, and
a bracket of a list before it does not end the list of definitions. -/
structure Continues (rest : List Char) : Prop where
  no_closing : ∀ before, definitionClosing before (')' :: rest) = none
  no_semicolon : afterWord? [';'] (skipWhite rest) = none

/-- What comes behind a list of parts of a definition. -/
structure EndsParts (tail : List Char) : Prop where
  skipWhite_eq : skipWhite tail = tail
  head_ne : tail.head? ≠ some ','
  no_semicolon : afterWord? [';'] tail = none
  staysInside : StaysInside tail

theorem definitionClosing_of_staysInside (before : Option Char) {text rest : List Char}
    (hseparator : afterSeparator? text = some rest) (h : StaysInside rest) :
    definitionClosing before text = none := by
  rw [readsEnd_definitionClosing, hseparator, Option.bind_some, h.no_definition, h.no_end]
  rfl

theorem continues_comma {gap rest : List Char} (hgap : isBlank gap = true)
    (h : StaysInside (skipWhite rest)) : Continues (gap ++ ',' :: rest) where
  no_closing before := definitionClosing_of_staysInside before (afterSeparator?_comma hgap rest) h
  no_semicolon := by
    rw [skipWhite_append hgap, skipWhite_cons (by decide)]
    rfl

theorem continues_gap {gap tail : List Char} (hgap : isBlank gap = true) (h : EndsParts tail) :
    Continues (gap ++ tail) where
  no_closing before :=
    definitionClosing_of_staysInside before (afterSeparator?_gap hgap h.skipWhite_eq h.head_ne)
      h.staysInside
  no_semicolon := by
    rw [skipWhite_append hgap, h.skipWhite_eq]
    exact h.no_semicolon

/-- The bracket that closes a definition. -/
theorem endsParts_definition (rest : List Char) : EndsParts (')' :: rest) where
  skipWhite_eq := skipWhite_cons (by decide) rest
  head_ne := by simp
  no_semicolon := rfl
  staysInside := ⟨afterConstructor?_of_not_word isConstructor_definition rfl, rfl⟩

/-- The bracket that closes a list of fields. -/
theorem endsParts_fields {rest : List Char} (h : Continues rest) : EndsParts (']' :: rest) where
  skipWhite_eq := skipWhite_cons (by decide) rest
  head_ne := by simp
  no_semicolon := rfl
  staysInside := ⟨afterConstructor?_of_not_word isConstructor_definition rfl, h.no_semicolon⟩

/-! ### Lists of parts -/

section Parts

variable {α : Type} {writes : α → List Char → Prop} {items : List α} {text tail : List Char}

/-- What comes behind a comma is another part or the end of the parts. -/
theorem staysInside_separated (htail : EndsParts tail)
    (hitems : ∀ item text rest, writes item text →
      skipWhite (text ++ rest) = text ++ rest ∧ StaysInside (text ++ rest))
    (h : Separated writes items text) : StaysInside (skipWhite (text ++ tail)) := by
  cases h with
  | nil hgap =>
    rw [skipWhite_append hgap, htail.skipWhite_eq]
    exact htail.staysInside
  | last hgap hitem _ =>
    obtain ⟨hskip, hinside⟩ := hitems _ _ (_ ++ tail) hitem
    rw [List.append_assoc, List.append_assoc, skipWhite_append hgap, hskip]
    exact hinside
  | cons hgap hitem _ _ =>
    obtain ⟨hskip, hinside⟩ := hitems _ _ (_ ++ tail) hitem
    rw [List.append_assoc, List.append_assoc, skipWhite_append hgap, hskip]
    exact hinside

/-- No bracket in a list of parts closes the definition if none does in a part. -/
theorem declines_separated (htail : EndsParts tail)
    (hitems : ∀ item text rest, writes item text →
      skipWhite (text ++ rest) = text ++ rest ∧ StaysInside (text ++ rest))
    (hdeclines : ∀ item text before rest, writes item text → Continues rest →
      Declines definitionClosing before text rest)
    (h : Separated writes items text) (before : Option Char) :
    Declines definitionClosing before text tail := by
  have hgaps {before : Option Char} {gap : List Char} (hgap : isBlank gap = true)
      (rest : List Char) : Declines definitionClosing before gap rest :=
    readsEnd_definitionClosing.declines (notMem_gap hgap (by decide)) rest
  induction h generalizing before with
  | nil hgap => exact hgaps hgap tail
  | last hgap hitem hgap' =>
    refine declines_append.mpr ⟨hgaps hgap _, declines_append.mpr ⟨?_, hgaps hgap' tail⟩⟩
    exact hdeclines _ _ _ _ hitem (continues_gap hgap' htail)
  | @cons item items gap text gap' rest hgap hitem hgap' hrest ih =>
    have hcontinues : Continues (gap' ++ ',' :: rest ++ tail) := by
      rw [List.append_assoc]
      exact continues_comma hgap' (staysInside_separated htail hitems hrest)
    refine declines_append.mpr ⟨hgaps hgap _, declines_append.mpr ⟨?_, ?_⟩⟩
    · exact hdeclines _ _ _ _ hitem hcontinues
    · refine declines_append.mpr ⟨hgaps hgap' _, ?_, ih _⟩
      exact readsEnd_definitionClosing.eq_none_of_ne _ (by decide) _

end Parts

/-! ### Calls inside a definition -/

/-- No literal holds a closing bracket. -/
theorem Quoted.bracket_notMem {phrase : Phrase} {text : List Char}
    (h : Quoted phrase.text.toList text) : ')' ∉ text := by
  have hphrase : ')' ∉ phrase.text.toList := by
    intro hmem
    have hbracket := List.all_eq_true.mp phrase.phrase ')' hmem
    exact absurd hbracket (by decide)
  cases h with
  | single => simpa using hphrase
  | double => simpa using hphrase

/-- No number holds a closing bracket. -/
theorem bracket_notMem_decimal (value : Int) : ')' ∉ decimal value := by
  have hdigits := (isWord_toDigits value.natAbs).notMem (c := ')') (by decide)
  rw [decimal]
  split_ifs
  · simpa using hdigits
  · exact hdigits

/-- No value of a field holds a closing bracket. -/
theorem FieldAttribute.WritesValue.bracket_notMem {item : FieldAttribute} {text : List Char}
    (h : item.WritesValue text) : ')' ∉ text := by
  cases item with
  | key value => exact Quoted.bracket_notMem h
  | labelKey value => exact Quoted.bracket_notMem h
  | defaultValue value =>
    obtain rfl := h
    exact bracket_notMem_decimal value.value
  | minValue value =>
    obtain rfl := h
    exact bracket_notMem_decimal value.value
  | maxValue value =>
    obtain rfl := h
    exact bracket_notMem_decimal value.value
  | required value =>
    obtain rfl := h
    cases value <;> decide

theorem FieldAttribute.Writes.bracket_notMem {item : FieldAttribute} {text : List Char}
    (h : item.Writes text) : ')' ∉ text := by
  obtain ⟨rfl, hgap, hgap', hvalue⟩ := h
  have hname : ')' ∉ item.name.toList := (fieldGrammar.isWord_name item).notMem (by decide)
  simp only [List.mem_append, List.mem_cons, not_or]
  exact ⟨hname, notMem_gap hgap (by decide), by decide, notMem_gap hgap' (by decide),
    hvalue.bracket_notMem⟩

theorem FieldDeclaration.WritesInner.bracket_notMem {field : FieldDeclaration} {inner : List Char}
    (h : field.WritesInner inner) : ')' ∉ inner := by
  obtain ⟨order, -, hinner⟩ := h
  exact hinner.notMem (fun _ _ ↦ FieldAttribute.Writes.bracket_notMem) (by decide) (by decide)

/-- A text in which nothing is nested holds no closing bracket. -/
theorem bracket_notMem_of_plain {text : List Char} (h : text.all isPlain = true) : ')' ∉ text := by
  intro hmem
  have hplain := List.all_eq_true.mp h ')' hmem
  exact absurd hplain (by decide)

/-- The only bracket that closes in a call is the last character of the call. -/
theorem CallText.declines {name : List Char} {writes : List Char → Prop} {text : List Char}
    (h : CallText name writes text) (hname : IsWord name)
    (hwrites : ∀ inner, writes inner → ')' ∉ inner) (before : Option Char) {rest : List Char}
    (hrest : Continues rest) : Declines definitionClosing before text rest := by
  obtain ⟨hgap, hinner, htext⟩ := h
  rename_i gap inner
  obtain ⟨lead, rfl, hlead, -⟩ := htext.exists_lead
  have hfront : ')' ∉ lead ++ (name ++ (gap ++ '(' :: inner)) := by
    simp only [List.mem_append, List.mem_cons, not_or]
    exact ⟨bracket_notMem_of_plain hlead, hname.notMem (by decide), notMem_gap hgap (by decide),
      by decide, hwrites _ hinner⟩
  have hassoc : lead ++ (name ++ (gap ++ '(' :: (inner ++ [')']))) =
      lead ++ (name ++ (gap ++ '(' :: inner)) ++ [')'] := by simp
  rw [hassoc]
  refine declines_append.mpr ⟨readsEnd_definitionClosing.declines hfront _, ?_, trivial⟩
  exact hrest.no_closing _

theorem FieldDeclaration.Writes.staysInside {field : FieldDeclaration} {text : List Char}
    (h : field.Writes text) (rest : List Char) :
    skipWhite (text ++ rest) = text ++ rest ∧ StaysInside (text ++ rest) := by
  obtain ⟨hgap, -, htext⟩ := h
  rename_i gap inner
  cases htext with
  | unmarked =>
    rw [List.append_assoc]
    exact ⟨isConstructor_field.isWord.skipWhite_append _, rfl, rfl⟩
  | @marked gap' hgap' hdivided =>
    have hconst := isConstructor_field.isWord.afterConst?_append hgap' hdivided
      (gap ++ '(' :: (inner ++ [')']) ++ rest)
    have hassoc : constWord ++ (gap' ++ (fieldConstructor ++ (gap ++ '(' :: (inner ++ [')'])))) ++
        rest = constWord ++
          (gap' ++ (fieldConstructor ++ (gap ++ '(' :: (inner ++ [')']) ++ rest))) := by simp
    rw [hassoc]
    refine ⟨isWord_constWord.skipWhite_append _, ?_, rfl⟩
    rw [afterConstructor?, hconst]
    rfl

/-! ### Attributes of a definition -/

/-- No list of definitions ends where a word begins. -/
theorem definitionListEnd_word {word : List Char} (h : IsWord word) (rest : List Char) :
    definitionListEnd (word ++ rest) = none := by
  obtain ⟨c, tail, rfl, hc, -⟩ := h.exists_cons
  have hne : c ≠ ']' := by
    rintro rfl
    exact absurd hc (by decide)
  rw [definitionListEnd, List.cons_append, afterWord?, if_neg hne]
  rfl

theorem DefinitionAttribute.Writes.staysInside {item : DefinitionAttribute} {text : List Char}
    (h : item.Writes text) (rest : List Char) :
    skipWhite (text ++ rest) = text ++ rest ∧ StaysInside (text ++ rest) := by
  obtain ⟨rfl, -, -, -⟩ := h
  rw [List.append_assoc]
  have hname := definitionGrammar.isWord_name item
  refine ⟨hname.skipWhite_append _, ?_, definitionListEnd_word hname _⟩
  cases item <;> (rw [DefinitionAttribute.name]; rfl)

theorem LabelDeclaration.Writes.bracket_notMem {label : LabelDeclaration} {text : List Char}
    (h : label.Writes text) : ')' ∉ text := by
  obtain ⟨hname, hgap, hgap', hkey⟩ := h
  simp only [List.mem_append, List.mem_cons, not_or]
  exact ⟨hname.bracket_notMem, notMem_gap hgap (by decide), by decide,
    notMem_gap hgap' (by decide), hkey.bracket_notMem⟩

/-- No bracket in the value of an attribute closes the definition. -/
theorem DefinitionAttribute.WritesValue.declines {item : DefinitionAttribute} {text : List Char}
    (h : item.WritesValue text) (before : Option Char) {rest : List Char} (hrest : Continues rest) :
    Declines definitionClosing before text rest := by
  cases item with
  | id value => exact readsEnd_definitionClosing.declines (Quoted.bracket_notMem h) rest
  | titleKey value => exact readsEnd_definitionClosing.declines (Quoted.bracket_notMem h) rest
  | category value => exact readsEnd_definitionClosing.declines (Quoted.bracket_notMem h) rest
  | subCategory value => exact readsEnd_definitionClosing.declines (Quoted.bracket_notMem h) rest
  | computation value =>
    exact CallText.declines h value.word (fun _ hinner ↦ notMem_gap hinner (by decide)) before hrest
  | fields value =>
    have h : CollectionText '[' ']' (Separated FieldDeclaration.Writes value) text := h
    obtain ⟨hinner, htext⟩ := h
    rename_i inner
    obtain ⟨lead, rfl, hlead, -⟩ := htext.exists_lead
    have hfront : ')' ∉ lead ++ ['['] := by
      rw [List.mem_append, not_or]
      exact ⟨bracket_notMem_of_plain hlead, by decide⟩
    have hassoc : lead ++ '[' :: (inner ++ [']']) = lead ++ ['['] ++ (inner ++ [']']) := by simp
    rw [hassoc]
    refine declines_append.mpr ⟨readsEnd_definitionClosing.declines hfront _, ?_⟩
    refine declines_append.mpr ⟨?_, readsEnd_definitionClosing.declines (by decide) rest⟩
    exact declines_separated (endsParts_fields hrest)
      (fun _ _ _ hfield ↦ FieldDeclaration.Writes.staysInside hfield _)
      (fun _ _ before _ hfield hrest ↦ CallText.declines hfield isConstructor_field.isWord
        (fun _ ↦ FieldDeclaration.WritesInner.bracket_notMem) before hrest) hinner _
  | resultLabels value =>
    have h : CollectionText '\x7b' '\x7d' (Separated LabelDeclaration.Writes value) text := h
    obtain ⟨hinner, htext⟩ := h
    obtain ⟨lead, rfl, hlead, -⟩ := htext.exists_lead
    have hlabels := hinner.notMem (fun _ _ ↦ LabelDeclaration.Writes.bracket_notMem) (by decide)
      (by decide)
    refine readsEnd_definitionClosing.declines ?_ rest
    simp only [List.mem_append, List.mem_cons, List.not_mem_nil, or_false, not_or]
    exact ⟨bracket_notMem_of_plain hlead, by decide, hlabels, by decide⟩

theorem DefinitionAttribute.Writes.declines {item : DefinitionAttribute} {text : List Char}
    (h : item.Writes text) (before : Option Char) {rest : List Char} (hrest : Continues rest) :
    Declines definitionClosing before text rest := by
  obtain ⟨rfl, hgap, hgap', hvalue⟩ := h
  rename_i gap gap' value
  have hname : ')' ∉ item.name.toList := (definitionGrammar.isWord_name item).notMem (by decide)
  have hfront : ')' ∉ item.name.toList ++ (gap ++ ':' :: gap') := by
    simp only [List.mem_append, List.mem_cons, not_or]
    exact ⟨hname, notMem_gap hgap (by decide), by decide, notMem_gap hgap' (by decide)⟩
  have hassoc : item.name.toList ++ (gap ++ ':' :: (gap' ++ value)) =
      item.name.toList ++ (gap ++ ':' :: gap') ++ value := by simp
  rw [hassoc]
  exact declines_append.mpr
    ⟨readsEnd_definitionClosing.declines hfront _, hvalue.declines _ hrest⟩

/-- Nothing closes a definition before its own bracket. -/
theorem Declaration.WritesInner.declines {declaration : Declaration} {inner : List Char}
    (h : declaration.WritesInner inner) (rest : List Char) :
    Declines definitionClosing none inner (')' :: rest) := by
  obtain ⟨order, -, hinner⟩ := h
  exact declines_separated (endsParts_definition rest)
    (fun _ _ _ hitem ↦ DefinitionAttribute.Writes.staysInside hitem _)
    (fun _ _ before _ hitem hrest ↦ DefinitionAttribute.Writes.declines hitem before hrest)
    hinner none

end CalculatorCatalog.Definition
