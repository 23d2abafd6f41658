import CalculatorCatalog.Proofs.Definition.Reading

/-!
# Extraction reads declarations back

`extract_of_sourceText`: extraction gives exactly the declarations of a source, in their order and
with the defaults for what they leave out, however the source is laid out, and it drops nothing.
The opening of the list is passed over, the list is cut into one span for each declaration
(`spansFrom_separated`, which rests on `Declaration.WritesInner.declines`), and the span of a
declaration is read as that declaration (`readDefinition_writesInner`).
-/

set_option autoImplicit false
set_option relaxedAutoImplicit false

namespace CalculatorCatalog.Definition

open CalculatorCatalog.Text

/-! ### Before the first declaration -/

/-- No call begins inside a word. -/
theorem opening_inside_word {constructor : List Char} (before : Option Char) (text : List Char)
    (hbefore : isWordAt before = true) (h : isWordAt text.head? = true) :
    opening constructor before text = none := by
  rw [opening, isWordBoundary, hbefore, h]
  rfl

/-- No definition begins with the marker of a constant list. -/
theorem afterConstructor?_listMarker {gap : List Char} (hgap : isBlank gap = true)
    (rest : List Char) :
    afterConstructor? definitionConstructor (constWord ++ (gap ++ '[' :: rest)) = none := by
  cases gap with
  | nil => rfl
  | cons c gap =>
    have hbracket : skipWhite ('[' :: rest) = '[' :: rest := skipWhite_cons (by decide) rest
    rw [afterConstructor?, afterConst?_append hgap (List.cons_ne_nil c gap) hbracket]
    rfl

/-- A search for definitions passes over the opening of a list of them. -/
theorem exists_listOpening {inner list : List Char} (h : MaybeConst ('[' :: inner) list) :
    ∃ front, list = front ++ inner ∧ ∀ before,
      (∀ rest, Declines (opening definitionConstructor) before front rest) ∧
        lastOr before front = some '[' := by
  have hbracket {before : Option Char} (rest : List Char) :
      Declines (opening definitionConstructor) before ['['] rest :=
    declines_opening isConstructor_definition rfl rest
  cases h with
  | unmarked => exact ⟨['['], rfl, fun before ↦ ⟨hbracket, rfl⟩⟩
  | @marked gap hgap hdivided =>
    refine ⟨constWord ++ (gap ++ ['[']), by simp, fun before ↦ ⟨fun rest ↦ ?_, ?_⟩⟩
    · refine declines_append.mpr
        ⟨declines_word opening_inside_word rfl ?_, declines_append.mpr ⟨?_, ?_⟩⟩
      · have hnone := afterConstructor?_listMarker hgap rest
        rw [opening, List.append_assoc, List.singleton_append, hnone, Option.map_none, ite_self]
      · exact declines_opening isConstructor_definition (noWord_gap hgap) _
      · exact hbracket rest
    · rw [lastOr_append, lastOr_append]
      rfl

/-! ### The list -/

/-- What comes behind the declarations ends the list. -/
theorem endsList_semicolon {gap rest : List Char} (hgap : isBlank gap = true)
    (hrest : isBlank rest = true) : EndsList definitionListEnd (']' :: (gap ++ ';' :: rest)) where
  skipWhite_eq := skipWhite_cons (by decide) _
  head_ne := by simp
  noWord := by
    rw [List.all_cons, List.all_append, List.all_cons, noWord_gap hgap, noWord_gap hrest]
    rfl
  isSome := by
    have hsemicolon : afterWord? [';'] (skipWhite (gap ++ ';' :: rest)) = some rest :=
      (afterWord?_skipWhite_eq_some_iff (by decide)).mpr ⟨gap, hgap, rfl⟩
    show ((afterWord? [';'] (skipWhite (gap ++ ';' :: rest)))).isSome = true
    rw [hsemicolon]
    rfl

variable {declarations : List Declaration} {text : List Char}

theorem SourceText.balanced (h : SourceText declarations text) : Balanced text := by
  obtain ⟨hgap, ⟨hinner, hlist⟩, hgap', hgap''⟩ := h
  have hbalanced := hinner.balanced fun _ _ ↦ Declaration.Writes.balanced
  refine (Balanced.of_plain (isPlain_gap hgap)).append ?_
  refine (hlist.balanced (.brackets rfl hbalanced rfl)).append ?_
  exact (Balanced.of_plain (isPlain_gap hgap')).append (.plain rfl (.of_plain (isPlain_gap hgap'')))

/-- A source is cut into one span for each declaration. -/
theorem SourceText.spans (h : SourceText declarations text) :
    List.Forall₂ (SpanOf Declaration.WritesInner) declarations
      (spans (opening definitionConstructor) definitionClosing 0 text) := by
  obtain ⟨hgap, ⟨hinner, hlist⟩, hgap', hgap''⟩ := h
  rename_i gap _ gap' gap'' inner
  obtain ⟨front, rfl, hfront⟩ := exists_listOpening hlist
  have hsplit : gap ++ (front ++ (inner ++ [']']) ++ (gap' ++ ';' :: gap'')) =
      gap ++ (front ++ (inner ++ ']' :: (gap' ++ ';' :: gap''))) := by simp
  obtain ⟨hdeclines, hlast⟩ := hfront (lastOr none gap)
  rw [hsplit, Definition.spans, spansFrom_append_of_declines
    (declines_opening isConstructor_definition (noWord_gap hgap) _),
    spansFrom_append_of_declines (hdeclines _), hlast]
  exact spansFrom_separated isConstructor_definition readsEnd_definitionClosing
    (endsList_semicolon hgap' hgap'')
    (fun _ _ _ hdeclaration ↦ Declaration.WritesInner.declines hdeclaration _) hinner rfl

/-- The span of a declaration is read as that declaration. -/
theorem extractSpan_of_spanOf {declaration : Declaration} {span : Span}
    (h : SpanOf Declaration.WritesInner declaration span) (place : Nat → Excerpt) :
    ∃ offset, extractSpan place span =
      ⟨[declaration.toDefinition (place offset).location], []⟩ := by
  cases span with
  | unterminated offset => cases h
  | closed offset innerOffset inner following =>
    refine ⟨offset, ?_⟩
    rw [extractSpan, readDefinition_writesInner h]

/-- The spans of declarations are read as those declarations, and nothing is dropped. -/
theorem flatMap_extractSpan {found : List Span}
    (h : List.Forall₂ (SpanOf Declaration.WritesInner) declarations found) (file : String)
    (text : List Char) :
    (found.map (extractSpan (Source.excerptAt file text))).flatMap (·.dropped) = [] ∧
      List.Forall₂ (fun declaration definition ↦
          ∃ line column, definition = declaration.toDefinition ⟨file, line, column⟩) declarations
        ((found.map (extractSpan (Source.excerptAt file text))).flatMap (·.definitions)) := by
  induction h with
  | nil => exact ⟨rfl, .nil⟩
  | cons hspan _ ih =>
    obtain ⟨offset, hextract⟩ := extractSpan_of_spanOf hspan (Source.excerptAt file text)
    rw [List.map_cons, List.flatMap_cons, List.flatMap_cons, hextract]
    exact ⟨ih.1, .cons ⟨_, _, rfl⟩ ih.2⟩

/-- Extraction undoes writing: it gives the declarations of a source, each at its place, and drops
nothing. -/
theorem extract_of_sourceText (file source : String) (h : SourceText declarations source.toList) :
    (extract file source).dropped = [] ∧
      List.Forall₂ (fun declaration definition ↦
          ∃ line column, definition = declaration.toDefinition ⟨file, line, column⟩) declarations
        (extract file source).definitions := by
  have hspans := h.spans
  rw [← h.balanced.blankComments_eq] at hspans
  exact flatMap_extractSpan hspans file source.toList

/-- A field with a bound and without a default. -/
def weightField : FieldDeclaration where
  key := ⟨"weight", by decide, by decide⟩
  labelKey := ⟨"bmi.weight", by decide, by decide⟩
  defaultValue := none
  minValue := some ⟨-7, by decide⟩
  maxValue := none
  required := none

/-- A calculator with that field. -/
def bmiDeclaration : Declaration where
  id := ⟨"bmi", by decide, by decide⟩
  titleKey := ⟨"bmi.title", by decide, by decide⟩
  category := none
  subCategory := none
  computation := some ⟨"Bmi", by decide, rfl⟩
  fields := some [weightField]
  resultLabels := none

/-- One way of writing it. -/
def bmiSource : String :=
  "[const CalculatorDefinition(titleKey: \"bmi.title\", id: 'bmi', useCase: Bmi(), " ++
    "fields: const [InputFieldDefinition(labelKey: 'bmi.weight', key: 'weight', minValue: -7,)])];"

theorem sourceText_bmiSource : SourceText [bmiDeclaration] bmiSource.toList := by
  have hblank : isBlank [] = true := rfl
  have hspace : isBlank [' '] = true := rfl
  have hconst {c : Char} (text : List Char) :
      MaybeConst (c :: text) (constWord ++ ([' '] ++ (c :: text))) :=
    .marked hspace (Or.inl (List.cons_ne_nil _ _))
  have hlabelKey : (FieldAttribute.labelKey weightField.labelKey).Writes _ :=
    .intro rfl hblank hspace .single
  have hkey : (FieldAttribute.key weightField.key).Writes _ := .intro rfl hblank hspace .single
  have hmin : (FieldAttribute.minValue ⟨-7, by decide⟩).Writes _ :=
    .intro rfl hblank hspace rfl
  have hfield : weightField.Writes _ :=
    .intro hblank ⟨_, .swap _ _ _, .cons hblank hlabelKey hblank (.cons hspace hkey hblank
      (.cons hspace hmin hblank (.nil hblank)))⟩ .unmarked
  have htitleKey : (DefinitionAttribute.titleKey bmiDeclaration.titleKey).Writes _ :=
    .intro rfl hblank hspace .double
  have hid : (DefinitionAttribute.id bmiDeclaration.id).Writes _ :=
    .intro rfl hblank hspace .single
  have hcomputation : (DefinitionAttribute.computation ⟨"Bmi", by decide, rfl⟩).Writes _ :=
    .intro rfl hblank hspace (.intro hblank hblank .unmarked)
  have hfields : (DefinitionAttribute.fields [weightField]).Writes _ :=
    .intro rfl hblank hspace (.intro (.last hblank hfield hblank) (hconst _))
  have hdeclaration : bmiDeclaration.Writes _ :=
    .intro hblank ⟨_, .swap _ _ _, .cons hblank htitleKey hblank (.cons hspace hid hblank
      (.cons hspace hcomputation hblank (.last hspace hfields hblank)))⟩ (hconst _)
  obtain ⟨text, hsource, htext⟩ :
      ∃ text, SourceText [bmiDeclaration] text ∧ text = bmiSource.toList := by
    refine ⟨_, .intro hblank (.intro (.last hblank hdeclaration hblank) .unmarked) hblank hblank,
      ?_⟩
    decide +kernel
  rwa [htext] at hsource

/-- A declaration is read back from that source. -/
theorem extract_bmiSource :
    SourceText [bmiDeclaration] bmiSource.toList ∧
      (extract "bmi" bmiSource).dropped = [] ∧
        List.Forall₂ (fun (declaration : Declaration) definition ↦
            ∃ line column, definition = declaration.toDefinition ⟨"bmi", line, column⟩)
          [bmiDeclaration] (extract "bmi" bmiSource).definitions :=
  ⟨sourceText_bmiSource, extract_of_sourceText "bmi" bmiSource sourceText_bmiSource⟩

end CalculatorCatalog.Definition
