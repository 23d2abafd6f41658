import CalculatorCatalog.Proofs.Definition.Sources
import CalculatorCatalog.Proofs.Text.ByteViews
import CalculatorCatalog.Proofs.Text.LineIndex
import Mathlib.Data.List.Forall2

/-!
# Extraction at byte offsets

`extractAt?` is the extraction of definitions as a computation on offsets. Spans are given by the
offsets at which they begin and end, their texts are cut out of the source whose comments are
hidden, and a nested attribute is found in what `maskBytes?` leaves of a span and delimited in the
source. Its answer is `none` as soon as an offset is out of range or inside a character, as soon as
a view of the source is no text, and where the search for spans does not move forward.

None of this happens on any source (`extractAt?_eq`): the offsets found in one of these texts are
places of the others too. `extract_in_range` adds where the results belong: each carries the line
and the column at which its own opener stands in the source.
-/

set_option autoImplicit false
set_option relaxedAutoImplicit false

namespace CalculatorCatalog.Definition

open CalculatorCatalog.Text

/-! ### Spans -/

/-- A span by its offsets: where it opens, and where its inside begins and ends. -/
inductive SpanOffsets where
  | closed (offset start stop : Nat)
  | unterminated (offset : Nat)
  deriving DecidableEq, Repr

/-- The offsets of a span. -/
def Span.offsets : Span → SpanOffsets
  | .closed offset innerOffset inner _ =>
    .closed offset innerOffset (innerOffset + byteLength inner)
  | .unterminated offset => .unterminated offset

/-- The span that begins with an opening between two offsets of a text that itself begins at the
offset `base`, given where the search for its end has found something, and the offset at which the
search for the next span resumes. -/
def spanAt (base start stop : Nat) : Option (Nat × Nat) → SpanOffsets × Nat
  | some (close, _) => (.closed (base + start) (base + stop) (base + close), close + 1)
  | none => (.unterminated (base + start), stop)

/-- The spans of a text that begins at the offset `base`, searched for from a cursor on. The answer
is `none` if an offset is no place of the text, or if the cursor does not move forward. -/
def spansAt? (opens closes : Recognizer Unit) (base : Nat) (text : List Char) (cursor : Nat) :
    Option (List SpanOffsets) :=
  match findAt? opens cursor text with
  | none => none
  | some none => some []
  | some (some (start, stop)) =>
    match findAt? closes stop text with
    | none => none
    | some closing =>
      if cursor < (spanAt base start stop closing).2 ∧
          (spanAt base start stop closing).2 ≤ byteLength text then
        (spansAt? opens closes base text (spanAt base start stop closing).2).map
          ((spanAt base start stop closing).1 :: ·)
      else none
termination_by byteLength text - cursor

section Steps

variable {opens closes : Recognizer Unit} {base cursor : Nat} {text : List Char}

theorem spansAt?_of_not_found (h : findAt? opens cursor text = some none) :
    spansAt? opens closes base text cursor = some [] := by
  rw [spansAt?, h]

/-- From one span to the next the cursor moves forward and stays inside the text. -/
theorem spansAt?_of_found {start stop next : Nat} {closing : Option (Nat × Nat)}
    {span : SpanOffsets} (hopens : findAt? opens cursor text = some (some (start, stop)))
    (hcloses : findAt? closes stop text = some closing)
    (hspan : spanAt base start stop closing = (span, next)) (hforward : cursor < next)
    (hnext : next ≤ byteLength text) :
    spansAt? opens closes base text cursor =
      (spansAt? opens closes base text next).map (span :: ·) := by
  rw [spansAt?, hopens]
  simp only [hcloses, hspan]
  exact if_pos ⟨hforward, hnext⟩

variable {before passed read inside : List Char}

/-- Where an opening and its end are found. -/
theorem findAt?_of_opening (hignores : ∀ before text, closes before text = closes none text)
    (hfirst : first? opens (lastOr none before) (passed ++ (read ++ inside)) =
      some ⟨passed, (), inside⟩) :
    findAt? opens (byteLength before) (before ++ (passed ++ (read ++ inside))) =
        some (some (byteLength (before ++ passed), byteLength (before ++ passed ++ read))) ∧
      findAt? closes (byteLength (before ++ passed ++ read))
          (before ++ (passed ++ (read ++ inside))) =
        some ((first? closes none inside).map fun found ↦
          (byteLength (before ++ passed ++ read) + byteLength found.passed,
            byteLength (before ++ passed ++ read) + byteLength inside - byteLength found.rest)) := by
  constructor
  · rw [findAt?_append, hfirst]
    simp only [Option.map_some, byteLength_append, Option.some.injEq, Prod.mk.injEq, true_and]
    omega
  · have hsplit : before ++ (passed ++ (read ++ inside)) =
        (before ++ passed ++ read) ++ inside := by simp
    rw [hsplit, findAt?_append, first?_congr_before hignores]

/-- Behind an opening without an end the search goes on where the opening ends. -/
theorem spansAt?_of_unterminated (hignores : ∀ before text, closes before text = closes none text)
    (hread : read ≠ [])
    (hfirst : first? opens (lastOr none before) (passed ++ (read ++ inside)) =
      some ⟨passed, (), inside⟩) (hcloses : first? closes none inside = none) :
    spansAt? opens closes base (before ++ (passed ++ (read ++ inside))) (byteLength before) =
      (spansAt? opens closes base ((before ++ passed ++ read) ++ inside)
        (byteLength (before ++ passed ++ read))).map
          (.unterminated (base + byteLength (before ++ passed)) :: ·) := by
  obtain ⟨hopening, hclosing⟩ := findAt?_of_opening hignores hfirst
  have hbytes : byteLength read ≠ 0 := fun hzero ↦ hread (byteLength_eq_zero.mp hzero)
  have hsplit : before ++ (passed ++ (read ++ inside)) =
      (before ++ passed ++ read) ++ inside := by simp
  rw [hcloses, Option.map_none] at hclosing
  rw [spansAt?_of_found hopening hclosing rfl, ← hsplit]
  · simp only [byteLength_append]
    omega
  · rw [hsplit, byteLength_append _ inside]
    exact Nat.le_add_right _ _

/-- Behind a span the search goes on behind its closing bracket. -/
theorem spansAt?_of_closed {closed tail : List Char}
    (hignores : ∀ before text, closes before text = closes none text)
    (hfirst : first? opens (lastOr none before) (passed ++ (read ++ (closed ++ ')' :: tail))) =
      some ⟨passed, (), closed ++ ')' :: tail⟩) {rest : List Char}
    (hcloses : first? closes none (closed ++ ')' :: tail) = some ⟨closed, (), rest⟩) :
    spansAt? opens closes base (before ++ (passed ++ (read ++ (closed ++ ')' :: tail))))
        (byteLength before) =
      (spansAt? opens closes base ((before ++ passed ++ read ++ (closed ++ [')'])) ++ tail)
        (byteLength (before ++ passed ++ read ++ (closed ++ [')'])))).map
          (.closed (base + byteLength (before ++ passed))
            (base + byteLength (before ++ passed ++ read))
            (base + (byteLength (before ++ passed ++ read) + byteLength closed)) :: ·) := by
  obtain ⟨hopening, hclosing⟩ := findAt?_of_opening hignores hfirst
  have hsize : (')').utf8Size = 1 := rfl
  have hsplit : before ++ (passed ++ (read ++ (closed ++ ')' :: tail))) =
      (before ++ passed ++ read ++ (closed ++ [')'])) ++ tail := by simp
  have hnext : byteLength (before ++ passed ++ read ++ (closed ++ [')'])) =
      byteLength (before ++ passed ++ read) + byteLength closed + 1 := by
    simp only [byteLength_append, byteLength_cons, byteLength_nil, hsize]
    omega
  rw [hcloses, Option.map_some] at hclosing
  rw [spansAt?_of_found hopening hclosing rfl, ← hsplit, hnext]
  · simp only [byteLength_append]
    omega
  · rw [← hnext, hsplit, byteLength_append _ tail]
    exact Nat.le_add_right _ _

end Steps

/-- From a place of a text on, the search with offsets finds the spans of the rest. -/
theorem spansAt?_append {opens closes : Recognizer Unit} (hreads : ReadsOn opens)
    (hbracket : ClosesAtBracket closes)
    (hignores : ∀ before text, closes before text = closes none text) (base : Nat)
    (before text : List Char) :
    spansAt? opens closes base (before ++ text) (byteLength before) =
      some ((spansFrom opens closes 0 (lastOr none before) (base + byteLength before) text).map
        Span.offsets) := by
  induction hlength : text.length using Nat.strongRecOn generalizing before text with
  | ind length ih =>
    subst hlength
    cases hfirst : first? opens (lastOr none before) text with
    | none =>
      have hnone : spansFrom opens closes 0 (lastOr none before) (base + byteLength before)
          (text ++ []) = _ := spansFrom_append_of_declines (declines_of_first?_eq_none hfirst)
      rw [List.append_nil, spansFrom] at hnone
      rw [hnone, spansAt?_of_not_found (by rw [findAt?_append, hfirst, Option.map_none]),
        List.map_nil]
    | some found =>
      obtain ⟨passed, ⟨⟩, inside⟩ := found
      obtain ⟨after, htext, hpassed, hopening⟩ := exists_of_first?_eq_some hfirst
      obtain ⟨read, hread, rfl⟩ := hreads _ _ _ hopening
      simp only at htext hpassed hopening
      subst htext
      have hchars : 0 < read.length := List.length_pos_iff.mpr hread
      rw [spansFrom_append_of_declines hpassed]
      cases hclosing : first? closes none inside with
      | none =>
        have hclose : closeSpan closes (base + byteLength before + byteLength passed)
            (base + byteLength before + byteLength passed + byteLength read) inside =
              (.unterminated (base + byteLength before + byteLength passed), 0) := by
          simp only [closeSpan, hclosing]
        have hshorter : inside.length < (passed ++ (read ++ inside)).length := by
          simp only [List.length_append]
          omega
        rw [spansAt?_of_unterminated hignores hread hfirst hclosing,
          ih _ hshorter (before ++ passed ++ read) inside rfl,
          spansFrom_of_opening hread hopening, hclose, lastOr_append, lastOr_append]
        simp only [Option.map_some, List.map_cons, Span.offsets, byteLength_append, Nat.add_assoc]
      | some closing =>
        obtain ⟨closed, ⟨⟩, rest⟩ := closing
        obtain ⟨after, hinside, hends⟩ := first?_eq_some hclosing
        obtain ⟨tail, rfl⟩ := hbracket _ _ _ hends
        simp only at hinside
        subst hinside
        have hshorter : tail.length < (passed ++ (read ++ (closed ++ ')' :: tail))).length := by
          simp only [List.length_append, List.length_cons]
          omega
        have hlast : lastOr none (before ++ passed ++ read ++ (closed ++ [')'])) = some ')' := by
          rw [lastOr_append, lastOr_append, lastOr_cons, lastOr_nil]
        have hspan : spansFrom opens closes 0 (lastOr (lastOr none before) passed)
            (base + byteLength before + byteLength passed) (read ++ (closed ++ ')' :: tail)) = _ :=
          spansFrom_of_closed hread rfl hopening hclosing
        rw [spansAt?_of_closed hignores hfirst hclosing,
          ih _ hshorter (before ++ passed ++ read ++ (closed ++ [')'])) tail rfl, hlast, hspan]
        simp only [Option.map_some, List.map_cons, Span.offsets, byteLength_append, Nat.add_assoc]

/-! ### Declarations -/

/-- The offsets right behind the opening bracket of a nested attribute and of its closing bracket,
if there are both. The attribute is searched for in the masked inside of a declaration that begins
at the offset `start`, the closing bracket in the whole source. -/
def regionAt? (name : String) (bracket : Char) (start : Nat) (masked source : List Char) :
    Option (Option (Nat × Nat)) := do
  match ← findAt? (bracketAttribute name bracket) 0 masked with
  | none => return none
  | some (_, stop) =>
    let opens ← difference? (start + stop) 1
    let _ ← splitBytes? opens source
    return (← closingByte? source opens).map (opens + 1, ·)

/-- Reads a field from the text between its brackets. -/
def readFieldAt? (inner : List Char) : Option (Except DropReason Field) := do
  let masked ← maskBytes? inner
  return do
    let key ← required .missingFieldKey (firstValue? (stringAttribute "key") masked)
    let labelKey ← required .missingFieldLabel (firstValue? (stringAttribute "labelKey") masked)
    return {
      key, labelKey
      defaultValue :=
        (firstValue? (numberAttribute "defaultValue") masked).getD Field.standardDefault
      minValue := firstValue? (numberAttribute "minValue") masked
      maxValue := firstValue? (numberAttribute "maxValue") masked
      required := (firstValue? (flagAttribute "required") masked).getD true }

/-- Reads a field at its offsets in a source, `text`, whose comments are hidden in `hidden`. -/
def fieldAt? (file : String) (text hidden : List Char) :
    SpanOffsets → Option (Except Dropped Field)
  | .unterminated offset => do
    let excerpt ← Source.excerptByLines? file text offset
    return .error ⟨.field, excerpt, .unterminated⟩
  | .closed offset start stop => do
    let excerpt ← Source.excerptByLines? file text offset
    let inner ← slice? start stop hidden
    return (← readFieldAt? inner).mapError fun reason ↦ ⟨.field, excerpt, reason⟩

/-- Reads the fields between two offsets, if there is a list of fields. -/
def fieldsAt? (file : String) (text hidden : List Char) :
    Option (Nat × Nat) → Option (List (Except Dropped Field))
  | none => some []
  | some (start, stop) => do
    let region ← slice? start stop hidden
    let found ← spansAt? (opening fieldConstructor) fieldClosing start region 0
    found.mapM (fieldAt? file text hidden)

/-- Reads the result labels between two offsets, if there are any. -/
def labelsAt? (hidden : List Char) : Option (Nat × Nat) → Option (List ResultLabel)
  | none => some []
  | some (start, stop) => do
    let region ← slice? start stop hidden
    return (values resultLabelPair region).map fun (name, labelKey) ↦ ⟨name, labelKey⟩

/-- What the span at the given offsets contributes to the extraction. -/
def definitionAt? (file : String) (text hidden : List Char) : SpanOffsets → Option Extraction
  | .unterminated offset => do
    let excerpt ← Source.excerptByLines? file text offset
    return ⟨[], [⟨.definition, excerpt, .unterminated⟩]⟩
  | .closed offset start stop => do
    let excerpt ← Source.excerptByLines? file text offset
    let inner ← slice? start stop hidden
    let masked ← maskBytes? inner
    match firstValue? (stringAttribute "id") masked,
        firstValue? (stringAttribute "titleKey") masked with
    | none, _ => return ⟨[], [⟨.definition, excerpt, .missingId⟩]⟩
    | some _, none => return ⟨[], [⟨.definition, excerpt, .missingTitleKey⟩]⟩
    | some id, some titleKey =>
      let fields ← fieldsAt? file text hidden (← regionAt? "fields" '[' start masked hidden)
      let labels ← labelsAt? hidden (← regionAt? "resultLabels" '\x7b' start masked hidden)
      return ⟨[{
        id, titleKey
        category := (firstValue? (stringAttribute "category") masked).getD ""
        subCategory := (firstValue? (stringAttribute "subCategory") masked).getD ""
        computation := firstValue? computationAttribute masked
        fields := successes fields
        resultLabels := labels
        location := excerpt.location }], failures fields⟩

/-- The extraction with every offset checked: the answer is `none` as soon as a cut, an index or a
difference is out of range, a view of the source is no text, or a cursor does not move forward. -/
def extractAt? (file content : String) : Option Extraction := do
  let text := content.toList
  let hidden ← blankBytes? text
  let region ← slice? 0 (byteLength hidden) hidden
  let spans ← spansAt? (opening definitionConstructor) definitionClosing 0 region 0
  let found ← spans.mapM (definitionAt? file text hidden)
  return ⟨found.flatMap (·.definitions), found.flatMap (·.dropped)⟩

/-! ### What the offsets lead to -/

theorem mapM_offsets {α : Type} {read : SpanOffsets → Option α} {view : Span → α}
    {found : List Span} (h : ∀ span ∈ found, read span.offsets = some (view span)) :
    (found.map Span.offsets).mapM read = some (found.map view) := by
  induction found with
  | nil => rfl
  | cons span found ih =>
    rw [List.forall_mem_cons] at h
    rw [List.map_cons, List.mapM_cons, h.1, ih h.2]
    rfl

theorem readFieldAt?_eq (inner : List Char) : readFieldAt? inner = some (readField inner) := by
  rw [readFieldAt?, maskBytes?_eq]
  rfl

section Regions

variable {name : String} {bracket : Char} {earlier inner following : List Char}

/-- The offsets of a nested attribute are those of the text between its brackets. -/
theorem regionAt?_eq (hbracket : isOpening bracket = true) :
    regionAt? name bracket (byteLength earlier) (maskNested inner)
        (earlier ++ (inner ++ following)) =
      some ((nestedRegion? name bracket (byteLength earlier) (maskNested inner)
        (inner ++ following)).map fun (start, region) ↦ (start, start + byteLength region)) := by
  have hfind := findAt?_append (bracketAttribute name bracket) [] (maskNested inner)
  rw [byteLength_nil, List.nil_append, lastOr_nil] at hfind
  rw [regionAt?, hfind, nestedRegion?]
  cases hfound : first? (bracketAttribute name bracket) none (maskNested inner) with
  | none => rfl
  | some found =>
    obtain ⟨before, behind, hinner, hstop⟩ :=
      exists_bracket_of_first? (isWhiteSpace_of_isOpening hbracket) hfound
    have hsize : bracket.utf8Size = 1 := utf8Size_of_isOpening hbracket
    have hsplit : earlier ++ (inner ++ following) =
        (earlier ++ before) ++ bracket :: (behind ++ following) := by simp [hinner]
    have hsplit' : inner ++ following = (before ++ [bracket]) ++ (behind ++ following) := by
      simp [hinner]
    have hlength : byteLength earlier + byteLength (before ++ [bracket]) =
        1 + byteLength (earlier ++ before) := by
      simp only [byteLength_append, byteLength_cons, byteLength_nil, hsize]
      omega
    have hopens : difference? (1 + byteLength (earlier ++ before)) 1 =
        some (byteLength (earlier ++ before)) := difference?_add _ _
    have hclosing : closingOffset? ((earlier ++ before) ++ bracket :: (behind ++ following))
        (byteLength (earlier ++ before)) =
          (enclosed? (behind ++ following)).map fun parts ↦
            1 + byteLength (earlier ++ before) + byteLength parts.1 := by
      rw [closingOffset?, splitBytes?_append]
      simp only [hbracket, if_true, Nat.add_comm 1]
    simp only [Option.map_some, Option.bind_eq_bind, Option.bind_some, Nat.zero_add, hstop, hlength,
      hopens, hsplit, splitBytes?_append, closingByte?_append, hclosing]
    rw [hsplit', dropBytes_byteLength_append, Nat.add_comm _ 1]
    cases enclosed? (behind ++ following) <;> rfl

end Regions

/-! ### Openers -/

/-- A text with which a call of a constructor begins: the constant marker, if there is one, the name
of the constructor, and the opening bracket, with white space between them. -/
def IsOpener (constructor read : List Char) : Prop :=
  ∃ mark gap, isBlank gap = true ∧ read = mark ++ (constructor ++ (gap ++ ['('])) ∧
    (mark = [] ∨
      ∃ c lead, isWhiteSpace c = true ∧ isBlank lead = true ∧ mark = constWord ++ c :: lead)

/-- A call of a constructor begins at an offset of a source, comments aside. -/
def OpensAt (constructor : List Char) (content : String) (offset : Nat) : Prop :=
  ∃ before read after, blankComments content.toList = before ++ (read ++ after) ∧
    byteLength before = offset ∧ IsOpener constructor read

theorem afterCall?_eq_some_opener {constructor text inside : List Char}
    (h : afterCall? constructor text = some inside) :
    ∃ gap, isBlank gap = true ∧ text = constructor ++ (gap ++ ['(']) ++ inside := by
  obtain ⟨gap, hgap, rfl⟩ := afterCall?_eq_some_iff.mp h
  exact ⟨gap, hgap, by simp⟩

/-- What opens a declaration is an opener. -/
theorem exists_opener {constructor text : List Char} {before : Option Char}
    {result : Unit × List Char} (h : opening constructor before text = some result) :
    ∃ read inside, text = read ++ inside ∧ IsOpener constructor read := by
  unfold opening at h
  split_ifs at h
  obtain ⟨inside, hinside, -⟩ := Option.map_eq_some_iff.mp h
  rw [afterConstructor?, Option.orElse_eq_orElse, Option.orElse_eq_or,
    Option.or_eq_some_iff] at hinside
  rcases hinside with hinside | ⟨-, hinside⟩
  · obtain ⟨middle, hconst, hcall⟩ := Option.bind_eq_some_iff.mp hinside
    obtain ⟨c, tail, hc, rfl, rfl⟩ := afterConst?_eq_some_iff.mp hconst
    obtain ⟨gap, hgap, htail⟩ := afterCall?_eq_some_opener hcall
    refine ⟨(constWord ++ c :: tail.takeWhile isWhiteSpace) ++ (constructor ++ (gap ++ ['('])),
      inside, ?_, _, gap, hgap, rfl, .inr ⟨c, _, hc, isBlank_takeWhile tail, rfl⟩⟩
    rw [List.append_assoc, ← htail, List.append_assoc, List.cons_append,
      takeWhile_append_skipWhite]
  · obtain ⟨gap, hgap, rfl⟩ := afterCall?_eq_some_opener hinside
    exact ⟨constructor ++ (gap ++ ['(']), inside, rfl, [], gap, hgap, rfl, .inl rfl⟩

/-- The constructors have names that begin with a visible character. -/
def IsNamed (constructor : List Char) : Prop :=
  ∃ c name, constructor = c :: name ∧ c ≠ ' '

theorem isNamed_definitionConstructor : IsNamed definitionConstructor :=
  ⟨'C', _, rfl, by decide⟩

theorem isNamed_fieldConstructor : IsNamed fieldConstructor :=
  ⟨'I', _, rfl, by decide⟩

theorem IsOpener.head?_ne {constructor read : List Char} (h : IsOpener constructor read)
    (hname : IsNamed constructor) (after : List Char) : (read ++ after).head? ≠ some ' ' := by
  obtain ⟨mark, gap, -, rfl, rfl | ⟨c, lead, -, -, rfl⟩⟩ := h
  · obtain ⟨c, name, rfl, hc⟩ := hname
    simpa using hc
  · simp [constWord]

/-- A call in the source with its comments hidden begins at a place of the source itself. -/
theorem OpensAt.isPlace {constructor : List Char} {content : String} {offset : Nat}
    (h : OpensAt constructor content offset) (hname : IsNamed constructor) :
    IsPlace content.toList offset := by
  obtain ⟨before, read, after, hhidden, rfl, hopener⟩ := h
  exact isPlace_of_blankComments hhidden fun _ ↦ hopener.head?_ne hname after

/-- The place of a call is found without an offset out of range. -/
theorem OpensAt.excerptByLines?_eq {constructor : List Char} {content : String} {offset : Nat}
    (h : OpensAt constructor content offset) (hname : IsNamed constructor) (file : String) :
    Source.excerptByLines? file content.toList offset =
      some (Source.excerptAt file content.toList offset) := by
  obtain ⟨before, after, hcontent, rfl⟩ := h.isPlace hname
  rw [hcontent, Source.excerptByLines?_append, Source.excerptAt, takeBytes_byteLength_append,
    dropBytes_byteLength_append]

/-- The spans of definitions begin where their constructor is called. -/
theorem opensAt_of_mem_definitionSpans {content : String} {span : Span}
    (h : span ∈ definitionSpans content) : OpensAt definitionConstructor content span.offset := by
  obtain ⟨earlier, rest, hhidden, hoffset, before, result, hopens⟩ :=
    (cuts_definitionSpans content).exists_opening span h
  obtain ⟨read, inside, rfl, hopener⟩ := exists_opener hopens
  exact ⟨earlier, read, inside, hhidden, by rw [hoffset, Nat.zero_add], hopener⟩

/-- The spans of fields begin where their constructor is called. -/
theorem opensAt_of_mem_fieldSpans {content : String} {span field : Span}
    (h : span ∈ definitionSpans content) (hfield : field ∈ span.fieldSpans) :
    OpensAt fieldConstructor content field.offset := by
  obtain ⟨start, region, hregion⟩ := exists_region?_of_mem_fieldSpans hfield
  obtain ⟨earlier, rest, hhidden, rfl, -⟩ := exists_of_region? h (by decide) hregion
  obtain ⟨passed, text, rfl, hoffset, before, result, hopens⟩ :=
    (cuts_fieldSpans hregion).exists_opening field hfield
  obtain ⟨read, inside, rfl, hopener⟩ := exists_opener hopens
  refine ⟨earlier ++ passed, read, inside ++ rest, ?_, ?_, hopener⟩
  · rw [hhidden]
    simp only [List.append_assoc]
  · rw [hoffset, byteLength_append]

/-! ### The extraction -/

section Extraction

variable {file content : String}

/-- A field that is cut out of a part of a source is read at its offsets. -/
theorem fieldAt?_eq {field : Span} {earlier region rest : List Char} {found : List Span}
    (hhidden : blankComments content.toList = earlier ++ (region ++ rest))
    (hcuts : Cuts (opening fieldConstructor) fieldClosing none (byteLength earlier) region found)
    (hfield : field ∈ found) (hopens : OpensAt fieldConstructor content field.offset) :
    fieldAt? file content.toList (blankComments content.toList) field.offsets =
      some (fieldOfSpan (Source.excerptAt file content.toList) field) := by
  have hexcerpt := hopens.excerptByLines?_eq isNamed_fieldConstructor file
  cases field with
  | unterminated offset =>
    rw [Span.offset] at hexcerpt
    rw [Span.offsets, fieldAt?, hexcerpt]
    rfl
  | closed offset innerOffset inner following =>
    obtain ⟨before, rfl, rfl, -⟩ := hcuts.exists_inner hfield
    have hslice : slice? (byteLength earlier + byteLength before)
        (byteLength earlier + byteLength before + byteLength inner)
        (blankComments content.toList) = some inner := by
      have hsplit : earlier ++ (before ++ (inner ++ following) ++ rest) =
          (earlier ++ before) ++ (inner ++ (following ++ rest)) := by simp
      rw [hhidden, hsplit, ← byteLength_append earlier before]
      exact slice?_append _ _ _
    rw [Span.offset] at hexcerpt
    rw [Span.offsets, fieldAt?, hexcerpt, hslice]
    simp only [Option.bind_eq_bind, Option.bind_some, readFieldAt?_eq]
    rfl

/-- The fields of a definition are read at their offsets. -/
theorem fieldsAt?_eq {offset innerOffset : Nat} {inner following : List Char}
    (hspan : .closed offset innerOffset inner following ∈ definitionSpans content)
    (hdeclares : declares inner = true) :
    fieldsAt? file content.toList (blankComments content.toList)
        ((nestedRegion? "fields" '[' innerOffset (maskNested inner) (inner ++ following)).map
          fun (start, region) ↦ (start, start + byteLength region)) =
      some (readFields (Source.excerptAt file content.toList) innerOffset (maskNested inner)
        (inner ++ following)) := by
  have hregion : (Span.closed offset innerOffset inner following).region? "fields" '[' =
      nestedRegion? "fields" '[' innerOffset (maskNested inner) (inner ++ following) :=
    if_pos hdeclares
  have hfields : readFields (Source.excerptAt file content.toList) innerOffset (maskNested inner)
      (inner ++ following) = (Span.closed offset innerOffset inner following).fieldSpans.map
        (fieldOfSpan (Source.excerptAt file content.toList)) := readFields_eq _ hdeclares
  rw [hfields]
  cases hnested : nestedRegion? "fields" '[' innerOffset (maskNested inner)
      (inner ++ following) with
  | none =>
    rw [fieldSpans_eq_nil (hregion.trans hnested)]
    rfl
  | some found =>
    obtain ⟨start, region⟩ := found
    rw [hnested] at hregion
    obtain ⟨earlier, rest, hhidden, rfl, -⟩ := exists_of_region? hspan (by decide) hregion
    have hreads : ReadsOn (opening fieldConstructor) := opening_readsOn (by decide)
    have hspans : spansAt? (opening fieldConstructor) fieldClosing (byteLength earlier) region 0 =
        some ((Span.closed offset innerOffset inner following).fieldSpans.map Span.offsets) := by
      rw [Span.fieldSpans, hregion]
      exact spansAt?_append hreads fieldClosing_closesAtBracket (fun _ _ ↦ rfl) (byteLength earlier)
        [] region
    have hslice : slice? (byteLength earlier) (byteLength earlier + byteLength region)
        (blankComments content.toList) = some region := by
      rw [hhidden]
      exact slice?_append _ _ _
    rw [Option.map_some, fieldsAt?, hslice]
    simp only [Option.bind_eq_bind, Option.bind_some, hspans]
    exact mapM_offsets fun field hfield ↦ fieldAt?_eq hhidden (cuts_fieldSpans hregion) hfield
      (opensAt_of_mem_fieldSpans hspan hfield)

/-- The result labels of a definition are read at their offsets. -/
theorem labelsAt?_eq {offset innerOffset : Nat} {inner following : List Char}
    (hspan : .closed offset innerOffset inner following ∈ definitionSpans content)
    (hdeclares : declares inner = true) :
    labelsAt? (blankComments content.toList)
        ((nestedRegion? "resultLabels" '\x7b' innerOffset (maskNested inner)
          (inner ++ following)).map fun (start, region) ↦ (start, start + byteLength region)) =
      some (readResultLabels innerOffset (maskNested inner) (inner ++ following)) := by
  rw [readResultLabels]
  cases hnested : nestedRegion? "resultLabels" '\x7b' innerOffset (maskNested inner)
      (inner ++ following) with
  | none => rfl
  | some found =>
    obtain ⟨start, region⟩ := found
    have hregion : (Span.closed offset innerOffset inner following).region? "resultLabels"
        '\x7b' = some (start, region) := by
      rw [← hnested]
      exact if_pos hdeclares
    obtain ⟨earlier, rest, hhidden, rfl, -⟩ := exists_of_region? hspan (by decide) hregion
    rw [Option.map_some, labelsAt?, hhidden, slice?_append]
    rfl

/-- A span contributes the same when it is read at its offsets. -/
theorem definitionAt?_eq {span : Span} (hspan : span ∈ definitionSpans content) :
    definitionAt? file content.toList (blankComments content.toList) span.offsets =
      some (extractSpan (Source.excerptAt file content.toList) span) := by
  have hexcerpt := (opensAt_of_mem_definitionSpans hspan).excerptByLines?_eq
    isNamed_definitionConstructor file
  cases span with
  | unterminated offset =>
    rw [Span.offset] at hexcerpt
    rw [Span.offsets, definitionAt?, hexcerpt]
    rfl
  | closed offset innerOffset inner following =>
    obtain ⟨earlier, hhidden, hinner, -⟩ := (cuts_definitionSpans content).exists_inner hspan
    rw [Nat.zero_add] at hinner
    have hslice : slice? innerOffset (innerOffset + byteLength inner)
        (blankComments content.toList) = some inner := by
      rw [hhidden, hinner]
      exact slice?_append _ _ _
    rw [Span.offset] at hexcerpt
    rw [Span.offsets, definitionAt?, hexcerpt, hslice, extractSpan, readDefinition]
    simp only [Option.bind_eq_bind, Option.bind_some, maskBytes?_eq]
    cases hid : firstValue? (stringAttribute "id") (maskNested inner) with
    | none => rfl
    | some id =>
      cases htitle : firstValue? (stringAttribute "titleKey") (maskNested inner) with
      | none => rfl
      | some titleKey =>
        have hdeclares : declares inner = true := by
          rw [declares, hid, htitle]
          rfl
        have hregions : ∀ (name : String) (bracket : Char), isOpening bracket = true →
            regionAt? name bracket innerOffset (maskNested inner) (blankComments content.toList) =
              some ((nestedRegion? name bracket innerOffset (maskNested inner)
                (inner ++ following)).map fun (start, region) ↦
                  (start, start + byteLength region)) := by
          intro name bracket hbracket
          rw [hhidden, hinner]
          exact regionAt?_eq hbracket
        simp only [hregions "fields" '[' rfl, hregions "resultLabels" '\x7b' rfl,
          Option.bind_some, fieldsAt?_eq hspan hdeclares, labelsAt?_eq hspan hdeclares]
        rfl

/-- The extraction uses no offset out of range. -/
theorem extractAt?_eq (file content : String) :
    extractAt? file content = some (extract file content) := by
  have hslice := slice?_append [] (blankComments content.toList) []
  rw [byteLength_nil, Nat.zero_add, List.append_nil, List.nil_append] at hslice
  have hreads : ReadsOn (opening definitionConstructor) := opening_readsOn (by decide)
  have hspans : spansAt? (opening definitionConstructor) definitionClosing 0
      (blankComments content.toList) 0 = some ((definitionSpans content).map Span.offsets) :=
    spansAt?_append hreads definitionClosing_closesAtBracket (fun _ _ ↦ rfl) 0 []
      (blankComments content.toList)
  have hfound : ((definitionSpans content).map Span.offsets).mapM
      (definitionAt? file content.toList (blankComments content.toList)) =
        some ((definitionSpans content).map
          (extractSpan (Source.excerptAt file content.toList))) :=
    mapM_offsets fun span hspan ↦ definitionAt?_eq hspan
  rw [extractAt?]
  simp only [Option.bind_eq_bind, blankBytes?_eq, hslice, Option.bind_some, hspans, hfound]
  rfl

end Extraction

/-! ### Records -/

/-- The definition of a span, or the record that it was dropped. -/
def definitionOfSpan (place : Nat → Excerpt) : Span → Except Dropped Definition
  | .unterminated offset => .error ⟨.definition, place offset, .unterminated⟩
  | .closed offset innerOffset inner following =>
    (readDefinition place offset innerOffset inner following).2.mapError fun reason ↦
      ⟨.definition, place offset, reason⟩

/-- The place that a definition or a record carries. -/
def recordLocation : Except Dropped Definition → Location
  | .ok definition => definition.location
  | .error dropped => dropped.excerpt.location

/-- A place is that of a call of a constructor at the given offset. -/
structure IsOpenerLocation (constructor : List Char) (file content : String) (offset : Nat)
    (location : Location) : Prop where
  opensAt : OpensAt constructor content offset
  isLocationAt : Source.IsLocationAt file content.toList offset location

theorem location_of_readDefinition {place : Nat → Excerpt} {offset innerOffset : Nat}
    {inner following : List Char} {definition : Definition}
    (h : (readDefinition place offset innerOffset inner following).2 = .ok definition) :
    definition.location = (place offset).location := by
  unfold readDefinition at h
  simp only at h
  split at h
  · cases h
  · cases h
  · cases h
    rfl

/-- A span yields one definition or one record that a definition was dropped. -/
theorem extractSpan_eq_definitionOfSpan (place : Nat → Excerpt) (span : Span) :
    (extractSpan place span).definitions = successes [definitionOfSpan place span] ∧
      (extractSpan place span).dropped.filter (·.kind = .definition) =
        failures [definitionOfSpan place span] := by
  cases span with
  | unterminated offset => exact ⟨rfl, rfl⟩
  | closed offset innerOffset inner following =>
    have hfields : (readDefinition place offset innerOffset inner following).1.filter
        (·.kind = .definition) = [] := by
      refine List.filter_eq_nil_iff.mpr fun dropped hdropped ↦ ?_
      simp [kind_of_mem_dropped_readDefinition hdropped]
    rw [extractSpan, definitionOfSpan]
    cases hread : readDefinition place offset innerOffset inner following with
    | mk dropped result =>
      rw [hread] at hfields
      cases result with
      | ok definition => exact ⟨rfl, hfields⟩
      | error reason =>
        refine ⟨rfl, ?_⟩
        rw [List.filter_append, hfields]
        rfl

theorem recordLocation_definitionOfSpan (place : Nat → Excerpt) (span : Span) :
    recordLocation (definitionOfSpan place span) = (place span.offset).location := by
  cases span with
  | unterminated offset => rfl
  | closed offset innerOffset inner following =>
    rw [definitionOfSpan]
    cases hread : (readDefinition place offset innerOffset inner following).2 with
    | ok definition => exact location_of_readDefinition hread
    | error reason => rfl

/-- A definition that was dropped carries the place at which its span opens. -/
theorem excerpt_of_definitionOfSpan {place : Nat → Excerpt} {span : Span} {dropped : Dropped}
    (h : definitionOfSpan place span = .error dropped) : dropped.excerpt = place span.offset := by
  cases span with
  | unterminated offset =>
    cases h
    rfl
  | closed offset innerOffset inner following =>
    rw [definitionOfSpan] at h
    cases hread : (readDefinition place offset innerOffset inner following).2 with
    | ok definition =>
      rw [hread] at h
      cases h
    | error reason =>
      rw [hread] at h
      cases h
      rfl

/-- A dropped field carries the place at which its span opens. -/
theorem excerpt_of_fieldOfSpan {place : Nat → Excerpt} {span : Span} {dropped : Dropped}
    (h : fieldOfSpan place span = .error dropped) : dropped.excerpt = place span.offset := by
  cases span with
  | unterminated offset =>
    cases h
    rfl
  | closed offset innerOffset inner following =>
    rw [fieldOfSpan] at h
    cases hread : readField inner with
    | ok field =>
      rw [hread] at h
      cases h
    | error reason =>
      rw [hread] at h
      cases h
      rfl

section Records

variable {α ε : Type}

theorem successes_append (first second : List (Except ε α)) :
    successes (first ++ second) = successes first ++ successes second :=
  List.filterMap_append

theorem failures_append (first second : List (Except ε α)) :
    failures (first ++ second) = failures first ++ failures second :=
  List.filterMap_append

end Records

/-- The definitions and the dropped definitions of spans are what is read from each of them. -/
theorem flatMap_extractSpan_eq (place : Nat → Excerpt) (found : List Span) :
    (found.map (extractSpan place)).flatMap (·.definitions) =
        successes (found.map (definitionOfSpan place)) ∧
      ((found.map (extractSpan place)).flatMap (·.dropped)).filter (·.kind = .definition) =
        failures (found.map (definitionOfSpan place)) ∧
      ((found.map (extractSpan place)).flatMap (·.dropped)).filter (·.kind = .field) =
        failures ((found.flatMap Span.fieldSpans).map (fieldOfSpan place)) := by
  induction found with
  | nil => exact ⟨rfl, rfl, rfl⟩
  | cons span found ih =>
    obtain ⟨hdefinitions, hdropped, hfields⟩ := ih
    obtain ⟨hdefinition, hdrop⟩ := extractSpan_eq_definitionOfSpan place span
    obtain ⟨-, hfield, -⟩ := extractSpan_eq place span
    simp only [List.map_cons, List.flatMap_cons, List.filter_append, List.map_append]
    refine ⟨?_, ?_, ?_⟩
    · rw [hdefinition, hdefinitions]
      exact (successes_append _ _).symm
    · rw [hdrop, hdropped]
      exact (failures_append _ _).symm
    · rw [hfield, hfields, failures_append]

theorem isOpenerLocation_of_opensAt {constructor : List Char} {content : String} {offset : Nat}
    (h : OpensAt constructor content offset) (hname : IsNamed constructor) (file : String) :
    IsOpenerLocation constructor file content offset
      (Source.excerptAt file content.toList offset).location := by
  refine ⟨h, ?_⟩
  obtain ⟨before, after, hcontent, rfl⟩ := h.isPlace hname
  rw [hcontent, Source.excerptAt, takeBytes_byteLength_append, dropBytes_byteLength_append]
  exact Source.isLocationAt_excerptBetween file before after

/-- The extraction never goes wrong. With every offset checked it gives what it gives without: each
cut, index and difference is in range of the text to which it is applied and falls between two
characters, the views that hide comments and nested text byte by byte are texts, and the cursor of
either search for spans moves forward with each span. There is one
result for each span of a definition, in the order of their openers; a definition and the record of
one that was dropped carry the place of their opener in the source, and so does the record of a
field that was dropped. -/
theorem extract_in_range (file content : String) :
    extractAt? file content = some (extract file content) ∧
    ((definitionSpans content).map Span.offset).Pairwise (· < ·) ∧
    (∃ results : List (Except Dropped Definition),
      successes results = (extract file content).definitions ∧
      failures results = (extract file content).dropped.filter (·.kind = .definition) ∧
      List.Forall₂ (fun span result ↦ IsOpenerLocation definitionConstructor file content
        span.offset (recordLocation result)) (definitionSpans content) results) ∧
    ∃ results : List (Except Dropped Field),
      failures results = (extract file content).dropped.filter (·.kind = .field) ∧
      List.Forall₂ (fun span result ↦ ∀ dropped, result = .error dropped →
        IsOpenerLocation fieldConstructor file content span.offset dropped.excerpt.location)
        ((definitionSpans content).flatMap Span.fieldSpans) results := by
  obtain ⟨hdefinitions, hdropped, hfields⟩ :=
    flatMap_extractSpan_eq (Source.excerptAt file content.toList) (definitionSpans content)
  refine ⟨extractAt?_eq file content, ?_, ⟨_, hdefinitions.symm, hdropped.symm, ?_⟩,
    ⟨_, hfields.symm, ?_⟩⟩
  · refine List.pairwise_map.mpr ?_
    refine (cuts_definitionSpans content).pairwise.imp_of_mem fun hspan _ hstop ↦ ?_
    exact Nat.lt_of_lt_of_le ((cuts_definitionSpans content).bounds _ hspan).2.1 hstop
  · rw [List.forall₂_map_right_iff, List.forall₂_same]
    intro span hspan
    rw [recordLocation_definitionOfSpan]
    exact isOpenerLocation_of_opensAt (opensAt_of_mem_definitionSpans hspan)
      isNamed_definitionConstructor file
  · rw [List.forall₂_map_right_iff, List.forall₂_same]
    intro field hfield dropped hdrop
    obtain ⟨span, hspan, hfield⟩ := List.mem_flatMap.mp hfield
    rw [excerpt_of_fieldOfSpan hdrop]
    exact isOpenerLocation_of_opensAt (opensAt_of_mem_fieldSpans hspan hfield)
      isNamed_fieldConstructor file

end CalculatorCatalog.Definition
