import CalculatorCatalog.Proofs.Definition.Extents
import CalculatorCatalog.Proofs.Text.Offset

/-!
# The places from which a definition is read

A definition is read from a span of its source, but the list of its fields and the map of its result
labels are delimited by brackets, and the bracket that closes them is searched for up to the end of
the source. `Span.fieldSpans` and `Span.placedLabels` are the places from which its fields and its
result labels are read, and `extractSpan_eq` says that there are no others. These places lie between
the brackets (`exists_of_region?`), one behind the other.
-/

set_option autoImplicit false
set_option relaxedAutoImplicit false

namespace CalculatorCatalog.Definition

open CalculatorCatalog.Text

/-! ### The places from which a definition is read -/

/-- Whether a definition can be read from the text between its brackets. -/
def declares (inner : List Char) : Bool :=
  let masked := maskNested inner
  (firstValue? (stringAttribute "id") masked).isSome &&
    (firstValue? (stringAttribute "titleKey") masked).isSome

/-- The text between the brackets of a nested attribute of a definition, with its offset. -/
def Span.region? (name : String) (bracket : Char) : Span → Option (Nat × List Char)
  | .unterminated _ => none
  | .closed _ innerOffset inner following =>
    if declares inner then
      nestedRegion? name bracket innerOffset (maskNested inner) (inner ++ following)
    else none

/-- The spans from which the fields of a definition are read, those of dropped fields included. -/
def Span.fieldSpans (span : Span) : List Span :=
  match span.region? "fields" '[' with
  | none => []
  | some (offset, region) => spans (opening fieldConstructor) fieldClosing offset region

/-- A value that was read from a text, with the offset right after what it was read from. -/
structure Placed (α : Type) where
  stop : Nat
  value : α

/-- The values of the found pieces of a text that begins at `offset`, with their places. -/
def placedFrom {α : Type} (offset : Nat) : List (Piece α) → List (Placed α)
  | [] => []
  | .plain c :: rest => placedFrom (offset + c.utf8Size) rest
  | .found matched value :: rest =>
    ⟨offset + byteLength matched, value⟩ :: placedFrom (offset + byteLength matched) rest

/-- The result labels of a definition with their places. -/
def Span.placedLabels (span : Span) : List (Placed (String × String)) :=
  match span.region? "resultLabels" '\x7b' with
  | none => []
  | some (offset, region) => placedFrom offset (pieces resultLabelPair region)

theorem map_value_placedFrom {α : Type} (offset : Nat) (found : List (Piece α)) :
    (placedFrom offset found).map (·.value) = found.filterMap fun
      | .plain _ => none
      | .found _ value => some value := by
  induction found generalizing offset with
  | nil => rfl
  | cons piece found ih =>
    cases piece with
    | plain c => rw [placedFrom, ih, List.filterMap_cons]
    | found matched value => rw [placedFrom, List.map_cons, ih, List.filterMap_cons]

section Closed

variable {start innerOffset : Nat} {inner following : List Char}

theorem Span.region?_of_not_declares (h : declares inner = false) (name : String) (bracket : Char) :
    (Span.closed start innerOffset inner following).region? name bracket = none := by
  rw [Span.region?, h]
  rfl

theorem readFields_eq (place : Nat → Excerpt) (h : declares inner = true) :
    readFields place innerOffset (maskNested inner) (inner ++ following) =
      (Span.closed start innerOffset inner following).fieldSpans.map (fieldOfSpan place) := by
  rw [readFields, Span.fieldSpans, Span.region?, if_pos h]
  cases nestedRegion? "fields" '[' innerOffset (maskNested inner) (inner ++ following) <;> rfl

theorem readResultLabels_eq (h : declares inner = true) :
    readResultLabels innerOffset (maskNested inner) (inner ++ following) =
      (Span.closed start innerOffset inner following).placedLabels.map fun label ↦
        ⟨label.value.1, label.value.2⟩ := by
  rw [readResultLabels, Span.placedLabels, Span.region?, if_pos h]
  cases nestedRegion? "resultLabels" '\x7b' innerOffset (maskNested inner) (inner ++ following) with
  | none => rfl
  | some found =>
    have hvalues := map_value_placedFrom found.1 (pieces resultLabelPair found.2)
    have hfound : values resultLabelPair found.2 =
        (placedFrom found.1 (pieces resultLabelPair found.2)).map (·.value) := hvalues.symm
    simp only [hfound, List.map_map]
    rfl

end Closed

theorem filter_field_failures_readFields (place : Nat → Excerpt) (innerOffset : Nat)
    (masked text : List Char) :
    (failures (readFields place innerOffset masked text)).filter (·.kind = .field) =
      failures (readFields place innerOffset masked text) := by
  refine List.filter_eq_self.mpr fun dropped hdropped ↦ ?_
  rw [decide_eq_true_eq]
  exact kind_of_mem_failures_readFields hdropped

/-- The fields and the result labels that are extracted from a span, and the fields that are dropped
there, are read from these places and from no others. -/
theorem extractSpan_eq (place : Nat → Excerpt) (span : Span) :
    (extractSpan place span).definitions.flatMap (·.fields) =
        successes (span.fieldSpans.map (fieldOfSpan place)) ∧
      (extractSpan place span).dropped.filter (·.kind = .field) =
        failures (span.fieldSpans.map (fieldOfSpan place)) ∧
      (extractSpan place span).definitions.flatMap (·.resultLabels) =
        span.placedLabels.map fun label ↦ ⟨label.value.1, label.value.2⟩ := by
  cases span with
  | unterminated offset => exact ⟨rfl, rfl, rfl⟩
  | closed offset innerOffset inner following =>
    cases hdeclares : declares inner with
    | false =>
      have hfields : (Span.closed offset innerOffset inner following).fieldSpans = [] := by
        rw [Span.fieldSpans, Span.region?_of_not_declares hdeclares]
      have hlabels : (Span.closed offset innerOffset inner following).placedLabels = [] := by
        rw [Span.placedLabels, Span.region?_of_not_declares hdeclares]
      rw [hfields, hlabels, extractSpan, readDefinition]
      simp only [declares, Bool.and_eq_false_iff, Option.isSome_eq_false_iff,
        Option.isNone_iff_eq_none] at hdeclares
      -- Without an identifier or without a title the definition is dropped and nothing else.
      cases hid : firstValue? (stringAttribute "id") (maskNested inner) with
      | none => exact ⟨rfl, rfl, rfl⟩
      | some id =>
        have htitle := hdeclares.resolve_left (by rw [hid]; exact Option.some_ne_none id)
        rw [htitle]
        exact ⟨rfl, rfl, rfl⟩
    | true =>
      rw [← readFields_eq place hdeclares, ← readResultLabels_eq hdeclares, extractSpan,
        readDefinition]
      rw [declares, Bool.and_eq_true, Option.isSome_iff_exists,
        Option.isSome_iff_exists] at hdeclares
      obtain ⟨⟨id, hid⟩, titleKey, htitle⟩ := hdeclares
      simp only [hid, htitle, List.flatMap_cons, List.flatMap_nil, List.append_nil,
        filter_field_failures_readFields, and_self]

/-! ### The fields of a definition -/

theorem fieldClosing_closesAtBracket : ClosesAtBracket fieldClosing := by
  intro before text rest h
  rw [readsEnd_fieldClosing] at h
  obtain ⟨after, hseparator, -⟩ := Option.bind_eq_some_iff.mp h
  obtain ⟨gap, rfl, -⟩ := afterSeparator?_eq_some hseparator
  exact ⟨gap ++ after, rfl⟩

theorem cuts_fieldSpans {span : Span} {start : Nat} {region : List Char}
    (h : span.region? "fields" '[' = some (start, region)) :
    Cuts (opening fieldConstructor) fieldClosing none start region span.fieldSpans := by
  rw [Span.fieldSpans, h]
  exact cuts_spansFrom (opening_readsOn (by decide)) fieldClosing_closesAtBracket none start region

theorem fieldSpans_eq_nil {span : Span} (h : span.region? "fields" '[' = none) :
    span.fieldSpans = [] := by
  rw [Span.fieldSpans, h]

theorem exists_region?_of_mem_fieldSpans {span field : Span} (h : field ∈ span.fieldSpans) :
    ∃ start region, span.region? "fields" '[' = some (start, region) := by
  cases hregion : span.region? "fields" '[' with
  | none =>
    rw [fieldSpans_eq_nil hregion] at h
    cases h
  | some found => exact ⟨found.1, found.2, rfl⟩

theorem offset_lt_stop_of_mem_fieldSpans {span field : Span} (h : field ∈ span.fieldSpans) :
    field.offset < field.stop := by
  obtain ⟨start, region, hregion⟩ := exists_region?_of_mem_fieldSpans h
  exact ((cuts_fieldSpans hregion).bounds field h).2.1

theorem pairwise_fieldSpans (span : Span) :
    span.fieldSpans.Pairwise fun field later ↦ field.stop ≤ later.offset := by
  cases hregion : span.region? "fields" '[' with
  | none =>
    rw [fieldSpans_eq_nil hregion]
    exact .nil
  | some found => exact (cuts_fieldSpans hregion).pairwise

theorem pairwise_stop_fieldSpans (span : Span) :
    span.fieldSpans.Pairwise fun field later ↦ field.stop ≤ later.stop := by
  refine (pairwise_fieldSpans span).imp_of_mem fun _ hlater hle ↦ ?_
  exact Nat.le_trans hle (Nat.le_of_lt (offset_lt_stop_of_mem_fieldSpans hlater))

/-! ### The result labels of a definition -/

theorem resultLabelPair_movesForward : MovesForward resultLabelPair := by
  intro before text value rest h
  obtain ⟨⟨name, afterName⟩, hname, h⟩ := Option.bind_eq_some_iff.mp h
  obtain ⟨afterColon, hcolon, h⟩ := Option.bind_eq_some_iff.mp h
  obtain ⟨⟨labelKey, afterKey⟩, hkey, heq⟩ := Option.bind_eq_some_iff.mp h
  obtain rfl : afterKey = rest := (Prod.mk.inj (Option.some.inj heq)).2
  obtain ⟨-, -, quote, quote', -, -, rfl⟩ := quotedValue?_eq_some_iff.mp hname
  obtain ⟨gap, -, rfl⟩ := (afterWord?_skipWhite_eq_some_iff (by decide)).mp hcolon
  obtain ⟨-, -, first, last, -, -, hsplit⟩ := quotedValue?_eq_some_iff.mp hkey
  have hafter : afterColon =
      afterColon.takeWhile isWhiteSpace ++ first :: (labelKey ++ last :: afterKey) := by
    rw [← hsplit, takeWhile_append_skipWhite]
  refine ⟨quote, name ++ quote' :: (gap ++ ':' ::
    (afterColon.takeWhile isWhiteSpace ++ first :: (labelKey ++ [last]))), ?_⟩
  have hjoin : name ++ quote' :: (gap ++ ':' ::
      (afterColon.takeWhile isWhiteSpace ++ first :: (labelKey ++ [last]))) ++ afterKey =
      name ++ quote' :: (gap ++ ':' ::
        (afterColon.takeWhile isWhiteSpace ++ first :: (labelKey ++ last :: afterKey))) := by
    simp
  rw [hjoin, ← hafter]

section Placed

variable {α : Type}

theorem bounds_of_mem_placedFrom {offset : Nat} {found : List (Piece α)} {label : Placed α}
    (h : label ∈ placedFrom offset found) :
    offset ≤ label.stop ∧ label.stop ≤ offset + byteLength (found.flatMap Piece.source) := by
  induction found generalizing offset with
  | nil => cases h
  | cons piece found ih =>
    rw [List.flatMap_cons, byteLength_append]
    cases piece with
    | plain c =>
      have hsource : byteLength (Piece.plain c : Piece α).source = c.utf8Size := rfl
      have hlater := ih h
      omega
    | found matched value =>
      have hsource : (Piece.found matched value).source = matched := rfl
      rw [hsource]
      rcases List.mem_cons.mp h with rfl | hmem
      · simp only
        omega
      · have hlater := ih hmem
        omega

theorem pairwise_placedFrom (offset : Nat) (found : List (Piece α)) :
    (placedFrom offset found).Pairwise fun label later ↦ label.stop ≤ later.stop := by
  induction found generalizing offset with
  | nil => exact .nil
  | cons piece found ih =>
    cases piece with
    | plain c => exact ih _
    | found matched value =>
      exact List.pairwise_cons.mpr ⟨fun later hlater ↦ (bounds_of_mem_placedFrom hlater).1, ih _⟩

end Placed

theorem pairwise_placedLabels (span : Span) :
    span.placedLabels.Pairwise fun label later ↦ label.stop ≤ later.stop := by
  rw [Span.placedLabels]
  split
  · exact .nil
  · exact pairwise_placedFrom _ _

theorem exists_region?_of_mem_placedLabels {span : Span} {label : Placed (String × String)}
    (h : label ∈ span.placedLabels) :
    ∃ start region, span.region? "resultLabels" '\x7b' = some (start, region) ∧
      label.stop ≤ start + byteLength region := by
  rw [Span.placedLabels] at h
  cases hregion : span.region? "resultLabels" '\x7b' with
  | none =>
    rw [hregion] at h
    cases h
  | some found =>
    obtain ⟨start, region⟩ := found
    rw [hregion] at h
    have hsource : (pieces resultLabelPair region).flatMap Piece.source = region :=
      flatMap_source_piecesFrom resultLabelPair_movesForward 0 none region
    have hstop := (bounds_of_mem_placedFrom h).2
    rw [hsource] at hstop
    exact ⟨start, region, rfl, hstop⟩

/-! ### Where these places lie -/

/-- A bracket attribute ends right behind its bracket. -/
theorem bracketAttribute_eq_some {name : String} {bracket : Char} {before : Option Char}
    {text rest : List Char} (hbracket : isWhiteSpace bracket = false)
    (h : bracketAttribute name bracket before text = some ((), rest)) :
    ∃ read, text = read ++ bracket :: rest := by
  obtain ⟨after, hname, h⟩ := Option.bind_eq_some_iff.mp h
  obtain ⟨-, gap, tail, -, rfl, rfl⟩ := afterAttributeName?_eq_some hname
  obtain ⟨rest', hrest, heq⟩ := Option.bind_eq_some_iff.mp h
  obtain rfl : rest' = rest := (Prod.mk.inj (Option.some.inj heq)).2
  have hread : ∃ read, skipWhite tail = read ++ bracket :: rest' := by
    rw [Option.orElse_eq_orElse, Option.orElse_eq_or, Option.or_eq_some_iff] at hrest
    rcases hrest with hconst | ⟨-, hplain⟩
    · obtain ⟨marked, hword, hopens⟩ := Option.bind_eq_some_iff.mp hconst
      obtain ⟨gap', -, rfl⟩ := (afterWord?_skipWhite_eq_some_iff hbracket).mp hopens
      exact ⟨constWord ++ gap', by rw [afterWord?_eq_some_iff.mp hword, List.append_assoc]⟩
    · have hplain : skipWhite tail = [bracket] ++ rest' := afterWord?_eq_some_iff.mp hplain
      exact ⟨[], hplain⟩
  obtain ⟨read, hread⟩ := hread
  have htail : tail = tail.takeWhile isWhiteSpace ++ (read ++ bracket :: rest') := by
    rw [← hread, takeWhile_append_skipWhite]
  refine ⟨name.toList ++ (gap ++ ':' :: (tail.takeWhile isWhiteSpace ++ read)), ?_⟩
  rw [List.append_assoc, List.append_assoc, List.cons_append, List.append_assoc, ← htail]

/-- The bracket of a nested attribute that is found in the masked inside of a declaration stands at
the same offset in the inside itself. -/
theorem exists_bracket_of_first? {name : String} {bracket : Char} {inner : List Char}
    {found : Occurrence Unit} (hbracket : isWhiteSpace bracket = false)
    (h : first? (bracketAttribute name bracket) none (maskNested inner) = some found) :
    ∃ earlier behind, inner = earlier ++ bracket :: behind ∧
      byteLength (maskNested inner) - byteLength found.rest = byteLength (earlier ++ [bracket]) := by
  obtain ⟨text, hmasked, hattribute⟩ := first?_eq_some h
  obtain ⟨read, rfl⟩ := bracketAttribute_eq_some hbracket hattribute
  have hspace : bracket ≠ ' ' := by
    rintro rfl
    cases hbracket
  rw [← List.append_assoc] at hmasked
  obtain ⟨earlier, behind, hinner, hlength⟩ := exists_eq_append_of_maskNested hspace hmasked
  refine ⟨earlier, behind, hinner, ?_⟩
  rw [hmasked]
  simp only [byteLength_append, byteLength_cons, byteLength_nil] at hlength ⊢
  omega

/-- A nested text is a part of the text in which its closing bracket is searched for. -/
theorem nestedRegion?_eq_some {name : String} {bracket : Char} {innerOffset start : Nat}
    {inner following region : List Char} (hbracket : isWhiteSpace bracket = false)
    (h : nestedRegion? name bracket innerOffset (maskNested inner) (inner ++ following) =
      some (start, region)) :
    ∃ earlier rest, inner ++ following = earlier ++ (region ++ rest) ∧
      start = innerOffset + byteLength earlier := by
  obtain ⟨found, hfound, h⟩ := Option.bind_eq_some_iff.mp h
  obtain ⟨⟨region', after⟩, henclosed, heq⟩ := Option.bind_eq_some_iff.mp h
  obtain ⟨rfl, rfl⟩ := Prod.mk.inj (Option.some.inj heq)
  obtain ⟨earlier, behind, hinner, hstart⟩ := exists_bracket_of_first? hbracket hfound
  have hsplit : inner ++ following = (earlier ++ [bracket]) ++ (behind ++ following) := by
    simp [hinner]
  rw [hstart, hsplit, dropBytes_byteLength_append] at henclosed
  obtain ⟨c, -, hbehind⟩ := enclosed?_eq_some henclosed
  refine ⟨earlier ++ [bracket], c :: after, ?_, by rw [hstart]⟩
  rw [hsplit, hbehind]

/-- A nested text is a part of the source, behind the opening of its definition. -/
theorem exists_of_region? {content : String} {span : Span} (hspan : span ∈ definitionSpans content)
    {name : String} {bracket : Char} {start : Nat} {region : List Char}
    (hbracket : isWhiteSpace bracket = false)
    (h : span.region? name bracket = some (start, region)) :
    ∃ earlier rest, blankComments content.toList = earlier ++ (region ++ rest) ∧
      start = byteLength earlier ∧ span.offset ≤ start := by
  cases span with
  | unterminated offset => cases h
  | closed offset innerOffset inner following =>
    rw [Span.region?] at h
    split_ifs at h
    obtain ⟨before, htext, rfl, hoffset⟩ := (cuts_definitionSpans content).exists_inner hspan
    obtain ⟨earlier, rest, hinner, rfl⟩ := nestedRegion?_eq_some hbracket h
    refine ⟨before ++ earlier, rest, ?_, ?_, Nat.le_add_right_of_le hoffset⟩
    · rw [htext, hinner, List.append_assoc]
    · rw [byteLength_append, Nat.zero_add]

end CalculatorCatalog.Definition
