import CalculatorCatalog.Proofs.Definition.Sources
import Mathlib.Data.List.Nodup
import Mathlib.Data.List.Pairwise

/-!
# Whether definitions borrow from each other

The brackets of a definition need not close before the next definition opens, so what belongs to a
later definition can be read for an earlier one as well. `KeepsApart` says that all fields and
result labels of a definition lie before the opening of every later one, so that no field is read
twice (`nodup_fieldOffsets`), and `keepsApart_iff` when that is so. A source in which it is not
needs nothing but a list that is not closed (`not_keepsApart_unclosedFieldList`).
-/

set_option autoImplicit false
set_option relaxedAutoImplicit false

namespace CalculatorCatalog.Definition

open CalculatorCatalog.Text

/-! ### Keeping apart -/

/-- The fields of a definition, the dropped ones included, and its result labels are read from what
lies before an offset. -/
structure Span.StaysBefore (span : Span) (limit : Nat) : Prop where
  fields : ∀ field ∈ span.fieldSpans, field.stop ≤ limit
  labels : ∀ label ∈ span.placedLabels, label.stop ≤ limit

instance (span : Span) (limit : Nat) : Decidable (span.StaysBefore limit) :=
  decidable_of_iff ((∀ field ∈ span.fieldSpans, field.stop ≤ limit) ∧
      ∀ label ∈ span.placedLabels, label.stop ≤ limit)
    ⟨fun h ↦ ⟨h.1, h.2⟩, fun h ↦ ⟨h.fields, h.labels⟩⟩

/-- Definitions do not borrow from each other: each is read from what lies before the openings of
all later ones. -/
def KeepsApart (content : String) : Prop :=
  (definitionSpans content).Pairwise fun span later ↦ span.StaysBefore later.offset

instance (content : String) : Decidable (KeepsApart content) :=
  inferInstanceAs (Decidable ((definitionSpans content).Pairwise _))

/-- The bracket that closes a nested attribute, if it is there, does not lie beyond an offset. -/
def Span.RegionEndsBy (span : Span) (name : String) (bracket : Char) (limit : Nat) : Prop :=
  ∀ start region, span.region? name bracket = some (start, region) →
    start + byteLength region ≤ limit

/-- The nested attributes of a definition close before an offset, or nothing is read from what lies
beyond it: there are no fields, or the last one is not closed and opens before the offset; and the
last result label ends before it. -/
structure Span.ClosesBefore (span : Span) (limit : Nat) : Prop where
  fields : span.RegionEndsBy "fields" '[' limit ∨ span.fieldSpans = [] ∨
    ∃ start, span.fieldSpans.getLast? = some (.unterminated start) ∧ start < limit
  labels : span.RegionEndsBy "resultLabels" '\x7b' limit ∨
    ∀ label ∈ span.placedLabels.getLast?, label.stop ≤ limit

/-! ### When definitions keep apart -/

section Source

variable {content : String} {span later : Span}

/-- A definition opens with a word. -/
theorem exists_word_of_mem_definitionSpans (hlater : later ∈ definitionSpans content) :
    ∃ earlier c rest, blankComments content.toList = earlier ++ c :: rest ∧
      later.offset = byteLength earlier ∧ isWordCharacter c = true := by
  obtain ⟨earlier, rest, htext, hoffset, before, result, hopens⟩ :=
    (cuts_definitionSpans content).exists_opening later hlater
  rw [Nat.zero_add] at hoffset
  have hword : isWordAt rest.head? = true := by
    by_contra hnot
    rw [opening_of_not_word isConstructor_definition before (Bool.eq_false_iff.mpr hnot)] at hopens
    cases hopens
  cases rest with
  | nil => cases hword
  | cons c rest => exact ⟨earlier, c, rest, htext, hoffset, hword⟩

/-- Where the last field of a definition has an end, no definition opens between that end and the
bracket that closes the list of fields. -/
theorem regionEndsBy_of_getLast?_fieldSpans (hspan : span ∈ definitionSpans content)
    (hlater : later ∈ definitionSpans content) {opens innerOffset : Nat}
    {inner following : List Char}
    (hlast : span.fieldSpans.getLast? = some (.closed opens innerOffset inner following))
    (hstop : innerOffset + byteLength inner + 1 ≤ later.offset) :
    span.RegionEndsBy "fields" '[' later.offset := by
  intro start region hregion
  by_contra hbeyond
  obtain ⟨fields, filler, rfl, hend, hfiller⟩ :=
    exists_filler_of_getLast? (cuts_fieldSpans hregion) hlast
  obtain ⟨earlier, rest, htext, rfl, -⟩ := exists_of_region? hspan (by decide) hregion
  obtain ⟨before, c, behind, htext', hoffset, hword⟩ := exists_word_of_mem_definitionSpans hlater
  have hplaces : (earlier ++ (fields ++ [')'])) ++ (filler ++ rest) = before ++ c :: behind := by
    rw [← htext', htext]
    simp
  have hbracket : (')').utf8Size = 1 := rfl
  simp only [byteLength_append, byteLength_cons, hbracket] at hbeyond
  obtain ⟨middle, rfl, hmiddle⟩ := exists_eq_append_of_byteLength_le hplaces (by
    simp only [byteLength_append, byteLength_cons, byteLength_nil, hbracket]
    omega)
  simp only [byteLength_append, byteLength_cons, byteLength_nil, hbracket] at hoffset
  obtain ⟨filler', rfl, hfiller'⟩ := exists_eq_append_of_byteLength_le hmiddle.symm (by omega)
  cases filler' with
  | nil =>
    rw [List.append_nil] at hbeyond
    omega
  | cons d filler' =>
    obtain ⟨rfl, -⟩ := List.cons.inj hfiller'
    have hfill : isFiller c = true := List.all_eq_true.mp hfiller c (by simp)
    rw [isWordCharacter_of_isFiller hfill] at hword
    cases hword

/-- A field opens behind the opening of its definition. -/
theorem offset_le_of_mem_fieldSpans (hspan : span ∈ definitionSpans content) {field : Span}
    (hfield : field ∈ span.fieldSpans) : span.offset ≤ field.offset := by
  obtain ⟨start, region, hregion⟩ := exists_region?_of_mem_fieldSpans hfield
  obtain ⟨earlier, rest, -, -, hstart⟩ := exists_of_region? hspan (by decide) hregion
  exact Nat.le_trans hstart ((cuts_fieldSpans hregion).bounds field hfield).1

/-- In a list in order nothing exceeds the last element. -/
theorem le_of_getLast? {α : Type} {found : List α} {item last : α} {stop : α → Nat}
    (h : found.Pairwise fun item later ↦ stop item ≤ stop later)
    (hlast : found.getLast? = some last) (hitem : item ∈ found) : stop item ≤ stop last := by
  have hrefl : Std.Refl fun item later ↦ stop item ≤ stop later := ⟨fun item ↦ Nat.le_refl _⟩
  rw [List.getLast?_eq_some_getLast (List.ne_nil_of_mem hitem)] at hlast
  obtain rfl := Option.some.inj hlast
  exact h.rel_getLast hitem

theorem staysBefore_iff_closesBefore (hspan : span ∈ definitionSpans content)
    (hlater : later ∈ definitionSpans content) :
    span.StaysBefore later.offset ↔ span.ClosesBefore later.offset := by
  constructor
  · rintro ⟨hfields, hlabels⟩
    refine ⟨?_, Or.inr fun label hlabel ↦ hlabels label (List.mem_of_mem_getLast? hlabel)⟩
    cases hlast : span.fieldSpans.getLast? with
    | none => exact Or.inr (Or.inl (List.getLast?_eq_none_iff.mp hlast))
    | some field =>
      have hstop := hfields field (List.mem_of_getLast? hlast)
      cases field with
      | unterminated start => exact Or.inr (Or.inr ⟨start, rfl, hstop⟩)
      | closed => exact Or.inl (regionEndsBy_of_getLast?_fieldSpans hspan hlater hlast hstop)
  · rintro ⟨hfields, hlabels⟩
    refine ⟨fun field hfield ↦ ?_, fun label hlabel ↦ ?_⟩
    · rcases hfields with hregion | hnone | ⟨start, hlast, hstart⟩
      · obtain ⟨start, region, hfound⟩ := exists_region?_of_mem_fieldSpans hfield
        have hstop := ((cuts_fieldSpans hfound).bounds field hfield).2.2
        exact Nat.le_trans hstop (hregion start region hfound)
      · rw [hnone] at hfield
        cases hfield
      · exact Nat.le_trans (le_of_getLast? (pairwise_stop_fieldSpans span) hlast hfield) hstart
    · rcases hlabels with hregion | hbefore
      · obtain ⟨start, region, hfound, hstop⟩ := exists_region?_of_mem_placedLabels hlabel
        exact Nat.le_trans hstop (hregion start region hfound)
      · cases hlast : span.placedLabels.getLast? with
        | none =>
          rw [List.getLast?_eq_none_iff.mp hlast] at hlabel
          cases hlabel
        | some last =>
          exact Nat.le_trans (le_of_getLast? (pairwise_placedLabels span) hlast hlabel)
            (hbefore last hlast)

/-- The offsets at which the fields of the definitions of a source open, the dropped ones included,
one definition after the other. -/
def fieldOffsets (content : String) : List Nat :=
  (definitionSpans content).flatMap fun span ↦ span.fieldSpans.map (·.offset)

/-- If definitions do not borrow from each other, no field is read for two of them. -/
theorem nodup_fieldOffsets (h : KeepsApart content) : (fieldOffsets content).Nodup := by
  refine List.nodup_flatMap.mpr ⟨fun span _ ↦ ?_, h.imp_of_mem ?_⟩
  · refine List.Pairwise.map _ (fun _ _ hlt ↦ Nat.ne_of_lt hlt) ?_
    refine (pairwise_fieldSpans span).imp_of_mem fun hfield _ hle ↦ ?_
    exact Nat.lt_of_lt_of_le (offset_lt_stop_of_mem_fieldSpans hfield) hle
  · intro span later _ hlater hstays
    refine List.disjoint_left.mpr fun offset hoffset hoffset' ↦ ?_
    obtain ⟨field, hfield, rfl⟩ := List.mem_map.mp hoffset
    obtain ⟨field', hfield', heq⟩ := List.mem_map.mp hoffset'
    have hbefore := hstays.fields field hfield
    have hopens := offset_lt_stop_of_mem_fieldSpans hfield
    have hafter := offset_le_of_mem_fieldSpans hlater hfield'
    omega

end Source

/-- Definitions do not borrow from each other, and so no field is read for two of them, exactly when
the list of fields and the map of result labels of each definition close before a later definition
opens, or nothing is read from beyond that opening. -/
theorem keepsApart_iff (content : String) :
    (KeepsApart content ↔
        (definitionSpans content).Pairwise fun span later ↦ span.ClosesBefore later.offset) ∧
      (KeepsApart content → (fieldOffsets content).Nodup) :=
  ⟨List.Pairwise.iff_of_mem staysBefore_iff_closesBefore, nodup_fieldOffsets⟩

/-- Two definitions, of which the first has a list of fields that is not closed. -/
def unclosedFieldList : String := "[CalculatorDefinition(id: 'a', titleKey: 't', fields: [f(),
CalculatorDefinition(id: 'b', titleKey: 't', fields: [
InputFieldDefinition(key: 'y', labelKey: 'l')])];"

/-- The list of fields of the first definition takes in the second one, whose field is read for
both. -/
theorem not_keepsApart_unclosedFieldList :
    ¬ KeepsApart unclosedFieldList ∧ ¬ (fieldOffsets unclosedFieldList).Nodup ∧
      (extract "m.dart" unclosedFieldList).definitions.map (fun definition ↦
        (definition.id, definition.fields.map (·.key))) = [("a", ["y"]), ("b", ["y"])] := by
  decide +kernel

end CalculatorCatalog.Definition
