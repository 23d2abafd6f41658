import CalculatorCatalog.Definition.Extraction
import CalculatorCatalog.Proofs.Files.Addresses
import CalculatorCatalog.Proofs.Number.Nearest
import CalculatorCatalog.Proofs.Text.Search

/-!
# The numbers of a field

Every number that a definition declares has been rounded from a decimal of the source, or is the
default (`isRounded_of_mem_extract`). So it is a number of the 64-bit binary format or an infinity.
-/

set_option autoImplicit false
set_option relaxedAutoImplicit false

namespace CalculatorCatalog

open CalculatorCatalog.Number CalculatorCatalog.Text

/-- The numbers that a field declares. -/
def Field.numbers (field : Field) : List Binary64 :=
  field.defaultValue :: (field.minValue.toList ++ field.maxValue.toList)

namespace Definition

/-- The numbers that the fields of the definition declare. -/
def numbers (definition : Definition) : List Binary64 :=
  definition.fields.flatMap Field.numbers

theorem isRounded_of_readNumber? {text rest : List Char} {number : Binary64}
    (h : readNumber? text = some (number, rest)) : number.IsRounded := by
  obtain ⟨_, -, hnumber⟩ := Option.bind_eq_some_iff.mp h
  cases hnumber
  exact Binary64.isRounded_ofDecimal _ _ _

theorem isRounded_of_firstValue? {name : String} {masked : List Char} {number : Binary64}
    (h : firstValue? (numberAttribute name) masked = some number) : number.IsRounded := by
  obtain ⟨found, hfound, rfl⟩ := Option.map_eq_some_iff.mp h
  obtain ⟨_, -, -, hread⟩ := exists_of_first?_eq_some hfound
  obtain ⟨_, -, hnumber⟩ := Option.bind_eq_some_iff.mp hread
  exact isRounded_of_readNumber? hnumber

theorem isRounded_of_readField {inner : List Char} {field : Field}
    (h : readField inner = .ok field) : ∀ number ∈ field.numbers, number.IsRounded := by
  have hbound : ∀ name, ∀ number ∈ (firstValue? (numberAttribute name) (maskNested inner)).toList,
      number.IsRounded :=
    fun name number hnumber ↦ isRounded_of_firstValue? (Option.mem_toList.mp hnumber)
  have hdefault : ((firstValue? (numberAttribute "defaultValue") (maskNested inner)).getD
      Field.standardDefault).IsRounded := by
    cases hfound : firstValue? (numberAttribute "defaultValue") (maskNested inner) with
    | none => exact Binary64.isRounded_zero false
    | some number => exact isRounded_of_firstValue? hfound
  obtain ⟨key, -, h⟩ := Files.bind_eq_ok_iff.mp h
  obtain ⟨labelKey, -, h⟩ := Files.bind_eq_ok_iff.mp h
  cases h
  simp only [Field.numbers, List.forall_mem_cons, List.forall_mem_append]
  exact ⟨hdefault, hbound "minValue", hbound "maxValue"⟩

theorem isRounded_of_mem_readFields {place : Nat → Excerpt} {innerOffset : Nat}
    {masked text : List Char} {field : Field}
    (h : field ∈ successes (readFields place innerOffset masked text)) :
    ∀ number ∈ field.numbers, number.IsRounded := by
  obtain ⟨result, hresult, hfield⟩ := List.mem_filterMap.mp h
  unfold readFields at hresult
  cases hregion : nestedRegion? "fields" '[' innerOffset masked text with
  | none => simp [hregion] at hresult
  | some region =>
    simp only [hregion] at hresult
    obtain ⟨span, -, rfl⟩ := List.mem_map.mp hresult
    cases span with
    | unterminated offset => cases hfield
    | closed offset innerOffset inner following =>
      unfold fieldOfSpan at hfield
      cases hread : readField inner with
      | error reason => simp [hread, Except.mapError, Except.toOption] at hfield
      | ok read =>
        simp only [hread, Except.mapError, Except.toOption, Option.some.injEq] at hfield
        exact isRounded_of_readField (hfield ▸ hread)

theorem isRounded_of_readDefinition {place : Nat → Excerpt} {offset innerOffset : Nat}
    {inner following : List Char} {definition : Definition}
    (h : (readDefinition place offset innerOffset inner following).2 = .ok definition) :
    ∀ number ∈ definition.numbers, number.IsRounded := by
  unfold readDefinition at h
  simp only at h
  split at h
  · cases h
  · cases h
  · cases h
    intro number hnumber
    obtain ⟨field, hfield, hnumber⟩ := List.mem_flatMap.mp hnumber
    exact isRounded_of_mem_readFields hfield number hnumber

/-- Every number of a definition that has been extracted is the result of rounding. -/
theorem isRounded_of_mem_extract {file content : String} {definition : Definition}
    (h : definition ∈ (extract file content).definitions) :
    ∀ number ∈ definition.numbers, number.IsRounded := by
  obtain ⟨extraction, hextraction, hmem⟩ := List.mem_flatMap.mp h
  obtain ⟨span, -, rfl⟩ := List.mem_map.mp hextraction
  cases span with
  | unterminated offset => cases hmem
  | closed offset innerOffset inner following =>
    unfold extractSpan at hmem
    simp only at hmem
    split at hmem
    · next dropped read hread =>
      obtain rfl := List.mem_singleton.mp hmem
      exact isRounded_of_readDefinition (congrArg Prod.snd hread)
    · cases hmem

end Definition

end CalculatorCatalog
