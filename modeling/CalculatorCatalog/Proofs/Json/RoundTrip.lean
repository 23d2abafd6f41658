import CalculatorCatalog.Proofs.Json.Rereading
import CalculatorCatalog.Proofs.Json.Scaling

/-!
# Written values are read back

A value is read back as it was written, with its members in their order and its strings character by
character, if no object in it has two members of one name and each of its numbers is read back from
its own text (`reread_of_isKept`). Whole numbers that fit 64 bits are always read back, so that a
value without other numbers is, provided that it can be read at all (`read_pretty`).
-/

set_option autoImplicit false
set_option relaxedAutoImplicit false

namespace CalculatorCatalog.Json

open CalculatorCatalog.Number

/-- A value all of whose numbers are whole and kept exactly. -/
inductive IsExact : Json → Prop where
  | null : IsExact .null
  | bool (value : Bool) : IsExact (.bool value)
  | integer {value : Int} (hvalue : FitsInteger value) : IsExact (.integer value)
  | string (value : String) : IsExact (.string value)
  | array {items : List Json} (hitems : ∀ item ∈ items, IsExact item) : IsExact (.array items)
  | object {members : List (String × Json)} (hmembers : ∀ member ∈ members, IsExact member.2) :
      IsExact (.object members)

/-- A number that is read back from its own text. -/
def KeepsNumber (value : Binary64) : Prop :=
  read (String.ofList (floatText value)) = .ok (.float value)

/-- A number that is written with proper parts is read from its own text as they say. -/
theorem read_of_floatText {value : Binary64} {negative : Bool} {parts : NumberParts}
    (hparts : parts.IsProper) (htext : floatText value = signText negative ++ parts.text) :
    read (String.ofList (floatText value)) =
      (numeralOfParts negative parts).map Numeral.toJson := by
  have htokens := @tokens_signText negative parts hparts [] (by rintro c ⟨⟩)
  rw [List.append_nil, ← htext] at htokens
  rw [read_eq_readOn, String.toList_ofList, Reading.readOn_of_tokens htokens]
  cases numeralOfParts negative parts <;> rfl

/-- The number that is not whole. -/
def float? : Json → Option Binary64
  | .float value => some value
  | _ => none

theorem keepsNumber_iff {value : Binary64} :
    KeepsNumber value ↔
      (read (String.ofList (floatText value))).toOption.bind float? = some value := by
  rw [KeepsNumber]
  cases read (String.ofList (floatText value)) with
  | error fault => simp [Except.toOption]
  | ok other => cases other <;> simp [Except.toOption, float?]

instance : DecidablePred KeepsNumber :=
  fun _ ↦ decidable_of_iff' _ keepsNumber_iff

/-- A finite number is read back if its shortest decimal is short. -/
theorem keepsNumber_of_isShort {number : Binary64} (hrounded : number.IsRounded)
    (hshort : number.IsShort) : KeepsNumber number := by
  cases hrounded with
  | infinite negative => exact hshort.elim
  | @finite negative units hunits =>
    obtain rfl | hne := Decidable.eq_or_ne units 0
    · rw [KeepsNumber, read_of_floatText isProper_zeroParts (floatText_zero negative),
        numeralOfParts_zeroParts]
      rfl
    · obtain ⟨parts, hparts, htext⟩ := exists_denotes_shortest hne
      rw [KeepsNumber, read_of_floatText hparts.proper (htext negative),
        numeralOfParts_of_isShort hunits hne (hshort hne) hparts]
      rfl

/-- One more place behind the point is too many: 10²³ is not a number of the format. -/
example : ¬KeepsNumber (.ofDecimal false 1 (-23)) := by decide +kernel

theorem not_keepsNumber_infinite : ∀ negative, ¬KeepsNumber (.infinite negative) := by
  decide +kernel

/-- An infinite number is written as null and lost. Every other number is the nearest to what is
written for it, and is read back if its decimal is short. -/
theorem text_of_isRounded {number : Binary64} (h : number.IsRounded) :
    (∃ negative, number = .infinite negative) ∧ ¬KeepsNumber number ∨
      WritesNearest number ∧ (number.IsShort → KeepsNumber number) := by
  have hshort := keepsNumber_of_isShort h
  cases h with
  | infinite negative => exact .inl ⟨⟨negative, rfl⟩, not_keepsNumber_infinite negative⟩
  | finite negative hunits => exact .inr ⟨writesNearest_of_finite negative hunits, hshort⟩

/-- A value all of whose numbers that are not whole are read back. -/
inductive IsKept : Json → Prop where
  | null : IsKept .null
  | bool (value : Bool) : IsKept (.bool value)
  | integer (value : Int) : IsKept (.integer value)
  | float {value : Binary64} (hvalue : KeepsNumber value) : IsKept (.float value)
  | string (value : String) : IsKept (.string value)
  | array {items : List Json} (hitems : ∀ item ∈ items, IsKept item) : IsKept (.array items)
  | object {members : List (String × Json)} (hmembers : ∀ member ∈ members, IsKept member.2) :
      IsKept (.object members)

theorem IsExact.isKept {value : Json} (h : IsExact value) : IsKept value := by
  induction h with
  | null => exact .null
  | bool value => exact .bool value
  | integer hvalue => exact .integer _
  | string value => exact .string value
  | array hitems ih => exact .array ih
  | object hmembers ih => exact .object ih

theorem IsExact.fitsAt {depth : Nat} {value : Json} (hexact : IsExact value)
    (hreadable : ReadableAt depth value) : FitsAt depth value := by
  induction hexact generalizing depth with
  | null => exact .null depth
  | bool value => exact .bool depth value
  | integer hvalue => exact .integer depth hvalue
  | string value => exact .string depth value
  | array hitems ih =>
    obtain ⟨hdepth, hreadable⟩ := ReadableAt.array_iff.mp hreadable
    exact .array hdepth fun item hitem ↦ ih item hitem (hreadable item hitem)
  | object hmembers ih =>
    obtain ⟨hdepth, -, hreadable⟩ := ReadableAt.object_iff.mp hreadable
    exact .object hdepth fun member hmember ↦ ih member hmember (hreadable member hmember)

theorem rereadItems_eq_self {items : List Json} (h : ∀ item ∈ items, reread item = .ok item) :
    rereadItems items = .ok items := by
  induction items with
  | nil => rfl
  | cons value items ih =>
    obtain ⟨hvalue, hitems⟩ := List.forall_mem_cons.mp h
    rw [rereadItems, hvalue, ih hitems]
    rfl

theorem notMem_before_of_nodup {name : String} {value : Json}
    {members before : List (String × Json)}
    (h : ((before ++ (name, value) :: members).map (·.1)).Nodup) : name ∉ before.map (·.1) := by
  rw [List.map_append, List.nodup_append] at h
  exact fun hold ↦ h.2.2 name hold name List.mem_cons_self rfl

/-- Members with distinct names stay one behind the other. -/
theorem rereadMembers_eq_append {before members : List (String × Json)}
    (hnames : ((before ++ members).map (·.1)).Nodup)
    (h : ∀ member ∈ members, reread member.2 = .ok member.2) :
    rereadMembers before members = .ok (before ++ members) := by
  induction members generalizing before with
  | nil => rw [rereadMembers, List.append_nil]
  | cons member members ih =>
    obtain ⟨name, value⟩ := member
    obtain ⟨hvalue, hmembers⟩ := List.forall_mem_cons.mp h
    have hname := member?_eq_none_iff.mpr (notMem_before_of_nodup hnames)
    rw [List.append_cons] at hnames ⊢
    rw [rereadMembers, hvalue, ← ih hnames hmembers, ← insert_of_member?_eq_none hname]
    rfl

/-- A value with distinct names whose numbers are kept is read back as it is. -/
theorem reread_of_isKept {value : Json} (hkept : IsKept value) (hdistinct : value.Distinct) :
    reread value = .ok value := by
  induction hkept with
  | null => rfl
  | bool value => rfl
  | integer value => rfl
  | float hvalue => exact hvalue
  | string value => rfl
  | array hitems ih =>
    have hdistinct := distinctItems_iff.mp hdistinct
    rw [reread, rereadItems_eq_self fun item hitem ↦ ih item hitem (hdistinct item hitem)]
    rfl
  | @object members hmembers ih =>
    obtain ⟨hnames, hdistinct⟩ := distinct_object_iff.mp hdistinct
    have hread : rereadMembers [] members = .ok members :=
      rereadMembers_eq_append hnames fun member hmember ↦
        ih member hmember (hdistinct member hmember)
    rw [reread, hread]
    rfl

/-- A value that can be read and whose numbers are exact is read back from the text that is written
for it. -/
theorem read_pretty {value : Json} (hreadable : ReadableAt 0 value) (hexact : IsExact value) :
    read (value.pretty ++ "\n") = .ok value := by
  rw [read_pretty_eq_reread (hexact.fitsAt hreadable),
    reread_of_isKept hexact.isKept hreadable.distinct]

end CalculatorCatalog.Json
