import CalculatorCatalog.Dictionary.Basic
import CalculatorCatalog.Proofs.Json.Members
import CalculatorCatalog.Proofs.Text.Layout
import Mathlib.Data.List.TakeWhile

/-!
# Entries of a dictionary

A label key is the dotted form of two parts that are not empty and have no dot
(`LabelKey.parse?_eq_some_iff`). A section can be absent, a mapping, or blocked by a value that is
no mapping (`Dictionary.IsBlocked`); an entry can be made in the first two (`section?_eq_none_iff`).
Making one changes what its own key stands for and nothing else (`entry?_setSection`).
-/

set_option autoImplicit false
set_option relaxedAutoImplicit false

namespace CalculatorCatalog

open CalculatorCatalog.Text

/-! ### Label keys -/

namespace LabelKey

/-- The two parts of a key that can be written with a dot between them and read back. -/
structure IsWellFormed (key : LabelKey) : Prop where
  section_ne : key.sectionName ≠ ""
  short_ne : key.short ≠ ""
  dot_notMem_section : '.' ∉ key.sectionName.toList
  dot_notMem_short : '.' ∉ key.short.toList

theorem toList_dotted (key : LabelKey) :
    key.dotted.toList = key.sectionName.toList ++ '.' :: key.short.toList := by
  simp [dotted]

theorem toList_ne_nil {text : String} (h : text ≠ "") : text.toList ≠ [] :=
  fun hnil ↦ h (String.toList_eq_nil_iff.mp hnil)

/-- A text reads as a key exactly if it is the dotted form of a key with proper parts. -/
theorem parse?_eq_some_iff {text : String} {key : LabelKey} :
    parse? text = some key ↔ key.IsWellFormed ∧ key.dotted = text := by
  constructor
  · intro h
    unfold parse? at h
    split at h
    · rename_i c sectionName dot d short htake hdrop
      split_ifs at h with hdots
      obtain rfl := Option.some.inj h
      have hsplit := List.takeWhile_append_dropWhile (p := (· != '.')) (l := text.toList)
      have hsection : '.' ∉ c :: sectionName := by
        rw [← htake]
        intro hmem
        simpa using List.mem_takeWhile_imp hmem
      have hdot : dot = '.' := by
        have hhead := List.head?_dropWhile_not (· != '.') text.toList
        rw [hdrop] at hhead
        simpa using hhead
      rw [htake, hdrop, hdot] at hsplit
      refine ⟨⟨?_, ?_, ?_, ?_⟩, ?_⟩
      · simp [← String.toList_inj]
      · simp [← String.toList_inj]
      · rwa [String.toList_ofList]
      · rw [String.toList_ofList]
        simpa using hdots
      · rw [← String.toList_inj, toList_dotted, String.toList_ofList, String.toList_ofList]
        exact hsplit
    · cases h
  · rintro ⟨hkey, rfl⟩
    have hall : key.sectionName.toList.all (· != '.') = true := by
      rw [List.all_eq_true]
      intro c hc
      simpa using fun h : c = '.' ↦ hkey.dot_notMem_section (h ▸ hc)
    have hstop : ∀ c, ('.' :: key.short.toList).head? = some c → (c != '.') = false := by
      intro c hc
      obtain rfl := Option.some.inj hc
      rfl
    obtain ⟨c, sectionName, hsection⟩ := List.exists_cons_of_ne_nil (toList_ne_nil hkey.section_ne)
    obtain ⟨d, short, hshort⟩ := List.exists_cons_of_ne_nil (toList_ne_nil hkey.short_ne)
    have hdots : (d :: short).contains '.' = false := by
      rw [← hshort]
      simpa using hkey.dot_notMem_short
    unfold parse?
    rw [toList_dotted, takeWhile_append_of_stop hall hstop, dropWhile_append_of_stop hall hstop,
      hsection, hshort]
    simp only [hdots, Bool.false_eq_true, if_false]
    rw [← hsection, ← hshort, String.ofList_toList, String.ofList_toList]

theorem parse?_dotted {key : LabelKey} (h : key.IsWellFormed) : parse? key.dotted = some key :=
  parse?_eq_some_iff.mpr ⟨h, rfl⟩

/-- Proper keys are told apart by their dotted forms. -/
theorem dotted_inj {key key' : LabelKey} (h : key.IsWellFormed) (h' : key'.IsWellFormed)
    (hdotted : key.dotted = key'.dotted) : key = key' := by
  have hparse := parse?_dotted h
  rw [hdotted, parse?_dotted h'] at hparse
  exact (Option.some.inj hparse).symm

end LabelKey

/-! ### Sections -/

namespace Dictionary

/-- A section that holds something other than a mapping. -/
def IsBlocked (dictionary : Dictionary) (name : String) : Prop :=
  ∃ value, Json.member? name dictionary.sections = some value ∧ ∀ members, value ≠ .object members

theorem section?_eq_none_iff {dictionary : Dictionary} {name : String} :
    dictionary.section? name = none ↔ dictionary.IsBlocked name := by
  unfold section? IsBlocked
  cases hvalue : Json.member? name dictionary.sections with
  | none => simp
  | some value => cases value <;> simp

/-- An entry is looked up in its section. -/
theorem entry?_eq_bind (dictionary : Dictionary) (key : LabelKey) :
    dictionary.entry? key =
      (dictionary.section? key.sectionName).bind (Json.member? key.short) := by
  unfold entry? section?
  cases hvalue : Json.member? key.sectionName dictionary.sections with
  | none => rfl
  | some value => cases value <;> rfl

/-- There is no entry in a section that is blocked. -/
theorem IsBlocked.entry?_eq_none {dictionary : Dictionary} {key : LabelKey}
    (h : dictionary.IsBlocked key.sectionName) : dictionary.entry? key = none := by
  rw [entry?_eq_bind, section?_eq_none_iff.mpr h, Option.bind_none]

theorem contains_eq_false_iff {dictionary : Dictionary} {key : LabelKey} :
    dictionary.contains key = false ↔ dictionary.entry? key = none := by
  rw [contains, ← Bool.not_eq_true, Option.isSome_iff_ne_none, not_not]

theorem section?_setSection (dictionary : Dictionary) (name other : String)
    (entries : List (String × Json)) :
    (dictionary.setSection name entries).section? other =
      if other = name then some entries else dictionary.section? other := by
  unfold section? setSection
  rw [Json.member?_insert]
  split_ifs <;> rfl

/-- An entry that is new in its section changes what its own key stands for and nothing else. -/
theorem entry?_setSection {dictionary : Dictionary} {key : LabelKey}
    {entries : List (String × Json)} (hsection : dictionary.section? key.sectionName = some entries)
    (value : Json) (other : LabelKey) :
    entry? (dictionary.setSection key.sectionName (Json.insert key.short value entries)) other =
      if other = key then some value else dictionary.entry? other := by
  obtain ⟨name, short⟩ := key
  obtain ⟨name', short'⟩ := other
  rw [entry?_eq_bind, entry?_eq_bind, section?_setSection]
  by_cases hname : name' = name
  · subst hname
    rw [if_pos rfl, hsection, Option.bind_some, Option.bind_some, Json.member?_insert]
    simp only [LabelKey.mk.injEq, true_and]
  · rw [if_neg hname]
    simp [hname]

/-- Entries given to a section that is not blocked leave every section as blocked as it was. -/
theorem isBlocked_setSection {dictionary : Dictionary} {name : String}
    (hsection : ¬dictionary.IsBlocked name) (entries : List (String × Json)) (other : String) :
    (dictionary.setSection name entries).IsBlocked other ↔ dictionary.IsBlocked other := by
  rw [← section?_eq_none_iff, ← section?_eq_none_iff, section?_setSection]
  split_ifs with hother
  · subst hother
    rw [section?_eq_none_iff]
    simp [hsection]
  · rfl

end Dictionary

end CalculatorCatalog
