import CalculatorCatalog.Proofs.Dictionary.Filling

/-!
# What is reported as missing

A text resolves in a dictionary if it is the dotted form of a proper key whose entry is a text that
is not empty (`Dictionary.Resolves`). `Dictionary.missing` reports the label keys of a definition
that do not resolve, each once, in the order of their first uses and with the role of the first use
(`mem_firstUses_iff_find?`, `pairwise_firstUses`).

`Dictionary.withoutEntry` takes one entry out of a dictionary, which changes what its own key stands
for and nothing else (`entry?_withoutEntry`). `missing_exact` puts this together: the report is
exact, and taking an entry out adds its own key to the report, if it is used and resolved before,
and changes nothing else.
-/

set_option autoImplicit false
set_option relaxedAutoImplicit false

namespace CalculatorCatalog

/-! ### Dotted forms -/

namespace LabelKey

/-- Only a proper key has the dotted form of a proper key. -/
theorem IsWellFormed.eq_of_dotted {key other : LabelKey} (h : key.IsWellFormed)
    (hdotted : other.dotted = key.dotted) : other = key := by
  obtain ⟨sectionName, short⟩ := other
  have htexts := congrArg String.toList hdotted
  rw [toList_dotted, toList_dotted, eq_comm,
    List.append_cons_inj_of_notMem h.dot_notMem_section h.dot_notMem_short] at htexts
  obtain ⟨hsection, -, hshort⟩ := htexts
  rw [LabelKey.mk.injEq]
  exact ⟨(String.toList_inj.mp hsection).symm, (String.toList_inj.mp hshort).symm⟩

end LabelKey

/-! ### First uses -/

namespace Dictionary

/-- The first uses of a list are the uses that come first under their key. -/
theorem mem_firstUses_iff_find? {seen : List String} {keys : List (LabelRole × String)}
    {use : LabelRole × String} :
    use ∈ firstUses seen keys ↔ use.2 ∉ seen ∧ keys.find? (·.2 = use.2) = some use := by
  induction keys generalizing seen with
  | nil => simp [firstUses]
  | cons first keys ih =>
    obtain ⟨role, key⟩ := first
    rw [firstUses, List.find?_cons]
    split_ifs with hseen
    · have hother : use.2 ∉ seen → key ≠ use.2 := by
        rintro huse rfl
        exact huse hseen
      rw [ih]
      refine and_congr_right fun huse ↦ ?_
      simp [hother huse]
    · rw [List.mem_cons, ih, List.mem_cons, not_or]
      by_cases hkey : key = use.2
      · rw [hkey] at hseen
        simp [hkey, hseen, eq_comm]
      · have huse : use ≠ (role, key) := by
          rintro rfl
          exact hkey rfl
        simp [hkey, huse, Ne.symm hkey]

/-- The first uses of a list stand in the order of the list. -/
theorem pairwise_firstUses (seen : List String) (keys : List (LabelRole × String)) :
    (firstUses seen keys).Pairwise fun first second ↦
      (keys.map (·.2)).idxOf first.2 < (keys.map (·.2)).idxOf second.2 := by
  induction keys generalizing seen with
  | nil => exact .nil
  | cons first keys ih =>
    obtain ⟨role, key⟩ := first
    -- Whatever is used under another key stands one place further than without the first use.
    have hlater : ∀ seen', key ∈ seen' → (firstUses seen' keys).Pairwise fun first second ↦
        (((role, key) :: keys).map (·.2)).idxOf first.2 <
          (((role, key) :: keys).map (·.2)).idxOf second.2 := by
      intro seen' hkey
      have hother : ∀ use ∈ firstUses seen' keys, key ≠ use.2 := by
        rintro use huse rfl
        exact (mem_firstUses_iff_find?.mp huse).1 hkey
      refine (ih seen').imp_of_mem fun {first second} hfirst hsecond hlt ↦ ?_
      rw [List.map_cons, List.idxOf_cons_ne _ (hother _ hfirst),
        List.idxOf_cons_ne _ (hother _ hsecond)]
      exact Nat.succ_lt_succ hlt
    rw [firstUses]
    split_ifs with hseen
    · exact hlater seen hseen
    · refine List.pairwise_cons.mpr ⟨fun use huse ↦ ?_, hlater _ List.mem_cons_self⟩
      have hother : key ≠ use.2 := by
        rintro rfl
        exact (mem_firstUses_iff_find?.mp huse).1 List.mem_cons_self
      rw [List.map_cons, List.idxOf_cons_self, List.idxOf_cons_ne _ hother]
      exact Nat.succ_pos _

/-! ### Keys that resolve -/

/-- A text that is the dotted form of a proper key with a text for an entry that is not empty. -/
def Resolves (dictionary : Dictionary) (text : String) : Prop :=
  ∃ key : LabelKey, key.IsWellFormed ∧ key.dotted = text ∧
    ∃ label, dictionary.entry? key = some (.string label) ∧ label ≠ ""

variable {dictionary : Dictionary} {key : LabelKey} {text : String}

theorem resolves_iff :
    dictionary.Resolves text ↔ ∃ label, dictionary.resolve text = .found label := by
  simp only [resolve_eq_found_iff]
  constructor
  · rintro ⟨key, hkey, hdotted, label, hlabel⟩
    exact ⟨label, key, hkey, hdotted, hlabel⟩
  · rintro ⟨label, key, hkey, hdotted, hlabel⟩
    exact ⟨key, hkey, hdotted, label, hlabel⟩

theorem isFound_resolve_iff :
    (dictionary.resolve text).isFound = true ↔ dictionary.Resolves text := by
  rw [resolves_iff]
  cases dictionary.resolve text <;> simp [Resolution.isFound]

instance (dictionary : Dictionary) (text : String) : Decidable (dictionary.Resolves text) :=
  decidable_of_iff _ isFound_resolve_iff

/-- A key resolves no longer when its entry holds an empty text. -/
example : Dictionary.Resolves ⟨[("yard", .object [("gate", .string "Gate")])]⟩ "yard.gate" ∧
    ¬Dictionary.Resolves ⟨[("yard", .object [("gate", .string "")])]⟩ "yard.gate" := by
  decide

theorem not_resolves_iff :
    ¬dictionary.Resolves text ↔ ∀ label, dictionary.resolve text ≠ .found label := by
  rw [resolves_iff, not_exists]

/-- What is reported for a key that does not resolve: its role, and whether it is no proper key. -/
theorem missingLabel?_eq_some_iff_of_role {role : LabelRole} {label : MissingLabel} :
    dictionary.missingLabel? role text = some label ↔
      label.key = text ∧ label.role = role ∧ ¬dictionary.Resolves text ∧
        (label.malformed = true ↔ ¬∃ key : LabelKey, key.IsWellFormed ∧ key.dotted = text) := by
  have hproper : dictionary.resolve text = .malformed ↔
      ¬∃ key : LabelKey, key.IsWellFormed ∧ key.dotted = text := by
    rw [resolve_eq_malformed_iff, ← Option.not_isSome_iff_eq_none, Option.isSome_iff_exists]
    simp only [LabelKey.parse?_eq_some_iff]
  rw [← hproper, resolves_iff]
  obtain ⟨key, role', malformed⟩ := label
  unfold missingLabel?
  cases dictionary.resolve text <;> simp [eq_comm]

/-- A definition's report holds, for each of its label keys that does not resolve, the first use. -/
theorem mem_missing_iff_find? {definition : Definition} {label : MissingLabel} :
    label ∈ dictionary.missing definition ↔
      definition.labelKeys.find? (·.2 = label.key) = some (label.role, label.key) ∧
        ¬dictionary.Resolves label.key ∧
        (label.malformed = true ↔
          ¬∃ key : LabelKey, key.IsWellFormed ∧ key.dotted = label.key) := by
  rw [missing, List.mem_filterMap]
  constructor
  · rintro ⟨use, huse, hlabel⟩
    obtain ⟨hkey, hrole, hmissing⟩ := missingLabel?_eq_some_iff_of_role.mp hlabel
    have hfind := (mem_firstUses_iff_find?.mp huse).2
    rw [← hkey] at hmissing hfind
    exact ⟨by rw [hfind, hrole, hkey], hmissing⟩
  · rintro ⟨hfind, hmissing⟩
    exact ⟨(label.role, label.key), mem_firstUses_iff_find?.mpr ⟨List.not_mem_nil, hfind⟩,
      missingLabel?_eq_some_iff_of_role.mpr ⟨rfl, rfl, hmissing⟩⟩

/-- A report stands in the order of the first uses. -/
theorem pairwise_missing (dictionary : Dictionary) (definition : Definition) :
    (dictionary.missing definition).Pairwise fun first second ↦
      (definition.labelKeys.map (·.2)).idxOf first.key <
        (definition.labelKeys.map (·.2)).idxOf second.key := by
  refine List.pairwise_filterMap.mpr ((pairwise_firstUses [] definition.labelKeys).imp ?_)
  intro first second hlt label hlabel label' hlabel'
  rwa [key_of_missingLabel? hlabel, key_of_missingLabel? hlabel']

/-! ### Taking an entry out -/

/-- The dictionary without the entry of a key. -/
def withoutEntry (dictionary : Dictionary) (key : LabelKey) : Dictionary :=
  match Json.member? key.sectionName dictionary.sections with
  | some (.object members) =>
    dictionary.setSection key.sectionName (members.filter (·.1 ≠ key.short))
  | _ => dictionary

/-- An entry that is taken out changes what its own key stands for and nothing else. -/
theorem entry?_withoutEntry (dictionary : Dictionary) (key other : LabelKey) :
    entry? (dictionary.withoutEntry key) other =
      if other = key then none else dictionary.entry? other := by
  obtain ⟨name, short⟩ := key
  obtain ⟨name', short'⟩ := other
  unfold withoutEntry
  split
  · rename_i members hmembers
    rw [entry?_eq_bind, section?_setSection]
    by_cases hname : name' = name
    · subst hname
      have hentry : dictionary.entry? ⟨name', short'⟩ = Json.member? short' members := by
        unfold entry?
        rw [hmembers]
      rw [if_pos rfl, Option.bind_some, hentry, Json.member?_filter_ne]
      simp only [LabelKey.mk.injEq, true_and]
    · rw [if_neg hname, ← entry?_eq_bind]
      simp [hname]
  · rename_i hsection
    split_ifs with hother
    · obtain ⟨rfl, rfl⟩ := LabelKey.mk.inj hother
      unfold entry?
      split
      · rename_i members hmembers
        exact absurd hmembers (hsection members)
      · rfl
    · rfl

/-- Without an entry the same texts resolve, except for the dotted form of its key. -/
theorem resolves_withoutEntry_iff :
    (dictionary.withoutEntry key).Resolves text ↔ dictionary.Resolves text ∧ text ≠ key.dotted := by
  constructor
  · rintro ⟨other, hother, rfl, label, hentry, hlabel⟩
    rw [entry?_withoutEntry] at hentry
    split_ifs at hentry with hkey
    exact ⟨⟨other, hother, rfl, label, hentry, hlabel⟩, fun hdotted ↦
      hkey (hother.eq_of_dotted hdotted.symm).symm⟩
  · rintro ⟨⟨other, hother, rfl, label, hentry, hlabel⟩, hdotted⟩
    have hkey : other ≠ key := fun heq ↦ hdotted (heq ▸ rfl)
    exact ⟨other, hother, rfl, label, by rw [entry?_withoutEntry, if_neg hkey, hentry], hlabel⟩

/-! ### The report -/

/-- The report of missing labels is complete, sound and local. It holds the keys of the title, the
fields and the results of the definition that do not resolve, with the role of their first use, in
the order of the first uses and so each once; it is empty if all of them resolve. Taking an entry
out of the dictionary adds the dotted form of its key to the report if the definition refers to it
and it resolved before, and leaves the reported keys as they are otherwise. -/
theorem missing_exact (dictionary : Dictionary) (definition : Definition) :
    let uses := (LabelRole.title, definition.titleKey)
      :: definition.fields.map (fun field ↦ (LabelRole.field, field.labelKey))
      ++ definition.resultLabels.map fun label ↦ (LabelRole.result, label.labelKey)
    (∀ label : MissingLabel, label ∈ dictionary.missing definition ↔
      uses.find? (·.2 = label.key) = some (label.role, label.key) ∧
        ¬dictionary.Resolves label.key ∧
        (label.malformed = true ↔
          ¬∃ key : LabelKey, key.IsWellFormed ∧ key.dotted = label.key)) ∧
    (∀ text, text ∈ (dictionary.missing definition).map (·.key) ↔
      definition.RefersTo text ∧ ¬dictionary.Resolves text) ∧
    ((dictionary.missing definition).Pairwise fun first second ↦
      (uses.map (·.2)).idxOf first.key < (uses.map (·.2)).idxOf second.key) ∧
    ((dictionary.missing definition).map (·.key)).Nodup ∧
    (dictionary.missing definition = [] ↔
      ∀ text, definition.RefersTo text → dictionary.Resolves text) ∧
    ∀ (key : LabelKey) (text : String),
      text ∈ ((dictionary.withoutEntry key).missing definition).map (·.key) ↔
        text ∈ (dictionary.missing definition).map (·.key) ∨
          (text = key.dotted ∧ definition.RefersTo text ∧ dictionary.Resolves text) := by
  intro uses
  have huses : definition.labelKeys = uses := definition.labelKeys_eq
  rw [← huses]
  have hkeys : ∀ (dictionary : Dictionary) text,
      text ∈ (dictionary.missing definition).map (·.key) ↔
        definition.RefersTo text ∧ ¬dictionary.Resolves text := fun dictionary text ↦ by
    rw [mem_missing_iff, not_resolves_iff]
  have hordered := pairwise_missing dictionary definition
  refine ⟨fun label ↦ mem_missing_iff_find?, hkeys dictionary, hordered, ?_, ?_, fun key text ↦ ?_⟩
  · refine List.pairwise_map.mpr (hordered.imp ?_)
    intro first second hlt heq
    rw [heq] at hlt
    exact Nat.lt_irrefl _ hlt
  · rw [← List.map_eq_nil_iff (f := (·.key)), List.eq_nil_iff_forall_not_mem]
    simp only [hkeys, not_and, not_not]
  · rw [hkeys, hkeys, resolves_withoutEntry_iff]
    tauto

end Dictionary

end CalculatorCatalog
