import CalculatorCatalog.Dictionary.Backfill
import CalculatorCatalog.Dictionary.Missing
import CalculatorCatalog.Proofs.Dictionary.Entries
import Mathlib.Tactic.Tauto

/-!
# What filling in does to a dictionary

A *gap* of a dictionary is a proper key without an entry whose section is not blocked
(`Dictionary.IsGap`). Filling in a list of keys enters a text for every gap among them and changes
no other entry (`entry?_backfill`), and the keys that are reported as entered are exactly those gaps
(`inserted_mem_backfill_iff`). The text for a key is never empty (`chooseLabel_ne_empty`), so the
gaps are closed.

Looking for missing labels and filling them in do not agree on what is there: an empty text, or a
value that is no text, is missing for the one and present for the other. `missing_backfill` says
what is still missing after all labels that were missing have been filled in.
-/

set_option autoImplicit false
set_option relaxedAutoImplicit false

namespace CalculatorCatalog

open CalculatorCatalog.Naming

/-! ### The text for a key -/

namespace Naming

open CalculatorCatalog.Text

theorem uppercase_ne_nil (c : Char) : uppercase c ≠ [] := by
  have hexpansions : ∀ entry ∈ uppercaseExpansions, entry.2 ≠ [] := by decide
  unfold uppercase
  split_ifs
  · simp
  · cases hcodes : uppercaseExpansions.lookup c.toNat with
    | none => simp
    | some codes =>
      obtain ⟨earlier, later, hentries, -⟩ := List.lookup_eq_some_iff.mp hcodes
      have hmem : (c.toNat, codes) ∈ uppercaseExpansions := by
        rw [hentries]
        exact List.mem_append_right _ List.mem_cons_self
      simpa using hexpansions _ hmem

theorem readable_ne_empty {key : String} (h : key ≠ "") : readable key ≠ "" := by
  obtain ⟨c, text, hkey⟩ := List.exists_cons_of_ne_nil (LabelKey.toList_ne_nil h)
  have hspaced : spaced false key.toList = c :: spaced (isLowercase c) text := by
    simp [hkey, spaced]
  rw [readable, hspaced, Ne, ← String.toList_eq_nil_iff, String.toList_ofList]
  exact List.append_ne_nil_of_left_ne_nil (uppercase_ne_nil c) _

/-- There is something to show for every key that is not empty. -/
theorem chooseLabel_ne_empty {key : String} (h : key ≠ "") : (chooseLabel key).1 ≠ "" := by
  have hcurated : ∀ entry ∈ Vocabulary.curatedLabels, entry.2 ≠ "" := by decide
  unfold chooseLabel
  cases hlabel : Vocabulary.curatedLabel? key with
  | none => exact readable_ne_empty h
  | some label => exact hcurated _ (Json.mem_of_member? hlabel)

end Naming

/-! ### The labels of a definition -/

namespace Definition

/-- A definition refers to the label of its title, to those of its fields and to those of its
results. -/
def RefersTo (definition : Definition) (text : String) : Prop :=
  text = definition.titleKey ∨ (∃ field ∈ definition.fields, field.labelKey = text) ∨
    ∃ label ∈ definition.resultLabels, label.labelKey = text

instance (definition : Definition) (text : String) : Decidable (definition.RefersTo text) :=
  inferInstanceAs (Decidable (_ ∨ _ ∨ _))

theorem labelKeys_eq (definition : Definition) :
    definition.labelKeys = (.title, definition.titleKey)
      :: definition.fields.map (fun field ↦ (.field, field.labelKey))
      ++ definition.resultLabels.map fun label ↦ (.result, label.labelKey) :=
  rfl

theorem mem_labelKeys_iff {definition : Definition} {text : String} :
    text ∈ definition.labelKeys.map (·.2) ↔ definition.RefersTo text := by
  simp [labelKeys_eq, RefersTo]

end Definition

namespace Dictionary

/-! ### Gaps -/

/-- A key for which a text can be entered: it is proper, it has no entry, and its section is not
blocked. -/
structure IsGap (dictionary : Dictionary) (key : LabelKey) : Prop where
  isWellFormed : key.IsWellFormed
  not_isBlocked : ¬dictionary.IsBlocked key.sectionName
  entry?_eq_none : dictionary.entry? key = none

/-- The gap that a dotted key names, if it names one. -/
def gap? (dictionary : Dictionary) (text : String) : Option LabelKey :=
  (LabelKey.parse? text).filter fun key ↦
    !dictionary.contains key && (dictionary.section? key.sectionName).isSome

theorem gap?_eq_some_iff {dictionary : Dictionary} {text : String} {key : LabelKey} :
    dictionary.gap? text = some key ↔ dictionary.IsGap key ∧ key.dotted = text := by
  have hopen : (!dictionary.contains key && (dictionary.section? key.sectionName).isSome) = true ↔
      dictionary.entry? key = none ∧ ¬dictionary.IsBlocked key.sectionName := by
    rw [Bool.and_eq_true, Bool.not_eq_true', contains_eq_false_iff, Option.isSome_iff_ne_none,
      Ne, section?_eq_none_iff]
  rw [gap?, Option.filter_eq_some_iff, LabelKey.parse?_eq_some_iff, hopen]
  constructor
  · rintro ⟨⟨hkey, hdotted⟩, hentry, hblocked⟩
    exact ⟨⟨hkey, hblocked, hentry⟩, hdotted⟩
  · rintro ⟨⟨hkey, hblocked, hentry⟩, hdotted⟩
    exact ⟨⟨hkey, hdotted⟩, hentry, hblocked⟩

/-- The dictionary with a text for a gap. -/
def withLabel (dictionary : Dictionary) (key : LabelKey) : Dictionary :=
  dictionary.setSection key.sectionName
    (Json.insert key.short (.string (chooseLabel key.short).1)
      ((dictionary.section? key.sectionName).getD []))

variable {dictionary : Dictionary} {key : LabelKey}

theorem IsGap.section?_eq (h : dictionary.IsGap key) :
    dictionary.section? key.sectionName =
      some ((dictionary.section? key.sectionName).getD []) := by
  cases hsection : dictionary.section? key.sectionName with
  | none => exact absurd (section?_eq_none_iff.mp hsection) h.not_isBlocked
  | some entries => rfl

/-- A text for a gap changes what its own key stands for and nothing else. -/
theorem IsGap.entry?_withLabel (h : dictionary.IsGap key) (other : LabelKey) :
    entry? (dictionary.withLabel key) other =
      if other = key then some (.string (chooseLabel key.short).1) else dictionary.entry? other :=
  entry?_setSection h.section?_eq _ other

/-- A text for a gap closes it and leaves the other gaps open. -/
theorem IsGap.isGap_withLabel_iff (h : dictionary.IsGap key) {other : LabelKey} :
    (dictionary.withLabel key).IsGap other ↔ dictionary.IsGap other ∧ other ≠ key := by
  have hblocked : (dictionary.withLabel key).IsBlocked other.sectionName ↔
      dictionary.IsBlocked other.sectionName :=
    isBlocked_setSection h.not_isBlocked _ _
  have hentry : entry? (dictionary.withLabel key) other = none ↔
      dictionary.entry? other = none ∧ other ≠ key := by
    rw [h.entry?_withLabel]
    split_ifs with hother <;> simp [hother]
  constructor
  · rintro ⟨hkey, hopen, hnone⟩
    exact ⟨⟨hkey, hblocked.not.mp hopen, (hentry.mp hnone).1⟩, (hentry.mp hnone).2⟩
  · rintro ⟨⟨hkey, hopen, hnone⟩, hother⟩
    exact ⟨hkey, hblocked.not.mpr hopen, hentry.mpr ⟨hnone, hother⟩⟩

theorem IsGap.gap?_withLabel_eq_some_iff (h : dictionary.IsGap key) {text : String}
    {other : LabelKey} :
    (dictionary.withLabel key).gap? text = some other ↔
      dictionary.gap? text = some other ∧ other ≠ key := by
  rw [gap?_eq_some_iff, gap?_eq_some_iff, h.isGap_withLabel_iff]
  tauto

/-! ### Filling in keys -/

/-- A key that names a gap gets its text. -/
theorem backfillKey_of_gap {text : String} (h : dictionary.gap? text = some key) :
    dictionary.backfillKey text =
      (dictionary.withLabel key,
        .inserted text (chooseLabel key.short).1 (chooseLabel key.short).2) := by
  obtain ⟨hgap, rfl⟩ := gap?_eq_some_iff.mp h
  have hcontains : dictionary.contains key = false := contains_eq_false_iff.mpr hgap.entry?_eq_none
  rw [backfillKey, LabelKey.parse?_dotted hgap.isWellFormed]
  simp only [hcontains, Bool.false_eq_true, if_false, insertEntry]
  rw [hgap.section?_eq]
  rfl

/-- A key that names no gap changes nothing. -/
theorem backfillKey_of_no_gap {text : String} (h : dictionary.gap? text = none) :
    (dictionary.backfillKey text).1 = dictionary ∧
      (dictionary.backfillKey text).2.isInserted = false := by
  unfold backfillKey
  cases hparse : LabelKey.parse? text with
  | none => exact ⟨rfl, rfl⟩
  | some key =>
    cases hcontains : dictionary.contains key with
    | true => simp [hcontains, Outcome.isInserted]
    | false =>
      have hsection : dictionary.section? key.sectionName = none := by
        rw [gap?, hparse] at h
        simpa [Option.filter, hcontains] using h
      simp [hcontains, insertEntry, hsection, Outcome.isInserted]

theorem backfill_cons (dictionary : Dictionary) (text : String) (texts : List String) :
    dictionary.backfill (text :: texts) =
      (((dictionary.backfillKey text).1.backfill texts).1,
        (dictionary.backfillKey text).2 :: ((dictionary.backfillKey text).1.backfill texts).2) :=
  rfl

/-- Filling in enters a text for every gap among the keys, and every other entry stays. -/
theorem entry?_backfill (dictionary : Dictionary) (texts : List String) (key : LabelKey) :
    entry? (dictionary.backfill texts).1 key =
      if dictionary.gap? key.dotted = some key ∧ key.dotted ∈ texts then
        some (.string (chooseLabel key.short).1)
      else dictionary.entry? key := by
  induction texts generalizing dictionary with
  | nil => simp [backfill]
  | cons text texts ih =>
    rw [backfill_cons]
    cases hgap : dictionary.gap? text with
    | none =>
      have htext : ∀ other, dictionary.gap? other = some key → other ≠ text := by
        rintro other hother rfl
        rw [hother] at hgap
        cases hgap
      rw [(backfillKey_of_no_gap hgap).1, ih]
      refine if_congr ?_ rfl rfl
      rw [List.mem_cons]
      exact and_congr_right fun hkey ↦ (or_iff_right (htext _ hkey)).symm
    | some first =>
      obtain ⟨hfirst, rfl⟩ := gap?_eq_some_iff.mp hgap
      rw [backfillKey_of_gap hgap]
      simp only [ih, hfirst.gap?_withLabel_eq_some_iff, hfirst.entry?_withLabel]
      by_cases hkey : key = first
      · subst hkey
        simp [hgap]
      · have hdotted : dictionary.gap? key.dotted = some key → key.dotted ≠ first.dotted := by
          intro hgap' hdotted
          exact hkey (LabelKey.dotted_inj (gap?_eq_some_iff.mp hgap').1.isWellFormed
            hfirst.isWellFormed hdotted)
        simp only [hkey, if_false, ne_eq, not_false_eq_true, and_true, List.mem_cons]
        refine if_congr ?_ rfl rfl
        exact and_congr_right fun hgap' ↦ (or_iff_right (hdotted hgap')).symm

/-- The keys that are reported as entered are the gaps among the keys. -/
theorem inserted_mem_backfill_iff (dictionary : Dictionary) (texts : List String)
    {text label : String} {source : LabelSource} :
    .inserted text label source ∈ (dictionary.backfill texts).2 ↔
      text ∈ texts ∧
        ∃ key, dictionary.gap? text = some key ∧ (label, source) = chooseLabel key.short := by
  induction texts generalizing dictionary with
  | nil => simp [backfill]
  | cons first texts ih =>
    rw [backfill_cons]
    cases hgap : dictionary.gap? first with
    | none =>
      have hother := backfillKey_of_no_gap hgap
      have hfirst : .inserted text label source ≠ (dictionary.backfillKey first).2 := by
        intro heq
        rw [← heq] at hother
        cases hother.2
      have htext : ∀ key, dictionary.gap? text = some key → text ≠ first := by
        rintro key hkey rfl
        rw [hkey] at hgap
        cases hgap
      simp only [List.mem_cons, hother.1, hfirst, false_or, ih]
      constructor
      · rintro ⟨hmem, hkey⟩
        exact ⟨.inr hmem, hkey⟩
      · rintro ⟨hmem, key, hkey, hlabel⟩
        exact ⟨hmem.resolve_left (htext key hkey), key, hkey, hlabel⟩
    | some key =>
      have hkey := (gap?_eq_some_iff.mp hgap).1
      rw [backfillKey_of_gap hgap]
      simp only [List.mem_cons, ih, hkey.gap?_withLabel_eq_some_iff, Outcome.inserted.injEq]
      constructor
      · rintro (⟨rfl, rfl, rfl⟩ | ⟨hmem, other, ⟨hother, -⟩, hlabel⟩)
        · exact ⟨.inl rfl, key, hgap, rfl⟩
        · exact ⟨.inr hmem, other, hother, hlabel⟩
      · rintro ⟨hmem, other, hother, hlabel⟩
        by_cases heq : other = key
        · subst heq
          obtain rfl : text = first := by
            rw [← (gap?_eq_some_iff.mp hother).2, ← (gap?_eq_some_iff.mp hgap).2]
          exact .inl ⟨rfl, congrArg Prod.fst hlabel, congrArg Prod.snd hlabel⟩
        · have htext : text ≠ first := by
            rintro rfl
            rw [hother] at hgap
            exact heq (Option.some.inj hgap)
          exact .inr ⟨hmem.resolve_left htext, other, ⟨hother, heq⟩, hlabel⟩

/-! ### Looking keys up -/

theorem resolve_dotted {key : LabelKey} (h : key.IsWellFormed) :
    dictionary.resolve key.dotted = dictionary.resolveKey key := by
  rw [resolve, LabelKey.parse?_dotted h]

/-- A text is found where there is one that is not empty. -/
theorem resolve_eq_found_iff {text label : String} :
    dictionary.resolve text = .found label ↔
      ∃ key : LabelKey, key.IsWellFormed ∧ key.dotted = text ∧
        dictionary.entry? key = some (.string label) ∧ label ≠ "" := by
  constructor
  · intro h
    unfold resolve at h
    split at h
    · cases h
    · rename_i key hparse
      obtain ⟨hkey, hdotted⟩ := LabelKey.parse?_eq_some_iff.mp hparse
      unfold resolveKey at h
      split at h
      · rename_i found hentry
        split_ifs at h with hempty
        obtain rfl := Resolution.found.inj h
        exact ⟨key, hkey, hdotted, hentry, hempty⟩
      · cases h
  · rintro ⟨key, hkey, rfl, hentry, hlabel⟩
    rw [resolve_dotted hkey, resolveKey, hentry]
    exact if_neg hlabel

theorem resolve_dotted_eq_found_iff (h : key.IsWellFormed) {label : String} :
    dictionary.resolve key.dotted = .found label ↔
      dictionary.entry? key = some (.string label) ∧ label ≠ "" := by
  rw [resolve_eq_found_iff]
  constructor
  · rintro ⟨other, hother, hdotted, hentry⟩
    obtain rfl := LabelKey.dotted_inj hother h hdotted
    exact hentry
  · exact fun hentry ↦ ⟨key, h, rfl, hentry⟩

theorem IsGap.not_resolve_eq_found (h : dictionary.IsGap key) (label : String) :
    dictionary.resolve key.dotted ≠ .found label := by
  intro hfound
  have hentry := ((resolve_dotted_eq_found_iff h.isWellFormed).mp hfound).1
  rw [h.entry?_eq_none] at hentry
  cases hentry

/-- A key has a text or is a gap unless its section is blocked or its entry is there with an empty
text or with a value that is no text. -/
theorem found_or_isGap_iff (h : key.IsWellFormed) :
    ((∃ label, dictionary.resolve key.dotted = .found label) ∨ dictionary.IsGap key) ↔
      ¬(dictionary.IsBlocked key.sectionName ∨ dictionary.entry? key = some (.string "") ∨
        ∃ value, dictionary.entry? key = some value ∧ ∀ label, value ≠ .string label) := by
  simp only [resolve_dotted_eq_found_iff h]
  constructor
  · rintro (⟨label, hentry, hlabel⟩ | hgap) hcannot
    · obtain hblocked | hempty | ⟨value, hvalue, hnot⟩ := hcannot
      · rw [hblocked.entry?_eq_none] at hentry
        cases hentry
      · rw [hempty] at hentry
        exact hlabel (Json.string.inj (Option.some.inj hentry)).symm
      · rw [hvalue] at hentry
        exact hnot label (Option.some.inj hentry)
    · obtain hblocked | hempty | ⟨value, hvalue, -⟩ := hcannot
      · exact hgap.not_isBlocked hblocked
      · cases hgap.entry?_eq_none.symm.trans hempty
      · cases hgap.entry?_eq_none.symm.trans hvalue
  · intro hcan
    cases hentry : dictionary.entry? key with
    | none => exact .inr ⟨h, fun hblocked ↦ hcan (.inl hblocked), hentry⟩
    | some value =>
      by_cases htext : ∃ label, value = .string label
      · obtain ⟨label, rfl⟩ := htext
        refine .inl ⟨label, rfl, ?_⟩
        rintro rfl
        exact hcan (.inr (.inl hentry))
      · exact absurd (.inr (.inr ⟨value, hentry, not_exists.mp htext⟩)) hcan

/-- A dotted key stands for a text or names a gap unless it is no proper key, or its section is
blocked, or its entry is there with an empty text or with a value that is no text. -/
theorem not_found_or_gap_iff {text : String} :
    ¬((∃ label, dictionary.resolve text = .found label) ∨
        ∃ key, dictionary.gap? text = some key) ↔
      (¬∃ key : LabelKey, key.IsWellFormed ∧ key.dotted = text) ∨
        ∃ key : LabelKey, key.IsWellFormed ∧ key.dotted = text ∧
          (dictionary.IsBlocked key.sectionName ∨ dictionary.entry? key = some (.string "") ∨
            ∃ value, dictionary.entry? key = some value ∧ ∀ label, value ≠ .string label) := by
  simp only [gap?_eq_some_iff]
  by_cases hproper : ∃ key : LabelKey, key.IsWellFormed ∧ key.dotted = text
  · obtain ⟨key, hkey, rfl⟩ := hproper
    have hsame : ∀ other : LabelKey, other.IsWellFormed → other.dotted = key.dotted →
        other = key := fun other hother ↦ LabelKey.dotted_inj hother hkey
    have hgap : (∃ other, dictionary.IsGap other ∧ other.dotted = key.dotted) ↔
        dictionary.IsGap key :=
      ⟨fun ⟨other, hother, hdotted⟩ ↦ hsame other hother.isWellFormed hdotted ▸ hother,
        fun hother ↦ ⟨key, hother, rfl⟩⟩
    rw [hgap, found_or_isGap_iff hkey, not_not, or_iff_right (not_not.mpr ⟨key, hkey, rfl⟩)]
    constructor
    · exact fun hcannot ↦ ⟨key, hkey, rfl, hcannot⟩
    · rintro ⟨other, hother, hdotted, hcannot⟩
      obtain rfl := hsame other hother hdotted
      exact hcannot
  · refine iff_of_true ?_ (.inl hproper)
    rintro (⟨label, hfound⟩ | ⟨key, hkey, hdotted⟩)
    · obtain ⟨key, hkey, hdotted, -⟩ := resolve_eq_found_iff.mp hfound
      exact hproper ⟨key, hkey, hdotted⟩
    · exact hproper ⟨key, hkey.isWellFormed, hdotted⟩

/-- After keys have been filled in, a text is found where it was found before and for the gaps among
the keys. -/
theorem resolve_backfill_eq_found_iff (dictionary : Dictionary) (texts : List String)
    {text label : String} :
    (dictionary.backfill texts).1.resolve text = .found label ↔
      dictionary.resolve text = .found label ∨
        text ∈ texts ∧ ∃ key, dictionary.gap? text = some key ∧
          label = (chooseLabel key.short).1 := by
  rw [resolve_eq_found_iff]
  simp only [entry?_backfill]
  constructor
  · rintro ⟨key, hkey, rfl, hentry, hlabel⟩
    split_ifs at hentry with hgap
    · exact .inr ⟨hgap.2, key, hgap.1, (Json.string.inj (Option.some.inj hentry)).symm⟩
    · exact .inl (resolve_eq_found_iff.mpr ⟨key, hkey, rfl, hentry, hlabel⟩)
  · rintro (hfound | ⟨hmem, key, hgap, rfl⟩)
    · obtain ⟨key, hkey, rfl, hentry, hlabel⟩ := resolve_eq_found_iff.mp hfound
      have hgap : dictionary.gap? key.dotted ≠ some key := fun hgap ↦
        (gap?_eq_some_iff.mp hgap).1.not_resolve_eq_found label hfound
      exact ⟨key, hkey, rfl, by rw [if_neg fun h ↦ hgap h.1, hentry], hlabel⟩
    · obtain ⟨hkey, rfl⟩ := gap?_eq_some_iff.mp hgap
      exact ⟨key, hkey.isWellFormed, rfl, by rw [if_pos ⟨hgap, hmem⟩],
        chooseLabel_ne_empty hkey.isWellFormed.short_ne⟩

/-! ### Missing labels -/

theorem mem_firstUses_iff {seen : List String} {keys : List (LabelRole × String)} {text : String} :
    text ∈ (firstUses seen keys).map (·.2) ↔ text ∉ seen ∧ text ∈ keys.map (·.2) := by
  induction keys generalizing seen with
  | nil => simp [firstUses]
  | cons first keys ih =>
    obtain ⟨role, key⟩ := first
    rw [firstUses]
    split_ifs with hseen
    · rw [ih, List.map_cons, List.mem_cons]
      have hkey : text ∉ seen → text ≠ key := by
        rintro htext rfl
        exact htext hseen
      exact and_congr_right fun htext ↦ (or_iff_right (hkey htext)).symm
    · rw [List.map_cons, List.map_cons, List.mem_cons, List.mem_cons, ih, List.mem_cons]
      by_cases htext : text = key
      · subst htext
        simp [hseen]
      · simp [htext]

/-- A label is missing under its key exactly if no text is found for it. -/
theorem missingLabel?_eq_some_iff (role : LabelRole) {text : String} :
    (∃ label, dictionary.missingLabel? role text = some label ∧ label.key = text) ↔
      ∀ label, dictionary.resolve text ≠ .found label := by
  unfold missingLabel?
  cases dictionary.resolve text <;> simp

theorem key_of_missingLabel? {role : LabelRole} {text : String} {label : MissingLabel}
    (h : dictionary.missingLabel? role text = some label) : label.key = text := by
  unfold missingLabel? at h
  split at h
  · cases h
  all_goals
    obtain rfl := Option.some.inj h
    rfl

theorem resolve_eq_malformed_iff {text : String} :
    dictionary.resolve text = .malformed ↔ LabelKey.parse? text = none := by
  rw [resolve]
  cases LabelKey.parse? text with
  | none => simp
  | some key =>
    simp only [resolveKey, reduceCtorEq, iff_false]
    split
    · split_ifs <;> simp
    · simp

/-- A missing label is malformed exactly if its key is no section and short key. -/
theorem malformed_iff_of_missingLabel? {role : LabelRole} {text : String} {label : MissingLabel}
    (h : dictionary.missingLabel? role text = some label) :
    label.malformed = true ↔ LabelKey.parse? text = none := by
  have hresolves : dictionary.resolve text = .malformed ↔ LabelKey.parse? text = none :=
    resolve_eq_malformed_iff
  rw [← hresolves]
  unfold missingLabel? at h
  split at h
  · cases h
  all_goals
    rename_i hresolve
    obtain rfl := Option.some.inj h
    simp [hresolve]

/-- The missing keys of a definition are those that it refers to and for which no text is found. -/
theorem mem_missing_iff {definition : Definition} {text : String} :
    text ∈ (dictionary.missing definition).map (·.key) ↔
      definition.RefersTo text ∧ ∀ label, dictionary.resolve text ≠ .found label := by
  have huses : definition.RefersTo text ↔
      text ∈ (firstUses [] definition.labelKeys).map (·.2) := by
    rw [mem_firstUses_iff, Definition.mem_labelKeys_iff]
    simp
  rw [huses, missing, List.mem_map, List.mem_map]
  constructor
  · rintro ⟨label, hlabel, rfl⟩
    obtain ⟨use, huse, hsome⟩ := List.mem_filterMap.mp hlabel
    have hkey := key_of_missingLabel? hsome
    refine ⟨⟨use, huse, hkey.symm⟩, ?_⟩
    rw [hkey]
    exact (missingLabel?_eq_some_iff use.1).mp ⟨label, hsome, hkey⟩
  · rintro ⟨⟨use, huse, rfl⟩, hfound⟩
    obtain ⟨label, hlabel, hkey⟩ := (missingLabel?_eq_some_iff use.1).mpr hfound
    exact ⟨label, List.mem_filterMap.mpr ⟨use, huse, hlabel⟩, hkey⟩

theorem mem_missingKeys_iff {definitions : List Definition} {text : String} :
    text ∈ missingKeys (definitions.flatMap dictionary.missing) ↔
      (∃ definition ∈ definitions, definition.RefersTo text) ∧
        ∀ label, dictionary.resolve text ≠ .found label := by
  rw [missingKeys, Text.mem_sortedSet, List.map_flatMap, List.mem_flatMap]
  simp only [mem_missing_iff]
  constructor
  · rintro ⟨definition, hdefinition, hkey, hfound⟩
    exact ⟨⟨definition, hdefinition, hkey⟩, hfound⟩
  · rintro ⟨⟨definition, hdefinition, hkey⟩, hfound⟩
    exact ⟨definition, hdefinition, hkey, hfound⟩

/-- A label key of one of the definitions is still missing after filling in what was missing if it
stood for no text and names no gap. -/
theorem mem_missing_backfill_iff {definitions : List Definition} {definition : Definition}
    (hdefinition : definition ∈ definitions) {text : String}
    (htext : definition.RefersTo text) :
    text ∈ ((dictionary.backfill (missingKeys (definitions.flatMap dictionary.missing))).1.missing
        definition).map (·.key) ↔
      ¬((∃ label, dictionary.resolve text = .found label) ∨
        ∃ key, dictionary.gap? text = some key) := by
  rw [mem_missing_iff, and_iff_right htext, not_or, not_exists, not_exists]
  simp only [ne_eq, resolve_backfill_eq_found_iff, not_or]
  constructor
  · intro hafter
    refine ⟨fun label ↦ (hafter label).1, fun key hkey ↦ ?_⟩
    -- A referenced key that names a gap was missing, so it is among the keys that are filled in.
    have hmem := mem_missingKeys_iff.mpr
      ⟨⟨definition, hdefinition, htext⟩, fun label ↦ (hafter label).1⟩
    exact (hafter _).2 ⟨hmem, key, hkey, rfl⟩
  · rintro ⟨hfound, hgap⟩ label
    exact ⟨hfound label, fun ⟨_, key, hkey, _⟩ ↦ hgap key hkey⟩

/-- Filling in all missing labels of some definitions closes the gaps that can be closed: what is
still missing is no proper key, or its section is blocked, or its entry was there with an empty text
or a value that is no text. Every key that is entered has a text afterwards, and every text that was
found before is found as before. -/
theorem missing_backfill (dictionary : Dictionary) (definitions : List Definition) :
    let filled := dictionary.backfill (missingKeys (definitions.flatMap dictionary.missing))
    (∀ definition ∈ definitions, ∀ text, definition.RefersTo text →
      (text ∈ (filled.1.missing definition).map (·.key) ↔
        (¬∃ key : LabelKey, key.IsWellFormed ∧ key.dotted = text) ∨
        ∃ key : LabelKey, key.IsWellFormed ∧ key.dotted = text ∧
          (dictionary.IsBlocked key.sectionName ∨ dictionary.entry? key = some (.string "") ∨
            ∃ value, dictionary.entry? key = some value ∧ ∀ label, value ≠ .string label))) ∧
    (∀ text label source, .inserted text label source ∈ filled.2 →
      filled.1.resolve text = .found label ∧ label ≠ "") ∧
    ∀ text label, dictionary.resolve text = .found label →
      filled.1.resolve text = .found label := by
  intro filled
  refine ⟨?_, ?_, fun text label hfound ↦
    (resolve_backfill_eq_found_iff dictionary _).mpr (.inl hfound)⟩
  · intro definition hdefinition text htext
    exact (mem_missing_backfill_iff hdefinition htext).trans not_found_or_gap_iff
  · intro text label source hinserted
    obtain ⟨hmem, key, hgap, hlabel⟩ := (inserted_mem_backfill_iff dictionary _).mp hinserted
    have hkey := (gap?_eq_some_iff.mp hgap).1.isWellFormed
    refine ⟨(resolve_backfill_eq_found_iff dictionary _).mpr
      (.inr ⟨hmem, key, hgap, congrArg Prod.fst hlabel⟩), ?_⟩
    rw [show label = (chooseLabel key.short).1 from congrArg Prod.fst hlabel]
    exact chooseLabel_ne_empty hkey.short_ne

end Dictionary

end CalculatorCatalog
