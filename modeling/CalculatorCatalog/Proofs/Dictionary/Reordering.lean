import CalculatorCatalog.Proofs.Dictionary.Extension
import Mathlib.Data.List.Forall2
import Mathlib.Data.List.Sort

/-!
# Filling in keys in another order

The keys that are missing are collected as a sorted set, so they depend only on what is declared,
not on where, how often or in which order (`missingKeys_congr`). For keys that are not sorted, the
order in which they are filled in shows in one place alone: which of the new entries of a mapping,
and which of the new sections, comes first (`Dictionary.GrowAlike`). What is added is the same
(`growAlike_backfill`), because filling in keys in any order adds texts for the gaps among them,
each once (`exists_backfill_eq_withLabels`), and the description of the dictionary with texts for
new keys is symmetric in them up to order (`growAlike_withLabels`).
-/

set_option autoImplicit false
set_option relaxedAutoImplicit false

namespace CalculatorCatalog

open CalculatorCatalog.Naming

/-! ### Sorted sets -/

namespace Text

/-- A sorted set depends only on which strings are collected. -/
theorem sortedSet_congr {values values' : List String}
    (h : ∀ value, value ∈ values ↔ value ∈ values') : sortedSet values = sortedSet values' := by
  refine (pairwise_sortedSet values).eq_of_mem_iff (pairwise_sortedSet values') fun value ↦ ?_
  rw [mem_sortedSet, mem_sortedSet, h]

end Text

/-! ### The same declarations -/

namespace Definition

/-- Two definitions that differ at most in where they are declared. -/
def SameButPlace (definition definition' : Definition) : Prop :=
  definition' = { definition with location := definition'.location }

theorem SameButPlace.refersTo_iff {definition definition' : Definition}
    (h : definition.SameButPlace definition') (text : String) :
    definition'.RefersTo text ↔ definition.RefersTo text := by
  rw [h]
  rfl

/-- Two lists of definitions that declare the same, in whatever order, however often and wherever
each is declared. -/
def DeclareAlike (definitions definitions' : List Definition) : Prop :=
  (∀ definition ∈ definitions, ∃ definition' ∈ definitions', definition.SameButPlace definition') ∧
    ∀ definition' ∈ definitions', ∃ definition ∈ definitions, definition.SameButPlace definition'

/-- Definitions that declare the same refer to the same labels. -/
theorem DeclareAlike.exists_refersTo_iff {definitions definitions' : List Definition}
    (h : DeclareAlike definitions definitions') (text : String) :
    (∃ definition ∈ definitions, definition.RefersTo text) ↔
      ∃ definition' ∈ definitions', definition'.RefersTo text := by
  constructor
  · rintro ⟨definition, hmem, htext⟩
    obtain ⟨definition', hmem', hsame⟩ := h.1 definition hmem
    exact ⟨definition', hmem', (hsame.refersTo_iff text).mpr htext⟩
  · rintro ⟨definition', hmem', htext⟩
    obtain ⟨definition, hmem, hsame⟩ := h.2 definition' hmem'
    exact ⟨definition, hmem, (hsame.refersTo_iff text).mp htext⟩

end Definition

namespace Dictionary

/-- The missing keys depend only on what is declared. -/
theorem missingKeys_congr (dictionary : Dictionary) {definitions definitions' : List Definition}
    (h : Definition.DeclareAlike definitions definitions') :
    missingKeys (definitions.flatMap dictionary.missing) =
      missingKeys (definitions'.flatMap dictionary.missing) := by
  refine Text.sortedSet_congr fun text ↦ ?_
  have hiff : text ∈ missingKeys (definitions.flatMap dictionary.missing) ↔
      text ∈ missingKeys (definitions'.flatMap dictionary.missing) := by
    rw [mem_missingKeys_iff, mem_missingKeys_iff, h.exists_refersTo_iff]
  rwa [missingKeys, missingKeys, Text.mem_sortedSet, Text.mem_sortedSet] at hiff

/-! ### Dictionaries that grow alike -/

/-- Two sections of one name that hold the same entries, in whatever order. -/
def SameEntries (member member' : String × Json) : Prop :=
  ∃ (name : String) (entries entries' : List (String × Json)),
    member = (name, .object entries) ∧ member' = (name, .object entries') ∧ entries.Perm entries'

/-- Two lists of sections that come from the same old ones in the same way up to order: the old
sections stay in their places, and each stays as it is or, if it is a mapping, gets the same further
entries behind the old ones, in whatever order; behind the old sections come the same new ones, in
whatever order and with their entries in whatever order. -/
inductive GrowAlike : (old new new' : List (String × Json)) → Prop where
  | added {sections between sections' : List (String × Json)} (hperm : sections.Perm between)
      (hsame : List.Forall₂ SameEntries between sections') : GrowAlike [] sections sections'
  | kept (member : String × Json) {old new new' : List (String × Json)}
      (hrest : GrowAlike old new new') :
      GrowAlike (member :: old) (member :: new) (member :: new')
  | extended (name : String) (entries : List (String × Json))
      {further further' : List (String × Json)} (hperm : further.Perm further')
      {old new new' : List (String × Json)} (hrest : GrowAlike old new new') :
      GrowAlike ((name, .object entries) :: old) ((name, .object (entries ++ further)) :: new)
        ((name, .object (entries ++ further')) :: new')

/-! ### Texts for the same keys in another order -/

theorem perm_newEntries {added added' : List LabelKey} (h : added.Perm added') (name : String) :
    (newEntries added name).Perm (newEntries added' name) :=
  (h.filter _).map _

/-- The new sections have the names of sections that are used and not known. -/
theorem mem_names_newSections_iff {known : List String} {added : List LabelKey} {name : String} :
    name ∈ (newSections known added).map (·.1) ↔
      name ∉ known ∧ ∃ key ∈ added, key.sectionName = name := by
  induction added generalizing known with
  | nil => simp [newSections]
  | cons key added ih =>
    rw [newSections]
    split_ifs with hknown
    · rw [ih]
      refine and_congr_right fun hname ↦ ?_
      have hkey : key.sectionName ≠ name := fun heq ↦ hname (heq ▸ hknown)
      simp [hkey]
    · rw [List.map_cons, List.mem_cons, ih, List.mem_cons]
      by_cases hkey : name = key.sectionName
      · subst hkey
        simp [hknown]
      · simp [hkey, Ne.symm hkey]

theorem nodup_names_newSections (known : List String) (added : List LabelKey) :
    ((newSections known added).map (·.1)).Nodup := by
  induction added generalizing known with
  | nil => exact List.nodup_nil
  | cons key added ih =>
    rw [newSections]
    split_ifs
    · exact ih known
    · refine List.nodup_cons.mpr ⟨fun hmem ↦ ?_, ih _⟩
      exact (mem_names_newSections_iff.mp hmem).1 List.mem_cons_self

/-- Each new section holds all entries that the new keys make in it. -/
theorem newSections_eq_map (known : List String) (added : List LabelKey) :
    newSections known added = ((newSections known added).map (·.1)).map fun name ↦
      (name, .object (newEntries added name)) := by
  induction added generalizing known with
  | nil => rfl
  | cons key added ih =>
    -- The first key makes no entry in a section that is made for a later one.
    have hlater : ∀ known', key.sectionName ∈ known' → newSections known' added =
        ((newSections known' added).map (·.1)).map fun name ↦
          (name, .object (newEntries (key :: added) name)) := by
      intro known' hknown'
      rw [ih known', List.map_map, List.map_map, List.map_map]
      refine List.map_congr_left fun member hmember ↦ ?_
      have hname := (mem_names_newSections_iff.mp (List.mem_map_of_mem hmember)).1
      have hkey : key.sectionName ≠ member.1 := fun heq ↦ hname (heq ▸ hknown')
      simp [newEntries, hkey]
    rw [newSections]
    split_ifs with hknown
    · exact hlater known hknown
    · rw [List.map_cons, List.map_cons, ← hlater _ List.mem_cons_self]

/-- Keys in another order need the same new sections, with the same entries. -/
theorem sameEntries_newSections (known : List String) {added added' : List LabelKey}
    (h : added.Perm added') :
    ∃ between, (newSections known added).Perm between ∧
      List.Forall₂ SameEntries between (newSections known added') := by
  have hnames : ((newSections known added).map (·.1)).Perm
      ((newSections known added').map (·.1)) := by
    refine (List.perm_ext_iff_of_nodup (nodup_names_newSections known added)
      (nodup_names_newSections known added')).mpr fun name ↦ ?_
    rw [mem_names_newSections_iff, mem_names_newSections_iff]
    simp only [h.mem_iff]
  have hsections := newSections_eq_map known added
  have hsections' := newSections_eq_map known added'
  generalize (newSections known added).map (·.1) = names at hnames hsections
  generalize (newSections known added').map (·.1) = names' at hnames hsections'
  rw [hsections, hsections']
  refine ⟨_, hnames.map _, ?_⟩
  rw [List.forall₂_map_left_iff, List.forall₂_map_right_iff, List.forall₂_same]
  exact fun name _ ↦ ⟨name, _, _, rfl, rfl, perm_newEntries h name⟩

/-- Texts for the same keys in another order make a dictionary grow in the same way. -/
theorem growAlike_withLabels (dictionary : Dictionary) {added added' : List LabelKey}
    (h : added.Perm added') :
    GrowAlike dictionary.sections (dictionary.withLabels added).sections
      (dictionary.withLabels added').sections := by
  obtain ⟨between, hperm, hsame⟩ :=
    sameEntries_newSections (dictionary.sections.map (·.1)) h
  unfold withLabels
  generalize newSections (dictionary.sections.map (·.1)) added = new at hperm
  generalize newSections (dictionary.sections.map (·.1)) added' = new' at hsame
  obtain ⟨sections⟩ := dictionary
  induction sections with
  | nil => exact .added hperm hsame
  | cons member sections ih =>
    obtain ⟨name, value⟩ := member
    cases value with
    | object entries => exact .extended name entries (perm_newEntries h name) ih
    | null => exact .kept _ ih
    | bool value => exact .kept _ ih
    | integer value => exact .kept _ ih
    | float value => exact .kept _ ih
    | string value => exact .kept _ ih
    | array items => exact .kept _ ih

/-! ### Filling in -/

variable {dictionary : Dictionary}

/-- Filling in any keys, also repeated ones, adds texts for the gaps among them, each once. -/
theorem exists_backfill_eq_withLabels (hnodup : (dictionary.sections.map (·.1)).Nodup)
    (texts : List String) :
    ∃ added : List LabelKey, added.Nodup ∧
      (∀ key, key ∈ added ↔ dictionary.IsGap key ∧ key.dotted ∈ texts) ∧
      (dictionary.backfill texts).1 = dictionary.withLabels added := by
  induction texts generalizing dictionary with
  | nil => exact ⟨[], List.nodup_nil, by simp, (withLabels_nil dictionary).symm⟩
  | cons text texts ih =>
    rw [backfill_cons]
    cases hgap : dictionary.gap? text with
    | none =>
      obtain ⟨added, hadded, hmem, hbackfill⟩ := ih hnodup
      refine ⟨added, hadded, fun key ↦ ?_, by rw [(backfillKey_of_no_gap hgap).1, hbackfill]⟩
      have hkey : dictionary.IsGap key → key.dotted ≠ text := by
        rintro hkey rfl
        rw [gap?_eq_some_iff.mpr ⟨hkey, rfl⟩] at hgap
        cases hgap
      rw [hmem, List.mem_cons]
      exact and_congr_right fun hkey' ↦ (or_iff_right (hkey hkey')).symm
    | some first =>
      obtain ⟨hfirst, rfl⟩ := gap?_eq_some_iff.mp hgap
      obtain ⟨added, hadded, hmem, hbackfill⟩ := ih (nodup_withLabel hnodup first)
      have hnew : first ∉ added := by
        intro hadded'
        exact (hfirst.isGap_withLabel_iff.mp ((hmem first).mp hadded').1).2 rfl
      refine ⟨first :: added, List.nodup_cons.mpr ⟨hnew, hadded⟩, fun key ↦ ?_, ?_⟩
      · rw [List.mem_cons, hmem, hfirst.isGap_withLabel_iff, List.mem_cons]
        constructor
        · rintro (rfl | ⟨⟨hkey, -⟩, htext⟩)
          · exact ⟨hfirst, .inl rfl⟩
          · exact ⟨hkey, .inr htext⟩
        · rintro ⟨hkey, htext⟩
          by_cases hsame : key = first
          · exact .inl hsame
          · have hdotted : key.dotted ≠ first.dotted := fun h ↦
              hsame (LabelKey.dotted_inj hkey.isWellFormed hfirst.isWellFormed h)
            exact .inr ⟨⟨hkey, hsame⟩, htext.resolve_left hdotted⟩
      · rw [backfillKey_of_gap hgap, hbackfill, withLabel_eq_withLabels hfirst hnodup,
          withLabels_withLabels]
        rfl

/-- Filling in the same keys in another order, or some of them more often, makes a dictionary grow
in the same way. -/
theorem growAlike_backfill (hnodup : (dictionary.sections.map (·.1)).Nodup)
    {texts texts' : List String} (h : ∀ text, text ∈ texts ↔ text ∈ texts') :
    GrowAlike dictionary.sections (dictionary.backfill texts).1.sections
      (dictionary.backfill texts').1.sections := by
  obtain ⟨added, hadded, hmem, hbackfill⟩ := exists_backfill_eq_withLabels hnodup texts
  obtain ⟨added', hadded', hmem', hbackfill'⟩ := exists_backfill_eq_withLabels hnodup texts'
  have hperm : added.Perm added' := by
    refine (List.perm_ext_iff_of_nodup hadded hadded').mpr fun key ↦ ?_
    rw [hmem, hmem', h]
  rw [hbackfill, hbackfill']
  exact growAlike_withLabels dictionary hperm

end Dictionary

end CalculatorCatalog
