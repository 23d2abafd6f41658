import CalculatorCatalog.Proofs.Dictionary.Filling

/-!
# The dictionary that filling in gives

`Dictionary.withLabels` describes outright what a dictionary with texts for new keys looks like: all
sections stay where they are with all that they hold, each mapping gets its new entries at its end,
and new sections follow after the old ones. `backfill_eq_withLabels` says that filling in keys one
after the other gives the dictionary with texts for the gaps among them, and that those are the keys
that are reported as entered, in the same order.

Nothing is left to fill in where it has been done (`isGap_backfill_iff`), and where there is nothing
to fill in, nothing happens (`backfill_of_no_gap`).
-/

set_option autoImplicit false
set_option relaxedAutoImplicit false

namespace CalculatorCatalog

open CalculatorCatalog.Naming

namespace Dictionary

/-! ### Texts for new keys -/

/-- The entries that new keys make in a section. -/
def newEntries (added : List LabelKey) (name : String) : List (String × Json) :=
  (added.filter (·.sectionName = name)).map fun key ↦
    (key.short, .string (chooseLabel key.short).1)

/-- A section with the entries that new keys make in it, after those that are there. -/
def extendedSection (added : List LabelKey) : String × Json → String × Json
  | (name, .object entries) => (name, .object (entries ++ newEntries added name))
  | other => other

/-- The sections that new keys need and that are not known, in the order in which they are first
used. -/
def newSections (known : List String) : List LabelKey → List (String × Json)
  | [] => []
  | key :: added =>
    if key.sectionName ∈ known then newSections known added
    else (key.sectionName, .object (newEntries (key :: added) key.sectionName))
      :: newSections (key.sectionName :: known) added

/-- The dictionary with texts for new keys. What is there stays as it is and where it is. -/
def withLabels (dictionary : Dictionary) (added : List LabelKey) : Dictionary :=
  ⟨dictionary.sections.map (extendedSection added) ++
    newSections (dictionary.sections.map (·.1)) added⟩

theorem newEntries_append (added added' : List LabelKey) (name : String) :
    newEntries (added ++ added') name = newEntries added name ++ newEntries added' name := by
  simp [newEntries]

theorem newEntries_singleton_of_ne {key : LabelKey} {name : String} (h : name ≠ key.sectionName) :
    newEntries [key] name = [] := by
  simp [newEntries, Ne.symm h]

theorem fst_extendedSection (added : List LabelKey) (entry : String × Json) :
    (extendedSection added entry).1 = entry.1 := by
  obtain ⟨name, value⟩ := entry
  cases value <;> rfl

theorem extendedSection_append (added added' : List LabelKey) (entry : String × Json) :
    extendedSection (added ++ added') entry =
      extendedSection added' (extendedSection added entry) := by
  obtain ⟨name, value⟩ := entry
  cases value <;> simp [extendedSection, newEntries_append]

/-- A section in which the new keys make no entries stays as it is. -/
theorem extendedSection_of_newEntries_eq_nil {added : List LabelKey} {entry : String × Json}
    (h : newEntries added entry.1 = []) : extendedSection added entry = entry := by
  obtain ⟨name, value⟩ := entry
  cases value <;> simp_all [extendedSection]

/-- Only which sections are known counts, not their order. -/
theorem newSections_congr {known known' : List String} (h : ∀ name, name ∈ known ↔ name ∈ known')
    (added : List LabelKey) : newSections known added = newSections known' added := by
  induction added generalizing known known' with
  | nil => rfl
  | cons key added ih =>
    have hcons : ∀ name, name ∈ key.sectionName :: known ↔ name ∈ key.sectionName :: known' := by
      intro name
      rw [List.mem_cons, List.mem_cons, h]
    rw [newSections, newSections, ih h, ih hcons]
    exact if_congr (h _) rfl rfl

/-- Further keys make entries in the sections that are new already, and need sections of their
own. -/
theorem newSections_append (known : List String) (added added' : List LabelKey) :
    newSections known (added ++ added') =
      (newSections known added).map (extendedSection added') ++
        newSections (known ++ (newSections known added).map (·.1)) added' := by
  induction added generalizing known with
  | nil => simp [newSections]
  | cons key added ih =>
    rw [List.cons_append, newSections, newSections]
    split_ifs with hknown
    · exact ih known
    · have hnames : ∀ names : List String,
          newSections (key.sectionName :: (known ++ names)) added' =
            newSections (known ++ key.sectionName :: names) added' := by
        refine fun names ↦ newSections_congr (fun name ↦ ?_) added'
        simp only [List.mem_append, List.mem_cons]
        tauto
      have hentry :
          (key.sectionName, .object (newEntries (key :: (added ++ added')) key.sectionName)) =
            extendedSection added'
            (key.sectionName, .object (newEntries (key :: added) key.sectionName)) := by
        rw [← List.cons_append, newEntries_append]
        rfl
      rw [ih, List.map_cons, List.map_cons, List.cons_append, List.cons_append, hnames, hentry]

/-- Texts for some keys and then for further ones are texts for all of them. -/
theorem withLabels_withLabels (dictionary : Dictionary) (added added' : List LabelKey) :
    (dictionary.withLabels added).withLabels added' = dictionary.withLabels (added ++ added') := by
  have hnames : (dictionary.withLabels added).sections.map (·.1) =
      dictionary.sections.map (·.1) ++
        (newSections (dictionary.sections.map (·.1)) added).map (·.1) := by
    rw [withLabels, List.map_append, List.map_map]
    congr 1
    exact List.map_congr_left fun entry _ ↦ fst_extendedSection added entry
  have hold : dictionary.sections.map (extendedSection (added ++ added')) =
      (dictionary.sections.map (extendedSection added)).map (extendedSection added') := by
    rw [List.map_map]
    exact List.map_congr_left fun entry _ ↦ extendedSection_append added added' entry
  rw [withLabels, hnames]
  simp only [withLabels, newSections_append, hold, List.map_append, List.append_assoc]

theorem withLabels_nil (dictionary : Dictionary) : dictionary.withLabels [] = dictionary := by
  have hsame : dictionary.sections.map (extendedSection []) = dictionary.sections := by
    rw [List.map_congr_left fun entry _ ↦ extendedSection_of_newEntries_eq_nil rfl, List.map_id']
  rw [withLabels, newSections, List.append_nil, hsame]

variable {dictionary : Dictionary} {key : LabelKey}

theorem nodup_withLabel (h : (dictionary.sections.map (·.1)).Nodup) (key : LabelKey) :
    ((dictionary.withLabel key).sections.map (·.1)).Nodup :=
  Json.nodup_insert h _ _

/-- In a section that is there, the text for a gap comes after the other entries. -/
theorem withLabel_of_mem (hkey : dictionary.IsGap key)
    (hnodup : (dictionary.sections.map (·.1)).Nodup)
    (hname : key.sectionName ∈ dictionary.sections.map (·.1)) :
    (dictionary.withLabel key).sections = dictionary.sections.map (extendedSection [key]) := by
  obtain ⟨old, hold⟩ := Option.ne_none_iff_exists'.mp fun h ↦ Json.member?_eq_none_iff.mp h hname
  obtain ⟨entries, rfl⟩ : ∃ entries, old = .object entries := by
    by_contra hno
    exact hkey.not_isBlocked ⟨old, hold, not_exists.mp hno⟩
  have hsection : dictionary.section? key.sectionName = some entries := by
    rw [section?, hold]
  have hshort : Json.member? key.short entries = none := by
    have hentry := hkey.entry?_eq_none
    rwa [entry?_eq_bind, hsection, Option.bind_some] at hentry
  rw [withLabel, setSection, hsection, Option.getD_some, Json.insert_of_mem hname hnodup,
    Json.insert_of_member?_eq_none hshort]
  refine List.map_congr_left fun member hmember ↦ ?_
  obtain ⟨name, value⟩ := member
  by_cases hsame : name = key.sectionName
  · subst hsame
    have hvalue := Json.member?_eq_some_of_mem hnodup hmember
    rw [hold] at hvalue
    obtain rfl := Option.some.inj hvalue
    simp [extendedSection, newEntries]
  · rw [extendedSection_of_newEntries_eq_nil (newEntries_singleton_of_ne hsame), if_neg hsame]

/-- A section that is not there is made at the end for the text of a gap. -/
theorem withLabel_of_notMem (hname : key.sectionName ∉ dictionary.sections.map (·.1)) :
    (dictionary.withLabel key).sections =
      dictionary.sections ++ [(key.sectionName, .object (newEntries [key] key.sectionName))] := by
  have hnone := Json.member?_eq_none_iff.mpr hname
  have hsection : dictionary.section? key.sectionName = some [] := by
    rw [section?, hnone]
  rw [withLabel, setSection, hsection, Option.getD_some, Json.insert_of_member?_eq_none hnone]
  simp [newEntries, Json.insert]

/-- The text for a gap as one of the texts for new keys. -/
theorem withLabel_eq_withLabels (hkey : dictionary.IsGap key)
    (hnodup : (dictionary.sections.map (·.1)).Nodup) :
    dictionary.withLabel key = dictionary.withLabels [key] := by
  by_cases hname : key.sectionName ∈ dictionary.sections.map (·.1)
  · have hsections := withLabel_of_mem hkey hnodup hname
    simp only [withLabels, newSections, hname, if_true, List.append_nil, ← hsections]
  · have hsections := withLabel_of_notMem hname
    have hsame : dictionary.sections.map (extendedSection [key]) = dictionary.sections := by
      rw [List.map_congr_left (g := id), List.map_id]
      intro entry hentry
      refine extendedSection_of_newEntries_eq_nil (newEntries_singleton_of_ne ?_)
      rintro hentry'
      exact hname (hentry' ▸ List.mem_map_of_mem hentry)
    simp only [withLabels, newSections, hname, if_false, hsame, ← hsections]

/-! ### Filling in -/

/-- The gaps among some dotted keys. -/
def gaps (dictionary : Dictionary) (texts : List String) : List LabelKey :=
  texts.filterMap dictionary.gap?

theorem mem_gaps_iff {texts : List String} :
    key ∈ dictionary.gaps texts ↔ dictionary.IsGap key ∧ key.dotted ∈ texts := by
  simp only [gaps, List.mem_filterMap, gap?_eq_some_iff]
  constructor
  · rintro ⟨text, htext, hkey, rfl⟩
    exact ⟨hkey, htext⟩
  · rintro ⟨hkey, htext⟩
    exact ⟨_, htext, hkey, rfl⟩

theorem IsGap.gaps_withLabel (hkey : dictionary.IsGap key) {texts : List String}
    (htexts : key.dotted ∉ texts) :
    (dictionary.withLabel key).gaps texts = dictionary.gaps texts := by
  refine List.filterMap_congr fun text htext ↦ Option.ext fun other ↦ ?_
  rw [hkey.gap?_withLabel_eq_some_iff, and_iff_left_iff_imp]
  rintro hother rfl
  exact htexts ((gap?_eq_some_iff.mp hother).2 ▸ htext)

theorem nodup_gaps {texts : List String} (h : texts.Nodup) : (dictionary.gaps texts).Nodup := by
  refine h.filterMap fun text text' key hkey hkey' ↦ ?_
  rw [← (gap?_eq_some_iff.mp hkey).2, ← (gap?_eq_some_iff.mp hkey').2]

/-- Filling in keys gives the dictionary with texts for the gaps among them, and those are the keys
that are reported as entered. -/
theorem backfill_eq_withLabels {dictionary : Dictionary}
    (hnodup : (dictionary.sections.map (·.1)).Nodup) {texts : List String} (htexts : texts.Nodup) :
    (dictionary.backfill texts).1 = dictionary.withLabels (dictionary.gaps texts) ∧
      (dictionary.backfill texts).2.filter Outcome.isInserted =
        (dictionary.gaps texts).map fun key ↦
          .inserted key.dotted (chooseLabel key.short).1 (chooseLabel key.short).2 := by
  induction texts generalizing dictionary with
  | nil => exact ⟨(withLabels_nil dictionary).symm, rfl⟩
  | cons text texts ih =>
    rw [List.nodup_cons] at htexts
    rw [backfill_cons]
    cases hgap : dictionary.gap? text with
    | none =>
      obtain ⟨hsame, hinserted⟩ := backfillKey_of_no_gap hgap
      rw [gaps, List.filterMap_cons_none hgap, hsame,
        List.filter_cons_of_neg (by simp [hinserted])]
      exact ih hnodup htexts.2
    | some key =>
      obtain ⟨hkey, rfl⟩ := gap?_eq_some_iff.mp hgap
      obtain ⟨hdictionary, houtcomes⟩ := ih (nodup_withLabel hnodup key) htexts.2
      rw [hkey.gaps_withLabel htexts.1] at hdictionary houtcomes
      rw [backfillKey_of_gap hgap, gaps, List.filterMap_cons_some hgap,
        List.filter_cons_of_pos rfl, List.map_cons]
      refine ⟨?_, by rw [houtcomes]; rfl⟩
      rw [hdictionary, withLabel_eq_withLabels hkey hnodup, withLabels_withLabels]
      rfl

/-- A key that names no gap is not reported as entered, and if no key names one, nothing happens. -/
theorem backfill_of_no_gap {texts : List String} (h : ∀ text ∈ texts, dictionary.gap? text = none) :
    (dictionary.backfill texts).1 = dictionary ∧
      isChangedBy (dictionary.backfill texts).2 = false := by
  induction texts with
  | nil => exact ⟨rfl, rfl⟩
  | cons text texts ih =>
    rw [List.forall_mem_cons] at h
    obtain ⟨hsame, hinserted⟩ := backfillKey_of_no_gap h.1
    rw [backfill_cons, hsame, isChangedBy, List.any_cons, hinserted]
    exact ih h.2

/-- A dictionary changes if there is a gap among the keys. -/
theorem isChangedBy_backfill (hnodup : (dictionary.sections.map (·.1)).Nodup) {texts : List String}
    (htexts : texts.Nodup) :
    isChangedBy (dictionary.backfill texts).2 = !(dictionary.gaps texts).isEmpty := by
  have hany : isChangedBy (dictionary.backfill texts).2 =
      !((dictionary.backfill texts).2.filter Outcome.isInserted).isEmpty := by
    rw [isChangedBy, Bool.eq_iff_iff]
    simp
  rw [hany, (backfill_eq_withLabels hnodup htexts).2, List.isEmpty_map]

/-- Filling in blocks no section and frees none. -/
theorem isBlocked_backfill (dictionary : Dictionary) (texts : List String) (name : String) :
    (dictionary.backfill texts).1.IsBlocked name ↔ dictionary.IsBlocked name := by
  induction texts generalizing dictionary with
  | nil => rfl
  | cons text texts ih =>
    rw [backfill_cons, ih]
    cases hgap : dictionary.gap? text with
    | none => rw [(backfillKey_of_no_gap hgap).1]
    | some key =>
      rw [backfillKey_of_gap hgap]
      exact isBlocked_setSection (gap?_eq_some_iff.mp hgap).1.not_isBlocked _ _

/-- The gaps after filling in keys are those that were not among the keys. -/
theorem isGap_backfill_iff {texts : List String} :
    (dictionary.backfill texts).1.IsGap key ↔ dictionary.IsGap key ∧ key.dotted ∉ texts := by
  constructor
  · rintro ⟨hkey, hopen, hnone⟩
    rw [isBlocked_backfill] at hopen
    rw [entry?_backfill] at hnone
    split_ifs at hnone with hgap
    have hisGap : dictionary.IsGap key := ⟨hkey, hopen, hnone⟩
    exact ⟨hisGap, fun hmem ↦ hgap ⟨gap?_eq_some_iff.mpr ⟨hisGap, rfl⟩, hmem⟩⟩
  · rintro ⟨hgap, hmem⟩
    refine ⟨hgap.isWellFormed, ?_, ?_⟩
    · rw [isBlocked_backfill]
      exact hgap.not_isBlocked
    · rw [entry?_backfill, if_neg fun h ↦ hmem h.2, hgap.entry?_eq_none]

/-- Filling in what is missing leaves nothing to fill in among the labels of the same
definitions. -/
theorem backfill_missing_twice {definitions : List Definition} {filled : Dictionary}
    (hfilled :
      (dictionary.backfill (missingKeys (definitions.flatMap dictionary.missing))).1 = filled) :
    (filled.backfill (missingKeys (definitions.flatMap filled.missing))).1 = filled ∧
      isChangedBy (filled.backfill (missingKeys (definitions.flatMap filled.missing))).2 =
        false := by
  refine backfill_of_no_gap fun text htext ↦ ?_
  rw [Option.eq_none_iff_forall_ne_some]
  intro key hkey
  obtain ⟨hgap, rfl⟩ := gap?_eq_some_iff.mp hkey
  obtain ⟨hbefore, hnot⟩ := isGap_backfill_iff.mp (hfilled ▸ hgap)
  obtain ⟨hreferenced, -⟩ := mem_missingKeys_iff.mp htext
  exact hnot (mem_missingKeys_iff.mpr ⟨hreferenced, hbefore.not_resolve_eq_found⟩)

end Dictionary

end CalculatorCatalog
