import CalculatorCatalog.Proofs.Command.Analyzing
import CalculatorCatalog.Proofs.Definition.FieldNumbers
import CalculatorCatalog.Proofs.Json.RoundTrip

/-!
# What a report gives back

A report writes each definition with all its names, its fields and its result labels.
`Definition.listed?` is how another tool reads the definitions in a report. `report_exact` says when
it finds them as they were: exactly if no definition gives two results the same name, since only one
of two labels of one name can be read, and if each number of a field is read back from its own text.
Of an infinite number, which is written as null, nothing is left.
-/

set_option autoImplicit false
set_option relaxedAutoImplicit false

namespace CalculatorCatalog

open CalculatorCatalog.Number

/-! ### What is read of arrays and objects -/

namespace Json

/-- The number that is not whole, or none for null. -/
def optionalFloat? : Json → Option (Option Binary64)
  | .null => some none
  | .float value => some (some value)
  | _ => none

/-- The truth value. -/
def bool? : Json → Option Bool
  | .bool value => some value
  | _ => none

/-- The members of an object. -/
def members? : Json → Option (List (String × Json))
  | .object members => some members
  | _ => none

theorem eq_of_float? {value : Json} {number : Binary64} (h : value.float? = some number) :
    value = .float number := by
  cases value with
  | float other => exact congrArg float (Option.some.inj h)
  | _ => cases h

theorem eq_of_optionalFloat? {value : Json} {number : Binary64}
    (h : value.optionalFloat? = some (some number)) : value = .float number := by
  cases value with
  | float other => exact congrArg float (Option.some.inj (Option.some.inj h))
  | _ => cases h

/-- What is not among the members that are read stays as it was. -/
theorem member?_of_rereadMembers {before members read : List (String × Json)} {name : String}
    (h : rereadMembers before members = .ok read) (hname : name ∉ members.map (·.1)) :
    member? name read = member? name before := by
  induction members generalizing before with
  | nil =>
    cases h
    rfl
  | cons member members ih =>
    obtain ⟨other, value⟩ := member
    obtain ⟨hother, hname⟩ := not_or.mp (List.mem_cons.not.mp hname)
    obtain ⟨shown, -, hrest⟩ := Files.bind_eq_ok_iff.mp h
    rw [ih hrest hname, member?_insert, if_neg hother]

/-- Of members with distinct names each is read as its own value is. -/
theorem exists_member?_of_rereadMembers {before members read : List (String × Json)}
    (h : rereadMembers before members = .ok read) (hnames : (members.map (·.1)).Nodup)
    {name : String} {value : Json} (hmem : (name, value) ∈ members) :
    ∃ shown, reread value = .ok shown ∧ member? name read = some shown := by
  induction members generalizing before with
  | nil => cases hmem
  | cons member members ih =>
    obtain ⟨other, old⟩ := member
    obtain ⟨hother, hnames⟩ := List.nodup_cons.mp hnames
    obtain ⟨shown, hshown, hrest⟩ := Files.bind_eq_ok_iff.mp h
    obtain heq | hmem := List.mem_cons.mp hmem
    · obtain ⟨rfl, rfl⟩ := Prod.mk.inj heq
      refine ⟨shown, hshown, ?_⟩
      rw [member?_of_rereadMembers hrest hother, member?_insert, if_pos rfl]
    · exact ih hrest hnames hmem

/-- What is read of the member of the given name. -/
def part? {α : Type} (name : String) (readPart : Json → Option α) (value : Json) : Option α :=
  (value.at? [name]).bind readPart

/-- What is read of the items of an array. -/
def listOf? {α : Type} (readItem : Json → Option α) (value : Json) : Option (List α) :=
  value.items?.bind (·.mapM readItem)

/-- What is found at a name has been read of the member with that name. -/
theorem exists_of_part?_reread {α : Type} {members : List (String × Json)} {value : Json}
    (h : reread (.object members) = .ok value) (hnames : (members.map (·.1)).Nodup)
    {name : String} {readPart : Json → Option α} {part : α}
    (hpart : value.part? name readPart = some part) {item : Json}
    (hitem : member? name members = some item) :
    ∃ shown, reread item = .ok shown ∧ readPart shown = some part := by
  obtain ⟨read, hread, hvalue⟩ := Files.bind_eq_ok_iff.mp h
  cases hvalue
  obtain ⟨shown, hshown, hmember⟩ :=
    exists_member?_of_rereadMembers hread hnames (mem_of_member? hitem)
  refine ⟨shown, hshown, ?_⟩
  simpa only [part?, at?, hmember, Option.bind_some] using hpart

/-- What is found in a list has been read of its items one by one. -/
theorem exists_of_listOf?_reread {α β : Type} {showItem : α → Json} {readItem : Json → Option β}
    {view : α → β} {items : List α} {value : Json}
    (hread : reread (.array (items.map showItem)) = .ok value)
    (hview : value.listOf? readItem = some (items.map view)) :
    ∀ item ∈ items, ∃ shown, reread (showItem item) = .ok shown ∧
      readItem shown = some (view item) := by
  obtain ⟨read, hitems, hvalue⟩ := Files.bind_eq_ok_iff.mp hread
  cases hvalue
  change read.mapM readItem = _ at hview
  clear hread
  induction items generalizing read with
  | nil => exact fun item hitem ↦ absurd hitem List.not_mem_nil
  | cons first items ih =>
    obtain ⟨shown, hshown, hitems⟩ := Files.bind_eq_ok_iff.mp hitems
    obtain ⟨later, hlater, hread⟩ := Files.bind_eq_ok_iff.mp hitems
    cases hread
    rw [List.mapM_cons, List.map_cons] at hview
    obtain ⟨firstView, hfirst, hview⟩ := Option.bind_eq_some_iff.mp hview
    obtain ⟨laterViews, hviews, heq⟩ := Option.bind_eq_some_iff.mp hview
    obtain ⟨rfl, rfl⟩ := List.cons.inj (Option.some.inj heq)
    exact List.forall_mem_cons.mpr ⟨⟨shown, hshown, hfirst⟩, ih later hlater hviews⟩

theorem listOf?_map {α β : Type} {showItem : α → Json} {readItem : Json → Option β} {view : α → β}
    (h : ∀ item, readItem (showItem item) = some (view item)) (items : List α) :
    (array (items.map showItem)).listOf? readItem = some (items.map view) :=
  mapM_eq_some_map h items

/-- The names that are read are distinct. -/
theorem nodup_of_rereadMembers {before members read : List (String × Json)}
    (h : rereadMembers before members = .ok read) (hbefore : (before.map (·.1)).Nodup) :
    (read.map (·.1)).Nodup := by
  induction members generalizing before with
  | nil =>
    cases h
    exact hbefore
  | cons member members ih =>
    obtain ⟨shown, -, hrest⟩ := Files.bind_eq_ok_iff.mp h
    exact ih hrest (nodup_insert hbefore member.1 shown)

/-- A number that is found again is read back from its own text. -/
theorem keepsNumber_of_reread {number : Binary64} {value : Json}
    (hread : reread (.float number) = .ok value) (hvalue : value.float? = some number) :
    KeepsNumber number := by
  rw [KeepsNumber, ← eq_of_float? hvalue]
  exact hread

end Json

/-! ### Fields -/

namespace Field

/-- Reads a field in a report. -/
def ofJson? (value : Json) : Option Field := do
  let key ← value.part? "key" Json.text?
  let labelKey ← value.part? "labelKey" Json.text?
  let defaultValue ← value.part? "defaultValue" Json.float?
  let minValue ← value.part? "minValue" Json.optionalFloat?
  let maxValue ← value.part? "maxValue" Json.optionalFloat?
  let required ← value.part? "required" Json.bool?
  return ⟨key, labelKey, defaultValue, minValue, maxValue, required⟩

theorem optionalFloat?_boundJson (bound : Option Binary64) :
    (boundJson bound).optionalFloat? = some bound := by
  cases bound <;> rfl

theorem ofJson?_toJson (field : Field) : ofJson? field.toJson = some field := by
  have hmin : field.toJson.part? "minValue" Json.optionalFloat? = some field.minValue :=
    optionalFloat?_boundJson field.minValue
  have hmax : field.toJson.part? "maxValue" Json.optionalFloat? = some field.maxValue :=
    optionalFloat?_boundJson field.maxValue
  rw [ofJson?, hmin, hmax]
  rfl

theorem distinct_toJson (field : Field) : field.toJson.Distinct := by
  have hbound : ∀ bound, (boundJson bound).Distinct := by
    rintro (- | value) <;> trivial
  simp [toJson, Json.Distinct, Json.DistinctMembers, hbound]

theorem isKept_toJson {field : Field} (h : ∀ number ∈ field.numbers, Json.KeepsNumber number) :
    field.toJson.IsKept := by
  have hbound : ∀ bound : Option Binary64,
      (∀ number ∈ bound.toList, Json.KeepsNumber number) → (boundJson bound).IsKept := by
    rintro (- | number) hnumber
    · exact .null
    · exact .float (hnumber number (List.mem_singleton_self number))
  simp only [numbers, List.forall_mem_cons, List.forall_mem_append] at h
  obtain ⟨hdefault, hmin, hmax⟩ := h
  refine .object ?_
  simp only [List.forall_mem_cons]
  exact ⟨.string _, .string _, .float hdefault, hbound _ hmin, hbound _ hmax, .bool _,
    List.forall_mem_nil _⟩

theorem fitsAt_toJson (field : Field) : field.toJson.FitsAt 4 := by
  have hbound : ∀ bound, (boundJson bound).FitsAt 5 := by
    rintro (- | number)
    · exact .null 5
    · exact .float 5 number
  refine .object (by decide) ?_
  simp only [List.forall_mem_cons]
  exact ⟨.string 5 _, .string 5 _, .float 5 _, hbound _, hbound _, .bool 5 _,
    List.forall_mem_nil _⟩

/-- A number that is found again has been kept. -/
theorem keepsNumber_of_bound {bound : Option Binary64} {value : Json}
    (hread : Json.reread (boundJson bound) = .ok value)
    (hvalue : value.optionalFloat? = some bound) :
    ∀ number ∈ bound.toList, Json.KeepsNumber number := by
  intro number hnumber
  obtain rfl := Option.mem_toList.mp hnumber
  rw [Json.KeepsNumber, ← Json.eq_of_optionalFloat? hvalue]
  exact hread

/-- The numbers of a field that is found again are kept. -/
theorem keepsNumber_of_reread {field : Field} {value : Json}
    (hread : Json.reread field.toJson = .ok value) (hvalue : ofJson? value = some field) :
    ∀ number ∈ field.numbers, Json.KeepsNumber number := by
  obtain ⟨hnames, -⟩ := Json.distinct_object_iff.mp field.distinct_toJson
  simp only [ofJson?, Option.bind_eq_bind, Option.bind_eq_some_iff, Option.pure_def,
    Option.some.injEq] at hvalue
  obtain ⟨_, -, _, -, number, hdefault, least, hmin, greatest, hmax, _, -, rfl⟩ := hvalue
  obtain ⟨shown, hshown, hnumber⟩ := Json.exists_of_part?_reread hread hnames hdefault rfl
  obtain ⟨shownMin, hshownMin, hleast⟩ := Json.exists_of_part?_reread hread hnames hmin rfl
  obtain ⟨shownMax, hshownMax, hgreatest⟩ :=
    Json.exists_of_part?_reread hread hnames hmax rfl
  simp only [numbers, List.forall_mem_cons, List.forall_mem_append]
  exact ⟨Json.keepsNumber_of_reread hshown hnumber, keepsNumber_of_bound hshownMin hleast,
    keepsNumber_of_bound hshownMax hgreatest⟩

end Field

/-! ### Definitions -/

/-- Reads a result label from a member of an object. -/
def ResultLabel.ofMember? (member : String × Json) : Option ResultLabel := do
  return ⟨member.1, ← member.2.text?⟩

/-- Reads result labels from an object. -/
def ResultLabel.listOf? (value : Json) : Option (List ResultLabel) :=
  value.members?.bind (·.mapM ofMember?)

theorem ResultLabel.names_of_mapM {members : List (String × Json)} {labels : List ResultLabel}
    (h : members.mapM ofMember? = some labels) : members.map (·.1) = labels.map (·.name) := by
  induction members generalizing labels with
  | nil =>
    obtain rfl := Option.some.inj h
    rfl
  | cons member members ih =>
    rw [List.mapM_cons] at h
    obtain ⟨label, hlabel, h⟩ := Option.bind_eq_some_iff.mp h
    obtain ⟨later, hlater, h⟩ := Option.bind_eq_some_iff.mp h
    obtain ⟨text, -, hname⟩ := Option.bind_eq_some_iff.mp hlabel
    obtain rfl := Option.some.inj h
    obtain rfl := Option.some.inj hname
    rw [List.map_cons, List.map_cons, ih hlater]

namespace Definition

/-- Reads a definition in a report, which does not tell its column. -/
def ofJson? (value : Json) : Option Definition := do
  let id ← value.part? "id" Json.text?
  let titleKey ← value.part? "titleKey" Json.text?
  let category ← value.part? "category" Json.text?
  let subCategory ← value.part? "subCategory" Json.text?
  let computation ← value.part? "computationRef" Json.optionalText?
  let fields ← value.part? "fields" (Json.listOf? Field.ofJson?)
  let resultLabels ← value.part? "resultLabels" ResultLabel.listOf?
  let file ← value.part? "file" Json.text?
  let line ← value.part? "line" (Json.countAt? [])
  return ⟨id, titleKey, category, subCategory, computation, fields, resultLabels, ⟨file, line, 0⟩⟩

/-- Reads the definitions in a report. -/
def listed? (report : Json) : Option (List Definition) :=
  report.part? "definitions" (Json.listOf? ofJson?)

/-- What a report shows of a definition: all of it but the column. -/
def shown (definition : Definition) : Definition :=
  { definition with location := ⟨definition.location.file, definition.location.line, 0⟩ }

/-- No two results of the definition have one name. -/
def NamesResultsOnce (definition : Definition) : Prop :=
  (definition.resultLabels.map (·.name)).Nodup

instance : DecidablePred NamesResultsOnce := fun definition ↦
  inferInstanceAs (Decidable (definition.resultLabels.map (·.name)).Nodup)

/-- Result labels are found again in the object that is written for them. -/
theorem listOf?_resultLabelsJson (definition : Definition) :
    ResultLabel.listOf? definition.resultLabelsJson = some definition.resultLabels := by
  have hlabels := @mapM_eq_some_map _ _ _
    (fun label : ResultLabel ↦ (label.name, Json.string label.labelKey)) ResultLabel.ofMember?
    (fun label ↦ label) (fun _ ↦ rfl) definition.resultLabels
  rwa [List.map_id'] at hlabels

end Definition

namespace AnalyzedDefinition

theorem ofJson?_toJson (analyzed : AnalyzedDefinition) :
    Definition.ofJson? analyzed.toJson = some analyzed.definition.shown := by
  have hcomputation : analyzed.toJson.part? "computationRef" Json.optionalText? =
      some analyzed.definition.computation := Json.optionalText?_ofOption _
  have hfields : analyzed.toJson.part? "fields" (Json.listOf? Field.ofJson?) =
      some (analyzed.definition.fields.map id) := Json.listOf?_map Field.ofJson?_toJson _
  have hlabels : analyzed.toJson.part? "resultLabels" ResultLabel.listOf? =
      some analyzed.definition.resultLabels := analyzed.definition.listOf?_resultLabelsJson
  rw [Definition.ofJson?, hcomputation, hfields, hlabels, List.map_id]
  rfl

theorem distinct_toJson_iff (analyzed : AnalyzedDefinition) :
    analyzed.toJson.Distinct ↔ analyzed.definition.NamesResultsOnce := by
  have hoption : ∀ text, (Json.ofOption text).Distinct := by
    rintro (- | text) <;> trivial
  have hstrings : ∀ texts, (Json.ofStrings texts).Distinct := by
    intro texts
    rw [Json.ofStrings, Json.Distinct, Json.distinctItems_iff, List.forall_mem_map]
    exact fun text _ ↦ trivial
  have hcomputation : analyzed.computation.toJson.Distinct := by
    cases analyzed.computation <;>
      simp [Computation.toJson, Json.Distinct, Json.DistinctMembers, hstrings]
  have hfields : Json.DistinctItems (analyzed.definition.fields.map Field.toJson) := by
    rw [Json.distinctItems_iff, List.forall_mem_map]
    exact fun field _ ↦ field.distinct_toJson
  have hlabels : analyzed.definition.resultLabelsJson.Distinct ↔
      analyzed.definition.NamesResultsOnce := by
    rw [Definition.resultLabelsJson, Json.distinct_object_iff, List.map_map, List.forall_mem_map]
    exact and_iff_left fun label _ ↦ trivial
  simp [toJson, Definition.jsonMembers, Json.Distinct, Json.DistinctMembers, hoption, hstrings,
    hcomputation, hfields, hlabels]

theorem isKept_toJson {analyzed : AnalyzedDefinition}
    (h : ∀ number ∈ analyzed.definition.numbers, Json.KeepsNumber number) :
    analyzed.toJson.IsKept := by
  have hoption : ∀ text, (Json.ofOption text).IsKept := by
    rintro (- | text)
    · exact .null
    · exact .string text
  have hstrings : ∀ texts, (Json.ofStrings texts).IsKept :=
    fun texts ↦ .array (List.forall_mem_map.mpr fun text _ ↦ .string text)
  have hcomputation : analyzed.computation.toJson.IsKept := by
    refine .object ?_
    cases analyzed.computation <;>
      simp only [List.forall_mem_append, List.forall_mem_cons]
    · exact ⟨⟨.bool _, .bool _, hstrings _, List.forall_mem_nil _⟩, List.forall_mem_nil _⟩
    · exact ⟨⟨.bool _, .bool _, hstrings _, List.forall_mem_nil _⟩, .integer _,
        List.forall_mem_nil _⟩
  have hfields : (Json.array (analyzed.definition.fields.map Field.toJson)).IsKept :=
    .array (List.forall_mem_map.mpr fun field hfield ↦ Field.isKept_toJson fun number hnumber ↦
      h number (List.mem_flatMap.mpr ⟨field, hfield, hnumber⟩))
  have hlabels : analyzed.definition.resultLabelsJson.IsKept :=
    .object (List.forall_mem_map.mpr fun label _ ↦ .string label.labelKey)
  refine .object (List.forall_mem_append.mpr ⟨?_, ?_⟩)
  · simp only [Definition.jsonMembers, List.forall_mem_cons]
    exact ⟨.string _, .string _, .string _, .string _, hoption _, hfields, hlabels, .string _,
      .integer _, List.forall_mem_nil _⟩
  · simp only [List.forall_mem_cons]
    refine ⟨.string _, hcomputation, .object ?_, List.forall_mem_nil _⟩
    simp only [List.forall_mem_cons]
    exact ⟨hoption _, hstrings _, List.forall_mem_nil _⟩

/-- The line of the definition and the size of its computation fit 64 bits. -/
structure FitsWords (analyzed : AnalyzedDefinition) : Prop where
  line : Json.FitsInteger analyzed.definition.location.line
  size : ∀ citations size, analyzed.computation = .found citations size → Json.FitsInteger size

theorem FitsWords.fitsAt_toJson {analyzed : AnalyzedDefinition} (h : analyzed.FitsWords) :
    analyzed.toJson.FitsAt 2 := by
  have hoption : ∀ depth text, (Json.ofOption text).FitsAt depth := by
    rintro depth (- | text)
    · exact .null depth
    · exact .string depth text
  have hstrings : ∀ texts, (Json.ofStrings texts).FitsAt 4 :=
    fun texts ↦ .array (by decide) (List.forall_mem_map.mpr fun text _ ↦ .string 5 text)
  have hcomputation : analyzed.computation.toJson.FitsAt 3 := by
    refine .object (by decide) ?_
    cases hcomputation : analyzed.computation with
    | missing =>
      simp only [List.forall_mem_append, List.forall_mem_cons]
      exact ⟨⟨.bool 4 _, .bool 4 _, hstrings _, List.forall_mem_nil _⟩, List.forall_mem_nil _⟩
    | found citations size =>
      simp only [List.forall_mem_append, List.forall_mem_cons]
      exact ⟨⟨.bool 4 _, .bool 4 _, hstrings _, List.forall_mem_nil _⟩,
        .integer 4 (h.size citations size hcomputation), List.forall_mem_nil _⟩
  have hfields : (Json.array (analyzed.definition.fields.map Field.toJson)).FitsAt 3 :=
    .array (by decide) (List.forall_mem_map.mpr fun field _ ↦ field.fitsAt_toJson)
  have hlabels : analyzed.definition.resultLabelsJson.FitsAt 3 :=
    .object (by decide) (List.forall_mem_map.mpr fun label _ ↦ .string 4 label.labelKey)
  refine .object (by decide) (List.forall_mem_append.mpr ⟨?_, ?_⟩)
  · simp only [Definition.jsonMembers, List.forall_mem_cons]
    exact ⟨.string 3 _, .string 3 _, .string 3 _, .string 3 _, hoption 3 _, hfields, hlabels,
      .string 3 _, .integer 3 h.line, List.forall_mem_nil _⟩
  · simp only [List.forall_mem_cons]
    refine ⟨.string 3 _, hcomputation, .object (by decide) ?_, List.forall_mem_nil _⟩
    simp only [List.forall_mem_cons]
    exact ⟨hoption 4 _, hstrings _, List.forall_mem_nil _⟩

/-- A definition that is found again has names for its results once, and its numbers are kept. -/
theorem of_reread {analyzed : AnalyzedDefinition} {value : Json}
    (hread : Json.reread analyzed.toJson = .ok value)
    (hvalue : Definition.ofJson? value = some analyzed.definition.shown) :
    analyzed.definition.NamesResultsOnce ∧
      ∀ number ∈ analyzed.definition.numbers, Json.KeepsNumber number := by
  have hnames : ["id", "titleKey", "category", "subCategory", "computationRef", "fields",
      "resultLabels", "file", "line", "module", "computation", "translations"].Nodup := by decide
  simp only [Definition.ofJson?, Option.bind_eq_bind, Option.bind_eq_some_iff, Option.pure_def,
    Option.some.injEq] at hvalue
  obtain ⟨_, -, _, -, _, -, _, -, _, -, fields, hfields, labels, hlabels, _, -, _, -, heq⟩ := hvalue
  have hsameFields : fields = analyzed.definition.fields := congrArg Definition.fields heq
  have hsameLabels : labels = analyzed.definition.resultLabels :=
    congrArg Definition.resultLabels heq
  rw [hsameFields] at hfields
  rw [hsameLabels] at hlabels
  obtain ⟨shown, hshown, hlist⟩ := Json.exists_of_part?_reread hread hnames hfields rfl
  obtain ⟨shownLabels, hshownLabels, hlabels⟩ :=
    Json.exists_of_part?_reread hread hnames hlabels rfl
  refine ⟨?_, fun number hnumber ↦ ?_⟩
  · obtain ⟨members, hmembers, heq⟩ := Files.bind_eq_ok_iff.mp hshownLabels
    cases heq
    rw [Definition.NamesResultsOnce, ← ResultLabel.names_of_mapM hlabels]
    exact Json.nodup_of_rereadMembers hmembers List.nodup_nil
  · obtain ⟨field, hfield, hnumber⟩ := List.mem_flatMap.mp hnumber
    rw [← List.map_id analyzed.definition.fields] at hlist
    obtain ⟨shownField, hread, hvalue⟩ := Json.exists_of_listOf?_reread hshown hlist field hfield
    exact Field.keepsNumber_of_reread hread hvalue number hnumber

end AnalyzedDefinition

/-! ### Reports -/

namespace Analysis

/-- All that a report counts fits 64 bits. -/
structure FitsWords (analysis : Analysis) : Prop where
  definitions : ∀ analyzed ∈ analysis.definitions, analyzed.FitsWords
  total : Json.FitsInteger analysis.total
  missingKeys : Json.FitsInteger analysis.missingKeys
  dropped : Json.FitsInteger analysis.dropped

theorem FitsWords.fitsAt_toJson {analysis : Analysis} (h : analysis.FitsWords) :
    analysis.toJson.FitsAt 0 := by
  have hless : ∀ count ≤ analysis.total, Json.FitsInteger count := by
    intro count hcount
    obtain ⟨-, hupper⟩ := h.total
    constructor <;> omega
  have hdefinitions : (Json.array
      (analysis.definitions.map AnalyzedDefinition.toJson)).FitsAt 1 :=
    .array (by decide) (List.forall_mem_map.mpr fun analyzed hmem ↦
      (h.definitions analyzed hmem).fitsAt_toJson)
  refine .object (by decide) ?_
  simp only [List.forall_mem_cons]
  refine ⟨.integer 1 h.total, hdefinitions, .object (by decide) ?_, List.forall_mem_nil _⟩
  simp only [List.forall_mem_cons]
  exact ⟨.integer 2 h.total, .integer 2 (hless _ List.countP_le_length),
    .integer 2 (hless _ (Nat.sub_le _ _)), .integer 2 (hless _ List.countP_le_length),
    .integer 2 h.missingKeys, .integer 2 h.dropped, List.forall_mem_nil _⟩

theorem distinct_toJson_iff (analysis : Analysis) :
    analysis.toJson.Distinct ↔
      ∀ analyzed ∈ analysis.definitions, analyzed.definition.NamesResultsOnce := by
  have hdefinitions : Json.DistinctItems (analysis.definitions.map AnalyzedDefinition.toJson) ↔
      ∀ analyzed ∈ analysis.definitions, analyzed.definition.NamesResultsOnce := by
    rw [Json.distinctItems_iff, List.forall_mem_map]
    simp only [AnalyzedDefinition.distinct_toJson_iff]
  simp [toJson, Json.Distinct, Json.DistinctMembers, hdefinitions]

theorem isKept_toJson {analysis : Analysis}
    (h : ∀ analyzed ∈ analysis.definitions, ∀ number ∈ analyzed.definition.numbers,
      Json.KeepsNumber number) : analysis.toJson.IsKept := by
  have hdefinitions : (Json.array
      (analysis.definitions.map AnalyzedDefinition.toJson)).IsKept :=
    .array (List.forall_mem_map.mpr fun analyzed hmem ↦
      AnalyzedDefinition.isKept_toJson (h analyzed hmem))
  refine .object ?_
  simp only [List.forall_mem_cons]
  refine ⟨.integer _, hdefinitions, .object ?_, List.forall_mem_nil _⟩
  simp only [List.forall_mem_cons]
  exact ⟨.integer _, .integer _, .integer _, .integer _, .integer _, .integer _,
    List.forall_mem_nil _⟩

/-- Another tool that reads the report finds all definitions as they were. -/
def IsRecovered (analysis : Analysis) : Prop :=
  ∃ value, Json.read analysis.toText = .ok value ∧
    Definition.listed? value = some (analysis.definitions.map (·.definition.shown))

theorem isRecovered_iff {analysis : Analysis} (h : analysis.FitsWords) :
    analysis.IsRecovered ↔ ∀ analyzed ∈ analysis.definitions,
      analyzed.definition.NamesResultsOnce ∧
        ∀ number ∈ analyzed.definition.numbers, Json.KeepsNumber number := by
  have hread : Json.read analysis.toText = Json.reread analysis.toJson :=
    Json.read_pretty_eq_reread h.fitsAt_toJson
  rw [IsRecovered, hread]
  constructor
  · rintro ⟨value, hvalue, hlisted⟩ analyzed hmem
    have hnames : ["totalDefinitions", "definitions", "summary"].Nodup := by decide
    obtain ⟨shown, hshown, hlist⟩ := Json.exists_of_part?_reread hvalue hnames hlisted rfl
    obtain ⟨entry, hentry, hdefinition⟩ := Json.exists_of_listOf?_reread hshown hlist analyzed hmem
    exact AnalyzedDefinition.of_reread hentry hdefinition
  · intro hall
    have hkept : analysis.toJson.IsKept := isKept_toJson fun analyzed hmem ↦ (hall analyzed hmem).2
    have hdistinct : analysis.toJson.Distinct :=
      analysis.distinct_toJson_iff.mpr fun analyzed hmem ↦ (hall analyzed hmem).1
    refine ⟨analysis.toJson, Json.reread_of_isKept hkept hdistinct, ?_⟩
    exact Json.listOf?_map AnalyzedDefinition.ofJson?_toJson analysis.definitions

/-- The label keys that another tool finds in the report, definition by definition. -/
def foundLabelKeys? (analysis : Analysis) : Option (List (List (LabelRole × String))) :=
  ((Json.read analysis.toText).toOption.bind Definition.listed?).map (·.map Definition.labelKeys)

theorem IsRecovered.foundLabelKeys?_eq {analysis : Analysis} (h : analysis.IsRecovered) :
    analysis.foundLabelKeys? = some (analysis.definitions.map (·.definition.labelKeys)) := by
  obtain ⟨value, hread, hlisted⟩ := h
  rw [foundLabelKeys?, hread, Except.toOption, Option.bind_some, hlisted, Option.map_some,
    List.map_map]
  rfl

/-- No object in a report has two members of one name exactly if no definition in it gives two
results the same name. The report gives all definitions back exactly if, besides, each number of
their fields is read back from its own text, and with them it gives all their label keys. -/
theorem report_exact {analysis : Analysis} (h : analysis.FitsWords) :
    (analysis.toJson.Distinct ↔
      ∀ analyzed ∈ analysis.definitions, analyzed.definition.NamesResultsOnce) ∧
    (analysis.IsRecovered ↔ ∀ analyzed ∈ analysis.definitions,
      analyzed.definition.NamesResultsOnce ∧
        ∀ number ∈ analyzed.definition.numbers, Json.KeepsNumber number) ∧
    (analysis.IsRecovered →
      analysis.foundLabelKeys? = some (analysis.definitions.map (·.definition.labelKeys))) ∧
    ∀ analyzed ∈ analysis.definitions,
      (∃ file content, analyzed.definition ∈ (Definition.extract file content).definitions) →
        ∀ number ∈ analyzed.definition.numbers,
          (∃ negative, number = .infinite negative) ∧ ¬Json.KeepsNumber number ∨
            Json.WritesNearest number ∧ (number.IsShort → Json.KeepsNumber number) := by
  refine ⟨analysis.distinct_toJson_iff, isRecovered_iff h, IsRecovered.foundLabelKeys?_eq, ?_⟩
  rintro analyzed - ⟨file, content, hmem⟩ number hnumber
  exact Json.text_of_isRounded (Definition.isRounded_of_mem_extract hmem number hnumber)

/-- A report on one definition, with no computation and no texts. -/
def bareReport (definition : Definition) : Analysis :=
  ⟨[⟨definition, ".", .missing, none, definition.labelKeys.map (·.2)⟩], 0⟩

theorem fitsWords_bareReport {definition : Definition}
    (hline : Json.FitsInteger definition.location.line)
    (hkeys : Json.FitsInteger definition.labelKeys.length) :
    (bareReport definition).FitsWords where
  definitions := List.forall_mem_singleton.mpr ⟨hline, nofun⟩
  total := (by decide : Json.FitsInteger (1 : Nat))
  missingKeys := by simpa [missingKeys, bareReport] using hkeys
  dropped := (by decide : Json.FitsInteger (0 : Nat))

/-- The source of a definition with a field that has bounds and with two results. -/
def pairSource : String :=
  "[CalculatorDefinition(id: 'a', titleKey: 't', resultLabels: \x7b'r': 'x.y', 's': 'z.w'\x7d,
fields: [InputFieldDefinition(key: 'k', labelKey: 'u.v', minValue: 0.25, maxValue: 120)])];"

/-- The definition in the source. -/
def pairDefinition : Definition :=
  ⟨"a", "t", "", "", none, [⟨"k", "u.v", .finite false 0, some (.ofDecimal false 25 (-2)),
    some (.ofDecimal false 120 0), true⟩], [⟨"r", "x.y"⟩, ⟨"s", "z.w"⟩], ⟨"a.dart", 1, 2⟩⟩

/-- The definition is read back from its report, with its bounds and both labels. -/
theorem report_exact_pairDefinition :
    (Definition.extract "a.dart" pairSource).definitions = [pairDefinition] ∧
      (bareReport pairDefinition).IsRecovered ∧
      (bareReport pairDefinition).foundLabelKeys? =
        some [[(.title, "t"), (.field, "u.v"), (.result, "x.y"), (.result, "z.w")]] := by
  have hfits : (bareReport pairDefinition).FitsWords :=
    fitsWords_bareReport (by decide) (by decide)
  have hextract : (Definition.extract "a.dart" pairSource).definitions = [pairDefinition] := by
    decide +kernel
  have hshort : ∀ number ∈ pairDefinition.numbers, number.IsShort := by decide +kernel
  obtain ⟨-, hrecovered, hlabels, hnumbers⟩ := report_exact hfits
  have hkept : ∀ number ∈ pairDefinition.numbers, Json.KeepsNumber number := by
    intro number hnumber
    have hextracted : pairDefinition ∈ (Definition.extract "a.dart" pairSource).definitions :=
      hextract ▸ List.mem_singleton_self pairDefinition
    obtain ⟨⟨negative, rfl⟩, -⟩ | ⟨-, hkeeps⟩ :=
      hnumbers _ List.mem_cons_self ⟨_, _, hextracted⟩ number hnumber
    · exact (hshort _ hnumber).elim
    · exact hkeeps (hshort number hnumber)
  have hfound : (bareReport pairDefinition).IsRecovered :=
    hrecovered.mpr (List.forall_mem_singleton.mpr ⟨by decide, hkept⟩)
  exact ⟨hextract, hfound, hlabels hfound⟩

/-- The source of a definition with two results of one name. -/
def twinSource : String :=
  "[CalculatorDefinition(id: 'a', titleKey: 't', resultLabels: \x7b'r': 'x.y', 'r': 'z.w'\x7d)];"

/-- The definition in the source. -/
def twinDefinition : Definition :=
  ⟨"a", "t", "", "", none, [], [⟨"r", "x.y"⟩, ⟨"r", "z.w"⟩], ⟨"a.dart", 1, 2⟩⟩

/-- Of two labels of one name only the second is read back: the report has an object with two
members of one name, and a label key is lost. -/
theorem not_isRecovered_twinDefinition :
    (Definition.extract "a.dart" twinSource).definitions = [twinDefinition] ∧
      ¬(bareReport twinDefinition).toJson.Distinct ∧ ¬(bareReport twinDefinition).IsRecovered ∧
      twinDefinition.labelKeys = [(.title, "t"), (.result, "x.y"), (.result, "z.w")] ∧
      (bareReport twinDefinition).foundLabelKeys? = some [[(.title, "t"), (.result, "z.w")]] := by
  have hfits : (bareReport twinDefinition).FitsWords :=
    fitsWords_bareReport (by decide) (by decide)
  have htwins : ¬twinDefinition.NamesResultsOnce := by decide
  have hread : Json.read (bareReport twinDefinition).toText =
      Json.reread (bareReport twinDefinition).toJson :=
    Json.read_pretty_eq_reread hfits.fitsAt_toJson
  refine ⟨by decide +kernel, fun hdistinct ↦ ?_, fun hrecovered ↦ ?_, rfl, ?_⟩
  · exact htwins ((distinct_toJson_iff _).mp hdistinct _ List.mem_cons_self)
  · exact htwins ((isRecovered_iff hfits).mp hrecovered _ List.mem_cons_self).1
  · rw [foundLabelKeys?, hread]
    rfl

end Analysis

end CalculatorCatalog
