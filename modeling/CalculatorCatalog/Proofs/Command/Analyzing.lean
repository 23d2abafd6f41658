import CalculatorCatalog.Proofs.Command.Footprint
import CalculatorCatalog.Proofs.Command.Printing
import CalculatorCatalog.Proofs.Dictionary.Filling
import Mathlib.Algebra.GroupWithZero.Nat

/-!
# What an analysis tells

An analysis tells the same thing three times: in the report that it writes, in the issues and the
summary that it prints, and in its exit code. `ReportView` is what other tools read in a report, and
`ReportView.Agrees` says that its numbers are those of the result: the missing keys that it counts
are the keys that its entries list and the issues about keys, and the declarations that it counts as
dropped are the issues about dropped definitions. `ReportView.ShownBy` says the same of the text
that is printed: every issue has a heading there, and the numbers in its last lines are those of the
report.

`run_analyze_agrees` says that every analysis that succeeds agrees in this way, and that it fails by
its exit code exactly if some definition refers to a proper key without a text.
-/

set_option autoImplicit false
set_option relaxedAutoImplicit false

namespace CalculatorCatalog

open CalculatorCatalog.Files

/-! ### Reading a report -/

namespace Json

/-- What a value holds under names, each inside what the one before it stands for. -/
def at? : List String → Json → Option Json
  | [], value => some value
  | name :: names, .object members => (member? name members).bind (at? names)
  | _ :: _, _ => none

/-- The number at a place. -/
def countAt? (names : List String) (value : Json) : Option Nat :=
  match value.at? names with
  | some (.integer count) => count.toNat?
  | _ => none

/-- The text of a string. -/
def text? : Json → Option String
  | .string text => some text
  | _ => none

/-- The text of a string, or none for null. -/
def optionalText? : Json → Option (Option String)
  | .null => some none
  | .string text => some (some text)
  | _ => none

/-- The items of an array. -/
def items? : Json → Option (List Json)
  | .array items => some items
  | _ => none

theorem optionalText?_ofOption (text : Option String) :
    (Json.ofOption text).optionalText? = some text := by
  cases text <;> rfl

end Json

/-- What has been shown item by item is read back item by item. -/
theorem mapM_eq_some_map {α β γ : Type} {showItem : α → β} {read : β → Option γ} {view : α → γ}
    (h : ∀ item, read (showItem item) = some (view item)) (items : List α) :
    (items.map showItem).mapM read = some (items.map view) := by
  induction items with
  | nil => rfl
  | cons item items ih =>
    rw [List.map_cons, List.mapM_cons, h, ih]
    rfl

/-- What a report says about the texts of a definition. -/
structure ReportEntry where
  titleKey : String
  title : Option String
  /-- The label keys without a text. -/
  missing : List String
  deriving DecidableEq, Repr

/-- What a report says: its entries, and the numbers in its summary. -/
structure ReportView where
  entries : List ReportEntry
  total : Nat
  withNorms : Nat
  withUnresolvedNorms : Nat
  missingKeys : Nat
  dropped : Nat
  deriving DecidableEq, Repr

/-- Reads an entry of a report. -/
def ReportEntry.ofJson? (value : Json) : Option ReportEntry := do
  let titleKey ← (← value.at? ["titleKey"]).text?
  let title ← (← value.at? ["translations", "title"]).optionalText?
  let missing ← (← (← value.at? ["translations", "missing"]).items?).mapM Json.text?
  return ⟨titleKey, title, missing⟩

/-- Reads a report. -/
def ReportView.ofJson? (value : Json) : Option ReportView := do
  let entries ← (← (← value.at? ["definitions"]).items?).mapM ReportEntry.ofJson?
  let total ← value.countAt? ["summary", "totalDefinitions"]
  let withNorms ← value.countAt? ["summary", "withNorms"]
  let withUnresolvedNorms ← value.countAt? ["summary", "withUnresolvedNorms"]
  let missingKeys ← value.countAt? ["summary", "missingKeys"]
  let dropped ← value.countAt? ["summary", "droppedDeclarations"]
  return ⟨entries, total, withNorms, withUnresolvedNorms, missingKeys, dropped⟩

/-- What the report says about a definition. -/
def AnalyzedDefinition.view (analyzed : AnalyzedDefinition) : ReportEntry :=
  ⟨analyzed.definition.titleKey, analyzed.title, analyzed.missing⟩

theorem ReportEntry.ofJson?_toJson (analyzed : AnalyzedDefinition) :
    ReportEntry.ofJson? analyzed.toJson = some analyzed.view := by
  have htitleKey : analyzed.toJson.at? ["titleKey"] =
      some (.string analyzed.definition.titleKey) := rfl
  have htitle : analyzed.toJson.at? ["translations", "title"] =
      some (Json.ofOption analyzed.title) := rfl
  have hmissing : analyzed.toJson.at? ["translations", "missing"] =
      some (.array (analyzed.missing.map .string)) := rfl
  have htexts : (analyzed.missing.map Json.string).mapM Json.text? =
      some (analyzed.missing.map id) :=
    @mapM_eq_some_map _ _ _ Json.string Json.text? id (fun _ ↦ rfl) analyzed.missing
  simp only [ofJson?, htitleKey, htitle, hmissing, Option.bind_eq_bind, Option.bind_some,
    Json.items?, Json.optionalText?_ofOption, htexts, List.map_id]
  rfl

/-- What the report says about the definitions of a project. -/
def Analysis.view (analysis : Analysis) : ReportView where
  entries := analysis.definitions.map AnalyzedDefinition.view
  total := analysis.total
  withNorms := analysis.withNorms
  withUnresolvedNorms := analysis.total - analysis.withNorms
  missingKeys := analysis.missingKeys
  dropped := analysis.dropped

theorem ReportView.ofJson?_toJson (analysis : Analysis) :
    ReportView.ofJson? analysis.toJson = some analysis.view := by
  have hentries := mapM_eq_some_map ReportEntry.ofJson?_toJson analysis.definitions
  have hdefinitions : analysis.toJson.at? ["definitions"] =
      some (.array (analysis.definitions.map AnalyzedDefinition.toJson)) := rfl
  have htotal : analysis.toJson.countAt? ["summary", "totalDefinitions"] =
      some analysis.total := rfl
  have hnorms : analysis.toJson.countAt? ["summary", "withNorms"] = some analysis.withNorms := rfl
  have hunresolved : analysis.toJson.countAt? ["summary", "withUnresolvedNorms"] =
      some (analysis.total - analysis.withNorms) := rfl
  have hmissing : analysis.toJson.countAt? ["summary", "missingKeys"] =
      some analysis.missingKeys := rfl
  have hdropped : analysis.toJson.countAt? ["summary", "droppedDeclarations"] =
      some analysis.dropped := rfl
  simp only [ofJson?, hdefinitions, htotal, hnorms, hunresolved, hmissing, hdropped,
    Option.bind_eq_bind, Option.bind_some, Json.items?, hentries]
  rfl

/-! ### The issues of an analysis -/

namespace Issue

/-- Whether an issue is about a label key. -/
def isAboutKey (issue : Issue) : Bool :=
  issue.rule = "missing-translation" || issue.rule = "malformed-key"

/-- Whether an issue is about the declaration of a definition that could not be used. -/
def isDroppedDefinition : Issue → Bool
  | .droppedDeclaration dropped => dropped.kind = .definition
  | _ => false

/-- Whether an issue is about something that is not there or cannot be read. -/
def IsMissingInput (issue : Issue) : Prop :=
  ∃ path reason, issue = .missingInput path reason

/-- To sort issues does not change how many there are of a kind. -/
theorem countP_sort (p : Issue → Bool) (issues : List Issue) :
    (sort issues).countP p = issues.countP p :=
  (List.mergeSort_perm _ _).countP_eq p

end Issue

/-- What could not be read is missing input. -/
theorem Project.isMissingInput_of_mem_unreadable (project : Project) (tree : Tree) :
    ∀ issue ∈ (project.scan tree).unreadable, issue.IsMissingInput := by
  have hmodule : ∀ file, ∀ issue ∈ (project.scanModule tree file).unreadable,
      issue.IsMissingInput := by
    intro file issue hissue
    unfold scanModule at hissue
    split at hissue
    · obtain rfl := List.mem_singleton.mp hissue
      exact ⟨_, _, rfl⟩
    · cases hissue
  intro issue hissue
  simp only [scan] at hissue
  split_ifs at hissue
  · generalize (moduleFiles tree project.modulesRoot project.config.moduleFileSuffix).1 = files
      at hissue
    induction files with
    | nil => cases hissue
    | cons file files ih =>
      obtain hfile | hfiles := List.mem_append.mp hissue
      · exact hmodule file issue hfile
      · exact ih hfiles
  · obtain rfl := List.mem_singleton.mp hissue
    exact ⟨_, _, rfl⟩

namespace Run

theorem isMissingInput_of_mem_inspectComputation {project : Project} {tree : Tree}
    {definition : Definition} :
    ∀ issue ∈ (inspectComputation project tree definition).2, issue.IsMissingInput := by
  intro issue hissue
  unfold inspectComputation at hissue
  split at hissue
  · cases hissue
  · dsimp only at hissue
    split at hissue
    · cases hissue
    · obtain rfl := List.mem_singleton.mp hissue
      exact ⟨_, _, rfl⟩

end Run

/-- Of a kind that is no missing input, an analysis meets issues about dropped declarations and
about labels only. -/
theorem Project.countP_analysisIssues (project : Project) (tree : Tree)
    (dictionary : Option Dictionary) {p : Issue → Bool}
    (hinput : ∀ issue : Issue, issue.IsMissingInput → p issue = false) :
    (project.analysisIssues tree dictionary).countP p =
      (project.scan tree).dropped.countP (fun dropped ↦ p (.droppedDeclaration dropped)) +
        ((project.scan tree).definitions.map fun scanned ↦
          (Run.labelIssues scanned
            ((dictionary.getD .empty).missing scanned.definition)).countP p).sum := by
  have hnone : ∀ issues : List Issue, (∀ issue ∈ issues, issue.IsMissingInput) →
      issues.countP p = 0 := by
    intro issues hissues
    rw [List.countP_eq_zero]
    intro issue hissue
    simp [hinput issue (hissues issue hissue)]
  have hunreadable := hnone _ (project.isMissingInput_of_mem_unreadable tree)
  have habsent : (if dictionary.isNone then [project.missingDictionary] else []).countP p = 0 := by
    refine hnone _ fun issue hissue ↦ ?_
    split_ifs at hissue
    · obtain rfl := List.mem_singleton.mp hissue
      exact ⟨_, _, rfl⟩
    · cases hissue
  have hscan : (project.scan tree).issues.countP p =
      (project.scan tree).dropped.countP (fun dropped ↦ p (.droppedDeclaration dropped)) := by
    rw [Scan.issues, List.countP_append, hunreadable, Nat.zero_add, List.countP_map]
    rfl
  have hdefinition : ∀ scanned,
      (Run.analyzeDefinition project tree (dictionary.getD .empty) scanned).2.countP p =
        (Run.labelIssues scanned
          ((dictionary.getD .empty).missing scanned.definition)).countP p := by
    intro scanned
    rw [Run.analyzeDefinition, List.countP_append,
      hnone _ Run.isMissingInput_of_mem_inspectComputation, Nat.add_zero]
  rw [analysisIssues, List.countP_append, List.countP_append, hscan, habsent, Nat.add_zero,
    List.countP_flatMap, List.map_map]
  simp only [Function.comp_def, hdefinition]

/-- An analysis counts as many missing keys as it meets issues about keys. -/
theorem Project.countP_isAboutKey_analysisIssues (project : Project) (tree : Tree)
    (dictionary : Option Dictionary) :
    (project.analysisIssues tree dictionary).countP Issue.isAboutKey =
      (project.analysis tree dictionary).missingKeys := by
  have hlabels : ∀ scanned labels,
      (Run.labelIssues scanned labels).countP Issue.isAboutKey = labels.length := by
    intro scanned labels
    have hall : ∀ label ∈ labels, ((Issue.isAboutKey ∘ fun label : MissingLabel ↦
        if label.malformed then
          .malformedKey scanned.excerpt scanned.definition.id label.key label.role
        else .missingLabel scanned.excerpt scanned.definition.id label.key label.role) label) =
          true := by
      intro label _
      cases hmalformed : label.malformed <;> simp [hmalformed, Issue.isAboutKey, Issue.rule]
    rw [Run.labelIssues, List.countP_map, List.countP_eq_length.mpr hall]
  have hdropped : ∀ dropped, Issue.isAboutKey (.droppedDeclaration dropped) = false :=
    fun _ ↦ rfl
  rw [countP_analysisIssues]
  · simp only [hdropped, hlabels, List.countP_false, Function.const_apply]
    simp [Analysis.missingKeys, analysis, List.length_flatMap, Run.analyzeDefinition,
      Function.comp_def]
  · rintro _ ⟨path, reason, rfl⟩
    rfl

/-- An analysis counts as many dropped definitions as it meets issues about them. -/
theorem Project.countP_isDroppedDefinition_analysisIssues (project : Project) (tree : Tree)
    (dictionary : Option Dictionary) :
    (project.analysisIssues tree dictionary).countP Issue.isDroppedDefinition =
      (project.analysis tree dictionary).dropped := by
  have hlabels : ∀ scanned labels,
      (Run.labelIssues scanned labels).countP Issue.isDroppedDefinition = 0 := by
    intro scanned labels
    rw [Run.labelIssues, List.countP_map, List.countP_eq_zero]
    intro label _
    cases hmalformed : label.malformed <;> simp [hmalformed, Issue.isDroppedDefinition]
  rw [countP_analysisIssues]
  · simp [hlabels, analysis, Scan.failureCount, Issue.isDroppedDefinition]
  · rintro _ ⟨path, reason, rfl⟩
    rfl

/-! ### The exit code of an analysis -/

namespace Dictionary

variable {dictionary : Dictionary}

/-- A definition misses a label that is not malformed exactly if it refers to a proper key for which
no text is found. -/
theorem exists_missing_not_malformed_iff {definition : Definition} :
    (∃ label ∈ dictionary.missing definition, label.malformed = false) ↔
      ∃ key : LabelKey, key.IsWellFormed ∧ definition.RefersTo key.dotted ∧
        ∀ text, dictionary.resolve key.dotted ≠ .found text := by
  have hmalformed : ∀ label ∈ dictionary.missing definition,
      (label.malformed = true ↔ LabelKey.parse? label.key = none) := by
    intro label hlabel
    obtain ⟨use, -, hsome⟩ := List.mem_filterMap.mp hlabel
    rw [key_of_missingLabel? hsome]
    exact malformed_iff_of_missingLabel? hsome
  constructor
  · rintro ⟨label, hlabel, hproper⟩
    have hparse : LabelKey.parse? label.key ≠ none := by
      rw [Ne, ← hmalformed label hlabel, hproper]
      simp
    obtain ⟨key, hkey⟩ := Option.ne_none_iff_exists'.mp hparse
    obtain ⟨hwellFormed, hdotted⟩ := LabelKey.parse?_eq_some_iff.mp hkey
    refine ⟨key, hwellFormed, ?_⟩
    rw [hdotted]
    exact mem_missing_iff.mp (List.mem_map_of_mem hlabel)
  · rintro ⟨key, hwellFormed, hmissing⟩
    obtain ⟨label, hlabel, hkey⟩ := List.mem_map.mp (mem_missing_iff.mpr hmissing)
    refine ⟨label, hlabel, ?_⟩
    rw [← Bool.not_eq_true, hmalformed label hlabel, hkey, LabelKey.parse?_dotted hwellFormed]
    simp

end Dictionary

/-- Some definition of a project refers to a proper key for which a dictionary has no text. -/
def Project.LacksText (project : Project) (tree : Tree) (dictionary : Dictionary) : Prop :=
  ∃ scanned ∈ (project.scan tree).definitions, ∃ key : LabelKey, key.IsWellFormed ∧
    scanned.definition.RefersTo key.dotted ∧
    ∀ text, dictionary.resolve key.dotted ≠ .found text

/-- An analysis meets an error exactly if a text is lacking. -/
theorem Project.countP_error_analysisIssues_eq_zero_iff (project : Project) (tree : Tree)
    (dictionary : Option Dictionary) :
    (project.analysisIssues tree dictionary).countP (·.severity = .error) = 0 ↔
      ¬project.LacksText tree (dictionary.getD .empty) := by
  have hlabels : ∀ scanned labels,
      (Run.labelIssues scanned labels).countP (·.severity = .error) =
        labels.countP (!·.malformed) := by
    intro scanned labels
    rw [Run.labelIssues, List.countP_map]
    refine List.countP_congr fun label _ ↦ ?_
    cases hmalformed : label.malformed <;> simp [hmalformed, Issue.severity]
  have hdropped : ∀ dropped,
      decide ((Issue.droppedDeclaration dropped).severity = .error) = false := fun _ ↦ rfl
  rw [countP_analysisIssues]
  · simp only [hdropped, hlabels, List.countP_false, Function.const_apply, Nat.zero_add,
      LacksText, ← Dictionary.exists_missing_not_malformed_iff]
    rw [List.sum_eq_zero_iff_forall_eq_nat]
    simp [List.countP_eq_zero]
  · rintro _ ⟨path, reason, rfl⟩
    rfl

/-- The exit code of an analysis tells whether there was an error. -/
theorem Run.exitCode_analysisResult (analysis : Analysis) (issues : List Issue)
    (report : Option String) :
    (analysisResult analysis issues report).exitCode =
      if issues.countP (·.severity = .error) = 0 then 0 else 1 := by
  have hcount : (analysisResult analysis issues report).count .error =
      issues.countP (·.severity = .error) := Issue.countP_sort _ _
  rw [Result.exitCode, hcount]
  by_cases herror : issues.countP (·.severity = .error) = 0 <;>
    simp [herror, analysisResult, Result.ofIssues, Summary.isRefusal, Summary.hasPending]

/-! ### The three accounts -/

/-- The report and the result of an analysis say the same. -/
structure ReportView.Agrees (view : ReportView) (result : Result) (written : Option String) :
    Prop where
  /-- The numbers that are printed are those in the report. -/
  summary_eq :
    result.summary = .analyzed view.total view.withNorms view.missingKeys written
  total_eq : view.total = view.entries.length
  norms_add : view.withNorms + view.withUnresolvedNorms = view.total
  missingKeys_eq_sum : view.missingKeys = (view.entries.map (·.missing.length)).sum
  missingKeys_eq_issues : view.missingKeys = result.issues.countP Issue.isAboutKey
  dropped_eq : view.dropped = result.issues.countP Issue.isDroppedDefinition
  title_eq_none_iff : ∀ entry ∈ view.entries,
    entry.title = none ↔ entry.titleKey ∈ entry.missing

/-- Whether a heading is that of an issue about a label key. -/
def Console.Heading.isAboutKey (heading : Heading) : Bool :=
  heading.rule = "missing-translation" || heading.rule = "malformed-key"

/-- What is printed for an analysis and its exit code say the same as the report. -/
structure ReportView.ShownBy (view : ReportView) (result : Result) (written : Option String)
    (color verbose : Bool) : Prop where
  render_eq : Console.render color verbose result =
    String.join ((Console.lines color verbose result).map (· ++ "\n"))
  /-- Every issue is printed with a heading of its own, and nothing else has one. -/
  headings_eq : Console.headings color (Console.lines color verbose result) =
    result.issues.map Console.headingOf
  missingKeys_eq : view.missingKeys =
    (Console.headings color (Console.lines color verbose result)).countP
      Console.Heading.isAboutKey
  /-- The numbers in the last lines are those of the report. -/
  isSuffix_lines :
    Console.analyzedLines color view.total view.withNorms view.missingKeys written <:+
      Console.lines color verbose result
  exitCode_eq_one_iff : result.exitCode = 1 ↔
    ∃ heading ∈ Console.headings color (Console.lines color verbose result),
      heading.severity = .error

/-- The exit code of an analysis is one exactly if an issue is an error. -/
theorem Result.exitCode_analyzed_eq_one_iff {result : Result} {total withNorms missingKeys : Nat}
    {written : Option String} (hsummary : result.summary = .analyzed total withNorms missingKeys
      written) : result.exitCode = 1 ↔ ∃ issue ∈ result.issues, issue.severity = .error := by
  have hcount : result.count .error = 0 ↔ ¬∃ issue ∈ result.issues, issue.severity = .error := by
    simp [Result.count, List.countP_eq_zero]
  rw [← not_iff_comm.mp hcount.symm, Result.exitCode, hsummary]
  by_cases herror : result.count .error = 0 <;>
    simp [herror, Summary.isRefusal, Summary.hasPending]

/-- A report that agrees with a result agrees with what is printed for it. -/
theorem ReportView.Agrees.shownBy {view : ReportView} {result : Result} {written : Option String}
    (h : view.Agrees result written) (color verbose : Bool) :
    view.ShownBy result written color verbose := by
  have hheadings := Console.headings_lines color verbose result
  refine ⟨rfl, hheadings, ?_, ?_, ?_⟩
  · rw [hheadings, List.countP_map]
    exact h.missingKeys_eq_issues
  · rw [Console.lines, h.summary_eq]
    exact List.suffix_append _ _
  · rw [Result.exitCode_analyzed_eq_one_iff h.summary_eq, hheadings]
    simp [Console.headingOf]

/-- A definition has no title exactly if the key of its title is missing. -/
theorem Dictionary.title?_eq_none_iff {dictionary : Dictionary} {definition : Definition} :
    dictionary.title? definition = none ↔
      definition.titleKey ∈ (dictionary.missing definition).map (·.key) := by
  have htitle : definition.RefersTo definition.titleKey := .inl rfl
  rw [mem_missing_iff, and_iff_right htitle, title?]
  cases dictionary.resolve definition.titleKey <;> simp

/-- The report agrees with the result if the issues are those that the analysis counts, and every
definition without a title misses the key of its title. -/
theorem Analysis.agrees_view {analysis : Analysis} {issues : List Issue}
    (hkeys : issues.countP Issue.isAboutKey = analysis.missingKeys)
    (hdropped : issues.countP Issue.isDroppedDefinition = analysis.dropped)
    (htitles : ∀ analyzed ∈ analysis.definitions,
      analyzed.title = none ↔ analyzed.definition.titleKey ∈ analyzed.missing)
    (written : Option String) :
    analysis.view.Agrees (Run.analysisResult analysis issues written) written where
  summary_eq := rfl
  total_eq := by simp [view, total]
  norms_add := Nat.add_sub_cancel' List.countP_le_length
  missingKeys_eq_sum := by
    simp [view, missingKeys, List.length_flatMap, AnalyzedDefinition.view, Function.comp_def]
  missingKeys_eq_issues := ((Issue.countP_sort _ _).trans hkeys).symm
  dropped_eq := ((Issue.countP_sort _ _).trans hdropped).symm
  title_eq_none_iff := by
    intro entry hentry
    obtain ⟨analyzed, hanalyzed, rfl⟩ := List.mem_map.mp hentry
    exact htitles analyzed hanalyzed

theorem Project.agrees_analysis (project : Project) (tree : Tree) (dictionary : Option Dictionary)
    (written : Option String) :
    (project.analysis tree dictionary).view.Agrees
      (Run.analysisResult (project.analysis tree dictionary)
        (project.analysisIssues tree dictionary) written) written := by
  refine Analysis.agrees_view (project.countP_isAboutKey_analysisIssues tree dictionary)
    (project.countP_isDroppedDefinition_analysisIssues tree dictionary) ?_ written
  intro analyzed hanalyzed
  simp only [analysis, List.map_map, List.mem_map] at hanalyzed
  obtain ⟨scanned, -, rfl⟩ := hanalyzed
  exact Dictionary.title?_eq_none_iff

/-- An analysis that succeeds gives the issues that it has met, and unless it is a dry run, its
report is where it was to be written. -/
theorem Run.analyze_eq_ok {tree after : Tree} {project : Project} {dryRun : Bool}
    {output : Option String} {result : Result}
    (h : analyze tree project dryRun output = (after, .ok result)) :
    ∃ dictionary, project.loadDictionary tree = .ok dictionary ∧
      result = analysisResult (project.analysis tree dictionary)
        (project.analysisIssues tree dictionary)
        (if dryRun then none else some (project.shown (project.reportTo output))) ∧
      (dryRun = false → after.readText (project.reportTo output) =
        .ok (project.analysis tree dictionary).toText) := by
  cases hload : project.loadDictionary tree with
  | error error =>
    unfold analyze at h
    rw [hload] at h
    cases h
  | ok dictionary =>
    refine ⟨dictionary, rfl, ?_⟩
    cases dryRun with
    | true =>
      rw [analyze_dryRun hload] at h
      obtain ⟨rfl, hresult⟩ := Prod.mk.inj h
      exact ⟨(Except.ok.inj hresult).symm, fun hwrites ↦ nomatch hwrites⟩
    | false =>
      obtain ⟨written, failure, hsave, -⟩ | ⟨written, reached, hsave, hwrote⟩ :=
        tree.save_cases .writeReport (project.reportTo output)
          (project.analysis tree dictionary).toText
      · rw [analyze_of_failed hload hsave] at h
        cases h
      · rw [analyze_of_saved hload hsave] at h
        obtain ⟨rfl, hresult⟩ := Prod.mk.inj h
        exact ⟨(Except.ok.inj hresult).symm, fun _ ↦ hwrote.readText_eq⟩

theorem run_analyze {tree : Tree} {options : CommonOptions} {project : Project}
    (hproject : Project.ofOptions tree options.project = .ok project) (dryRun : Bool)
    (output : Option String) :
    run tree (.analyze options dryRun output) = Run.analyze tree project dryRun output := by
  rw [run, withProject, hproject]

/-- A run that analyzes a project says the same in its report, in what it prints and in its exit
code. The report counts as many missing keys as its entries list, as there are issues about keys and
as are printed, and as many dropped declarations as there are issues about dropped definitions; an
entry has no title exactly if it lists the key of the title. The exit code is one if some definition
refers to a proper key without a text, and zero otherwise; it is one exactly if an error is
printed. -/
theorem run_analyze_agrees {tree after : Tree} {options : CommonOptions} {dryRun : Bool}
    {output : Option String} {result : Result}
    (h : run tree (.analyze options dryRun output) = (after, .ok result)) :
    ∃ (project : Project) (dictionary : Option Dictionary) (report : Json) (view : ReportView),
      Project.ofOptions tree options.project = .ok project ∧
      project.loadDictionary tree = .ok dictionary ∧
      (dryRun = false →
        after.readText (project.reportTo output) = .ok (report.pretty ++ "\n")) ∧
      ReportView.ofJson? report = some view ∧
      view.entries.map (·.titleKey) =
        (project.scan tree).definitions.map (·.definition.titleKey) ∧
      view.Agrees result
        (if dryRun then none else some (project.shown (project.reportTo output))) ∧
      (∀ color verbose, view.ShownBy result
        (if dryRun then none else some (project.shown (project.reportTo output))) color verbose) ∧
      (result.exitCode = 1 ↔ project.LacksText tree (dictionary.getD .empty)) ∧
      (result.exitCode = 0 ↔ ¬project.LacksText tree (dictionary.getD .empty)) := by
  cases hproject : Project.ofOptions tree options.project with
  | error error =>
    rw [run, withProject, hproject] at h
    cases h
  | ok project =>
    rw [run_analyze hproject] at h
    obtain ⟨dictionary, hload, rfl, hwritten⟩ := Run.analyze_eq_ok h
    have herror := project.countP_error_analysisIssues_eq_zero_iff tree dictionary
    have hagrees := project.agrees_analysis tree dictionary
      (if dryRun then none else some (project.shown (project.reportTo output)))
    refine ⟨project, dictionary, (project.analysis tree dictionary).toJson,
      (project.analysis tree dictionary).view, rfl, hload, hwritten,
      ReportView.ofJson?_toJson _, ?_, hagrees, hagrees.shownBy, ?_, ?_⟩
    · simp [Project.analysis, Analysis.view, AnalyzedDefinition.view, Run.analyzeDefinition,
        Function.comp_def]
    · rw [Run.exitCode_analysisResult, ← not_iff_not, ← herror]
      split_ifs with hnone <;> simp [hnone]
    · rw [Run.exitCode_analysisResult, ← herror]
      split_ifs with hnone <;> simp [hnone]

/-- A module that declares a calculator with a title and a field, and one that has no title. -/
def gateSource : String :=
  "[CalculatorDefinition(id: 'gate', titleKey: 'yard.gate',
  fields: [InputFieldDefinition(key: 'w', labelKey: 'width')]),
CalculatorDefinition(id: 'wall')];"

/-- A project with this module and an empty dictionary. -/
def gateTree : Tree := ⟨[
  (["modules"], .directory),
  (["modules", "yard_calculators.dart"], .file (.text gateSource)),
  (["labels.json"], .file (.text "\x7b\x7d"))], []⟩

/-- The options that name the project. -/
def gateOptions : CommonOptions :=
  ⟨⟨none, some "labels.json", some "modules"⟩, false⟩

/-- The project. -/
def gateProject : Project :=
  ⟨⟨"."⟩, { Config.standard with dictionaryPath := "labels.json", modulesRoot := "modules" }⟩

/-- What the module declares. -/
def gateScan : Scan where
  definitions := [⟨"yard", ⟨"gate", "yard.gate", "", "", none,
    [⟨"w", "width", Field.standardDefault, none, none, true⟩], [],
    ⟨"modules/yard_calculators.dart", 1, 2⟩⟩,
    "[CalculatorDefinition(id: 'gate', titleKey: 'yard.gate',"⟩]
  dropped := [⟨.definition, ⟨⟨"modules/yard_calculators.dart", 3, 1⟩,
    "CalculatorDefinition(id: 'wall')];"⟩, .missingTitleKey⟩]
  unreadable := []

theorem scan_gateTree : gateProject.scan gateTree = gateScan := by
  have hfiles : moduleFiles gateTree gateProject.modulesRoot gateProject.config.moduleFileSuffix =
      ([⟨"yard", ⟨"./modules/yard_calculators.dart"⟩⟩], 0) :=
    Tree.moduleFiles_of_walkFiles rfl (by decide +kernel)
  have hdirectory : gateTree.isDirectory gateProject.modulesRoot = true := by decide +kernel
  simp only [Project.scan, hdirectory, if_true, hfiles]
  decide +kernel

/-- The title has no text, and the label of the field could not have one. Both are printed. -/
theorem run_analyze_agrees_gateTree :
    ∃ after result,
      run gateTree (.analyze gateOptions false "report.json") = (after, .ok result) ∧
      result.summary = .analyzed 1 0 2 (some "report.json") ∧
      result.issues.countP Issue.isAboutKey = 2 ∧
      (Console.headings true (Console.lines true false result)).countP
        Console.Heading.isAboutKey = 2 ∧
      result.exitCode = 1 := by
  have hproject : Project.ofOptions gateTree gateOptions.project = .ok gateProject := by
    decide +kernel
  have hload : gateProject.loadDictionary gateTree = .ok (some Dictionary.empty) := rfl
  have hanalysis : gateProject.analysis gateTree (some .empty) =
      ⟨gateScan.definitions.map fun scanned ↦
        ⟨scanned.definition, scanned.module, .missing, none, ["yard.gate", "width"]⟩, 1⟩ := by
    rw [Project.analysis, scan_gateTree]
    decide +kernel
  have hsaved : ((gateProject.analysis gateTree (some .empty)).save gateTree
      (gateProject.reportTo "report.json")).2 = none := by
    rw [hanalysis]
    decide +kernel
  have hrun := analyze_of_saved hload (Prod.ext rfl hsaved)
  rw [← run_analyze hproject] at hrun
  obtain ⟨project, dictionary, report, view, hproject', hload', -, -, -, hagrees, hshown, hexit,
    -⟩ := run_analyze_agrees hrun
  have hsummary : (Run.analysisResult (gateProject.analysis gateTree (some .empty))
      (gateProject.analysisIssues gateTree (some .empty))
      (some (gateProject.shown (gateProject.reportTo "report.json")))).summary =
        .analyzed 1 0 2 (some "report.json") := by
    rw [hanalysis]
    decide +kernel
  have hcount : view.missingKeys = 2 := by
    rw [hagrees.summary_eq] at hsummary
    injection hsummary
  refine ⟨_, _, hrun, hsummary, ?_, ?_, hexit.mpr ?_⟩
  · rw [← hagrees.missingKeys_eq_issues, hcount]
  · rw [← (hshown true false).missingKeys_eq, hcount]
  · rw [hproject] at hproject'
    obtain rfl := Except.ok.inj hproject'
    rw [hload] at hload'
    obtain rfl := Except.ok.inj hload'
    refine ⟨_, by rw [scan_gateTree]; exact List.mem_singleton_self _, ⟨"yard", "gate"⟩,
      ⟨by decide, by decide, by decide, by decide⟩, by decide, fun text ↦ ?_⟩
    have habsent : Dictionary.empty.resolve "yard.gate" = .absent := by decide
    intro hfound
    cases habsent.symm.trans hfound

end CalculatorCatalog
