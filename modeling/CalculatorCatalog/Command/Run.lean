import CalculatorCatalog.Analysis
import CalculatorCatalog.Command.Basic
import CalculatorCatalog.Files.Selection

/-!
# Running commands

`run` carries out a command on a file tree and gives the tree afterwards together with the result or
the reason why the command could not proceed. A dry run does the same work without writing. What
goes wrong with one definition or file becomes an issue, and the others go on.
-/

set_option autoImplicit false
set_option relaxedAutoImplicit false

namespace CalculatorCatalog

open CalculatorCatalog.Files

/-- What a command gives: the files afterwards, and the result. -/
abbrev Run : Type := Tree × Except RunError Result

namespace Run

/-! ### Analysis -/

/-- The issues of the labels that a definition misses. -/
def labelIssues (scanned : ScannedDefinition) (missing : List MissingLabel) : List Issue :=
  missing.map fun label ↦
    if label.malformed then
      .malformedKey scanned.excerpt scanned.definition.id label.key label.role
    else .missingLabel scanned.excerpt scanned.definition.id label.key label.role

/-- What is known about the unit that computes the results of a definition; a file that cannot be
read is an issue, and counts as missing. -/
def inspectComputation (project : Project) (tree : Tree) (definition : Definition) :
    Computation × List Issue :=
  match definition.computation with
  | none => (.missing, [])
  | some name =>
    let path :=
      Computation.path project.computationsRoot name project.config.dottedExtension
    match Computation.inspect tree path with
    | .ok computation => (computation, [])
    | .error failure => (.missing, [.missingInput (project.shown path) failure.line])

/-- What is known about a definition, and the issues met. -/
def analyzeDefinition (project : Project) (tree : Tree) (dictionary : Dictionary)
    (scanned : ScannedDefinition) : AnalyzedDefinition × List Issue :=
  let missing := dictionary.missing scanned.definition
  let (computation, issues) := inspectComputation project tree scanned.definition
  ({ definition := scanned.definition
     module := scanned.module
     computation
     title := dictionary.title? scanned.definition
     missing := missing.map (·.key) }, labelIssues scanned missing ++ issues)

/-- What came of an analysis whose report was written to the given place. -/
def analysisResult (analysis : Analysis) (issues : List Issue) (report : Option String) : Result :=
  .ofIssues (.analyzed analysis.total analysis.withNorms analysis.missingKeys report) issues

/-- Reports on the definitions of a project. -/
def analyze (tree : Tree) (project : Project) (dryRun : Bool) (output : Option String) : Run :=
  let scan := project.scan tree
  match project.loadDictionary tree with
  | .error error => (tree, .error (.dictionary (project.shown project.dictionaryPath) error))
  | .ok dictionary =>
    let absent := if dictionary.isNone then [project.missingDictionary] else []
    let analyzed := scan.definitions.map
      (analyzeDefinition project tree (dictionary.getD .empty))
    let analysis : Analysis := ⟨analyzed.map (·.1), scan.failureCount⟩
    let issues := scan.issues ++ absent ++ analyzed.flatMap (·.2)
    if dryRun then (tree, .ok (analysisResult analysis issues none))
    else
      let path := match output with
        | some output => project.resolve output
        | none => project.reportPath
      match analysis.save tree path with
      | (tree, some failure) => (tree, .error (.output failure))
      | (tree, none) => (tree, .ok (analysisResult analysis issues (some (project.shown path))))

/-! ### Label texts -/

/-- The issues of keys whose section is no mapping. -/
def conflictIssues (dictionary : String) (outcomes : List Outcome) : List Issue :=
  outcomes.filterMap fun
    | .conflict key sectionName => some (.sectionConflict dictionary key sectionName)
    | _ => none

/-- Enters a text for every label key of a project that has none. -/
def backfill (tree : Tree) (project : Project) (dryRun : Bool) : Run :=
  let scan := project.scan tree
  let shown := project.shown project.dictionaryPath
  match project.loadDictionary tree with
  | .error error => (tree, .error (.dictionary shown error))
  | .ok none =>
    (tree, .ok (.ofIssues (.backfilled [] shown false dryRun)
      (scan.issues ++ [project.missingDictionary])))
  | .ok (some dictionary) =>
    let missing := scan.definitions.flatMap fun scanned ↦ dictionary.missing scanned.definition
    let (extended, outcomes) := dictionary.backfill (Dictionary.missingKeys missing)
    let result (written : Bool) : Result :=
      .ofIssues (.backfilled outcomes shown written dryRun)
        (scan.issues ++ conflictIssues shown outcomes)
    if dryRun then (tree, .ok (result false))
    else
      match extended.saveIfChanged outcomes tree project.dictionaryPath with
      | (tree, .ok written) => (tree, .ok (result written))
      | (tree, .error failure) => (tree, .error (.output failure))

/-! ### Generated sources -/

/-- What has come of generating sources so far. -/
structure Progress where
  files : List String
  existing : Nat
  skipped : Nat
  issues : List Issue
  deriving DecidableEq, Repr

/-- What becomes of a source: on a dry run, what would. -/
def place (tree : Tree) (dryRun : Bool) (file : GeneratedFile) : Tree × Tree.Creation :=
  if dryRun then (tree, if tree.isPresent file.path then .present else .created)
  else tree.saveNew file.path file.content

/-- Generates the source of one definition. -/
def generateOne (project : Project) (generator : Generator) (dryRun : Bool)
    (state : Tree × Progress) (scanned : ScannedDefinition) : Tree × Progress :=
  let (tree, progress) := state
  let id := scanned.definition.id
  match generator.render scanned.definition scanned.module with
  | .error reason =>
    (tree, { progress with
      skipped := progress.skipped + 1
      issues := progress.issues ++ [.generationSkipped scanned.excerpt id reason] })
  | .ok file =>
    let shown := project.shown file.path
    match place tree dryRun file with
    | (tree, .created) => (tree, { progress with files := progress.files ++ [shown] })
    | (tree, .present) =>
      (tree, { progress with
        existing := progress.existing + 1
        issues := progress.issues ++ [.writeConflict shown id] })
    | (tree, .failed failure) =>
      (tree, { progress with
        issues := progress.issues ++ [.writeFailed shown id failure.fault.message] })

/-- Generates a source for every definition of a project that has none. -/
def generate (tree : Tree) (project : Project) (dryRun : Bool) : Run :=
  let scan := project.scan tree
  let generator := Generator.ofConfig project.outputRoot project.config
  let (tree, progress) := scan.definitions.foldl (generateOne project generator dryRun)
    (tree, ⟨[], 0, 0, scan.issues⟩)
  (tree, .ok (.ofIssues
    (.generated progress.files progress.existing progress.skipped dryRun) progress.issues))

/-! ### Edits -/

/-- What has come of a batch of edits so far. -/
structure Batch where
  changed : List (String × FileEdit)
  checked : Nat
  issues : List Issue
  deriving DecidableEq, Repr

/-- Applies a rule to one file of a batch. -/
def editOne (project : Project) (rule : Edit.Rule) (dryRun : Bool) (state : Tree × Batch)
    (path : Path) : Tree × Batch :=
  let (tree, batch) := state
  let shown := project.shown path
  if tree.isFile path then
    let checked := batch.checked + 1
    match tree.editFile rule dryRun path with
    | (tree, .ok edit) =>
      (tree, { batch with
        checked
        changed := if edit.isChanged then batch.changed ++ [(shown, edit)] else batch.changed })
    | (tree, .error failure) =>
      (tree, { batch with
        checked
        issues := batch.issues ++ [.missingInput shown failure.line] })
  else
    (tree, { batch with
      issues := batch.issues ++ [.missingInput shown "file does not exist"] })

/-- Applies a rule to files, one after the other. -/
def editFiles (tree : Tree) (project : Project) (files : List Path) (rule : Edit.Rule)
    (ruleName : String) (dryRun : Bool) : Run :=
  let (tree, batch) := files.foldl (editOne project rule dryRun) (tree, ⟨[], 0, []⟩)
  (tree, .ok (.ofIssues (.edited ruleName batch.changed batch.checked dryRun) batch.issues))

/-- The generated sources of a project that are to be edited. -/
def editSet (tree : Tree) (project : Project) : List Path :=
  (select tree project.root project.config.editIncludes project.config.editIgnores).files

/-- Gives the categories in generated sources their new names. -/
def renameCategories (tree : Tree) (project : Project) (dryRun : Bool) : Run :=
  editFiles tree project (editSet tree project)
    (.renameCategories project.config.categoryNamespace) "category remap" dryRun

/-- Removes the fields with a key from the given files, or from all generated sources if none are
given. -/
def removeField (tree : Tree) (project : Project) (key : String) (files : List String)
    (dryRun : Bool) : Run :=
  let paths := if files.isEmpty then editSet tree project else files.map project.resolve
  editFiles tree project paths (.removeBlocks project.config.fieldConstructor key)
    ("removal of field '" ++ key ++ "'") dryRun

/-! ### Configuration -/

/-- Writes a configuration file with the standard settings unless there is one. -/
def init (tree : Tree) (options : ProjectOptions) : Run :=
  let path := (Project.rootOf options).join Config.fileName
  if tree.isPresent path then (tree, .ok (.ofIssues (.initialized path false) []))
  else match tree.writeText path Config.standard.toJson.pretty with
    | .ok written => (written, .ok (.ofIssues (.initialized path true) []))
    | .error fault => (tree, .error (.output ⟨.writeConfig, path, fault⟩))

end Run

/-! ### All commands -/

/-- Runs a command on a project that options name. -/
def withProject (tree : Tree) (options : CommonOptions) (command : Project → Run) : Run :=
  match Project.ofOptions tree options.project with
  | .ok project => command project
  | .error error => (tree, .error (.config error))

/-- Carries out a command. -/
def run (tree : Tree) : Command → Run
  | .analyze options dryRun output =>
    withProject tree options fun project ↦ Run.analyze tree project dryRun output
  | .backfill options dryRun =>
    withProject tree options fun project ↦ Run.backfill tree project dryRun
  | .generate options dryRun =>
    withProject tree options fun project ↦ Run.generate tree project dryRun
  | .renameCategories options dryRun =>
    withProject tree options fun project ↦ Run.renameCategories tree project dryRun
  | .removeField options key files dryRun =>
    withProject tree options fun project ↦ Run.removeField tree project key files dryRun
  | .init options => Run.init tree options.project

end CalculatorCatalog
