import CalculatorCatalog.Proofs.Command.DryRun
import CalculatorCatalog.Proofs.Command.Flags
import CalculatorCatalog.Proofs.Files.Contents

/-!
# What a run does to the files

`Command.Touches` names the files that a command may create or change: the report of an analysis,
the dictionary, new sources, the sources that are to be edited, a configuration that was not there.
`Effect` lists how a run can end, and `effect_run` says that every run ends so: with all files as
they were, with no more than new directories if something could not be written, or with changes to
the files that the command may touch.

From this follow that a run that fails changes no file (`file?_of_run_error`), and that no run goes
beyond what its command may touch or deletes anything, and a dry run does nothing at all
(`run_footprint`).
-/

set_option autoImplicit false
set_option relaxedAutoImplicit false

namespace CalculatorCatalog

open CalculatorCatalog.Files

variable {tree : Tree}

/-! ### The files that commands may touch -/

/-- The file to which the report of an analysis goes. -/
def Project.reportTo (project : Project) : Option String → Path
  | some output => project.resolve output
  | none => project.reportPath

/-- The files that a command may create or change, given the files before it and after it. -/
def Command.Touches (tree after : Tree) (address : Address) : Command → Prop
  | .analyze options _ output =>
    ∃ project, Project.ofOptions tree options.project = .ok project ∧
      after.address (project.reportTo output) = .ok address
  | .backfill options _ =>
    ∃ project, Project.ofOptions tree options.project = .ok project ∧
      tree.address project.dictionaryPath = .ok address ∧ tree.file? address ≠ none
  | .generate options _ =>
    ∃ project, Project.ofOptions tree options.project = .ok project ∧
      tree.get? address = none ∧
      ∃ file ∈ Run.sources project.generator (project.scan tree).definitions,
        after.address file.path = .ok address
  | .renameCategories options _ =>
    ∃ project, Project.ofOptions tree options.project = .ok project ∧
      tree.file? address ≠ none ∧
      ∃ path ∈ Run.editSet tree project, tree.address path = .ok address
  | .removeField options _ files _ =>
    ∃ project, Project.ofOptions tree options.project = .ok project ∧
      tree.file? address ≠ none ∧
      ∃ path ∈ Run.editedPaths tree project files, tree.address path = .ok address
  | .init options =>
    tree.address ((Project.rootOf options.project).join Config.fileName) = .ok address ∧
      tree.get? address = none

/-- How a run can end. -/
inductive Effect (tree : Tree) (command : Command) : Run → Prop where
  | unchanged (outcome : Except RunError Result) : Effect tree command (tree, outcome)
  | failed {after : Tree} (failure : Failure) (hdryRun : command.isDryRun = false)
      (hafter : tree.AddsDirectories after) : Effect tree command (after, .error (.output failure))
  | done {after : Tree} (result : Result) (hdryRun : command.isDryRun = false)
      (hkept : ∀ address, tree.file? address ≠ none → after.file? address ≠ none)
      (htouches : ∀ address, after.file? address ≠ tree.file? address →
        command.Touches tree after address) : Effect tree command (after, .ok result)

/-! ### Writing one file -/

/-- A run that writes one file ends as it should if its command may touch that file. -/
theorem effect_of_wrote {command : Command} {after : Tree} {path : Path} {content : Content}
    {reached : Address} (hdryRun : command.isDryRun = false)
    (hwrote : tree.Wrote after path content reached)
    (htouches : command.Touches tree after reached) (result : Result) :
    Effect tree command (after, .ok result) := by
  refine .done result hdryRun (fun address hfile ↦ ?_) fun address hchanged ↦ ?_
  · rw [hwrote.file?_eq]
    split_ifs
    · simp
    · exact hfile
  · rw [hwrote.file?_eq] at hchanged
    split_ifs at hchanged with hsame
    · rw [hsame]
      exact htouches
    · exact absurd rfl hchanged

/-- What an analysis of a project reports, given the dictionary if there is one. -/
def Project.analysis (project : Project) (tree : Tree) (dictionary : Option Dictionary) :
    Analysis :=
  ⟨((project.scan tree).definitions.map
      (Run.analyzeDefinition project tree (dictionary.getD .empty))).map (·.1),
    (project.scan tree).failureCount⟩

/-- The issues of an analysis, in the order in which they are met. -/
def Project.analysisIssues (project : Project) (tree : Tree) (dictionary : Option Dictionary) :
    List Issue :=
  (project.scan tree).issues ++ (if dictionary.isNone then [project.missingDictionary] else [])
    ++ ((project.scan tree).definitions.map
      (Run.analyzeDefinition project tree (dictionary.getD .empty))).flatMap (·.2)

section Analyze

variable {project : Project} {dictionary : Option Dictionary} {after : Tree}

theorem analyze_dryRun (hload : project.loadDictionary tree = .ok dictionary)
    (output : Option String) :
    Run.analyze tree project true output =
      (tree, .ok (Run.analysisResult (project.analysis tree dictionary)
        (project.analysisIssues tree dictionary) none)) := by
  unfold Run.analyze
  rw [hload]
  rfl

theorem analyze_of_saved (hload : project.loadDictionary tree = .ok dictionary)
    {output : Option String}
    (hsave : (project.analysis tree dictionary).save tree (project.reportTo output) =
      (after, none)) :
    Run.analyze tree project false output =
      (after, .ok (Run.analysisResult (project.analysis tree dictionary)
        (project.analysisIssues tree dictionary)
        (some (project.shown (project.reportTo output))))) := by
  unfold Run.analyze
  rw [hload]
  cases output <;>
  · simp only [Project.analysis, Project.reportTo] at hsave
    simp only [hsave, Bool.false_eq_true, if_false]
    rfl

theorem analyze_of_failed (hload : project.loadDictionary tree = .ok dictionary)
    {output : Option String} {failure : Failure}
    (hsave : (project.analysis tree dictionary).save tree (project.reportTo output) =
      (after, some failure)) :
    Run.analyze tree project false output = (after, .error (.output failure)) := by
  unfold Run.analyze
  rw [hload]
  cases output <;>
  · simp only [Project.analysis, Project.reportTo] at hsave
    simp only [hsave, Bool.false_eq_true, if_false]

end Analyze

theorem effect_analyze {options : CommonOptions} {project : Project}
    (hproject : Project.ofOptions tree options.project = .ok project) (dryRun : Bool)
    (output : Option String) :
    Effect tree (.analyze options dryRun output) (Run.analyze tree project dryRun output) := by
  cases hload : project.loadDictionary tree with
  | error error =>
    unfold Run.analyze
    rw [hload]
    exact .unchanged _
  | ok dictionary =>
    cases dryRun with
    | true =>
      rw [analyze_dryRun hload]
      exact .unchanged _
    | false =>
      obtain ⟨after, failure, hsave, hafter⟩ | ⟨after, reached, hsave, hwrote⟩ :=
        tree.save_cases .writeReport (project.reportTo output)
          (project.analysis tree dictionary).toText
      · rw [analyze_of_failed hload hsave]
        exact .failed failure rfl hafter
      · rw [analyze_of_saved hload hsave]
        refine effect_of_wrote rfl hwrote ?_ _
        exact ⟨project, hproject, hwrote.address_eq⟩

theorem effect_backfill {options : CommonOptions} {project : Project}
    (hproject : Project.ofOptions tree options.project = .ok project) (dryRun : Bool) :
    Effect tree (.backfill options dryRun) (Run.backfill tree project dryRun) := by
  cases hload : project.loadDictionary tree with
  | error error =>
    unfold Run.backfill
    rw [hload]
    exact .unchanged _
  | ok loaded =>
    cases loaded with
    | none =>
      unfold Run.backfill
      rw [hload]
      exact .unchanged _
    | some dictionary =>
      cases dryRun with
      | true =>
        unfold Run.backfill
        rw [hload]
        exact .unchanged _
      | false =>
        cases hchanged : Dictionary.isChangedBy
            (dictionary.backfill (project.missingKeys tree dictionary)).2 with
        | false =>
          rw [Run.backfill_of_unchanged hload hchanged]
          exact .unchanged _
        | true =>
          -- What has been read as the dictionary is written in its place, or refused.
          obtain ⟨text, hread, -⟩ :=
            Dictionary.load_eq_ok_iff.mp (Project.loadDictionary_eq_some_iff.mp hload)
          obtain ⟨reached, haddress, hfile⟩ := Tree.readText_eq_ok_iff.mp hread
          cases hrefusal : tree.refusal? reached with
          | some refusal =>
            rw [Run.backfill_of_refusal hload hchanged haddress hfile hrefusal]
            exact .failed _ rfl (.refl tree)
          | none =>
            have hthere : tree.file? reached ≠ none := by
              rw [Tree.file?_eq_some_iff.mpr hfile]
              simp
            rw [Run.backfill_of_changed hload hchanged haddress hfile hrefusal]
            refine effect_of_wrote rfl (Tree.wrote_put haddress (by simp [hfile]) _) ?_ _
            exact ⟨project, hproject, haddress, hthere⟩

theorem effect_init (options : CommonOptions) :
    Effect tree (.init options) (Run.init tree options.project) := by
  simp only [Run.init]
  split_ifs with hpresent
  · exact .unchanged _
  · split
    · rename_i after hwritten
      obtain ⟨reached, haddress, hentry, rfl⟩ := Tree.write_eq_ok hwritten
      have hnone : tree.get? reached = none := by
        by_contra hsome
        exact hpresent (Tree.isPresent_iff.mpr ⟨reached, haddress, hsome⟩)
      refine effect_of_wrote rfl (Tree.wrote_put haddress hentry _) ?_ _
      exact ⟨haddress, hnone⟩
    · exact .unchanged _

/-! ### Generating sources -/

namespace Run

/-- The files that are left when sources have been placed, one after the other. -/
def treeAfterPlacing (dryRun : Bool) (tree : Tree) (files : List GeneratedFile) : Tree :=
  files.foldl (fun tree file ↦ (place tree dryRun file).1) tree

theorem fst_foldl_generateOne (project : Project) (generator : Generator) (dryRun : Bool)
    (definitions : List ScannedDefinition) (tree : Tree) (progress : Progress) :
    (definitions.foldl (generateOne project generator dryRun) (tree, progress)).1 =
      treeAfterPlacing dryRun tree (sources generator definitions) := by
  induction definitions generalizing tree progress with
  | nil => rfl
  | cons scanned definitions ih =>
    rw [List.foldl_cons]
    cases hrender : generator.render scanned.definition scanned.module with
    | error reason =>
      obtain ⟨skipped, hone⟩ : ∃ skipped,
          generateOne project generator dryRun (tree, progress) scanned = (tree, skipped) := by
        unfold generateOne
        rw [hrender]
        exact ⟨_, rfl⟩
      rw [hone, ih, sources_of_error hrender]
    | ok file =>
      obtain ⟨issues, hone⟩ := generateOne_of_rendered hrender tree progress
      rw [hone, ih, sources_of_ok hrender]
      rfl

theorem treeAfterPlacing_dryRun (tree : Tree) (files : List GeneratedFile) :
    treeAfterPlacing true tree files = tree :=
  List.foldl_fixed' (fun _ ↦ rfl) files

/-- Placing sources keeps what is there, and each new file is one of the sources. -/
theorem treeAfterPlacing_effect (tree : Tree) (files : List GeneratedFile) :
    tree.Grows (treeAfterPlacing false tree files) ∧
      ∀ address, (treeAfterPlacing false tree files).file? address ≠ tree.file? address →
        tree.get? address = none ∧
          ∃ file ∈ files, (treeAfterPlacing false tree files).address file.path = .ok address := by
  induction files generalizing tree with
  | nil => exact ⟨.refl tree, fun address hchanged ↦ absurd rfl hchanged⟩
  | cons file files ih =>
    have hgrows : tree.Grows (place tree false file).1 := tree.grows_saveNew file.path file.content
    obtain ⟨hrest, hchanges⟩ := ih (place tree false file).1
    refine ⟨hgrows.trans hrest, fun address hchanged ↦ ?_⟩
    by_cases hlater : (treeAfterPlacing false (place tree false file).1 files).file? address =
        (place tree false file).1.file? address
    · -- The place was taken by the first source.
      have hfirst : (place tree false file).1.file? address ≠ tree.file? address :=
        fun hsame ↦ hchanged (hlater.trans hsame)
      obtain ⟨-, hadds⟩ | ⟨-, reached, hwrote, hnone⟩ :=
        tree.saveNew_cases file.path file.content
      · exact absurd (hadds.file?_eq address) hfirst
      · have hreached : address = reached := by
          by_contra hne
          exact hfirst ((hwrote.file?_eq address).trans (if_neg hne))
        rw [hreached]
        exact ⟨hnone, file, List.mem_cons_self, hrest.address_eq hwrote.address_eq⟩
    · obtain ⟨hnone, later, hmem, haddress⟩ := hchanges address hlater
      exact ⟨hgrows.get?_eq_none hnone, later, List.mem_cons_of_mem file hmem, haddress⟩

/-- Generating sources places them, and does not fail. -/
theorem generate_eq (tree : Tree) (project : Project) (dryRun : Bool) :
    ∃ result, Run.generate tree project dryRun =
      (treeAfterPlacing dryRun tree (sources project.generator (project.scan tree).definitions),
        .ok result) := by
  have hafter := fst_foldl_generateOne project project.generator dryRun
    (project.scan tree).definitions tree ⟨[], 0, 0, (project.scan tree).issues⟩
  unfold Run.generate
  rw [← hafter, Project.generator]
  exact ⟨_, rfl⟩

end Run

theorem effect_generate {options : CommonOptions} {project : Project}
    (hproject : Project.ofOptions tree options.project = .ok project) (dryRun : Bool) :
    Effect tree (.generate options dryRun) (Run.generate tree project dryRun) := by
  obtain ⟨result, hrun⟩ := Run.generate_eq tree project dryRun
  rw [hrun]
  cases dryRun with
  | true =>
    rw [Run.treeAfterPlacing_dryRun]
    exact .unchanged _
  | false =>
    obtain ⟨hgrows, hchanges⟩ := Run.treeAfterPlacing_effect tree
      (Run.sources project.generator (project.scan tree).definitions)
    refine .done result rfl (fun address hfile ↦ ?_) fun address hchanged ↦ ?_
    · obtain ⟨content, hcontent⟩ := Option.ne_none_iff_exists'.mp hfile
      rw [hgrows.file?_eq hcontent]
      simp
    · obtain ⟨hnone, hsource⟩ := hchanges address hchanged
      exact ⟨project, hproject, hnone, hsource⟩

/-! ### Editing files -/

namespace Files.Tree

variable {start : Tree} {rule : Edit.Rule} {counts : Address → Nat}

/-- Edits leave a file a file. -/
theorem EditedBy.file?_eq_none_iff (h : EditedBy rule counts start tree) (address : Address) :
    tree.file? address = none ↔ start.file? address = none := by
  unfold file?
  rw [h.get?_eq address]
  cases start.get? address with
  | none => rfl
  | some entry =>
    cases entry with
    | directory => rfl
    | file content => cases content <;> simp [Entry.edited]

/-- A file to which the rule has never been applied is as it was. -/
theorem EditedBy.file?_eq (h : EditedBy rule counts start tree) {address : Address}
    (hcount : counts address = 0) : tree.file? address = start.file? address := by
  unfold file?
  rw [h.get?_eq address, hcount, ← (EditedBy.refl rule start).get?_eq address]

/-- The files that are left when a rule has been applied to files, one after the other. -/
def afterEdits (rule : Edit.Rule) (dryRun : Bool) (tree : Tree) (paths : List Path) : Tree :=
  paths.foldl (fun tree path ↦ (tree.editFile rule dryRun path).1) tree

theorem afterEdits_dryRun (rule : Edit.Rule) (tree : Tree) (paths : List Path) :
    afterEdits rule true tree paths = tree :=
  List.foldl_fixed' (fun path ↦ editFile_dryRun tree rule path) paths

/-- The rule has been applied to the file at each address once for each path that leads there, if
the file can be written. -/
theorem editedBy_afterEdits {seen : List Path}
    (h : EditedBy rule (fun address ↦ seen.countP (start.opensAt address)) start tree)
    (paths : List Path) :
    EditedBy rule (fun address ↦ (seen ++ paths).countP (start.opensAt address)) start
      (afterEdits rule false tree paths) := by
  induction paths generalizing seen tree with
  | nil =>
    rw [List.append_nil]
    exact h
  | cons path paths ih =>
    have hrest := ih (EditedBy.editFile_concat h path)
    rw [List.append_assoc, List.singleton_append] at hrest
    exact hrest

end Files.Tree

namespace Run

theorem fst_foldl_editOne (project : Project) (rule : Edit.Rule) (dryRun : Bool)
    (paths : List Path) (tree : Tree) (batch : Batch) :
    (paths.foldl (editOne project rule dryRun) (tree, batch)).1 =
      tree.afterEdits rule dryRun paths := by
  induction paths generalizing tree batch with
  | nil => rfl
  | cons path paths ih =>
    obtain ⟨changed, issues, hone, -⟩ := editOne_eq project rule dryRun tree batch path
    rw [List.foldl_cons, hone, ih]
    rfl

/-- A batch of edits applies the rule to each file, and does not fail. -/
theorem editFiles_eq (tree : Tree) (project : Project) (paths : List Path) (rule : Edit.Rule)
    (ruleName : String) (dryRun : Bool) :
    ∃ result, editFiles tree project paths rule ruleName dryRun =
      (tree.afterEdits rule dryRun paths, .ok result) := by
  rw [← fst_foldl_editOne project rule dryRun paths tree ⟨[], 0, []⟩]
  exact ⟨_, rfl⟩

end Run

/-- A batch of edits ends as it should if its command may touch the files in it. -/
theorem effect_editFiles {command : Command} {dryRun : Bool} (hdryRun : command.isDryRun = dryRun)
    {paths : List Path}
    (htouches : ∀ after address, tree.file? address ≠ none →
      (∃ path ∈ paths, tree.address path = .ok address) → command.Touches tree after address)
    (project : Project) (rule : Edit.Rule) (ruleName : String) :
    Effect tree command (Run.editFiles tree project paths rule ruleName dryRun) := by
  obtain ⟨result, hrun⟩ := Run.editFiles_eq tree project paths rule ruleName dryRun
  rw [hrun]
  cases dryRun with
  | true =>
    rw [Tree.afterEdits_dryRun]
    exact .unchanged _
  | false =>
    have hedited := @Tree.editedBy_afterEdits tree tree rule [] (Tree.EditedBy.refl rule tree) paths
    have hkept := hedited.file?_eq_none_iff
    refine .done result hdryRun (fun address ↦ mt (hkept address).mp) fun address hchanged ↦ ?_
    have hcount := mt hedited.file?_eq hchanged
    rw [List.nil_append, List.countP_eq_zero] at hcount
    push Not at hcount
    obtain ⟨path, hpath, hopen⟩ := hcount
    refine htouches _ address (fun hnone ↦ hchanged ?_)
      ⟨path, hpath, (Tree.opensAt_iff.mp hopen).1⟩
    rw [hnone, (hkept address).mpr hnone]

/-! ### All commands -/

/-- Every run ends in one of the three ways. -/
theorem effect_run (tree : Tree) (command : Command) : Effect tree command (run tree command) := by
  have hproject : ∀ (options : CommonOptions) (body : Project → Run),
      (∀ project, Project.ofOptions tree options.project = .ok project →
        Effect tree command (body project)) →
      Effect tree command (withProject tree options body) := by
    intro options body hbody
    unfold withProject
    cases hproject : Project.ofOptions tree options.project with
    | error error => exact .unchanged _
    | ok project => exact hbody project hproject
  cases command with
  | analyze options dryRun output =>
    exact hproject _ _ fun _ h ↦ effect_analyze h dryRun output
  | backfill options dryRun => exact hproject _ _ fun _ h ↦ effect_backfill h dryRun
  | generate options dryRun => exact hproject _ _ fun _ h ↦ effect_generate h dryRun
  | renameCategories options dryRun =>
    refine hproject _ _ fun project h ↦ effect_editFiles rfl ?_ project _ _
    intro after address hfile hpath
    exact ⟨project, h, hfile, hpath⟩
  | removeField options key files dryRun =>
    refine hproject _ _ fun project h ↦ effect_editFiles rfl ?_ project _ _
    intro after address hfile hpath
    exact ⟨project, h, hfile, hpath⟩
  | init options => exact effect_init options

/-- A run that fails leaves every file as it was and creates none. It can have created directories,
but only if what failed was writing a file. -/
theorem file?_of_run_error {command : Command} {error : RunError}
    (h : (run tree command).2 = .error error) :
    (∀ address, (run tree command).1.file? address = tree.file? address) ∧
      tree.Grows (run tree command).1 ∧
      ((∀ failure, error ≠ .output failure) → (run tree command).1 = tree) := by
  have heffect := effect_run tree command
  generalize run tree command = ended at h heffect ⊢
  cases heffect with
  | unchanged outcome => exact ⟨fun _ ↦ rfl, .refl tree, fun _ ↦ rfl⟩
  | failed failure hdryRun hafter =>
    obtain rfl := Except.error.inj h
    exact ⟨hafter.file?_eq, hafter.grows, fun hother ↦ absurd rfl (hother failure)⟩
  | done result hdryRun hkept htouches => cases h

/-- Options that name the working directory. -/
def hereOptions : CommonOptions := ⟨⟨some ".", none, none⟩, false⟩

/-- The project with one gap in its dictionary, which may be read but not written. -/
def lockedTree : Tree :=
  { fenceTree with refusals := [(["labels.json"], .permissionDenied)] }

theorem moduleFiles_lockedTree :
    moduleFiles lockedTree fenceProject.modulesRoot fenceProject.config.moduleFileSuffix =
      ([⟨"yard", ⟨"./modules/yard_calculators.dart"⟩⟩], 0) :=
  Tree.moduleFiles_of_walkFiles rfl (by decide +kernel)

theorem missingKeys_lockedTree :
    fenceProject.missingKeys lockedTree Dictionary.empty = ["yard.fence"] := by
  have hdirectory : lockedTree.isDirectory fenceProject.modulesRoot = true := by decide +kernel
  simp only [Project.missingKeys, Project.definitions, Project.scan, hdirectory, if_true,
    moduleFiles_lockedTree]
  decide +kernel

/-- There is a text to be filled in, the dictionary cannot be written, and everything stays. The
directory above the place of a report is created before that place turns out to be a directory
itself, but no file changes. -/
theorem file?_of_run_error_lockedTree :
    (run lockedTree (.backfill fenceOptions false)).2 =
        .error (.output ⟨.writeDictionary, ⟨"./labels.json"⟩, .refused .permissionDenied⟩) ∧
      (∀ address, (run lockedTree (.backfill fenceOptions false)).1.file? address =
        lockedTree.file? address) ∧
      (run .empty (.analyze hereOptions false "reports/..")).2 =
        .error (.output ⟨.writeReport, ⟨"./reports/.."⟩, .isDirectory⟩) ∧
      (run .empty (.analyze hereOptions false "reports/..")).1.get? ["reports"] =
        some .directory ∧
      ∀ address, (run .empty (.analyze hereOptions false "reports/..")).1.file? address =
        Tree.empty.file? address := by
  have hproject : Project.ofOptions lockedTree fenceOptions.project = .ok fenceProject := by
    decide +kernel
  have hchanged : Dictionary.isChangedBy (Dictionary.empty.backfill
      (fenceProject.missingKeys lockedTree Dictionary.empty)).2 = true := by
    rw [missingKeys_lockedTree]
    decide +kernel
  have hload : fenceProject.loadDictionary lockedTree = .ok (some Dictionary.empty) := rfl
  have hlocked : (run lockedTree (.backfill fenceOptions false)).2 =
      .error (.output ⟨.writeDictionary, ⟨"./labels.json"⟩, .refused .permissionDenied⟩) := by
    rw [run_backfill hproject, Run.backfill_of_refusal hload hchanged
      (show lockedTree.address fenceProject.dictionaryPath = .ok ["labels.json"] by decide +kernel)
      (show lockedTree.get? ["labels.json"] = some (.file (.text "\x7b\x7d")) by decide +kernel)
      (show lockedTree.refusal? ["labels.json"] = some .permissionDenied by decide +kernel)]
    decide +kernel
  have hreport : (run .empty (.analyze hereOptions false "reports/..")).2 =
      .error (.output ⟨.writeReport, ⟨"./reports/.."⟩, .isDirectory⟩) := by decide +kernel
  exact ⟨hlocked, (file?_of_run_error hlocked).1, hreport, by decide +kernel,
    (file?_of_run_error hreport).1⟩

/-- The command that arguments give creates and changes no files but those that it may touch, and
deletes none. With `--dry-run` it leaves everything as it was. -/
theorem run_footprint (tree : Tree) {arguments : List String} {command : Command}
    (h : Arguments.parse arguments = .ok (some command)) :
    ("--dry-run" ∈ arguments.takeWhile (· != "--") → (run tree command).1 = tree) ∧
      (∀ address, tree.file? address ≠ none → (run tree command).1.file? address ≠ none) ∧
      ∀ address, (run tree command).1.file? address ≠ tree.file? address →
        command.Touches tree (run tree command).1 address := by
  rw [← Arguments.isDryRun_iff h]
  have heffect := effect_run tree command
  generalize run tree command = ended at heffect ⊢
  cases heffect with
  | unchanged outcome =>
    exact ⟨fun _ ↦ rfl, fun _ hfile ↦ hfile, fun address hchanged ↦ absurd rfl hchanged⟩
  | failed failure hdryRun hafter =>
    refine ⟨fun hdry ↦ ?_, fun address hfile ↦ ?_, fun address hchanged ↦ ?_⟩
    · rw [hdryRun] at hdry
      cases hdry
    · rwa [hafter.file?_eq]
    · exact absurd (hafter.file?_eq address) hchanged
  | done result hdryRun hkept htouches =>
    refine ⟨fun hdry ↦ ?_, hkept, htouches⟩
    rw [hdryRun] at hdry
    cases hdry

/-- Two files that declare the same field. -/
def fieldTree : Tree := ⟨[
  (["a.dart"], .file (.text "CalculatorField(key: 'area'),\n")),
  (["b.dart"], .file (.text "CalculatorField(key: 'area'),\n"))], []⟩

/-- The field is removed from the file that is named, and the other one is not touched. -/
theorem run_footprint_fieldTree :
    Arguments.parse ["remove-field", "area", "--root", ".", "--file", "a.dart"] =
        .ok (some (.removeField hereOptions "area" ["a.dart"] false)) ∧
      (run fieldTree (.removeField hereOptions "area" ["a.dart"] false)).1.file? ["a.dart"] =
        some (.text "") ∧
      ∀ address,
        (run fieldTree (.removeField hereOptions "area" ["a.dart"] false)).1.file? address ≠
          fieldTree.file? address →
        Command.Touches fieldTree
          (run fieldTree (.removeField hereOptions "area" ["a.dart"] false)).1 address
          (.removeField hereOptions "area" ["a.dart"] false) := by
  have hparse : Arguments.parse ["remove-field", "area", "--root", ".", "--file", "a.dart"] =
      .ok (some (.removeField hereOptions "area" ["a.dart"] false)) := by decide +kernel
  exact ⟨hparse, by decide +kernel, (run_footprint fieldTree hparse).2.2⟩

end CalculatorCatalog
