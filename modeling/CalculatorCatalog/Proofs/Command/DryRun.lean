import CalculatorCatalog.Proofs.Command.Filling
import CalculatorCatalog.Proofs.Command.Generating
import CalculatorCatalog.Proofs.Edit.Repetition

/-!
# What a dry run foresees

A dry run looks at the files as they are at the start, while a real run goes on with those that it
has changed. Filling in label texts is one step, and a dry run foresees it unless the system refuses
to write the dictionary (`Run.backfill_foreseen_iff`). Sources and edits come one after the other,
and there the two runs differ also where an item meets what an earlier one has left: `foresees_iff`
says for every command when they do not.
-/

set_option autoImplicit false
set_option relaxedAutoImplicit false

namespace CalculatorCatalog

open CalculatorCatalog.Files

/-! ### Filling in label texts -/

namespace Run

variable {tree : Tree} {project : Project}

/-- A dry run reports what is to be filled in. -/
theorem backfill_dryRun {dictionary : Dictionary}
    (hload : project.loadDictionary tree = .ok (some dictionary)) :
    (Run.backfill tree project true).2.map (·.summary.work) =
      .ok (fillingResult project tree
        (dictionary.backfill (project.missingKeys tree dictionary)).2 false).summary.work := by
  unfold Run.backfill
  rw [hload, missingKeys_eq]
  simp only [if_true, Except.map, fillingResult, Result.ofIssues, Summary.work]

theorem backfill_foreseen_iff (tree : Tree) (project : Project) :
    (Run.backfill tree project true).2.map (·.summary.work) =
        (Run.backfill tree project false).2.map (·.summary.work) ↔
      ∀ dictionary, project.loadDictionary tree = .ok (some dictionary) →
        project.gaps tree dictionary ≠ [] → tree.refusalAt? project.dictionaryPath = none := by
  cases hload : project.loadDictionary tree with
  | error error =>
    unfold Run.backfill
    rw [hload]
    simp
  | ok loaded =>
    cases loaded with
    | none =>
      unfold Run.backfill
      rw [hload]
      simp [Except.map, Result.ofIssues, Summary.work]
    | some dictionary =>
      have hloaded := Project.loadDictionary_eq_some_iff.mp hload
      obtain ⟨text, hread, -⟩ := Dictionary.load_eq_ok_iff.mp hloaded
      obtain ⟨reached, haddress, hfile⟩ := Tree.readText_eq_ok_iff.mp hread
      have hchanged := Dictionary.isChangedBy_backfill (Dictionary.nodup_of_load hloaded)
        (project.nodup_missingKeys tree dictionary)
      rw [← Project.gaps] at hchanged
      simp only [Except.ok.injEq, Option.some.injEq, forall_eq']
      rw [backfill_dryRun hload, Tree.refusalAt?_of_address haddress]
      by_cases hgaps : project.gaps tree dictionary = []
      · rw [backfill_of_unchanged hload (by simp [hchanged, hgaps])]
        exact iff_of_true rfl fun hsome ↦ absurd hgaps hsome
      · rw [List.isEmpty_eq_false_iff.mpr hgaps] at hchanged
        cases hrefusal : tree.refusal? reached with
        | none =>
          rw [backfill_of_changed hload hchanged haddress hfile hrefusal]
          exact iff_of_true rfl fun _ ↦ rfl
        | some refusal =>
          rw [backfill_of_refusal hload hchanged haddress hfile hrefusal]
          refine iff_of_false (by simp [Except.map]) fun hopen ↦ ?_
          cases hopen hgaps

end Run

/-! ### Editing files -/

namespace Run

/-- How a file is listed as changed, if it is. -/
def listed? (project : Project) : Path × List Change → Option (String × FileEdit)
  | (_, []) => none
  | (path, changes) => some (project.shown path, ⟨path, changes, false⟩)

theorem eq_of_listed?_eq {project : Project} {path : Path} {changes changes' : List Change}
    (h : listed? project (path, changes) = listed? project (path, changes')) :
    changes = changes' := by
  cases changes <;> cases changes' <;> simp_all [listed?]

/-- One file of a batch is edited, and listed if there are changes to report. -/
theorem editOne_eq (project : Project) (rule : Edit.Rule) (dryRun : Bool) (tree : Tree)
    (batch : Batch) (path : Path) :
    ∃ changed issues, editOne project rule dryRun (tree, batch) path =
        ((tree.editFile rule dryRun path).1,
          ⟨changed, batch.checked + (if tree.isFile path then 1 else 0), issues⟩) ∧
      changed.map (fun (shown, edit) ↦ (shown, edit.unwritten)) =
        batch.changed.map (fun (shown, edit) ↦ (shown, edit.unwritten)) ++
          (listed? project (path, tree.changesReported rule dryRun path)).toList := by
  unfold editOne
  cases hfile : tree.isFile path with
  | false =>
    have hread : ∀ text, tree.readText path ≠ .ok text := by
      intro text hread
      rw [Tree.isFile_of_readText hread] at hfile
      cases hfile
    have hnone : tree.changesReported rule dryRun path = [] ∧
        (tree.editFile rule dryRun path).1 = tree := by
      cases hfault : tree.readText path with
      | ok text => exact absurd hfault (hread text)
      | error fault =>
        rw [Tree.changesReported_of_error hfault, Tree.editFile_of_error hfault]
        exact ⟨rfl, rfl⟩
    simp only [hfile, Bool.false_eq_true, if_false, hnone]
    exact ⟨_, _, rfl, by simp [listed?]⟩
  | true =>
    obtain ⟨after, failure, hedit, hnone⟩ | ⟨after, written, hedit⟩ :=
      tree.changes_editFile rule dryRun path
    · simp only [hfile, if_true, hedit, hnone]
      exact ⟨_, _, rfl, by simp [listed?]⟩
    · simp only [hfile, if_true, hedit]
      cases tree.changesReported rule dryRun path with
      | nil => exact ⟨_, _, rfl, by simp [listed?, FileEdit.isChanged]⟩
      | cons change changes =>
        exact ⟨_, _, rfl, by simp [listed?, FileEdit.isChanged, FileEdit.unwritten]⟩

/-- The files that a batch of edits lists are those with changes to report. -/
theorem foldl_editOne {start tree : Tree} (hshape : start.SameShape tree) (project : Project)
    (rule : Edit.Rule) (dryRun : Bool) (paths : List Path) (batch : Batch) :
    ∃ after changed issues, paths.foldl (editOne project rule dryRun) (tree, batch) =
        (after, ⟨changed, batch.checked + paths.countP start.isFile, issues⟩) ∧
      changed.map (fun (shown, edit) ↦ (shown, edit.unwritten)) =
        batch.changed.map (fun (shown, edit) ↦ (shown, edit.unwritten)) ++
          (tree.findings rule dryRun paths).filterMap (listed? project) := by
  induction paths generalizing tree batch with
  | nil => exact ⟨tree, batch.changed, batch.issues, by simp [Tree.findings]⟩
  | cons path paths ih =>
    obtain ⟨changed, issues, hone, hchanged⟩ := editOne_eq project rule dryRun tree batch path
    obtain ⟨after, changed', issues', hrest, hchanged'⟩ :=
      ih (hshape.trans (tree.sameShape_editFile rule dryRun path))
        ⟨changed, batch.checked + (if tree.isFile path then 1 else 0), issues⟩
    refine ⟨after, changed', issues', ?_, ?_⟩
    · have hchecked : batch.checked + (if tree.isFile path then 1 else 0) +
          paths.countP start.isFile = batch.checked + (path :: paths).countP start.isFile := by
        rw [List.countP_cons, hshape.isFile_eq path]
        omega
      rw [List.foldl_cons, hone, hrest, hchecked]
    · rw [hchanged', hchanged, Tree.findings, filterMap_cons_eq_append, List.append_assoc]

/-- The summary of a batch of edits. -/
theorem editFiles_summary (tree : Tree) (project : Project) (paths : List Path) (rule : Edit.Rule)
    (ruleName : String) (dryRun : Bool) :
    (editFiles tree project paths rule ruleName dryRun).2.map (·.summary.work) =
      .ok (.edited ruleName ((tree.findings rule dryRun paths).filterMap (listed? project))
        (paths.countP tree.isFile) false) := by
  obtain ⟨after, changed, issues, hbatch, hchanged⟩ :=
    foldl_editOne (.refl tree) project rule dryRun paths ⟨[], 0, []⟩
  simp only [editFiles, hbatch, Except.map, Result.ofIssues, Summary.work, hchanged, List.map_nil,
    List.nil_append, Nat.zero_add]

/-- A dry run foresees a batch of edits exactly if the rule changes in each file, in its turn, what
it found there at the start. -/
theorem editFiles_foreseen_iff (tree : Tree) (project : Project) (paths : List Path)
    (rule : Edit.Rule) (ruleName : String) :
    (editFiles tree project paths rule ruleName true).2.map (·.summary.work) =
        (editFiles tree project paths rule ruleName false).2.map (·.summary.work) ↔
      ∀ turn ∈ tree.turns [] paths,
        tree.changesMade rule turn.2 turn.1 = tree.changesAfter rule 0 turn.1 := by
  have hreal : tree.findings rule false paths =
      (tree.turns [] paths).map fun turn ↦ (turn.1, tree.changesMade rule turn.2 turn.1) :=
    Tree.findings_eq (.refl rule tree) paths
  have hdry : tree.findings rule true paths =
      (tree.turns [] paths).map fun turn ↦ (turn.1, tree.changesAfter rule 0 turn.1) := by
    rw [Tree.findings_dryRun]
    conv_lhs => rw [← tree.map_fst_turns [] paths, List.map_map]
    rfl
  rw [editFiles_summary, editFiles_summary, hreal, hdry]
  simp only [Except.ok.injEq, Summary.edited.injEq, true_and, and_true, List.filterMap_map]
  constructor
  · intro h turn hturn
    have hlisted := eq_of_filterMap_eq ?_ h.symm turn hturn
    · exact eq_of_listed?_eq hlisted
    · rintro ⟨path, count⟩ - hsome
      cases hnone : tree.changesAfter rule 0 path with
      | nil => simp [Tree.changesMade_eq_nil hnone, listed?] at hsome
      | cons change changes => simp [hnone, listed?]
  · intro h
    refine List.filterMap_congr fun turn hturn ↦ ?_
    simp only [Function.comp_apply, h turn hturn]

/-- A dry run foresees a batch of edits in which no two paths lead to the same place, if the system
refuses none of them. -/
theorem editFiles_foreseen_of_nodup {tree : Tree} {paths : List Path}
    (h : (paths.map tree.address).Nodup) (hopen : ∀ path ∈ paths, tree.refusalAt? path = none)
    (project : Project) (rule : Edit.Rule) (ruleName : String) :
    (editFiles tree project paths rule ruleName true).2.map (·.summary.work) =
      (editFiles tree project paths rule ruleName false).2.map (·.summary.work) := by
  refine (editFiles_foreseen_iff tree project paths rule ruleName).mpr fun turn hturn ↦ ?_
  have hpath : turn.1 ∈ paths := by
    rw [← tree.map_fst_turns [] paths]
    exact List.mem_map_of_mem hturn
  rw [Tree.turns_of_nodup (by simpa using h) turn hturn, Tree.changesMade, hopen _ hpath]

/-- The files from which fields are to be removed. -/
def editedPaths (tree : Tree) (project : Project) (files : List String) : List Path :=
  if files.isEmpty then editSet tree project else files.map project.resolve

/-- A second renaming finds nothing, and one that is refused changes nothing, so both are foreseen
exactly where there is nothing to rename. -/
theorem renameCategories_foreseen_iff (tree : Tree) (project : Project) :
    (renameCategories tree project true).2.map (·.summary.work) =
        (renameCategories tree project false).2.map (·.summary.work) ↔
      ∀ turn ∈ tree.turns [] (editSet tree project),
        turn.2 ≠ 0 ∨ tree.refusalAt? turn.1 ≠ none →
          tree.changesAfter (.renameCategories project.config.categoryNamespace) 0 turn.1 = [] := by
  rw [renameCategories, renameCategories, editFiles_foreseen_iff]
  refine forall₂_congr fun turn _ ↦ ?_
  unfold Tree.changesMade
  cases hrefusal : tree.refusalAt? turn.1 with
  | some refusal => exact ⟨fun h _ ↦ h.symm, fun h ↦ (h (.inr (by simp))).symm⟩
  | none =>
    simp only [ne_eq, not_true_eq_false, or_false]
    constructor
    · intro h hagain
      rw [← h, Tree.changesAfter_renameCategories tree _ turn.1 hagain]
    · intro h
      by_cases hagain : turn.2 = 0
      · rw [hagain]
      · rw [h hagain, Tree.changesAfter_renameCategories tree _ turn.1 hagain]

end Run

/-! ### What a dry run foresees -/

theorem foresees_generate {tree : Tree} {options : CommonOptions} :
    Foresees tree (.generate options) ↔
      ∀ project, Project.ofOptions tree options.project = .ok project →
        (Run.generate tree project true).2.map (·.summary.work) =
          (Run.generate tree project false).2.map (·.summary.work) :=
  foresees_iff_project fun _ ↦ rfl

theorem foresees_backfill {tree : Tree} {options : CommonOptions} :
    Foresees tree (.backfill options) ↔
      ∀ project, Project.ofOptions tree options.project = .ok project →
        (Run.backfill tree project true).2.map (·.summary.work) =
          (Run.backfill tree project false).2.map (·.summary.work) :=
  foresees_iff_project fun _ ↦ rfl

/-- Filling in label texts is foreseen unless there is a gap and the system refuses to write the
dictionary.

Which sources are generated is foreseen exactly if every source becomes, in its turn, what it meets
at the start. Where the directories of the sources are there, this means that the system refuses no
new source, and that none leads to the place of an earlier one.

A batch of edits is foreseen exactly if the rule changes in each file, in its turn, what it found
there at the start; for a renaming, this is nothing if the file has been edited before or the system
refuses to write it. -/
theorem foresees_iff (tree : Tree) (options : CommonOptions) :
    (Foresees tree (.backfill options) ↔
      ∀ project, Project.ofOptions tree options.project = .ok project →
        ∀ dictionary, project.loadDictionary tree = .ok (some dictionary) →
          project.gaps tree dictionary ≠ [] → tree.refusalAt? project.dictionaryPath = none) ∧
    (Foresees tree (.generate options) ↔
      ∀ project, Project.ofOptions tree options.project = .ok project →
        ∀ placement ∈ Run.placements project.generator false tree (project.scan tree).definitions,
          placement.2 = Run.foreseen tree placement.1) ∧
    (∀ project, Project.ofOptions tree options.project = .ok project →
      (∀ file ∈ Run.sources project.generator (project.scan tree).definitions,
        ∃ before directory name, tree.NamesIn file.path before directory name) →
      (Foresees tree (.generate options) ↔
        (Run.sources project.generator (project.scan tree).definitions).Pairwise
          (Run.Apart tree) ∧
        ∀ file ∈ Run.sources project.generator (project.scan tree).definitions,
          tree.isPresent file.path = false → tree.refusalAt? file.path = none)) ∧
    (Foresees tree (.renameCategories options) ↔
      ∀ project, Project.ofOptions tree options.project = .ok project →
        ∀ turn ∈ tree.turns [] (Run.editSet tree project),
          turn.2 ≠ 0 ∨ tree.refusalAt? turn.1 ≠ none →
            tree.changesAfter (.renameCategories project.config.categoryNamespace) 0 turn.1 =
              []) ∧
    ∀ key files, Foresees tree (.removeField options key files) ↔
      ∀ project, Project.ofOptions tree options.project = .ok project →
        ∀ turn ∈ tree.turns [] (Run.editedPaths tree project files),
          tree.changesMade (.removeBlocks project.config.fieldConstructor key) turn.2 turn.1 =
            tree.changesAfter (.removeBlocks project.config.fieldConstructor key) 0 turn.1 := by
  refine ⟨?_, ?_, ?_, ?_, fun key files ↦ ?_⟩
  · rw [foresees_backfill]
    exact forall₂_congr fun project _ ↦ Run.backfill_foreseen_iff tree project
  · rw [foresees_generate]
    exact forall₂_congr fun project _ ↦ Run.generate_foreseen_iff tree project
  · intro project hproject hnames
    rw [foresees_generate, hproject, ← Run.generate_foreseen_iff_pairwise hnames]
    simp
  · rw [foresees_iff_project fun _ ↦ rfl]
    exact forall₂_congr fun project _ ↦ Run.renameCategories_foreseen_iff tree project
  · rw [foresees_iff_project fun _ ↦ rfl]
    exact forall₂_congr fun project _ ↦ Run.editFiles_foreseen_iff tree project _ _ _

/-- A project with one module, which declares two calculators under the same identifier. -/
def twinTree : Tree := ⟨[
  (["lib"], .directory),
  (["lib", "domain"], .directory),
  (["lib", "domain", "calculators"], .directory),
  (["lib", "domain", "calculators", "modules"], .directory),
  (["lib", "domain", "calculators", "modules", "a_calculators.dart"],
    .file (.text ("[CalculatorDefinition(id: 'x', titleKey: 't.x', useCase: F()), " ++
      "CalculatorDefinition(id: 'x', titleKey: 't.y', useCase: G())];")))], []⟩

/-- The options that name the project. -/
def twinOptions : CommonOptions :=
  ⟨⟨none, none, none⟩, false⟩

/-- The project. -/
def twinProject : Project :=
  ⟨⟨"."⟩, Config.standard⟩

/-- The path of both sources. -/
def twinPath : Path :=
  ⟨"./lib/domain/calculators/x_v2.dart"⟩

theorem moduleFiles_twinTree :
    moduleFiles twinTree twinProject.modulesRoot twinProject.config.moduleFileSuffix =
      ([⟨"a", ⟨"./lib/domain/calculators/modules/a_calculators.dart"⟩⟩], 0) :=
  Tree.moduleFiles_of_walkFiles rfl (by decide +kernel)

theorem map_path_sources_twinTree :
    (Run.sources twinProject.generator (twinProject.scan twinTree).definitions).map (·.path) =
      [twinPath, twinPath] := by
  have hdirectory : twinTree.isDirectory twinProject.modulesRoot = true := by decide +kernel
  simp only [Project.scan, hdirectory, if_true, moduleFiles_twinTree]
  decide +kernel

theorem namesIn_twinTree : twinTree.NamesIn twinPath [".", "lib", "domain", "calculators"]
    ["lib", "domain", "calculators"] "x_v2.dart" where
  checked_eq := by decide +kernel
  segments_eq := by decide +kernel
  name_ne := by decide
  length_le := by decide +kernel
  followPath_eq := by decide +kernel
  get?_eq := by decide +kernel

/-- The dry run lists the source twice, and the real run creates it once. -/
theorem not_foresees_twinTree : ¬Foresees twinTree (.generate twinOptions) := by
  intro h
  have hproject : Project.ofOptions twinTree twinOptions.project = .ok twinProject := by
    decide +kernel
  have hforeseen := foresees_generate.mp h twinProject hproject
  have hpaths := map_path_sources_twinTree
  rw [Run.generate_foreseen_iff_pairwise] at hforeseen
  · simp only [List.map_eq_cons_iff, List.map_eq_nil_iff] at hpaths
    obtain ⟨first, rest, hsources, hfirst, second, rest', rfl, hsecond, rfl⟩ := hpaths
    rw [hsources, List.pairwise_pair, Run.Apart, hfirst, hsecond] at hforeseen
    exact hforeseen.1 (by decide +kernel) rfl
  · intro file hfile
    have hpath : file.path = twinPath := by
      have hmem := List.mem_map_of_mem (f := (·.path)) hfile
      rw [hpaths] at hmem
      simpa using hmem
    rw [hpath]
    exact ⟨_, _, _, namesIn_twinTree⟩

end CalculatorCatalog
