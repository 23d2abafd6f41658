import CalculatorCatalog.Command.Run
import CalculatorCatalog.Proofs.Dictionary.Extension
import CalculatorCatalog.Proofs.Dictionary.Saving
import CalculatorCatalog.Proofs.Files.Overwriting
import CalculatorCatalog.Proofs.Files.Parents

/-!
# Filling in the label texts of a project

Filling in the label texts of a project puts the extended dictionary in the place of the old one,
and nothing else in the tree changes (`backfill_eq`). Since the dictionary is neither the
configuration nor a module, everything that the command reads besides the dictionary is then the
same as before (`reread_filledTree`), so that a second run finds nothing to do. `run_backfill_twice`
is the whole of it.
-/

set_option autoImplicit false
set_option relaxedAutoImplicit false

namespace CalculatorCatalog

open CalculatorCatalog.Files CalculatorCatalog.Naming

variable {tree : Tree}

/-! ### Reading the dictionary -/

namespace Project

variable {project : Project}

theorem loadDictionary_eq_some_iff {dictionary : Dictionary} :
    project.loadDictionary tree = .ok (some dictionary) ↔
      Dictionary.load tree project.dictionaryPath = .ok dictionary := by
  unfold loadDictionary
  cases hpresent : tree.isPresent project.dictionaryPath with
  | true => cases Dictionary.load tree project.dictionaryPath <;> simp [Except.map]
  | false =>
    simp only [Bool.false_eq_true, if_false, Except.ok.injEq, reduceCtorEq, false_iff]
    intro hload
    obtain ⟨text, hread, -⟩ := Dictionary.load_eq_ok_iff.mp hload
    obtain ⟨address, haddress, hfile⟩ := Tree.readText_eq_ok_iff.mp hread
    have hpresent' : tree.isPresent project.dictionaryPath = true :=
      Tree.isPresent_iff.mpr ⟨address, haddress, by simp [hfile]⟩
    rw [hpresent] at hpresent'
    cases hpresent'

/-! ### What stays the same -/

variable {reached : Address} {old : Content}

/-- The configuration stays when another file is overwritten. -/
theorem ofOptions_put {options : ProjectOptions}
    (hfile : tree.get? reached = some (.file old)) (content : Content)
    (hconfig : ∀ path, Config.find? tree (rootOf options) = some path →
      tree.address path ≠ .ok reached) :
    ofOptions (tree.put reached (.file content)) options = ofOptions tree options := by
  have hpresent := (Tree.sameShape_put hfile content).isPresent_eq
  have hfindIn : ∀ directories, Config.findIn (tree.put reached (.file content)) directories =
      Config.findIn tree directories := by
    intro directories
    induction directories with
    | nil => rfl
    | cons directory above ih => simp only [Config.findIn, hpresent, ih]
  have hfind : Config.find? (tree.put reached (.file content)) (rootOf options) =
      Config.find? tree (rootOf options) := hfindIn _
  have hload : Config.load (tree.put reached (.file content)) (rootOf options) =
      Config.load tree (rootOf options) := by
    unfold Config.load
    rw [hfind]
    cases hpath : Config.find? tree (rootOf options) with
    | none => rfl
    | some path =>
      simp only [Config.readFile, Tree.readText_put_of_ne (hconfig path hpath) hfile]
  simp only [ofOptions, hload]

/-- What the modules declare stays when a file that is no module is overwritten. -/
theorem scan_put (hdistinct : tree.IsDistinct) (hfile : tree.get? reached = some (.file old))
    (content : Content)
    (hmodules : ∀ file ∈ (moduleFiles tree project.modulesRoot project.config.moduleFileSuffix).1,
      tree.address file.path ≠ .ok reached) :
    project.scan (tree.put reached (.file content)) = project.scan tree := by
  have hshape := Tree.sameShape_put hfile content
  have hfiles : moduleFiles (tree.put reached (.file content)) project.modulesRoot
      project.config.moduleFileSuffix =
      moduleFiles tree project.modulesRoot project.config.moduleFileSuffix := by
    rw [moduleFiles, moduleFiles, Tree.walkFiles_put hdistinct hfile]
  have hmodule : ∀ file ∈ (moduleFiles tree project.modulesRoot project.config.moduleFileSuffix).1,
      project.scanModule (tree.put reached (.file content)) file =
        project.scanModule tree file := by
    intro file hmem
    rw [scanModule, scanModule, Tree.readText_put_of_ne (hmodules file hmem) hfile]
  simp only [scan, ← hshape.isDirectory_eq, hfiles, List.map_congr_left hmodule]

/-- The dictionary that has been written is read back if its text is read back. -/
theorem loadDictionary_put {dictionary : Dictionary}
    (haddress : tree.address project.dictionaryPath = .ok reached)
    (hfile : tree.get? reached = some (.file old))
    (hread : Json.read dictionary.toText = .ok (.object dictionary.sections)) :
    project.loadDictionary (tree.put reached (.file (.text dictionary.toText))) =
      .ok (some dictionary) :=
  loadDictionary_eq_some_iff.mpr (Dictionary.load_eq_ok_iff.mpr
    ⟨_, Tree.readText_put_self haddress hfile _, hread⟩)

/-! ### Gaps of a project -/

/-- The definitions of a project. -/
def definitions (project : Project) (tree : Tree) : List Definition :=
  (project.scan tree).definitions.map (·.definition)

/-- The keys of the labels that a project has no text for. -/
def missingKeys (project : Project) (tree : Tree) (dictionary : Dictionary) : List String :=
  Dictionary.missingKeys ((project.definitions tree).flatMap dictionary.missing)

/-- The gaps of the dictionary that labels of a project refer to. -/
def gaps (project : Project) (tree : Tree) (dictionary : Dictionary) : List LabelKey :=
  dictionary.gaps (project.missingKeys tree dictionary)

theorem nodup_missingKeys (project : Project) (tree : Tree) (dictionary : Dictionary) :
    (project.missingKeys tree dictionary).Nodup :=
  Text.nodup_sortedSet _

theorem mem_gaps_iff {dictionary : Dictionary} {key : LabelKey} :
    key ∈ project.gaps tree dictionary ↔
      key.IsWellFormed ∧ ¬dictionary.IsBlocked key.sectionName ∧ dictionary.entry? key = none ∧
        ∃ scanned ∈ (project.scan tree).definitions,
          scanned.definition.RefersTo key.dotted := by
  have hreferenced : (∃ definition ∈ project.definitions tree, definition.RefersTo key.dotted) ↔
      ∃ scanned ∈ (project.scan tree).definitions, scanned.definition.RefersTo key.dotted := by
    simp only [definitions, List.mem_map, exists_exists_and_eq_and]
  rw [gaps, Dictionary.mem_gaps_iff, missingKeys, Dictionary.mem_missingKeys_iff, hreferenced]
  constructor
  · rintro ⟨⟨hkey, hblocked, hentry⟩, hscanned, -⟩
    exact ⟨hkey, hblocked, hentry, hscanned⟩
  · rintro ⟨hkey, hblocked, hentry, hscanned⟩
    have hgap : dictionary.IsGap key := ⟨hkey, hblocked, hentry⟩
    exact ⟨hgap, hscanned, hgap.not_resolve_eq_found⟩

/-- The files after the gaps have been filled in: the dictionary at an address is replaced by the
extended one if there was a gap. -/
def filledTree (project : Project) (tree : Tree) (dictionary : Dictionary) (reached : Address) :
    Tree :=
  if project.gaps tree dictionary = [] then tree
  else tree.put reached (.file (.text
    (dictionary.withLabels (project.gaps tree dictionary)).toText))

/-- The configuration and the modules are the same afterwards, and the dictionary is the extended
one if its text reads back. -/
theorem reread_filledTree {options : ProjectOptions} {dictionary : Dictionary}
    (hdistinct : tree.IsDistinct) (hproject : ofOptions tree options = .ok project)
    (hload : project.loadDictionary tree = .ok (some dictionary))
    (haddress : tree.address project.dictionaryPath = .ok reached)
    (hfile : tree.get? reached = some (.file old))
    (hconfig : ∀ path, Config.find? tree (rootOf options) = some path →
      tree.address path ≠ .ok reached)
    (hmodules : ∀ file ∈ (moduleFiles tree project.modulesRoot project.config.moduleFileSuffix).1,
      tree.address file.path ≠ .ok reached)
    (hfaithful : Json.read (dictionary.withLabels (project.gaps tree dictionary)).toText =
      .ok (.object (dictionary.withLabels (project.gaps tree dictionary)).sections)) :
    ofOptions (project.filledTree tree dictionary reached) options = .ok project ∧
      project.scan (project.filledTree tree dictionary reached) = project.scan tree ∧
      project.loadDictionary (project.filledTree tree dictionary reached) =
        .ok (some (dictionary.withLabels (project.gaps tree dictionary))) := by
  unfold filledTree
  split_ifs with hnone
  · rw [hnone, Dictionary.withLabels_nil]
    exact ⟨hproject, rfl, hload⟩
  · exact ⟨(ofOptions_put hfile _ hconfig).trans hproject, scan_put hdistinct hfile _ hmodules,
      loadDictionary_put haddress hfile hfaithful⟩

end Project

namespace Run

variable {project : Project} {dictionary : Dictionary}

/-- What is reported of filling in the labels of a project. -/
def fillingResult (project : Project) (tree : Tree) (outcomes : List Outcome) (written : Bool) :
    Result :=
  .ofIssues (.backfilled outcomes (project.shown project.dictionaryPath) written false)
    ((project.scan tree).issues ++
      conflictIssues (project.shown project.dictionaryPath) outcomes)

theorem missingKeys_eq (project : Project) (tree : Tree) (dictionary : Dictionary) :
    project.missingKeys tree dictionary = Dictionary.missingKeys
      ((project.scan tree).definitions.flatMap
        fun scanned ↦ dictionary.missing scanned.definition) := by
  rw [Project.missingKeys, Project.definitions, List.flatMap_map]

/-- A dictionary that does not change is not written. -/
theorem backfill_of_unchanged (hload : project.loadDictionary tree = .ok (some dictionary))
    (hchanged : Dictionary.isChangedBy
      (dictionary.backfill (project.missingKeys tree dictionary)).2 = false) :
    Run.backfill tree project false = (tree, .ok (fillingResult project tree
      (dictionary.backfill (project.missingKeys tree dictionary)).2 false)) := by
  rw [missingKeys_eq] at hchanged ⊢
  unfold Run.backfill
  rw [hload]
  simp only [Bool.false_eq_true, if_false]
  rw [Dictionary.saveIfChanged, hchanged]
  rfl

/-- A dictionary that changes is put in the place of the one that was there, unless the system
refuses it. -/
theorem backfill_of_changed (hload : project.loadDictionary tree = .ok (some dictionary))
    (hchanged : Dictionary.isChangedBy
      (dictionary.backfill (project.missingKeys tree dictionary)).2 = true)
    {reached : Address} {old : Content}
    (haddress : tree.address project.dictionaryPath = .ok reached)
    (hfile : tree.get? reached = some (.file old)) (hopen : tree.refusal? reached = none) :
    Run.backfill tree project false =
      (tree.put reached (.file (.text
        (dictionary.backfill (project.missingKeys tree dictionary)).1.toText)),
      .ok (fillingResult project tree
        (dictionary.backfill (project.missingKeys tree dictionary)).2 true)) := by
  rw [missingKeys_eq] at hchanged ⊢
  unfold Run.backfill
  rw [hload]
  simp only [Bool.false_eq_true, if_false]
  rw [Dictionary.saveIfChanged, hchanged, if_pos rfl, Dictionary.save,
    Tree.save_of_file haddress hfile hopen]
  rfl

/-- Where the system refuses to write a dictionary that changes, the run fails, and everything is
as it was. -/
theorem backfill_of_refusal (hload : project.loadDictionary tree = .ok (some dictionary))
    (hchanged : Dictionary.isChangedBy
      (dictionary.backfill (project.missingKeys tree dictionary)).2 = true)
    {reached : Address} {old : Content} {refusal : Refusal}
    (haddress : tree.address project.dictionaryPath = .ok reached)
    (hfile : tree.get? reached = some (.file old))
    (hrefused : tree.refusal? reached = some refusal) :
    Run.backfill tree project false =
      (tree, .error (.output ⟨.writeDictionary, project.dictionaryPath, .refused refusal⟩)) := by
  rw [missingKeys_eq] at hchanged
  unfold Run.backfill
  rw [hload]
  simp only [Bool.false_eq_true, if_false]
  rw [Dictionary.saveIfChanged, hchanged, if_pos rfl, Dictionary.save,
    Tree.save_of_refusal haddress hfile hrefused]

/-- Filling in labels leaves the extended dictionary and nothing else, and says whether there was a
gap, if the dictionary can be written. -/
theorem backfill_eq (hload : project.loadDictionary tree = .ok (some dictionary))
    {reached : Address} {old : Content}
    (haddress : tree.address project.dictionaryPath = .ok reached)
    (hfile : tree.get? reached = some (.file old)) (hopen : tree.refusal? reached = none) :
    Run.backfill tree project false = (project.filledTree tree dictionary reached,
      .ok (fillingResult project tree
        (dictionary.backfill (project.missingKeys tree dictionary)).2
        (decide (project.gaps tree dictionary ≠ [])))) := by
  have hnodup := Dictionary.nodup_of_load (Project.loadDictionary_eq_some_iff.mp hload)
  have hmissing := project.nodup_missingKeys tree dictionary
  have hchanged := Dictionary.isChangedBy_backfill hnodup hmissing
  obtain ⟨hfilled, -⟩ := Dictionary.backfill_eq_withLabels hnodup hmissing
  rw [← Project.gaps] at hchanged hfilled
  unfold Project.filledTree
  split_ifs with hnone
  · rw [hnone] at hchanged ⊢
    exact backfill_of_unchanged hload hchanged
  · have hsome : decide (project.gaps tree dictionary ≠ []) = true := by simp [hnone]
    have hwritten : Dictionary.isChangedBy
        (dictionary.backfill (project.missingKeys tree dictionary)).2 = true := by
      rw [hchanged]
      simp [hnone]
    rw [hsome, ← hfilled]
    exact backfill_of_changed hload hwritten haddress hfile hopen

/-- Where the labels of a project have been filled in, there is nothing to fill in. -/
theorem backfill_of_filled {after : Tree} {filled : Dictionary}
    (hfilled : (dictionary.backfill (project.missingKeys tree dictionary)).1 = filled)
    (hscan : project.scan after = project.scan tree)
    (hload : project.loadDictionary after = .ok (some filled)) :
    ∃ outcomes, Dictionary.isChangedBy outcomes = false ∧
      Run.backfill after project false =
        (after, .ok (fillingResult project after outcomes false)) := by
  have hunchanged : Dictionary.isChangedBy
      (filled.backfill (project.missingKeys tree filled)).2 = false :=
    (Dictionary.backfill_missing_twice hfilled).2
  have hmissing : project.missingKeys after filled = project.missingKeys tree filled := by
    rw [Project.missingKeys, Project.definitions, hscan]
    rfl
  rw [← hmissing] at hunchanged
  exact ⟨_, hunchanged, backfill_of_unchanged hload hunchanged⟩

end Run

/-! ### Two runs -/

theorem run_backfill {options : CommonOptions} {project : Project}
    (hproject : Project.ofOptions tree options.project = .ok project) (dryRun : Bool) :
    run tree (.backfill options dryRun) = Run.backfill tree project dryRun := by
  rw [run, withProject, hproject]

/-- Filling in the label texts of a project whose dictionary can be written enters one text for each
gap of the dictionary that a label of some definition refers to, keeps all else that the dictionary
holds in its order, and writes the file if there was a gap. If the new text reads back as the
dictionary that was written, then a second run finds that dictionary, enters nothing and leaves
every file as it is. -/
theorem run_backfill_twice {options : CommonOptions} {project : Project} {dictionary : Dictionary}
    (hdistinct : tree.IsDistinct)
    (hproject : Project.ofOptions tree options.project = .ok project)
    (hload : project.loadDictionary tree = .ok (some dictionary))
    (hopen : tree.refusalAt? project.dictionaryPath = none)
    (hconfig : ∀ path, Config.find? tree (Project.rootOf options.project) = some path →
      tree.address path ≠ tree.address project.dictionaryPath)
    (hmodules : ∀ file ∈ (moduleFiles tree project.modulesRoot project.config.moduleFileSuffix).1,
      tree.address file.path ≠ tree.address project.dictionaryPath) :
    ∃ (added : List LabelKey) (reached : Address) (after : Tree) (outcomes : List Outcome)
      (issues : List Issue),
      added.Nodup ∧
      (∀ key, key ∈ added ↔
        key.IsWellFormed ∧ ¬dictionary.IsBlocked key.sectionName ∧ dictionary.entry? key = none ∧
          ∃ scanned ∈ (project.scan tree).definitions, scanned.definition.RefersTo key.dotted) ∧
      tree.address project.dictionaryPath = .ok reached ∧
      after = (if added = [] then tree
        else tree.put reached (.file (.text (dictionary.withLabels added).toText))) ∧
      run tree (.backfill options false) =
        (after, .ok ⟨.backfilled outcomes (project.shown project.dictionaryPath)
          (decide (added ≠ [])) false, issues⟩) ∧
      outcomes.filter Outcome.isInserted = (added.map fun key ↦
        .inserted key.dotted (chooseLabel key.short).1 (chooseLabel key.short).2) ∧
      (Json.read (dictionary.withLabels added).toText =
          .ok (.object (dictionary.withLabels added).sections) →
        project.loadDictionary after = .ok (some (dictionary.withLabels added)) ∧
        ∃ outcomes' issues', Dictionary.isChangedBy outcomes' = false ∧
          run after (.backfill options false) =
            (after, .ok ⟨.backfilled outcomes' (project.shown project.dictionaryPath) false false,
              issues'⟩)) := by
  have hloaded := Project.loadDictionary_eq_some_iff.mp hload
  obtain ⟨text, hread, -⟩ := Dictionary.load_eq_ok_iff.mp hloaded
  obtain ⟨reached, haddress, hfile⟩ := Tree.readText_eq_ok_iff.mp hread
  rw [haddress] at hconfig hmodules
  rw [Tree.refusalAt?_of_address haddress] at hopen
  have hmissing := project.nodup_missingKeys tree dictionary
  obtain ⟨hfilled, hinserted⟩ :=
    Dictionary.backfill_eq_withLabels (Dictionary.nodup_of_load hloaded) hmissing
  have hrun := Run.backfill_eq hload haddress hfile hopen
  refine ⟨project.gaps tree dictionary, reached, project.filledTree tree dictionary reached,
    (dictionary.backfill (project.missingKeys tree dictionary)).2, _,
    Dictionary.nodup_gaps hmissing, fun key ↦ Project.mem_gaps_iff, haddress, rfl,
    (run_backfill hproject false).trans hrun, hinserted, fun hfaithful ↦ ?_⟩
  obtain ⟨hproject', hscan, hload'⟩ := Project.reread_filledTree hdistinct hproject hload haddress
    hfile hconfig hmodules hfaithful
  obtain ⟨outcomes, hunchanged, hagain⟩ := Run.backfill_of_filled hfilled hscan hload'
  exact ⟨hload', outcomes, _, hunchanged, (run_backfill hproject' false).trans hagain⟩

/-- A project with one module, which declares one calculator, and an empty dictionary. -/
def fenceTree : Tree := ⟨[
  (["modules"], .directory),
  (["modules", "yard_calculators.dart"],
    .file (.text "[CalculatorDefinition(id: 'fence', titleKey: 'yard.fence')];")),
  (["labels.json"], .file (.text "\x7b\x7d"))], []⟩

/-- The options that name the project. -/
def fenceOptions : CommonOptions :=
  ⟨⟨none, some "labels.json", some "modules"⟩, false⟩

/-- The project. -/
def fenceProject : Project :=
  ⟨⟨"."⟩, { Config.standard with dictionaryPath := "labels.json", modulesRoot := "modules" }⟩

theorem moduleFiles_fenceTree :
    moduleFiles fenceTree fenceProject.modulesRoot fenceProject.config.moduleFileSuffix =
      ([⟨"yard", ⟨"./modules/yard_calculators.dart"⟩⟩], 0) :=
  Tree.moduleFiles_of_walkFiles rfl (by decide +kernel)

/-- The title of the calculator is the only label that the project refers to. -/
theorem refersTo_fenceTree_iff (text : String) :
    (∃ scanned ∈ (fenceProject.scan fenceTree).definitions, scanned.definition.RefersTo text) ↔
      text = "yard.fence" := by
  have hlabels : (fenceProject.scan fenceTree).definitions.map
      (·.definition.labelKeys.map (·.2)) = [["yard.fence"]] := by
    have hdirectory : fenceTree.isDirectory fenceProject.modulesRoot = true := by decide +kernel
    simp only [Project.scan, hdirectory, if_true, moduleFiles_fenceTree]
    decide +kernel
  have hexists : (∃ scanned ∈ (fenceProject.scan fenceTree).definitions,
      scanned.definition.RefersTo text) ↔
      ∃ keys ∈ (fenceProject.scan fenceTree).definitions.map
        (·.definition.labelKeys.map (·.2)), text ∈ keys := by
    simp only [← Definition.mem_labelKeys_iff, List.mem_map, exists_exists_and_eq_and]
  rw [hexists, hlabels]
  simp

/-- The title of the calculator is the only gap of the empty dictionary. -/
theorem gap_fenceTree_iff (key : LabelKey) :
    (key.IsWellFormed ∧ ¬Dictionary.empty.IsBlocked key.sectionName ∧
        Dictionary.empty.entry? key = none ∧
        ∃ scanned ∈ (fenceProject.scan fenceTree).definitions,
          scanned.definition.RefersTo key.dotted) ↔
      key = ⟨"yard", "fence"⟩ := by
  have hkey : LabelKey.IsWellFormed ⟨"yard", "fence"⟩ :=
    ⟨by decide, by decide, by decide, by decide⟩
  rw [refersTo_fenceTree_iff]
  constructor
  · rintro ⟨hproper, -, -, hdotted⟩
    exact LabelKey.dotted_inj hproper hkey hdotted
  · rintro rfl
    refine ⟨hkey, ?_, rfl, rfl⟩
    rintro ⟨value, hvalue, -⟩
    cases hvalue

/-- The dictionary gets the title of the calculator, and then stays. -/
theorem run_backfill_fenceTree :
    ∃ after outcomes issues outcomes' issues',
      run fenceTree (.backfill fenceOptions false) =
        (after, .ok ⟨.backfilled outcomes "labels.json" true false, issues⟩) ∧
      fenceProject.loadDictionary after =
        .ok (some ⟨[("yard", .object [("fence", .string "Забор")])]⟩) ∧
      run after (.backfill fenceOptions false) =
        (after, .ok ⟨.backfilled outcomes' "labels.json" false false, issues'⟩) := by
  have hproject : Project.ofOptions fenceTree fenceOptions.project = .ok fenceProject := by
    decide +kernel
  have hconfig : ∀ path, Config.find? fenceTree (Project.rootOf fenceOptions.project) = some path →
      fenceTree.address path ≠ fenceTree.address fenceProject.dictionaryPath := by
    have hnone : Config.find? fenceTree (Project.rootOf fenceOptions.project) = none := by
      decide +kernel
    rw [hnone]
    simp
  have hmodules : ∀ file ∈ (moduleFiles fenceTree fenceProject.modulesRoot
      fenceProject.config.moduleFileSuffix).1,
      fenceTree.address file.path ≠ fenceTree.address fenceProject.dictionaryPath := by
    rw [moduleFiles_fenceTree, List.forall_mem_singleton]
    decide +kernel
  obtain ⟨added, reached, after, outcomes, issues, hnodup, hadded, -, -, hrun, -, htwice⟩ :=
    run_backfill_twice (by unfold Tree.IsDistinct; decide) hproject
      (show fenceProject.loadDictionary fenceTree = .ok (some Dictionary.empty) from rfl)
      (by decide +kernel) hconfig hmodules
  have hsingle : added = [⟨"yard", "fence"⟩] := by
    refine List.perm_singleton.mp ((List.perm_ext_iff_of_nodup hnodup (List.nodup_singleton _)).mpr
      fun key ↦ ?_)
    rw [hadded, gap_fenceTree_iff, List.mem_singleton]
  subst hsingle
  obtain ⟨hload, outcomes', issues', -, hrun'⟩ := htwice rfl
  exact ⟨after, outcomes, issues, outcomes', issues', hrun, hload, hrun'⟩

end CalculatorCatalog
