import CalculatorCatalog.Proofs.Command.Filling
import CalculatorCatalog.Proofs.Dictionary.Reordering

/-!
# Filling in the labels of a project scanned in another order

What a run that fills in label texts reports and leaves depends on the text of the dictionary and on
the keys that are missing (`outcomes?_backfill_of_load`, `outcomes?_backfill_of_not_object`), and
these keys depend only on what is declared. So projects whose modules declare the same, in whatever
order, however often and in whichever modules, get the same dictionary text and the same outcomes.
`backfill_scanOrder` says so for definitions, for runs, and up to the order of what is added also
for keys in any order.
-/

set_option autoImplicit false
set_option relaxedAutoImplicit false

namespace CalculatorCatalog

open CalculatorCatalog.Files

namespace Run

/-- What a run that fills in label texts says of each key, if it gets that far. -/
def outcomes? : Run → Option (List Outcome)
  | (_, .ok ⟨.backfilled outcomes _ _ _, _⟩) => some outcomes
  | _ => none

variable {tree : Tree} {project : Project} {text : String}

/-- Whether a run has to write its dictionary. -/
def hasToWrite (dryRun : Bool) (outcomes : List Outcome) : Bool :=
  !dryRun && Dictionary.isChangedBy outcomes

/-- With a dictionary, a run reports what filling in the missing keys gives, and leaves the text of
what it gives unless nothing has changed or nothing is to be written. If the system refuses what has
to be written, nothing is reported, and the text stays. -/
theorem outcomes?_backfill_of_load {dictionary : Dictionary}
    (hread : tree.readText project.dictionaryPath = .ok text)
    (hload : project.loadDictionary tree = .ok (some dictionary)) (dryRun : Bool) :
    let filled := dictionary.backfill (project.missingKeys tree dictionary)
    outcomes? (Run.backfill tree project dryRun) =
        (if hasToWrite dryRun filled.2 ∧ tree.refusalAt? project.dictionaryPath ≠ none then none
          else some filled.2) ∧
      (Run.backfill tree project dryRun).1.readText project.dictionaryPath =
        .ok (if hasToWrite dryRun filled.2 ∧ tree.refusalAt? project.dictionaryPath = none then
          filled.1.toText else text) := by
  intro filled
  obtain ⟨reached, haddress, hfile⟩ := Tree.readText_eq_ok_iff.mp hread
  rw [Tree.refusalAt?_of_address haddress]
  cases dryRun with
  | true =>
    simp only [hasToWrite, Bool.not_true, Bool.false_and, Bool.false_eq_true, false_and, if_false]
    unfold Run.backfill
    rw [hload]
    refine ⟨?_, hread⟩
    simp only [filled, missingKeys_eq, if_true]
    rfl
  | false =>
    simp only [hasToWrite, Bool.not_false, Bool.true_and]
    cases hchanged : Dictionary.isChangedBy filled.2 with
    | false =>
      rw [backfill_of_unchanged hload hchanged]
      simp only [Bool.false_eq_true, false_and, if_false]
      exact ⟨rfl, hread⟩
    | true =>
      cases hrefusal : tree.refusal? reached with
      | none =>
        rw [backfill_of_changed hload hchanged haddress hfile hrefusal]
        simp only [ne_eq, not_true_eq_false, and_false, and_self, if_false, if_true]
        exact ⟨rfl, Tree.readText_put_self haddress hfile _⟩
      | some refusal =>
        rw [backfill_of_refusal hload hchanged haddress hfile hrefusal]
        simp only [ne_eq, reduceCtorEq, not_false_eq_true, and_self, and_false, if_true, if_false]
        exact ⟨rfl, hread⟩

/-- A file that holds no dictionary stays as it is, and nothing is reported of any key. -/
theorem outcomes?_backfill_of_not_object
    (hread : tree.readText project.dictionaryPath = .ok text)
    (hobject : ∀ members, Json.read text ≠ .ok (.object members)) (dryRun : Bool) :
    outcomes? (Run.backfill tree project dryRun) = none ∧
      (Run.backfill tree project dryRun).1 = tree := by
  obtain ⟨error, herror⟩ : ∃ error, project.loadDictionary tree = .error error := by
    obtain ⟨reached, haddress, hfile⟩ := Tree.readText_eq_ok_iff.mp hread
    have hpresent : tree.isPresent project.dictionaryPath = true :=
      Tree.isPresent_iff.mpr ⟨reached, haddress, by simp [hfile]⟩
    cases hload : Dictionary.load tree project.dictionaryPath with
    | error error => exact ⟨error, by rw [Project.loadDictionary, if_pos hpresent, hload]; rfl⟩
    | ok dictionary =>
      obtain ⟨text', hread', hobject'⟩ := Dictionary.load_eq_ok_iff.mp hload
      obtain rfl := Except.ok.inj (hread.symm.trans hread')
      exact absurd hobject' (hobject _)
  unfold Run.backfill
  rw [herror]
  exact ⟨rfl, rfl⟩

/-- Two runs on the same dictionary text report and leave the same if the modules declare the same,
and both dictionaries can be written or neither. -/
theorem outcomes?_backfill_congr {tree' : Tree} {project' : Project}
    (hread : tree.readText project.dictionaryPath = .ok text)
    (hread' : tree'.readText project'.dictionaryPath = .ok text)
    (hopen : tree.refusalAt? project.dictionaryPath = none ↔
      tree'.refusalAt? project'.dictionaryPath = none)
    (hdeclare : Definition.DeclareAlike (project.definitions tree) (project'.definitions tree'))
    (dryRun : Bool) :
    outcomes? (Run.backfill tree project dryRun) = outcomes? (Run.backfill tree' project' dryRun) ∧
      (Run.backfill tree project dryRun).1.readText project.dictionaryPath =
        (Run.backfill tree' project' dryRun).1.readText project'.dictionaryPath := by
  by_cases hobject : ∃ members, Json.read text = .ok (.object members)
  · obtain ⟨members, hmembers⟩ := hobject
    have hload : project.loadDictionary tree = .ok (some ⟨members⟩) :=
      Project.loadDictionary_eq_some_iff.mpr (Dictionary.load_eq_ok_iff.mpr ⟨text, hread, hmembers⟩)
    have hload' : project'.loadDictionary tree' = .ok (some ⟨members⟩) :=
      Project.loadDictionary_eq_some_iff.mpr
        (Dictionary.load_eq_ok_iff.mpr ⟨text, hread', hmembers⟩)
    have hkeys : project.missingKeys tree ⟨members⟩ = project'.missingKeys tree' ⟨members⟩ :=
      Dictionary.missingKeys_congr _ hdeclare
    obtain ⟨houtcomes, htext⟩ := outcomes?_backfill_of_load hread hload dryRun
    obtain ⟨houtcomes', htext'⟩ := outcomes?_backfill_of_load hread' hload' dryRun
    rw [houtcomes, houtcomes', htext, htext', hkeys]
    simp only [ne_eq, hopen, and_self]
  · have hobject := not_exists.mp hobject
    obtain ⟨hnone, hsame⟩ := outcomes?_backfill_of_not_object hread hobject dryRun
    obtain ⟨hnone', hsame'⟩ := outcomes?_backfill_of_not_object hread' hobject dryRun
    rw [hnone, hnone', hsame, hsame', hread, hread']
    exact ⟨rfl, rfl⟩

/-- Filling in does not depend on the order of the scan. Definitions that declare the same, in
whatever order, however often and wherever, give the same dictionary text and the same outcomes for
every dictionary, and so do runs on projects whose modules declare the same and whose dictionary has
the same text, if both dictionaries can be written or neither. If the keys are filled in in the
order of any list, another list of the same keys gives the same dictionary up to the order of the
new sections and entries, with the same entry for every key. -/
theorem backfill_scanOrder :
    (∀ (dictionary : Dictionary) (definitions definitions' : List Definition),
      Definition.DeclareAlike definitions definitions' →
        let filled := dictionary.backfill
          (Dictionary.missingKeys (definitions.flatMap dictionary.missing))
        let filled' := dictionary.backfill
          (Dictionary.missingKeys (definitions'.flatMap dictionary.missing))
        filled.1.toText = filled'.1.toText ∧ filled.2 = filled'.2) ∧
    (∀ (tree tree' : Tree) (project project' : Project) (text : String) (dryRun : Bool),
      tree.readText project.dictionaryPath = .ok text →
      tree'.readText project'.dictionaryPath = .ok text →
      (tree.refusalAt? project.dictionaryPath = none ↔
        tree'.refusalAt? project'.dictionaryPath = none) →
      Definition.DeclareAlike (project.definitions tree) (project'.definitions tree') →
        outcomes? (Run.backfill tree project dryRun) =
            outcomes? (Run.backfill tree' project' dryRun) ∧
          (Run.backfill tree project dryRun).1.readText project.dictionaryPath =
            (Run.backfill tree' project' dryRun).1.readText project'.dictionaryPath) ∧
    ∀ (dictionary : Dictionary) (texts texts' : List String),
      (dictionary.sections.map (·.1)).Nodup → (∀ text, text ∈ texts ↔ text ∈ texts') →
        Dictionary.GrowAlike dictionary.sections (dictionary.backfill texts).1.sections
            (dictionary.backfill texts').1.sections ∧
          ∀ key, Dictionary.entry? (dictionary.backfill texts).1 key =
            Dictionary.entry? (dictionary.backfill texts').1 key := by
  refine ⟨fun dictionary definitions definitions' hdeclare ↦ ?_,
    fun tree tree' project project' text dryRun hread hread' hopen hdeclare ↦
      outcomes?_backfill_congr hread hread' hopen hdeclare dryRun,
    fun dictionary texts texts' hnodup htexts ↦
      ⟨Dictionary.growAlike_backfill hnodup htexts, fun key ↦ ?_⟩⟩
  · intro filled filled'
    have hsame : filled = filled' :=
      congrArg dictionary.backfill (Dictionary.missingKeys_congr dictionary hdeclare)
    rw [hsame]
    exact ⟨rfl, rfl⟩
  · rw [Dictionary.entry?_backfill, Dictionary.entry?_backfill]
    exact if_congr (and_congr_right fun _ ↦ htexts _) rfl rfl

/-- A project with one module, which declares two calculators, and a dictionary with one section. -/
def oneModule : Tree := ⟨[
  (["modules"], .directory),
  (["modules", "all_calculators.dart"], .file (.text
    ("[CalculatorDefinition(id: 'a', titleKey: 'yard.fence'), " ++
      "CalculatorDefinition(id: 'b', titleKey: 'roof.area')];"))),
  (["labels.json"], .file (.text "\x7b\"yard\": \x7b\x7d\x7d"))], []⟩

/-- The same project with two modules, which declare the second calculator before the first one and
once more behind it. -/
def twoModules : Tree := ⟨[
  (["modules"], .directory),
  (["modules", "b_calculators.dart"], .file (.text
    "[CalculatorDefinition(id: 'b', titleKey: 'roof.area')];")),
  (["modules", "c_calculators.dart"], .file (.text
    ("[CalculatorDefinition(id: 'a', titleKey: 'yard.fence'), " ++
      "CalculatorDefinition(id: 'b', titleKey: 'roof.area')];"))),
  (["labels.json"], .file (.text "\x7b\"yard\": \x7b\x7d\x7d"))], []⟩

theorem moduleFiles_oneModule :
    moduleFiles oneModule fenceProject.modulesRoot fenceProject.config.moduleFileSuffix =
      ([⟨"all", ⟨"./modules/all_calculators.dart"⟩⟩], 0) :=
  Tree.moduleFiles_of_walkFiles rfl (by decide +kernel)

theorem moduleFiles_twoModules :
    moduleFiles twoModules fenceProject.modulesRoot fenceProject.config.moduleFileSuffix =
      ([⟨"b", ⟨"./modules/b_calculators.dart"⟩⟩, ⟨"c", ⟨"./modules/c_calculators.dart"⟩⟩], 0) := by
  have hwalk : twoModules.walkFiles fenceProject.modulesRoot =
      .ok [⟨"./modules/b_calculators.dart"⟩, ⟨"./modules/c_calculators.dart"⟩] := rfl
  rw [moduleFiles, hwalk]
  have hsort : Path.sort [⟨"./modules/b_calculators.dart"⟩, ⟨"./modules/c_calculators.dart"⟩] =
      [⟨"./modules/b_calculators.dart"⟩, ⟨"./modules/c_calculators.dart"⟩] :=
    List.mergeSort_of_pairwise (by decide +kernel)
  simp only [hsort]
  decide +kernel

theorem declareAlike_modules :
    Definition.DeclareAlike (fenceProject.definitions oneModule)
      (fenceProject.definitions twoModules) := by
  have hone : oneModule.isDirectory fenceProject.modulesRoot = true := by decide +kernel
  have htwo : twoModules.isDirectory fenceProject.modulesRoot = true := by decide +kernel
  unfold Definition.DeclareAlike Definition.SameButPlace
  simp only [Project.definitions, Project.scan, hone, htwo, if_true, moduleFiles_oneModule,
    moduleFiles_twoModules]
  decide +kernel

/-- Both trees get the same dictionary text, which is that of filling in the keys in their order.
Filled in as the second tree declares them, they make the new sections in another order. -/
theorem backfill_scanOrder_modules :
    Definition.DeclareAlike (fenceProject.definitions oneModule)
        (fenceProject.definitions twoModules) ∧
      oneModule.readText fenceProject.dictionaryPath = .ok "\x7b\"yard\": \x7b\x7d\x7d" ∧
      twoModules.readText fenceProject.dictionaryPath = .ok "\x7b\"yard\": \x7b\x7d\x7d" ∧
      (oneModule.refusalAt? fenceProject.dictionaryPath = none ↔
        twoModules.refusalAt? fenceProject.dictionaryPath = none) ∧
      outcomes? (Run.backfill oneModule fenceProject false) =
        outcomes? (Run.backfill twoModules fenceProject false) ∧
      (Run.backfill oneModule fenceProject false).1.readText fenceProject.dictionaryPath =
        (Run.backfill twoModules fenceProject false).1.readText fenceProject.dictionaryPath ∧
      (Dictionary.empty.backfill ["yard.fence", "roof.area"]).1 ≠
        (Dictionary.empty.backfill ["roof.area", "yard.fence", "roof.area"]).1 ∧
      Dictionary.GrowAlike [] (Dictionary.empty.backfill ["yard.fence", "roof.area"]).1.sections
        (Dictionary.empty.backfill ["roof.area", "yard.fence", "roof.area"]).1.sections := by
  have hread : oneModule.readText fenceProject.dictionaryPath =
    .ok "\x7b\"yard\": \x7b\x7d\x7d" := rfl
  have hread' : twoModules.readText fenceProject.dictionaryPath =
    .ok "\x7b\"yard\": \x7b\x7d\x7d" := rfl
  have hopen : oneModule.refusalAt? fenceProject.dictionaryPath = none ↔
      twoModules.refusalAt? fenceProject.dictionaryPath = none := iff_of_true rfl rfl
  obtain ⟨houtcomes, htexts⟩ := backfill_scanOrder.2.1 oneModule twoModules fenceProject
    fenceProject _ false hread hread' hopen declareAlike_modules
  have hkeys : ∀ text, text ∈ ["yard.fence", "roof.area"] ↔
      text ∈ ["roof.area", "yard.fence", "roof.area"] := by
    intro text
    simp only [List.mem_cons, List.not_mem_nil, or_false]
    tauto
  have hother : (Dictionary.empty.backfill ["yard.fence", "roof.area"]).1.toText ≠
      (Dictionary.empty.backfill ["roof.area", "yard.fence", "roof.area"]).1.toText := by
    decide +kernel
  exact ⟨declareAlike_modules, hread, hread', hopen, houtcomes, htexts,
    fun heq ↦ hother (congrArg Dictionary.toText heq),
    (backfill_scanOrder.2.2 Dictionary.empty _ _ List.nodup_nil hkeys).1⟩

end Run

end CalculatorCatalog
