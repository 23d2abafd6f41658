import CalculatorCatalog.Proofs.Command.Summaries
import CalculatorCatalog.Proofs.Files.Growth

/-!
# Generating sources

`Run.placements` follows a run that generates sources and notes what becomes of each. A dry run
looks every source up in the tree as it is at the start (`Run.foreseen`), while a real run goes on
with the tree that the earlier sources have left. As what is there stays there, the real run can
only create less, so both list the same sources exactly if each becomes, in its turn, what it meets
at the start (`generate_foreseen_iff`). Where the directories of the sources are there already, this
means that the system refuses no new source, and that none leads to the place of an earlier one
(`generate_foreseen_iff_pairwise`).
-/

set_option autoImplicit false
set_option relaxedAutoImplicit false

namespace CalculatorCatalog

open CalculatorCatalog.Files

/-- The generator of a project. -/
def Project.generator (project : Project) : Generator :=
  .ofConfig project.outputRoot project.config

namespace Run

/-- What becomes of the sources for definitions, one after the other. -/
def placements (generator : Generator) (dryRun : Bool) :
    Tree → List ScannedDefinition → List (GeneratedFile × Tree.Creation)
  | _, [] => []
  | tree, scanned :: definitions =>
    match generator.render scanned.definition scanned.module with
    | .error _ => placements generator dryRun tree definitions
    | .ok file =>
      (file, (place tree dryRun file).2)
        :: placements generator dryRun (place tree dryRun file).1 definitions

/-- The number of definitions for which there is no source. -/
def skips (generator : Generator) (definitions : List ScannedDefinition) : Nat :=
  definitions.countP fun scanned ↦
    (generator.render scanned.definition scanned.module).toOption.isNone

/-- What a source meets in a tree. -/
def foreseen (tree : Tree) (file : GeneratedFile) : Tree.Creation :=
  if tree.isPresent file.path then .present else .created

/-- The path under which a source is listed as created. -/
def createdPath? (project : Project) : GeneratedFile × Tree.Creation → Option String
  | (file, .created) => some (project.shown file.path)
  | _ => none

/-- Whether a source is counted as there already. -/
def presentMark? : GeneratedFile × Tree.Creation → Option Unit
  | (_, .present) => some ()
  | _ => none

/-- A dry run looks every source up in the tree as it is at the start. -/
theorem placements_dryRun (generator : Generator) (start tree : Tree)
    (definitions : List ScannedDefinition) :
    placements generator true start definitions =
      (placements generator false tree definitions).map fun (file, _) ↦
        (file, foreseen start file) := by
  induction definitions generalizing tree with
  | nil => rfl
  | cons scanned definitions ih =>
    rw [placements, placements]
    cases generator.render scanned.definition scanned.module with
    | error reason => exact ih tree
    | ok file => exact congrArg _ (ih _)

/-- A source that is rendered is placed, and reported by what became of it. -/
theorem generateOne_of_rendered {project : Project} {generator : Generator} {dryRun : Bool}
    {scanned : ScannedDefinition} {file : GeneratedFile}
    (hfile : generator.render scanned.definition scanned.module = .ok file) (tree : Tree)
    (progress : Progress) :
    ∃ issues, generateOne project generator dryRun (tree, progress) scanned =
      ((place tree dryRun file).1,
        ⟨progress.files ++ (createdPath? project (file, (place tree dryRun file).2)).toList,
          progress.existing + (presentMark? (file, (place tree dryRun file).2)).toList.length,
          progress.skipped, issues⟩) := by
  unfold generateOne
  rw [hfile]
  simp only
  cases hplace : place tree dryRun file with
  | mk after creation =>
    cases creation <;> simp [createdPath?, presentMark?]

/-- The progress that is made is what the placements report. -/
theorem foldl_generateOne (project : Project) (generator : Generator) (dryRun : Bool)
    (definitions : List ScannedDefinition) (tree : Tree) (progress : Progress) :
    ∃ after issues,
      definitions.foldl (generateOne project generator dryRun) (tree, progress) =
        (after, ⟨progress.files ++
            (placements generator dryRun tree definitions).filterMap (createdPath? project),
          progress.existing +
            ((placements generator dryRun tree definitions).filterMap presentMark?).length,
          progress.skipped + skips generator definitions, issues⟩) := by
  induction definitions generalizing tree progress with
  | nil => exact ⟨tree, progress.issues, by simp [placements, skips]⟩
  | cons scanned definitions ih =>
    rw [List.foldl_cons, placements]
    cases hrender : generator.render scanned.definition scanned.module with
    | error reason =>
      have hskips : skips generator (scanned :: definitions) = skips generator definitions + 1 :=
        List.countP_cons_of_pos (by simp [hrender, Except.toOption])
      have hskipped : generateOne project generator dryRun (tree, progress) scanned =
          (tree, ⟨progress.files, progress.existing, progress.skipped + 1, progress.issues ++
            [.generationSkipped scanned.excerpt scanned.definition.id reason]⟩) := by
        unfold generateOne
        rw [hrender]
      rw [hskipped, hskips, Nat.add_comm (skips generator definitions), ← Nat.add_assoc]
      exact ih tree _
    | ok file =>
      have hskips : skips generator (scanned :: definitions) = skips generator definitions :=
        List.countP_cons_of_neg (by simp [hrender, Except.toOption])
      obtain ⟨placed, hplaced⟩ := generateOne_of_rendered hrender tree progress
      obtain ⟨after, issues, hafter⟩ := ih (place tree dryRun file).1
        ⟨progress.files ++ (createdPath? project (file, (place tree dryRun file).2)).toList,
          progress.existing + (presentMark? (file, (place tree dryRun file).2)).toList.length,
          progress.skipped, placed⟩
      refine ⟨after, issues, ?_⟩
      rw [hplaced, hafter, hskips, filterMap_cons_eq_append, filterMap_cons_eq_append]
      simp only [List.append_assoc, List.length_append, Nat.add_assoc]

/-- The summary of generating sources. -/
theorem generate_summary (tree : Tree) (project : Project) (dryRun : Bool) :
    (Run.generate tree project dryRun).2.map (·.summary.work) =
      .ok (.generated
        ((placements project.generator dryRun tree (project.scan tree).definitions).filterMap
          (createdPath? project))
        ((placements project.generator dryRun tree (project.scan tree).definitions).filterMap
          presentMark?).length
        (skips project.generator (project.scan tree).definitions) false) := by
  obtain ⟨after, issues, hafter⟩ := foldl_generateOne project project.generator dryRun
    (project.scan tree).definitions tree ⟨[], 0, 0, (project.scan tree).issues⟩
  rw [Project.generator] at *
  simp only [Run.generate, hafter, Except.map, Result.ofIssues, Summary.work, List.nil_append,
    Nat.zero_add]

/-- What was there at the start is not created. -/
theorem ne_created_of_foreseen {start tree : Tree} (hgrows : start.Grows tree)
    (generator : Generator) (definitions : List ScannedDefinition) :
    ∀ placement ∈ placements generator false tree definitions,
      foreseen start placement.1 = .present → placement.2 ≠ .created := by
  induction definitions generalizing tree with
  | nil => simp [placements]
  | cons scanned definitions ih =>
    rw [placements]
    cases generator.render scanned.definition scanned.module with
    | error reason => exact ih hgrows
    | ok file =>
      refine List.forall_mem_cons.mpr
        ⟨fun hforeseen ↦ ?_, ih (hgrows.trans (tree.grows_saveNew file.path file.content))⟩
      have hpresent : start.isPresent file.path = true := by
        by_contra habsent
        simp [foreseen, habsent] at hforeseen
      exact Tree.saveNew_ne_created (hgrows.isPresent hpresent) file.content

theorem foreseen_cases (start : Tree) (file : GeneratedFile) :
    foreseen start file = .created ∨ foreseen start file = .present := by
  unfold foreseen
  split_ifs
  · exact .inr rfl
  · exact .inl rfl

/-- If the same sources are listed as created and as many are counted as there already, then every
source becomes what was foreseen. -/
theorem eq_foreseen_of_reported {start : Tree} {project : Project}
    {placed : List (GeneratedFile × Tree.Creation)}
    (h : ∀ placement ∈ placed,
      foreseen start placement.1 = .present → placement.2 ≠ .created)
    (hcreated : placed.filterMap (createdPath? project) =
      placed.filterMap fun (file, _) ↦ createdPath? project (file, foreseen start file))
    (hpresent : (placed.filterMap presentMark?).length =
      (placed.filterMap fun (file, _) ↦ presentMark? (file, foreseen start file)).length) :
    ∀ placement ∈ placed, placement.2 = foreseen start placement.1 := by
  have hpaths := eq_of_filterMap_eq ?_ hcreated
  have hmarks := eq_of_filterMap_eq ?_ (List.ext_getElem hpresent fun _ _ _ ↦ rfl)
  · rintro ⟨file, creation⟩ hmem
    have hpath := hpaths _ hmem
    have hmark := hmarks _ hmem
    clear h hcreated hpresent hpaths hmarks hmem
    cases creation <;> rcases foreseen_cases start file with hforeseen | hforeseen <;>
      simp_all [createdPath?, presentMark?]
  · rintro ⟨file, creation⟩ hmem hsome
    have hpath := hpaths _ hmem
    clear h hcreated hpresent hpaths hmem
    cases creation <;> rcases foreseen_cases start file with hforeseen | hforeseen <;>
      simp_all [createdPath?, presentMark?]
  · rintro ⟨file, creation⟩ hmem hsome
    have hplaced := h _ hmem
    clear h hcreated hpresent hmem
    cases creation <;> rcases foreseen_cases start file with hforeseen | hforeseen <;>
      simp_all [createdPath?]

/-- A dry run foresees which sources are generated exactly if each becomes, in its turn, what it
meets at the start. -/
theorem generate_foreseen_iff (tree : Tree) (project : Project) :
    (Run.generate tree project true).2.map (·.summary.work) =
        (Run.generate tree project false).2.map (·.summary.work) ↔
      ∀ placement ∈ placements project.generator false tree (project.scan tree).definitions,
        placement.2 = foreseen tree placement.1 := by
  rw [generate_summary, generate_summary, placements_dryRun project.generator tree tree]
  simp only [Except.ok.injEq, Summary.generated.injEq, and_true, List.filterMap_map]
  constructor
  · intro h
    exact eq_foreseen_of_reported (ne_created_of_foreseen (.refl tree) _ _) h.1.symm h.2.symm
  · intro h
    have hsame : ∀ {γ : Type} (report : GeneratedFile × Tree.Creation → Option γ),
        (placements project.generator false tree (project.scan tree).definitions).filterMap
          (report ∘ fun (file, _) ↦ (file, foreseen tree file)) =
        (placements project.generator false tree (project.scan tree).definitions).filterMap
          report := by
      intro γ report
      refine List.filterMap_congr fun placement hmem ↦ ?_
      simp only [Function.comp_apply, ← h placement hmem]
    rw [hsame, hsame]
    exact ⟨rfl, rfl⟩

/-! ### Sources in directories that are there -/

/-- The sources for definitions. -/
def sources (generator : Generator) (definitions : List ScannedDefinition) : List GeneratedFile :=
  definitions.filterMap fun scanned ↦
    (generator.render scanned.definition scanned.module).toOption

section Sources

variable {generator : Generator} {scanned : ScannedDefinition}

theorem sources_of_error {reason : SkipReason}
    (h : generator.render scanned.definition scanned.module = .error reason)
    (definitions : List ScannedDefinition) :
    sources generator (scanned :: definitions) = sources generator definitions :=
  List.filterMap_cons_none (by rw [h]; rfl)

theorem sources_of_ok {file : GeneratedFile}
    (h : generator.render scanned.definition scanned.module = .ok file)
    (definitions : List ScannedDefinition) :
    sources generator (scanned :: definitions) = file :: sources generator definitions :=
  List.filterMap_cons_some (by rw [h]; rfl)

end Sources

/-- A source that is new does not lead to the place of an earlier one. -/
def Apart (start : Tree) (earlier later : GeneratedFile) : Prop :=
  start.isPresent later.path = false → start.address earlier.path ≠ start.address later.path

/-- The places that are taken are those that were at the start and those in `taken`; the system
refuses the same ones as at the start. -/
structure TakenSince (start : Tree) (taken : List Address) (tree : Tree) : Prop where
  none_iff : ∀ address, tree.get? address = none ↔ start.get? address = none ∧ address ∉ taken
  refusals_eq : tree.refusals = start.refusals

section Named

variable {start tree : Tree} {taken : List Address} {file : GeneratedFile} {before : List String}
  {directory : Address} {name : String}

theorem TakenSince.isPresent_iff (h : TakenSince start taken tree)
    (hnames : start.NamesIn file.path before directory name)
    (hnames' : tree.NamesIn file.path before directory name) :
    tree.isPresent file.path = true ↔
      start.isPresent file.path = true ∨ directory ++ [name] ∈ taken := by
  rw [hnames.isPresent_iff, hnames'.isPresent_iff, ne_eq, h.none_iff]
  tauto

/-- Placing a source takes its place, unless the system refuses it. -/
theorem takenSince_place (h : TakenSince start taken tree)
    (hnames : start.NamesIn file.path before directory name)
    (hnames' : tree.NamesIn file.path before directory name)
    (hopen : start.isPresent file.path = false → start.refusal? (directory ++ [name]) = none) :
    TakenSince start ((directory ++ [name]) :: taken) (place tree false file).1 := by
  have hplace : (place tree false file).1 = (tree.saveNew file.path file.content).1 := rfl
  have hthere := h.isPresent_iff hnames hnames'
  refine ⟨fun address ↦ ?_,
    (tree.refusals_saveNew file.path file.content).trans h.refusals_eq⟩
  rw [hplace, hnames'.saveNew_eq, List.mem_cons, not_or]
  cases hpresent : tree.isPresent file.path with
  | true =>
    have hother : tree.get? address = none → address ≠ directory ++ [name] := by
      rintro hnone rfl
      exact hnames'.isPresent_iff.mp hpresent hnone
    rw [if_pos rfl, h.none_iff address]
    rw [h.none_iff address] at hother
    exact ⟨fun hfree ↦ ⟨hfree.1, hother hfree, hfree.2⟩, fun hfree ↦ ⟨hfree.1, hfree.2.2⟩⟩
  | false =>
    have hnone : tree.get? (directory ++ [name]) = none := by
      by_contra hsome
      rw [hnames'.isPresent_iff.mpr hsome] at hpresent
      cases hpresent
    have hnew : start.isPresent file.path = false := by
      by_contra hold
      rw [hthere.mpr (.inl (by simpa using hold))] at hpresent
      cases hpresent
    have hopen' : tree.refusal? (directory ++ [name]) = none := by
      rw [Tree.refusal?, h.refusals_eq]
      exact hopen hnew
    rw [if_neg Bool.false_ne_true, hopen',
      Tree.get?_put (Tree.isOutside_eq_false_of_get?_eq_none hnone)]
    split_ifs with hsame
    · simp [hsame]
    · rw [h.none_iff address, and_iff_right hsame]

/-- A source becomes what it meets at the start unless it is new and its place has been taken or is
refused. -/
theorem place_eq_foreseen_iff (h : TakenSince start taken tree)
    (hnames : start.NamesIn file.path before directory name)
    (hnames' : tree.NamesIn file.path before directory name) :
    (place tree false file).2 = foreseen start file ↔
      (start.isPresent file.path = false →
        start.refusal? (directory ++ [name]) = none ∧ directory ++ [name] ∉ taken) := by
  have hplace : (place tree false file).2 = (tree.saveNew file.path file.content).2 := rfl
  have hpresent := h.isPresent_iff hnames hnames'
  have hrefusal : tree.refusal? (directory ++ [name]) = start.refusal? (directory ++ [name]) := by
    rw [Tree.refusal?, h.refusals_eq, Tree.refusal?]
  rw [hplace, hnames'.saveNew_eq, foreseen, hrefusal]
  cases hstart : start.isPresent file.path <;> cases hnow : tree.isPresent file.path <;>
    cases start.refusal? (directory ++ [name]) <;> simp_all

end Named

/-- Where the directories of the sources are there, each becomes what it meets at the start exactly
if the system refuses no new one, and none leads to the place of an earlier one. -/
theorem placements_eq_foreseen_iff {start tree : Tree} {taken : List Address}
    {generator : Generator} {definitions : List ScannedDefinition} (hgrows : start.Grows tree)
    (htaken : TakenSince start taken tree)
    (hnames : ∀ file ∈ sources generator definitions, ∃ before directory name,
      start.NamesIn file.path before directory name) :
    (∀ placement ∈ placements generator false tree definitions,
        placement.2 = foreseen start placement.1) ↔
      (sources generator definitions).Pairwise (Apart start) ∧
      ∀ file ∈ sources generator definitions, start.isPresent file.path = false →
        start.refusalAt? file.path = none ∧
          ∀ address ∈ taken, start.address file.path ≠ .ok address := by
  induction definitions generalizing tree taken with
  | nil => simp [placements, sources]
  | cons scanned definitions ih =>
    rw [placements]
    cases hrender : generator.render scanned.definition scanned.module with
    | error reason =>
      rw [sources_of_error hrender] at hnames ⊢
      exact ih hgrows htaken hnames
    | ok file =>
      rw [sources_of_ok hrender, List.forall_mem_cons] at hnames
      obtain ⟨⟨before, directory, name, hfile⟩, hrest⟩ := hnames
      have hhead : directory ++ [name] ∉ taken ↔
          ∀ address ∈ taken, start.address file.path ≠ .ok address := by
        rw [hfile.address_eq]
        simp only [ne_eq, Except.ok.injEq]
        exact List.forall_mem_ne.symm
      rw [sources_of_ok hrender, List.pairwise_cons, List.forall_mem_cons, List.forall_mem_cons,
        place_eq_foreseen_iff htaken hfile (hgrows.namesIn hfile), hhead,
        Tree.refusalAt?_of_address hfile.address_eq]
      by_cases hopen : start.isPresent file.path = false →
          start.refusal? (directory ++ [name]) = none
      · have hgrown : start.Grows (place tree false file).1 :=
          hgrows.trans (tree.grows_saveNew file.path file.content)
        have hplaced :=
          ih hgrown (takenSince_place htaken hfile (hgrows.namesIn hfile) hopen) hrest
        have hlater : (∀ later ∈ sources generator definitions,
              start.isPresent later.path = false → start.refusalAt? later.path = none ∧
                ∀ address ∈ (directory ++ [name]) :: taken,
                  start.address later.path ≠ .ok address) ↔
            (∀ later ∈ sources generator definitions, Apart start file later) ∧
            ∀ later ∈ sources generator definitions, start.isPresent later.path = false →
              start.refusalAt? later.path = none ∧
                ∀ address ∈ taken, start.address later.path ≠ .ok address := by
          rw [← forall₂_and]
          refine forall₂_congr fun later _ ↦ ?_
          rw [List.forall_mem_cons, Apart, hfile.address_eq, ne_comm]
          exact ⟨fun h ↦ ⟨fun hnew ↦ (h hnew).2.1, fun hnew ↦ ⟨(h hnew).1, (h hnew).2.2⟩⟩,
            fun h hnew ↦ ⟨(h.2 hnew).1, h.1 hnew, (h.2 hnew).2⟩⟩
        rw [hplaced, hlater]
        constructor
        · rintro ⟨hfits, hapart, hfirst, hlater⟩
          exact ⟨⟨hfirst, hapart⟩, hfits, hlater⟩
        · rintro ⟨⟨hfirst, hapart⟩, hfits, hlater⟩
          exact ⟨hfits, hapart, hfirst, hlater⟩
      · -- The first source is new and refused, so neither side holds.
        exact iff_of_false (fun h ↦ hopen fun hnew ↦ (h.1 hnew).1)
          fun h ↦ hopen fun hnew ↦ (h.2.1 hnew).1

/-- Where the directories of the sources are there, a dry run foresees which sources are generated
exactly if the system refuses no new one, and none leads to the place of an earlier one. -/
theorem generate_foreseen_iff_pairwise {tree : Tree} {project : Project}
    (hnames : ∀ file ∈ sources project.generator (project.scan tree).definitions,
      ∃ before directory name, tree.NamesIn file.path before directory name) :
    (Run.generate tree project true).2.map (·.summary.work) =
        (Run.generate tree project false).2.map (·.summary.work) ↔
      (sources project.generator (project.scan tree).definitions).Pairwise (Apart tree) ∧
      ∀ file ∈ sources project.generator (project.scan tree).definitions,
        tree.isPresent file.path = false → tree.refusalAt? file.path = none := by
  have htaken : TakenSince tree [] tree := ⟨fun address ↦ by simp, rfl⟩
  rw [generate_foreseen_iff, placements_eq_foreseen_iff (.refl tree) htaken hnames]
  simp

end Run

end CalculatorCatalog
