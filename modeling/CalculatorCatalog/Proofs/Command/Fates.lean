import CalculatorCatalog.Proofs.Command.Generating
import CalculatorCatalog.Proofs.Files.Retrying
import CalculatorCatalog.Proofs.Generation.Targets

/-!
# What becomes of the definitions

A run that generates sources takes the definitions one after the other, each on the files that the
earlier ones have left. `Run.accounts` follows it and notes the `Fate` of every definition: there is
no source for it, or the source is created, is there already or cannot be written. `Accounted` says
that this is what the run reports, and that the files are those from before and the sources that
have been created.

A definition whose source is not created can be left out without a change for the others
(`accounts_eraseIdx`), provided that all sources go to the same directory. They do if the names of
the sources hold no slash; otherwise a failure can leave a directory where another source belongs.
-/

set_option autoImplicit false
set_option relaxedAutoImplicit false

namespace CalculatorCatalog

open CalculatorCatalog.Files

namespace Run

/-! ### Fates -/

/-- The four ways in which a definition can end. -/
inductive Outcome where
  | created
  | existing
  | skipped
  | failed
  deriving DecidableEq, Repr

/-- What becomes of a definition. -/
inductive Fate where
  /-- There is no source for it. -/
  | skipped (reason : SkipReason)
  /-- Its source was to be created. -/
  | placed (file : GeneratedFile) (creation : Tree.Creation)
  deriving DecidableEq, Repr

namespace Fate

def outcome : Fate → Outcome
  | .skipped _ => .skipped
  | .placed _ .created => .created
  | .placed _ .present => .existing
  | .placed _ (.failed _) => .failed

/-- The source for the definition, or why there is none. -/
def rendered : Fate → Except SkipReason GeneratedFile
  | .skipped reason => .error reason
  | .placed file _ => .ok file

/-- The source that has been created. -/
def created? : Fate → Option GeneratedFile
  | .placed file .created => some file
  | _ => none

/-- Two fates that differ at most in why the source could not be written. -/
inductive Alike : Fate → Fate → Prop
  | skipped (reason : SkipReason) : Alike (.skipped reason) (.skipped reason)
  | placed (file : GeneratedFile) {creation creation' : Tree.Creation}
    (h : creation.Alike creation') : Alike (.placed file creation) (.placed file creation')

theorem Alike.refl (fate : Fate) : fate.Alike fate := by
  cases fate with
  | skipped reason => exact .skipped reason
  | placed file creation => exact .placed file (.refl creation)

end Fate

/-- A definition and what becomes of it. -/
abbrev Account : Type := ScannedDefinition × Fate

/-- The issue that is reported for a definition unless its source is created. -/
def issue? (project : Project) (account : Account) : Option Issue :=
  match account.2 with
  | .skipped reason =>
    some (.generationSkipped account.1.excerpt account.1.definition.id reason)
  | .placed _ .created => none
  | .placed file .present =>
    some (.writeConflict (project.shown file.path) account.1.definition.id)
  | .placed file (.failed failure) =>
    some (.writeFailed (project.shown file.path) account.1.definition.id failure.fault.message)

/-- The files that a definition leaves, and what becomes of it. -/
def settle (generator : Generator) (tree : Tree) (scanned : ScannedDefinition) : Tree × Fate :=
  match generator.render scanned.definition scanned.module with
  | .error reason => (tree, .skipped reason)
  | .ok file =>
    ((tree.saveNew file.path file.content).1,
      .placed file (tree.saveNew file.path file.content).2)

/-- What becomes of definitions, one after the other. -/
def accounts (generator : Generator) : Tree → List ScannedDefinition → List Account
  | _, [] => []
  | tree, scanned :: definitions =>
    (scanned, (settle generator tree scanned).2)
      :: accounts generator (settle generator tree scanned).1 definitions

/-- The files that definitions leave, one after the other. -/
def treeAfter (generator : Generator) (tree : Tree) (definitions : List ScannedDefinition) : Tree :=
  definitions.foldl (fun tree scanned ↦ (settle generator tree scanned).1) tree

/-- Generates the sources for definitions, with what is reported about it. -/
def generateAll (project : Project) (tree : Tree) (definitions : List ScannedDefinition)
    (issues : List Issue) : Tree × Progress :=
  definitions.foldl (generateOne project project.generator false) (tree, ⟨[], 0, 0, issues⟩)

/-- The run that ends with files and what is reported about them. -/
def reported (ended : Tree × Progress) : Run :=
  (ended.1, .ok (.ofIssues
    (.generated ended.2.files ended.2.existing ended.2.skipped false) ended.2.issues))

theorem generate_eq_reported (tree : Tree) (project : Project) :
    Run.generate tree project false =
      reported (generateAll project tree (project.scan tree).definitions
        (project.scan tree).issues) := by
  unfold Run.generate generateAll reported
  rw [Project.generator]

/-! ### The account of a run -/

/-- What is reported when one more definition has been dealt with. -/
def Progress.noting (project : Project) (progress : Progress) (account : Account) : Progress where
  files := progress.files ++ (account.2.created?.map fun file ↦ project.shown file.path).toList
  existing := progress.existing + [account.2.outcome].count .existing
  skipped := progress.skipped + [account.2.outcome].count .skipped
  issues := progress.issues ++ (issue? project account).toList

theorem generateOne_eq_settle (project : Project) (tree : Tree) (progress : Progress)
    (scanned : ScannedDefinition) :
    generateOne project project.generator false (tree, progress) scanned =
      ((settle project.generator tree scanned).1,
        progress.noting project (scanned, (settle project.generator tree scanned).2)) := by
  unfold generateOne settle
  cases project.generator.render scanned.definition scanned.module with
  | error reason => simp [Progress.noting, Fate.created?, Fate.outcome, issue?]
  | ok file =>
    simp only [place]
    cases hsave : tree.saveNew file.path file.content with
    | mk after creation =>
      cases creation <;> simp [Progress.noting, Fate.created?, Fate.outcome, issue?]

theorem foldl_generateOne_eq (project : Project) (definitions : List ScannedDefinition)
    (tree : Tree) (progress : Progress) :
    definitions.foldl (generateOne project project.generator false) (tree, progress) =
      (treeAfter project.generator tree definitions,
        (accounts project.generator tree definitions).foldl (Progress.noting project)
          progress) := by
  induction definitions generalizing tree progress with
  | nil => rfl
  | cons scanned definitions ih =>
    rw [List.foldl_cons, generateOne_eq_settle, ih]
    rfl

theorem foldl_noting (project : Project) (noted : List Account) (progress : Progress) :
    noted.foldl (Progress.noting project) progress =
      ⟨progress.files ++
          (noted.filterMap (·.2.created?)).map fun file ↦ project.shown file.path,
        progress.existing + (noted.map (·.2.outcome)).count .existing,
        progress.skipped + (noted.map (·.2.outcome)).count .skipped,
        progress.issues ++ noted.filterMap (issue? project)⟩ := by
  induction noted generalizing progress with
  | nil => simp
  | cons account noted ih =>
    have hcount : ∀ outcome, ((account :: noted).map (·.2.outcome)).count outcome =
        [account.2.outcome].count outcome + (noted.map (·.2.outcome)).count outcome := by
      intro outcome
      rw [List.map_cons, ← List.singleton_append, List.count_append]
    rw [List.foldl_cons, ih, hcount, hcount, filterMap_cons_eq_append, filterMap_cons_eq_append]
    simp only [Progress.noting, List.map_append, List.append_assoc, Nat.add_assoc]
    cases account.2.created? <;> rfl

variable {generator : Generator}

/-- The accounts are about the definitions, each with its source or the reason why there is none. -/
theorem map_accounts (generator : Generator) (tree : Tree) (definitions : List ScannedDefinition) :
    (accounts generator tree definitions).map (fun account ↦ (account.1, account.2.rendered)) =
      definitions.map fun scanned ↦
        (scanned, generator.render scanned.definition scanned.module) := by
  induction definitions generalizing tree with
  | nil => rfl
  | cons scanned definitions ih =>
    rw [accounts, List.map_cons, ih, List.map_cons]
    unfold settle
    cases generator.render scanned.definition scanned.module <;> rfl

/-- Every outcome is one of the four. -/
theorem count_outcomes (outcomes : List Outcome) :
    outcomes.count .created + outcomes.count .existing + outcomes.count .skipped
      + outcomes.count .failed = outcomes.length := by
  induction outcomes with
  | nil => rfl
  | cons outcome outcomes ih =>
    cases outcome <;> simp <;> omega

theorem length_created (noted : List Account) :
    (noted.filterMap (·.2.created?)).length = (noted.map (·.2.outcome)).count .created := by
  rw [List.length_filterMap_eq_countP, List.count, List.countP_map]
  refine List.countP_congr fun account _ ↦ ?_
  obtain ⟨scanned, fate⟩ := account
  cases fate with
  | skipped reason => simp [Fate.created?, Fate.outcome]
  | placed file creation => cases creation <;> simp [Fate.created?, Fate.outcome]

/-! ### The files of a run -/

/-- The files are those from before and the given sources: what was there stays, each source is
where nothing was before, and no other file is new. -/
structure Gains (start after : Tree) (sources : List GeneratedFile) : Prop where
  grows : start.Grows after
  created : ∀ file ∈ sources, ∃ address, start.get? address = none ∧
    after.address file.path = .ok address ∧ after.file? address = some (.text file.content)
  new : ∀ address, after.file? address ≠ start.file? address →
    ∃ file ∈ sources, after.address file.path = .ok address
  apart : sources.Pairwise fun file later ↦ after.address file.path ≠ after.address later.path

namespace Gains

variable {start between after : Tree} {sources : List GeneratedFile} {file : GeneratedFile}

theorem refl (tree : Tree) : Gains tree tree [] :=
  ⟨.refl tree, by simp, fun _ hchanged ↦ absurd rfl hchanged, .nil⟩

/-- Directories do not count. -/
theorem of_addsDirectories (hadds : start.AddsDirectories between)
    (h : Gains between after sources) : Gains start after sources where
  grows := hadds.grows.trans h.grows
  created other hmem := by
    obtain ⟨address, hnone, hthere⟩ := h.created other hmem
    exact ⟨address, hadds.grows.get?_eq_none hnone, hthere⟩
  new address hchanged := h.new address (by rwa [hadds.file?_eq])
  apart := h.apart

/-- A source that is written where nothing was is one more. -/
theorem of_wrote {reached : Address} (hgrows : start.Grows between)
    (hwrote : start.Wrote between file.path (.text file.content) reached)
    (hnone : start.get? reached = none) (h : Gains between after sources) :
    Gains start after (file :: sources) := by
  have haddress : after.address file.path = .ok reached := h.grows.address_eq hwrote.address_eq
  have hfile : between.file? reached = some (.text file.content) := by
    rw [hwrote.file?_eq, if_pos rfl]
  refine ⟨hgrows.trans h.grows, ?_, fun address hchanged ↦ ?_, ?_⟩
  · refine List.forall_mem_cons.mpr ⟨⟨reached, hnone, haddress, h.grows.file?_eq hfile⟩, ?_⟩
    intro other hmem
    obtain ⟨address, hother, hthere⟩ := h.created other hmem
    exact ⟨address, hgrows.get?_eq_none hother, hthere⟩
  · by_cases hlater : after.file? address = between.file? address
    · rw [hlater, hwrote.file?_eq] at hchanged
      have hsame : address = reached := by
        by_contra hne
        exact hchanged (if_neg hne)
      exact ⟨file, List.mem_cons_self, hsame ▸ haddress⟩
    · obtain ⟨other, hmem, hother⟩ := h.new address hlater
      exact ⟨other, List.mem_cons_of_mem file hmem, hother⟩
  · refine List.pairwise_cons.mpr ⟨fun other hmem hsame ↦ ?_, h.apart⟩
    obtain ⟨address, hother, hreached, -⟩ := h.created other hmem
    obtain rfl : reached = address := Except.ok.inj (haddress.symm.trans (hsame.trans hreached))
    rw [Tree.file?_eq_some_iff.mp hfile] at hother
    cases hother

end Gains

/-- One definition adds its source if that is created. -/
theorem gains_settle (generator : Generator) (tree : Tree) (scanned : ScannedDefinition)
    {after : Tree} {sources : List GeneratedFile}
    (h : Gains (settle generator tree scanned).1 after sources) :
    Gains tree after ((settle generator tree scanned).2.created?.toList ++ sources) := by
  unfold settle at h ⊢
  cases hrender : generator.render scanned.definition scanned.module with
  | error reason =>
    rw [hrender] at h
    exact h
  | ok file =>
    rw [hrender] at h
    obtain ⟨hnot, hadds⟩ | ⟨hcreated, reached, hwrote, hnone⟩ :=
      tree.saveNew_cases file.path file.content
    · have hsources :
          (Fate.placed file (tree.saveNew file.path file.content).2).created? = none := by
        cases hcreation : (tree.saveNew file.path file.content).2 with
        | created => exact absurd hcreation hnot
        | present => rfl
        | failed failure => rfl
      simp only [hsources]
      exact Gains.of_addsDirectories hadds h
    · simp only [hcreated]
      exact Gains.of_wrote (tree.grows_saveNew file.path file.content) hwrote hnone h

/-- A run adds the sources that are created. -/
theorem gains_treeAfter (generator : Generator) (tree : Tree)
    (definitions : List ScannedDefinition) :
    Gains tree (treeAfter generator tree definitions)
      ((accounts generator tree definitions).filterMap (·.2.created?)) := by
  induction definitions generalizing tree with
  | nil => exact .refl tree
  | cons scanned definitions ih =>
    rw [accounts, filterMap_cons_eq_append]
    exact gains_settle generator tree scanned (ih _)

/-! ### Definitions left out -/

/-- Two accounts of one definition that differ at most in why its source could not be written. -/
def Account.Alike (account account' : Account) : Prop :=
  account.1 = account'.1 ∧ account.2.Alike account'.2

theorem Account.Alike.refl (account : Account) : Account.Alike account account :=
  ⟨rfl, .refl account.2⟩

theorem Account.Alike.outcome_eq {account account' : Account} (h : Account.Alike account account') :
    account.2.outcome = account'.2.outcome := by
  obtain ⟨-, hfate⟩ := h
  generalize account.2 = fate at hfate
  generalize account'.2 = fate' at hfate
  cases hfate with
  | skipped reason => rfl
  | placed file hcreation =>
    cases hcreation with
    | refl creation => rfl
    | failed failure failure' => rfl

theorem map_outcome_eq_of_alike {noted noted' : List Account}
    (h : List.Forall₂ Account.Alike noted noted') :
    noted.map (·.2.outcome) = noted'.map (·.2.outcome) := by
  induction h with
  | nil => rfl
  | cons halike _ ih => rw [List.map_cons, List.map_cons, halike.outcome_eq, ih]

theorem forall₂_alike_refl (noted : List Account) : List.Forall₂ Account.Alike noted noted :=
  List.forall₂_same.mpr fun account _ ↦ .refl account

/-- All sources have the given parent. -/
def HaveParent (generator : Generator) (parent : Path) : Prop :=
  ∀ (definition : Definition) (module : String) (file : GeneratedFile),
    generator.render definition module = .ok file → file.path.parent? = some parent

section HaveParent

variable {parent : Path} {tree : Tree} {scanned : ScannedDefinition} {file : GeneratedFile}

theorem settle_of_error {reason : SkipReason}
    (h : generator.render scanned.definition scanned.module = .error reason) (tree : Tree) :
    settle generator tree scanned = (tree, .skipped reason) := by
  rw [settle, h]

theorem settle_of_ok (h : generator.render scanned.definition scanned.module = .ok file)
    (tree : Tree) :
    settle generator tree scanned =
      ((tree.saveNew file.path file.content).1,
        .placed file (tree.saveNew file.path file.content).2) := by
  rw [settle, h]

/-- Directories that the sources need anyway make no difference to the definitions: from the first
source on, the files are the same. -/
theorem accounts_makeParent (hparent : HaveParent generator parent) {path : Path}
    (hpath : path.parent? = some parent) (tree : Tree) (definitions : List ScannedDefinition) :
    List.Forall₂ Account.Alike (accounts generator (tree.makeParent path).1 definitions)
        (accounts generator tree definitions) ∧
      ∀ address, (treeAfter generator (tree.makeParent path).1 definitions).file? address =
        (treeAfter generator tree definitions).file? address := by
  induction definitions with
  | nil => exact ⟨.nil, (tree.addsDirectories_makeParent path).file?_eq⟩
  | cons scanned definitions ih =>
    simp only [accounts, treeAfter, List.foldl_cons]
    cases hrender : generator.render scanned.definition scanned.module with
    | error reason =>
      rw [settle_of_error hrender, settle_of_error hrender]
      exact ⟨.cons (.refl _) ih.1, ih.2⟩
    | ok file =>
      obtain ⟨htree, halike⟩ := Tree.saveNew_after
        ((hparent _ _ _ hrender).trans hpath.symm) tree file.content
      rw [settle_of_ok hrender, settle_of_ok hrender]
      simp only [htree]
      exact ⟨.cons ⟨rfl, .placed file halike⟩ (forall₂_alike_refl _), fun _ ↦ trivial⟩

/-- A definition whose source is not created can be left out: the others end as they did, except
that a failure may be put down to something else, and all files are the same. -/
theorem accounts_eraseIdx (hparent : HaveParent generator parent) (tree : Tree)
    (definitions : List ScannedDefinition) {index : ℕ} {account : Account}
    (haccount : (accounts generator tree definitions)[index]? = some account)
    (hnot : account.2.outcome ≠ .created) :
    List.Forall₂ Account.Alike ((accounts generator tree definitions).eraseIdx index)
        (accounts generator tree (definitions.eraseIdx index)) ∧
      ∀ address, (treeAfter generator tree definitions).file? address =
        (treeAfter generator tree (definitions.eraseIdx index)).file? address := by
  induction definitions generalizing tree index with
  | nil => cases haccount
  | cons scanned definitions ih =>
    cases index with
    | zero =>
      obtain rfl := Option.some.inj haccount
      simp only [accounts, List.eraseIdx_cons_zero, treeAfter, List.foldl_cons]
      cases hrender : generator.render scanned.definition scanned.module with
      | error reason =>
        rw [settle_of_error hrender]
        exact ⟨forall₂_alike_refl _, fun _ ↦ rfl⟩
      | ok file =>
        rw [settle_of_ok hrender] at hnot ⊢
        have hsame : (tree.saveNew file.path file.content).1 = (tree.makeParent file.path).1 := by
          refine Tree.saveNew_of_ne_created fun hcreated ↦ hnot ?_
          rw [hcreated]
          rfl
        simp only [hsame]
        exact accounts_makeParent hparent (hparent _ _ _ hrender) tree definitions
    | succ index =>
      obtain ⟨halike, hfiles⟩ := ih (settle generator tree scanned).1 haccount
      exact ⟨.cons (.refl _) halike, hfiles⟩

end HaveParent

end Run

/-- The sources all have the same parent if neither the suffix nor the extension holds a slash. -/
theorem Project.haveParent {project : Project}
    (hsuffix : '/' ∉ project.config.generatedSuffix.toList)
    (hextension : '/' ∉ project.config.fileExtension.toList) :
    ∃ parent, Run.HaveParent project.generator parent := by
  obtain ⟨parent, hparent⟩ := project.outputRoot.exists_parent?_join_eq
  refine ⟨parent, fun definition module file hrender ↦ ?_⟩
  obtain ⟨hplain, hpath⟩ := Generator.of_render_eq_ok hrender
  rw [hpath]
  exact hparent _ ((project.config.slash_notMem_fileName_iff hplain).mpr ⟨hsuffix, hextension⟩)
    (project.config.fileName_ne_of_length hplain (by decide))
    (project.config.fileName_ne_of_length hplain (by decide))

namespace Run

/-! ### What a run reports -/

/-- A run on definitions has ended as the accounts say: it reports how many definitions have ended
in each way, with an issue for each whose source is not created, and the files are those from before
and the sources that have been created. -/
structure Accounted (project : Project) (start : Tree) (definitions : List ScannedDefinition)
    (issues : List Issue) (ended : Tree × Progress) (noted : List Account) : Prop where
  rendered_eq : noted.map (fun account ↦ (account.1, account.2.rendered)) =
    definitions.map fun scanned ↦
      (scanned, project.generator.render scanned.definition scanned.module)
  files_eq : ended.2.files =
    (noted.filterMap (·.2.created?)).map fun file ↦ project.shown file.path
  existing_eq : ended.2.existing = (noted.map (·.2.outcome)).count .existing
  skipped_eq : ended.2.skipped = (noted.map (·.2.outcome)).count .skipped
  issues_eq : ended.2.issues = issues ++ noted.filterMap (issue? project)
  total_eq : ended.2.files.length + ended.2.existing + ended.2.skipped
    + (noted.map (·.2.outcome)).count .failed = definitions.length
  gains : Gains start ended.1 (noted.filterMap (·.2.created?))

theorem accounted_generateAll (project : Project) (tree : Tree)
    (definitions : List ScannedDefinition) (issues : List Issue) :
    Accounted project tree definitions issues (generateAll project tree definitions issues)
      (accounts project.generator tree definitions) := by
  have hrendered := map_accounts project.generator tree definitions
  have hgains := gains_treeAfter project.generator tree definitions
  have hended := foldl_generateOne_eq project definitions tree ⟨[], 0, 0, issues⟩
  rw [foldl_noting] at hended
  have hlength : (accounts project.generator tree definitions).length = definitions.length := by
    simpa using congrArg List.length hrendered
  unfold generateAll
  rw [hended]
  refine ⟨hrendered, by simp, by simp, by simp, rfl, ?_, hgains⟩
  have htotal := count_outcomes
    ((accounts project.generator tree definitions).map (·.2.outcome))
  rw [List.length_map, hlength] at htotal
  simpa [length_created] using htotal

/-- Leaving out a definition whose source is not created changes nothing for the others, except that
a failure may be put down to something else, and nothing for the files. -/
def SparesOthers (project : Project) (tree : Tree) (definitions : List ScannedDefinition)
    (issues : List Issue) : Prop :=
  ∀ (index : ℕ) (account : Account),
    (accounts project.generator tree definitions)[index]? = some account →
    account.2.outcome ≠ .created →
    List.Forall₂ Account.Alike ((accounts project.generator tree definitions).eraseIdx index)
        (accounts project.generator tree (definitions.eraseIdx index)) ∧
      ∀ address, (generateAll project tree definitions issues).1.file? address =
        (generateAll project tree (definitions.eraseIdx index) issues).1.file? address

/-- Generating sources accounts for every definition and overwrites nothing, and as long as the
names of the sources hold no slash, no definition whose source is not created stands in the way of
another one. -/
theorem generate_accounts (project : Project) (tree : Tree)
    (definitions : List ScannedDefinition) (issues : List Issue) :
    Accounted project tree definitions issues (generateAll project tree definitions issues)
        (accounts project.generator tree definitions) ∧
      ('/' ∉ project.config.generatedSuffix.toList → '/' ∉ project.config.fileExtension.toList →
        SparesOthers project tree definitions issues) ∧
      Run.generate tree project false =
        reported (generateAll project tree (project.scan tree).definitions
          (project.scan tree).issues) := by
  refine ⟨accounted_generateAll project tree definitions issues, ?_,
    generate_eq_reported tree project⟩
  intro hsuffix hextension index account haccount hnot
  obtain ⟨parent, hparent⟩ := project.haveParent hsuffix hextension
  have hended : ∀ definitions, (generateAll project tree definitions issues).1 =
      treeAfter project.generator tree definitions :=
    fun definitions ↦ congrArg Prod.fst (foldl_generateOne_eq project definitions tree _)
  rw [hended, hended]
  exact accounts_eraseIdx hparent tree definitions haccount hnot

/-- A definition with an identifier and a computation. -/
def scannedSample (id : String) : ScannedDefinition :=
  ⟨"misc", Config.sampleDefinition id, ""⟩

/-- A project in the working directory with the given suffix. -/
def projectWithSuffix (suffix : String) : Project :=
  ⟨⟨"."⟩, { Config.standard with outputRoot := "lib", generatedSuffix := suffix }⟩

/-- A source whose name cannot be that of a file is not written, and the next one is created. -/
theorem generate_accounts_nul :
    '/' ∉ (projectWithSuffix "_v2").config.generatedSuffix.toList ∧
      '/' ∉ (projectWithSuffix "_v2").config.fileExtension.toList ∧
      (accounts (projectWithSuffix "_v2").generator .empty
        [scannedSample "\x00", scannedSample "a"]).map (·.2.outcome) = [.failed, .created] ∧
      SparesOthers (projectWithSuffix "_v2") .empty [scannedSample "\x00", scannedSample "a"]
        [] := by
  have hsuffix : '/' ∉ (projectWithSuffix "_v2").config.generatedSuffix.toList := by decide
  have hextension : '/' ∉ (projectWithSuffix "_v2").config.fileExtension.toList := by decide
  refine ⟨hsuffix, hextension, by decide +kernel, ?_⟩
  exact (generate_accounts (projectWithSuffix "_v2") .empty
    [scannedSample "\x00", scannedSample "a"] []).2.1 hsuffix hextension

/-- A project whose suffix leads through a directory with the identifier of the definition. -/
def detourProject : Project :=
  projectWithSuffix "/p.dart/../q/../../b/p"

/-- A tree with a file on the way of one of these sources. -/
def blockedTree : Tree :=
  ⟨[(["lib"], .directory), (["lib", "b"], .directory), (["lib", "b", "q"], .file (.text ""))], []⟩

/-- With slashes in the suffix, a definition whose source cannot be written can leave a directory
where the source of another one would be created without it. -/
theorem not_sparesOthers_blockedTree :
    (accounts detourProject.generator blockedTree [scannedSample "b", scannedSample "a"]).map
      (·.2.outcome) = [.failed, .existing] ∧
    (accounts detourProject.generator blockedTree [scannedSample "a"]).map (·.2.outcome) =
      [.created] ∧
    ¬SparesOthers detourProject blockedTree [scannedSample "b", scannedSample "a"] [] := by
  have htogether : (accounts detourProject.generator blockedTree
      [scannedSample "b", scannedSample "a"]).map (·.2.outcome) = [.failed, .existing] := by
    decide +kernel
  have halone : (accounts detourProject.generator blockedTree [scannedSample "a"]).map
      (·.2.outcome) = [.created] := by
    decide +kernel
  refine ⟨htogether, halone, fun hspares ↦ ?_⟩
  obtain ⟨account, account', haccounts⟩ : ∃ account account', accounts detourProject.generator
      blockedTree [scannedSample "b", scannedSample "a"] = [account, account'] := ⟨_, _, rfl⟩
  rw [haccounts] at htogether
  have hfailed : account.2.outcome = .failed := (List.cons.inj htogether).1
  have hspared := (hspares 0 account (by rw [haccounts]; rfl) (by simp [hfailed])).1
  rw [haccounts] at hspared
  have houtcomes := (map_outcome_eq_of_alike hspared).symm.trans (List.cons.inj htogether).2
  rw [List.eraseIdx_cons_zero, halone] at houtcomes
  cases houtcomes

end Run

end CalculatorCatalog
