import CalculatorCatalog.Edit.Files
import CalculatorCatalog.Proofs.Edit.Idempotence
import CalculatorCatalog.Proofs.Edit.Renaming
import CalculatorCatalog.Proofs.Files.Overwriting

/-!
# Files that are edited more than once

When a rule is applied to files one after the other, a file that is named several times is edited
several times. What the rule then finds in it is what it finds in the text that the earlier
applications have made of the one at the start (`findings_eq`). So only the number of earlier paths
that lead to the same file counts, not what has become of the others (`Tree.EditedBy`). A file that
the system does not let be written stays as it is however often it is named.
-/

set_option autoImplicit false
set_option relaxedAutoImplicit false

namespace CalculatorCatalog

open CalculatorCatalog.Files

namespace Edit.Rule

variable {rule : Rule} {text : String}

/-- What a rule changes in a text. -/
def changesIn (rule : Rule) (text : String) : List Change :=
  if (rule.apply text).content = text then [] else (rule.apply text).changes

/-- A text in which a rule changes nothing stays as it is. -/
theorem content_apply_of_changesIn_eq_nil (h : rule.changesIn text = []) :
    (rule.apply text).content = text := by
  unfold changesIn at h
  split_ifs at h with hsame
  · exact hsame
  · cases rule with
    | renameCategories namespaceName => exact renameCategories_of_changes_eq_nil h
    | removeBlocks constructor key => exact removeBlocks_of_changes_eq_nil h

/-- What a rule makes of a text when it is applied a number of times. -/
def applyTimes (rule : Rule) : Nat → String → String
  | 0, text => text
  | count + 1, text => (rule.apply (rule.applyTimes count text)).content

theorem applyTimes_of_changesIn_eq_nil (h : rule.changesIn text = []) (count : Nat) :
    rule.applyTimes count text = text := by
  induction count with
  | zero => rfl
  | succ count ih => rw [applyTimes, ih, content_apply_of_changesIn_eq_nil h]

/-- There is nothing left to rename after the first time. -/
theorem changesIn_applyTimes_renameCategories (namespaceName text : String) {count : Nat}
    (h : count ≠ 0) :
    (Rule.renameCategories namespaceName).changesIn
      ((Rule.renameCategories namespaceName).applyTimes count text) = [] := by
  obtain ⟨count, rfl⟩ := Nat.exists_eq_succ_of_ne_zero h
  unfold changesIn
  simp only [applyTimes, Rule.apply, renameCategories_twice, if_true]

end Edit.Rule

namespace Files

/-- An entry after a rule has been applied to it a number of times. -/
def Entry.edited (rule : Edit.Rule) (count : Nat) : Entry → Entry
  | .file (.text text) => .file (.text (rule.applyTimes count text))
  | entry => entry

namespace Tree

variable {start tree : Tree} {rule : Edit.Rule} {path : Path}

/-! ### One edit -/

theorem isFile_iff : tree.isFile path = true ↔
    ∃ reached content, tree.address path = .ok reached ∧
      tree.get? reached = some (.file content) := by
  have hentry : tree.isFile path = true ↔ ∃ content, tree.entry path = .ok (.file content) := by
    unfold isFile
    split
    · rename_i content hfile
      simp [hfile]
    · rename_i hother
      simpa using fun content ↦ hother content
  simp only [hentry, entry_eq_ok_iff]
  tauto

theorem isFile_of_readText {text : String} (h : tree.readText path = .ok text) :
    tree.isFile path = true := by
  obtain ⟨reached, haddress, hfile⟩ := readText_eq_ok_iff.mp h
  exact isFile_iff.mpr ⟨reached, .text text, haddress, hfile⟩

theorem SameShape.isFile_eq (h : start.SameShape tree) (path : Path) :
    start.isFile path = tree.isFile path := by
  rw [Bool.eq_iff_iff, isFile_iff, isFile_iff, h.address_eq path]
  constructor
  · rintro ⟨reached, content, haddress, hfile⟩
    obtain ⟨content', hfile'⟩ := h.exists_file hfile
    exact ⟨reached, content', haddress, hfile'⟩
  · rintro ⟨reached, content, haddress, hfile⟩
    obtain ⟨content', hfile'⟩ := h.symm.exists_file hfile
    exact ⟨reached, content', haddress, hfile'⟩

/-- What a rule finds to change in a file to which it has been applied a number of times before:
nothing if the file cannot be read. -/
def changesAfter (tree : Tree) (rule : Edit.Rule) (count : Nat) (path : Path) : List Change :=
  match tree.readText path with
  | .ok text => rule.changesIn (rule.applyTimes count text)
  | .error _ => []

/-- A file in which there was nothing to change stays such a file. -/
theorem changesAfter_eq_nil (h : tree.changesAfter rule 0 path = []) (count : Nat) :
    tree.changesAfter rule count path = [] := by
  unfold changesAfter at h ⊢
  cases hread : tree.readText path with
  | error fault => rfl
  | ok text =>
    rw [hread] at h
    exact (congrArg rule.changesIn (Edit.Rule.applyTimes_of_changesIn_eq_nil h count)).trans h

/-- Nothing is left to rename in a file that has been edited before. -/
theorem changesAfter_renameCategories (tree : Tree) (namespaceName : String) (path : Path)
    {count : Nat} (h : count ≠ 0) :
    tree.changesAfter (.renameCategories namespaceName) count path = [] := by
  unfold changesAfter
  split
  · exact Edit.Rule.changesIn_applyTimes_renameCategories namespaceName _ h
  · rfl

theorem editFile_of_error {fault : Fault} (h : tree.readText path = .error fault)
    (rule : Edit.Rule) (dryRun : Bool) :
    tree.editFile rule dryRun path = (tree, .error ⟨.readSource, path, fault⟩) := by
  rw [editFile, h]

/-- A file is written where a rule makes another text of its text, unless the system refuses it. On
a dry run it is not written, but its changes are the same. -/
theorem editFile_of_text {reached : Address} {text : String}
    (haddress : tree.address path = .ok reached)
    (hfile : tree.get? reached = some (.file (.text text))) (rule : Edit.Rule) (dryRun : Bool) :
    tree.editFile rule dryRun path =
      if (rule.apply text).content = text then (tree, .ok ⟨path, [], false⟩)
      else if dryRun then (tree, .ok ⟨path, (rule.apply text).changes, false⟩)
      else match tree.refusal? reached with
        | some refusal => (tree, .error ⟨.writeSource, path, .refused refusal⟩)
        | none => (tree.put reached (.file (.text (rule.apply text).content)),
            .ok ⟨path, (rule.apply text).changes, true⟩) := by
  have hread := readText_eq_ok_iff.mpr ⟨reached, haddress, hfile⟩
  have hwrite : tree.writeText path (rule.apply text).content =
      tree.tryPut reached (.file (.text (rule.apply text).content)) :=
    write_of_file haddress hfile _
  rw [editFile, hread]
  simp only [hwrite]
  cases hrefusal : tree.refusal? reached with
  | some refusal => simp only [tryPut_of_some hrefusal]
  | none => simp only [tryPut_of_none hrefusal]

/-- Whether a path leads to an address at which the system lets a file be written. -/
def opensAt (tree : Tree) (address : Address) (path : Path) : Bool :=
  tree.address path = .ok address ∧ tree.refusal? address = none

theorem opensAt_iff {address : Address} : tree.opensAt address path = true ↔
    tree.address path = .ok address ∧ tree.refusal? address = none :=
  decide_eq_true_iff

/-- After the edit of a file that can be read and written, its text is the result of the rule; all
else stays, and on a dry run everything does. -/
theorem get?_editFile {text : String} (h : tree.readText path = .ok text) (rule : Edit.Rule)
    (dryRun : Bool) (address : Address) :
    (tree.editFile rule dryRun path).1.get? address =
      if dryRun = false ∧ tree.opensAt address path = true then
        some (.file (.text (rule.apply text).content))
      else tree.get? address := by
  obtain ⟨reached, haddress, hfile⟩ := readText_eq_ok_iff.mp h
  rw [editFile_of_text haddress hfile]
  simp only [opensAt_iff, haddress, Except.ok.injEq]
  by_cases hsame : (rule.apply text).content = text
  · rw [if_pos hsame]
    split_ifs with hopen
    · rw [← hopen.2.1, hfile, hsame]
    · rfl
  · rw [if_neg hsame]
    cases dryRun with
    | true => simp
    | false =>
      rw [if_neg Bool.false_ne_true]
      cases hrefusal : tree.refusal? reached with
      | some refusal =>
        rw [if_neg]
        rintro ⟨-, rfl, hopen⟩
        cases hopen.symm.trans hrefusal
      | none =>
        simp only [get?_put (isOutside_eq_false_of_get? hfile)]
        by_cases hreached : address = reached
        · simp [hreached, hrefusal]
        · simp [hreached, Ne.symm hreached]

/-- An edit does not change where the system refuses writing. -/
theorem refusals_editFile (tree : Tree) (rule : Edit.Rule) (dryRun : Bool) (path : Path) :
    (tree.editFile rule dryRun path).1.refusals = tree.refusals := by
  cases hread : tree.readText path with
  | error fault => rw [editFile_of_error hread]
  | ok text =>
    obtain ⟨reached, haddress, hfile⟩ := readText_eq_ok_iff.mp hread
    rw [editFile_of_text haddress hfile]
    split_ifs
    · rfl
    · rfl
    · split
      · rfl
      · exact refusals_put _ _ _

/-- What a rule changes in a file to which it has been applied a number of times before: nothing if
the file cannot be read or written. -/
def changesMade (tree : Tree) (rule : Edit.Rule) (count : Nat) (path : Path) : List Change :=
  match tree.refusalAt? path with
  | some _ => []
  | none => tree.changesAfter rule count path

/-- What an edit reports: on a dry run what the rule finds, and otherwise what it changes. -/
def changesReported (tree : Tree) (rule : Edit.Rule) (dryRun : Bool) (path : Path) : List Change :=
  if dryRun then tree.changesAfter rule 0 path else tree.changesMade rule 0 path

theorem changesMade_eq_nil (h : tree.changesAfter rule 0 path = []) (count : Nat) :
    tree.changesMade rule count path = [] := by
  unfold changesMade
  split
  · rfl
  · exact changesAfter_eq_nil h count

theorem changesReported_of_error {fault : Fault} (h : tree.readText path = .error fault)
    (rule : Edit.Rule) (dryRun : Bool) : tree.changesReported rule dryRun path = [] := by
  have hnone : tree.changesAfter rule 0 path = [] := by rw [changesAfter, h]
  unfold changesReported
  split_ifs
  · exact hnone
  · exact changesMade_eq_nil hnone 0

/-- An edit that succeeds reports its changes, and one that fails has none to report. -/
theorem changes_editFile (tree : Tree) (rule : Edit.Rule) (dryRun : Bool) (path : Path) :
    (∃ after failure, tree.editFile rule dryRun path = (after, .error failure) ∧
      tree.changesReported rule dryRun path = []) ∨
    ∃ after written, tree.editFile rule dryRun path =
      (after, .ok ⟨path, tree.changesReported rule dryRun path, written⟩) := by
  cases hread : tree.readText path with
  | error fault =>
    rw [editFile_of_error hread, changesReported_of_error hread]
    exact .inl ⟨_, _, rfl, rfl⟩
  | ok text =>
    obtain ⟨reached, haddress, hfile⟩ := readText_eq_ok_iff.mp hread
    have hchanges : tree.changesAfter rule 0 path = rule.changesIn text := by
      rw [changesAfter, hread]
      rfl
    rw [changesReported, changesMade, hchanges, Edit.Rule.changesIn,
      editFile_of_text haddress hfile, refusalAt?_of_address haddress]
    by_cases hsame : (rule.apply text).content = text
    · rw [if_pos hsame, if_pos hsame]
      refine .inr ⟨tree, false, ?_⟩
      cases tree.refusal? reached <;> simp
    · rw [if_neg hsame, if_neg hsame]
      cases dryRun with
      | true => exact .inr ⟨_, _, rfl⟩
      | false =>
        cases hrefusal : tree.refusal? reached with
        | some refusal => exact .inl ⟨_, _, rfl, rfl⟩
        | none => exact .inr ⟨_, _, rfl⟩

/-! ### Edits one after the other -/

/-- A rule has been applied to the file at each address as often as given. -/
structure EditedBy (rule : Edit.Rule) (counts : Address → Nat) (start tree : Tree) : Prop where
  get?_eq : ∀ address,
    tree.get? address = (start.get? address).map (Entry.edited rule (counts address))
  refusals_eq : start.refusals = tree.refusals

namespace EditedBy

variable {counts : Address → Nat}

theorem refl (rule : Edit.Rule) (tree : Tree) : EditedBy rule (fun _ ↦ 0) tree tree := by
  refine ⟨fun address ↦ ?_, rfl⟩
  cases tree.get? address with
  | none => rfl
  | some entry =>
    cases entry with
    | directory => rfl
    | file content => cases content <;> rfl

theorem sameShape (h : EditedBy rule counts start tree) : start.SameShape tree := by
  refine ⟨fun address ↦ ?_, fun address ↦ ?_, h.refusals_eq⟩
  all_goals
    rw [h.get?_eq address]
    cases start.get? address with
    | none => simp
    | some entry =>
      cases entry with
      | directory => simp [Entry.edited]
      | file content => cases content <;> simp [Entry.edited]

theorem readText_of_ok (h : EditedBy rule counts start tree) {text : String} {reached : Address}
    (hread : start.readText path = .ok text) (haddress : start.address path = .ok reached) :
    tree.readText path = .ok (rule.applyTimes (counts reached) text) := by
  obtain ⟨reached', haddress', hfile⟩ := readText_eq_ok_iff.mp hread
  obtain rfl := Except.ok.inj (haddress.symm.trans haddress')
  refine readText_eq_ok_iff.mpr ⟨reached, (h.sameShape.address_eq path).symm.trans haddress, ?_⟩
  rw [h.get?_eq reached, hfile]
  rfl

/-- A file that could not be read at the start cannot be read now. -/
theorem readText_of_error (h : EditedBy rule counts start tree) {fault : Fault}
    (hread : start.readText path = .error fault) :
    ∃ fault', tree.readText path = .error fault' := by
  cases hnow : tree.readText path with
  | error fault' => exact ⟨fault', rfl⟩
  | ok text =>
    obtain ⟨reached, haddress, hfile⟩ := readText_eq_ok_iff.mp hnow
    rw [h.get?_eq reached, Option.map_eq_some_iff] at hfile
    obtain ⟨entry, hentry, hedited⟩ := hfile
    match entry, hedited with
    | .file (.text original), hedited =>
      have hstart : start.readText path = .ok original :=
        readText_eq_ok_iff.mpr ⟨reached, (h.sameShape.address_eq path).trans haddress, hentry⟩
      rw [hread] at hstart
      cases hstart

/-- What a rule finds in a file depends on how often it has been applied to this file. -/
theorem changesAfter_zero (h : EditedBy rule counts start tree) {count : Nat}
    (hcount : ∀ reached, start.address path = .ok reached → count = counts reached) :
    tree.changesAfter rule 0 path = start.changesAfter rule count path := by
  unfold changesAfter
  cases hread : start.readText path with
  | error fault =>
    obtain ⟨fault', hfault'⟩ := h.readText_of_error hread
    rw [hfault']
  | ok text =>
    obtain ⟨reached, haddress, -⟩ := readText_eq_ok_iff.mp hread
    rw [h.readText_of_ok hread haddress, hcount reached haddress]
    rfl

/-- The file to which a path leads has been edited once more, if it can be written. -/
theorem editFile (h : EditedBy rule counts start tree) (path : Path) :
    EditedBy rule
      (fun address ↦ counts address + if start.opensAt address path = true then 1 else 0)
      start (tree.editFile rule false path).1 := by
  refine ⟨fun address ↦ ?_, h.refusals_eq.trans (refusals_editFile tree rule false path).symm⟩
  cases hread : start.readText path with
  | error fault =>
    obtain ⟨fault', hfault'⟩ := h.readText_of_error hread
    rw [editFile_of_error hfault', h.get?_eq address]
    by_cases hopen : start.opensAt address path = true
    · -- What is there is no text, and the rule leaves it alone however often it is applied.
      have haddress := (opensAt_iff.mp hopen).1
      cases hentry : start.get? address with
      | none => rfl
      | some entry =>
        match entry with
        | .directory => rfl
        | .file (.bytes bytes) => rfl
        | .file (.text text) =>
          rw [readText_eq_ok_iff.mpr ⟨address, haddress, hentry⟩] at hread
          cases hread
    · rw [if_neg hopen, Nat.add_zero]
  | ok text =>
    obtain ⟨reached, haddress, hfile⟩ := readText_eq_ok_iff.mp hread
    have hopens : tree.opensAt address path = start.opensAt address path := by
      rw [opensAt, opensAt, h.sameShape.address_eq, h.sameShape.refusal?_eq]
    rw [get?_editFile (h.readText_of_ok hread haddress), hopens]
    simp only [true_and]
    split_ifs with hopen
    · obtain rfl := Except.ok.inj (haddress.symm.trans (opensAt_iff.mp hopen).1)
      rw [hfile]
      rfl
    · rw [h.get?_eq address, Nat.add_zero]

/-- The file to which a path leads has been edited once for each path so far that leads there, if it
can be written. -/
theorem editFile_concat {seen : List Path}
    (h : EditedBy rule (fun address ↦ seen.countP (start.opensAt address)) start tree)
    (path : Path) :
    EditedBy rule (fun address ↦ (seen ++ [path]).countP (start.opensAt address)) start
      (tree.editFile rule false path).1 := by
  have hcounts : (fun address ↦ (seen ++ [path]).countP (start.opensAt address)) =
      fun address ↦ seen.countP (start.opensAt address) +
        if start.opensAt address path = true then 1 else 0 := by
    funext address
    rw [List.countP_append, List.countP_singleton]
  rw [hcounts]
  exact h.editFile path

/-- Where a file can be written, each path so far that leads there counts. -/
theorem countP_opensAt (seen : List Path) {reached : Address}
    (hopen : start.refusal? reached = none) :
    seen.countP (start.opensAt reached) =
      seen.countP fun earlier ↦ start.address earlier = .ok reached := by
  refine List.countP_congr fun earlier _ ↦ ?_
  rw [opensAt_iff, decide_eq_true_iff]
  exact and_iff_left hopen

end EditedBy

/-- Paths, each with the number of those before it that lead to the same place; `seen` are the paths
before the first one. -/
def turns (start : Tree) : List Path → List Path → List (Path × Nat)
  | _, [] => []
  | seen, path :: paths =>
    (path, seen.countP fun earlier ↦ start.address earlier = start.address path)
      :: turns start (seen ++ [path]) paths

theorem map_fst_turns (start : Tree) (seen paths : List Path) :
    (turns start seen paths).map (·.1) = paths := by
  induction paths generalizing seen with
  | nil => rfl
  | cons path paths ih => rw [turns, List.map_cons, ih]

/-- Where no two paths lead to the same place, every path has its first turn. -/
theorem turns_of_nodup {start : Tree} {seen paths : List Path}
    (h : ((seen ++ paths).map start.address).Nodup) :
    ∀ turn ∈ start.turns seen paths, turn.2 = 0 := by
  induction paths generalizing seen with
  | nil => simp [turns]
  | cons path paths ih =>
    refine List.forall_mem_cons.mpr ⟨?_, ih (by simpa using h)⟩
    rw [List.map_append, List.nodup_append, List.map_cons] at h
    refine List.countP_eq_zero.mpr fun earlier hearlier ↦ ?_
    simpa using h.2.2 _ (List.mem_map_of_mem hearlier) _ List.mem_cons_self

/-- What is reported of files that are edited one after the other. -/
def findings (rule : Edit.Rule) (dryRun : Bool) : Tree → List Path → List (Path × List Change)
  | _, [] => []
  | tree, path :: paths =>
    (path, tree.changesReported rule dryRun path)
      :: findings rule dryRun (tree.editFile rule dryRun path).1 paths

/-- A dry run leaves the files as they are. -/
theorem editFile_dryRun (tree : Tree) (rule : Edit.Rule) (path : Path) :
    (tree.editFile rule true path).1 = tree := by
  unfold editFile
  split
  · rfl
  · simp only [if_true]
    split_ifs <;> rfl

/-- An edit changes no more than the content of files. -/
theorem sameShape_editFile (tree : Tree) (rule : Edit.Rule) (dryRun : Bool) (path : Path) :
    tree.SameShape (tree.editFile rule dryRun path).1 := by
  cases dryRun with
  | true =>
    rw [editFile_dryRun]
    exact .refl tree
  | false => exact ((EditedBy.refl rule tree).editFile path).sameShape

theorem findings_dryRun (rule : Edit.Rule) (tree : Tree) (paths : List Path) :
    findings rule true tree paths = paths.map fun path ↦ (path, tree.changesAfter rule 0 path) := by
  induction paths with
  | nil => rfl
  | cons path paths ih =>
    rw [findings, editFile_dryRun, ih, List.map_cons]
    rfl

/-- The changes made in a file that has been edited before are those that the rule finds in what the
earlier edits of this file have made of it. -/
theorem findings_eq {seen : List Path}
    (h : EditedBy rule (fun address ↦ seen.countP (start.opensAt address)) start tree)
    (paths : List Path) :
    findings rule false tree paths =
      (turns start seen paths).map fun turn ↦ (turn.1, start.changesMade rule turn.2 turn.1) := by
  induction paths generalizing seen tree with
  | nil => rfl
  | cons path paths ih =>
    rw [findings, turns, List.map_cons]
    congr 1
    · refine congrArg _ ?_
      rw [changesReported, if_neg Bool.false_ne_true, changesMade, changesMade,
        ← h.sameShape.refusalAt?_eq]
      cases hrefusal : start.refusalAt? path with
      | some refusal => rfl
      | none =>
        refine h.changesAfter_zero fun reached hreached ↦ ?_
        rw [refusalAt?_of_address hreached] at hrefusal
        rw [hreached, EditedBy.countP_opensAt seen hrefusal]
    · exact ih (h.editFile_concat path)

end Tree

end Files

end CalculatorCatalog
