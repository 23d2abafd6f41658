import CalculatorCatalog.Proofs.Command.Footprint

/-!
# Batches of edits

A batch of edits applies a rule to files one after the other. If no two of the paths lead to the
same file (`Tree.LeadApart`), no edit meets what an earlier one has left, so each file becomes what
the rule makes of its text at the start (`readText_afterEdits`), and what is reported of a path
depends on this path alone (`foldl_editOne_of_leadApart`): a file whose text changes is listed, and
a path that cannot be read, or a new text that cannot be written, is an issue. Two edits of
different files commute (`editFile_comm`), so the files that are left do not depend on the order of
the paths (`afterEdits_perm`).
`editFiles_pointwise` puts this together.
-/

set_option autoImplicit false
set_option relaxedAutoImplicit false

namespace CalculatorCatalog

open CalculatorCatalog.Files

/-! ### One edit -/

/-- A rule that makes another text lists what it has changed. -/
theorem Edit.Rule.changes_ne_nil_of_content_ne {rule : Edit.Rule} {text : String}
    (h : (rule.apply text).content ≠ text) : (rule.apply text).changes ≠ [] := by
  intro hnone
  refine h (content_apply_of_changesIn_eq_nil ?_)
  rw [changesIn, if_neg h, hnone]

namespace Files.Tree

variable {tree : Tree} {path other : Path} {rule : Edit.Rule}

/-- Two paths that do not lead to the same file. -/
def LeadApart (tree : Tree) (first second : Path) : Prop :=
  ¬∃ reached content, tree.address first = .ok reached ∧ tree.address second = .ok reached ∧
    tree.get? reached = some (.file content)

theorem LeadApart.symm (h : tree.LeadApart path other) : tree.LeadApart other path :=
  fun ⟨reached, content, haddress, haddress', hfile⟩ ↦
    h ⟨reached, content, haddress', haddress, hfile⟩

theorem leadApart_of_address_ne (h : tree.address path ≠ tree.address other) :
    tree.LeadApart path other :=
  fun ⟨_, _, haddress, haddress', _⟩ ↦ h (haddress.trans haddress'.symm)

/-- Which paths lead to the same file does not depend on the contents. -/
theorem SameShape.leadApart_iff {tree' : Tree} (h : tree.SameShape tree') :
    tree.LeadApart path other ↔ tree'.LeadApart path other := by
  unfold LeadApart
  rw [h.address_eq, h.address_eq]
  refine not_congr (exists_congr fun reached ↦ ?_)
  constructor
  · rintro ⟨content, haddress, haddress', hfile⟩
    obtain ⟨content', hfile'⟩ := h.exists_file hfile
    exact ⟨content', haddress, haddress', hfile'⟩
  · rintro ⟨content, haddress, haddress', hfile⟩
    obtain ⟨content', hfile'⟩ := h.symm.exists_file hfile
    exact ⟨content', haddress, haddress', hfile'⟩

/-- Nothing keeps an edit from what it has to do: it is a dry run, or the system lets the file be
written. -/
def Permits (tree : Tree) (dryRun : Bool) (path : Path) : Prop :=
  dryRun = true ∨ tree.refusalAt? path = none

instance (tree : Tree) (dryRun : Bool) (path : Path) : Decidable (tree.Permits dryRun path) :=
  inferInstanceAs (Decidable (_ ∨ _))

theorem SameShape.permits_iff {tree' : Tree} (h : tree.SameShape tree') {dryRun : Bool} :
    tree.Permits dryRun path ↔ tree'.Permits dryRun path := by
  rw [Permits, Permits, h.refusalAt?_eq]

/-- An edit that nothing keeps from it reports a change and writes the file exactly if the rule
makes another text of its text; on a dry run nothing is written. -/
theorem editFile_written_iff {text : String} (hread : tree.readText path = .ok text)
    (rule : Edit.Rule) {dryRun : Bool} (hpermits : tree.Permits dryRun path) :
    ∃ after edit, tree.editFile rule dryRun path = (after, .ok edit) ∧
      (edit.isChanged = true ↔ (rule.apply text).content ≠ text) ∧
      (edit.written = true ↔ (rule.apply text).content ≠ text ∧ dryRun = false) ∧
      (edit.written = false → after = tree) := by
  obtain ⟨reached, haddress, hfile⟩ := readText_eq_ok_iff.mp hread
  rw [editFile_of_text haddress hfile]
  by_cases hsame : (rule.apply text).content = text
  · rw [if_pos hsame]
    exact ⟨tree, _, rfl, by simp [FileEdit.isChanged, hsame], by simp [hsame], fun _ ↦ rfl⟩
  · have hchanged : (!(rule.apply text).changes.isEmpty) = true := by
      simpa using Edit.Rule.changes_ne_nil_of_content_ne hsame
    rw [if_neg hsame]
    cases dryRun with
    | true => exact ⟨tree, _, rfl, iff_of_true hchanged hsame, by simp, fun _ ↦ rfl⟩
    | false =>
      have hopen := hpermits.resolve_left Bool.false_ne_true
      rw [refusalAt?_of_address haddress] at hopen
      rw [hopen]
      refine ⟨_, _, rfl, iff_of_true hchanged hsame, by simp [hsame], fun hwritten ↦ ?_⟩
      exact absurd hwritten.symm Bool.false_ne_true

/-- The files that are left by an edit. -/
theorem fst_editFile_of_readText {reached : Address} {text : String}
    (hread : tree.readText path = .ok text) (haddress : tree.address path = .ok reached)
    (rule : Edit.Rule) (dryRun : Bool) :
    (tree.editFile rule dryRun path).1 =
      if (rule.apply text).content = text ∨ dryRun = true ∨ tree.refusalAt? path ≠ none then tree
      else tree.put reached (.file (.text (rule.apply text).content)) := by
  obtain ⟨reached', haddress', hfile⟩ := readText_eq_ok_iff.mp hread
  obtain rfl := Except.ok.inj (haddress.symm.trans haddress')
  rw [editFile_of_text haddress hfile, refusalAt?_of_address haddress]
  by_cases hsame : (rule.apply text).content = text
  · rw [if_pos hsame, if_pos (.inl hsame)]
  · cases dryRun <;> cases tree.refusal? reached <;> simp [hsame]

/-- An edit leaves what other paths lead to. -/
theorem readText_editFile_of_leadApart (h : tree.LeadApart path other) (rule : Edit.Rule)
    (dryRun : Bool) :
    (tree.editFile rule dryRun path).1.readText other = tree.readText other := by
  cases hread : tree.readText path with
  | error fault => rw [editFile_of_error hread]
  | ok text =>
    obtain ⟨reached, haddress, hfile⟩ := readText_eq_ok_iff.mp hread
    rw [fst_editFile_of_readText hread haddress]
    split_ifs
    · rfl
    · exact readText_put_of_ne (fun hother ↦ h ⟨reached, _, haddress, hother, hfile⟩) hfile _

/-! ### Edits commute -/

/-- An entry that is there is replaced in its place. -/
theorem put_of_mem {address : Address} {old : Entry} (h : (address, old) ∈ tree.entries)
    (entry : Entry) :
    tree.put address entry =
      { tree with
        entries := tree.entries.map fun old ↦
          if old.1 = address then (address, entry) else old } := by
  rw [put, if_pos]
  exact List.any_eq_true.mpr ⟨_, h, by simp⟩

/-- Files at different addresses can be replaced in either order. -/
theorem put_comm {first second : Address} {old old' : Content} (hne : first ≠ second)
    (hfirst : tree.get? first = some (.file old)) (hsecond : tree.get? second = some (.file old'))
    (content content' : Content) :
    (tree.put first (.file content)).put second (.file content') =
      (tree.put second (.file content')).put first (.file content) := by
  have hinside := isOutside_eq_false_of_get? hfirst
  have hinside' := isOutside_eq_false_of_get? hsecond
  have hsecond' : (tree.put first (.file content)).get? second = some (.file old') := by
    rw [get?_put hinside, if_neg hne.symm, hsecond]
  have hfirst' : (tree.put second (.file content')).get? first = some (.file old) := by
    rw [get?_put hinside', if_neg hne, hfirst]
  rw [put_of_mem (mem_entries_of_get? hsecond' hinside'),
    put_of_mem (mem_entries_of_get? hfirst' hinside),
    put_of_mem (mem_entries_of_get? hfirst hinside),
    put_of_mem (mem_entries_of_get? hsecond hinside'), mk.injEq, List.map_map, List.map_map]
  refine ⟨List.map_congr_left fun entry _ ↦ ?_, rfl⟩
  by_cases hentry : entry.1 = first
  · simp [hentry, hne]
  · by_cases hentry' : entry.1 = second <;> simp [hentry, hentry', hne.symm]

/-- Different files can be edited in either order. -/
theorem editFile_comm (h : tree.LeadApart path other) (rule : Edit.Rule) (dryRun : Bool) :
    ((tree.editFile rule dryRun path).1.editFile rule dryRun other).1 =
      ((tree.editFile rule dryRun other).1.editFile rule dryRun path).1 := by
  have hkept := readText_editFile_of_leadApart h rule dryRun
  have hkept' := readText_editFile_of_leadApart h.symm rule dryRun
  cases hread : tree.readText path with
  | error fault =>
    rw [editFile_of_error hread, editFile_of_error (hkept'.trans hread)]
  | ok text =>
    cases hother : tree.readText other with
    | error fault => rw [editFile_of_error hother, editFile_of_error (hkept.trans hother)]
    | ok text' =>
      obtain ⟨reached, haddress, hfile⟩ := readText_eq_ok_iff.mp hread
      obtain ⟨reached', haddress', hfile'⟩ := readText_eq_ok_iff.mp hother
      have hne : reached ≠ reached' := by
        rintro rfl
        exact h ⟨reached, _, haddress, haddress', hfile⟩
      have hshape := tree.sameShape_editFile rule dryRun other
      have hshape' := tree.sameShape_editFile rule dryRun path
      rw [fst_editFile_of_readText (hkept.trans hother)
          ((hshape'.address_eq other).symm.trans haddress'),
        fst_editFile_of_readText (hkept'.trans hread)
          ((hshape.address_eq path).symm.trans haddress),
        ← hshape.refusalAt?_eq, ← hshape'.refusalAt?_eq,
        fst_editFile_of_readText hread haddress, fst_editFile_of_readText hother haddress']
      split_ifs
      · rfl
      · rfl
      · rfl
      · exact put_comm hne hfile hfile' _ _

/-! ### Edits of different files -/

variable {paths : List Path}

/-- The files that are left by edits of different files do not depend on the order. -/
theorem afterEdits_perm {paths' : List Path} (hperm : paths.Perm paths')
    (h : paths.Pairwise tree.LeadApart) (rule : Edit.Rule) (dryRun : Bool) :
    tree.afterEdits rule dryRun paths = tree.afterEdits rule dryRun paths' := by
  induction hperm generalizing tree with
  | nil => rfl
  | cons path hperm ih =>
    refine ih (h.of_cons.imp fun hapart ↦ ?_)
    exact (tree.sameShape_editFile rule dryRun path).leadApart_iff.mp hapart
  | swap first second rest =>
    have hapart := (List.pairwise_cons.mp h).1 first List.mem_cons_self
    exact congrArg (fun tree ↦ afterEdits rule dryRun tree rest)
      (editFile_comm hapart rule dryRun)
  | trans hperm hperm' ih ih' =>
    exact (ih h).trans (ih' ((hperm.pairwise_iff LeadApart.symm).mp h))

/-- Of paths that do not lead to the same file, one leads to the file of a path among them. -/
theorem countP_address_of_leadApart (h : paths.Pairwise tree.LeadApart) (hpath : path ∈ paths)
    {reached : Address} {content : Content} (haddress : tree.address path = .ok reached)
    (hfile : tree.get? reached = some (.file content)) :
    (paths.countP fun other ↦ tree.address other = .ok reached) = 1 := by
  obtain ⟨before, after, rfl⟩ := List.append_of_mem hpath
  obtain ⟨-, hafter, hbefore⟩ := List.pairwise_append.mp h
  have hother : ∀ other ∈ before ++ after, ¬decide (tree.address other = .ok reached) = true := by
    intro other hother haddress'
    have haddress' := of_decide_eq_true haddress'
    rcases List.mem_append.mp hother with hother | hother
    · exact hbefore other hother path List.mem_cons_self
        ⟨reached, content, haddress', haddress, hfile⟩
    · exact (List.pairwise_cons.mp hafter).1 other hother
        ⟨reached, content, haddress, haddress', hfile⟩
  have hnone := List.countP_eq_zero.mpr hother
  rw [List.countP_append] at hnone
  rw [List.countP_append, List.countP_cons_of_pos (by simpa using haddress)]
  omega

/-- Each file becomes what the rule makes of its text, unless the system refuses it. -/
theorem readText_afterEdits (h : paths.Pairwise tree.LeadApart) (hpath : path ∈ paths)
    {text : String} (hread : tree.readText path = .ok text) :
    (tree.afterEdits rule false paths).readText path =
      .ok (if tree.refusalAt? path = none then (rule.apply text).content else text) := by
  obtain ⟨reached, haddress, hfile⟩ := readText_eq_ok_iff.mp hread
  have hedited := @editedBy_afterEdits tree tree rule [] (EditedBy.refl rule tree) paths
  rw [hedited.readText_of_ok hread haddress, List.nil_append, refusalAt?_of_address haddress]
  split_ifs with hopen
  · rw [EditedBy.countP_opensAt paths hopen, countP_address_of_leadApart h hpath haddress hfile]
    rfl
  · have hnone : paths.countP (tree.opensAt reached) = 0 :=
      List.countP_eq_zero.mpr fun other _ hother ↦ hopen (opensAt_iff.mp hother).2
    rw [hnone]
    rfl

/-- What no path that can be read leads to stays as it is. -/
theorem get?_afterEdits_of_unread {address : Address}
    (h : ∀ path ∈ paths, tree.address path = .ok address → ∀ text, tree.readText path ≠ .ok text)
    (rule : Edit.Rule) (dryRun : Bool) :
    (tree.afterEdits rule dryRun paths).get? address = tree.get? address := by
  cases dryRun with
  | true => rw [afterEdits_dryRun]
  | false =>
    have hedited := @editedBy_afterEdits tree tree rule [] (EditedBy.refl rule tree) paths
    rw [hedited.get?_eq address]
    simp only [List.nil_append]
    cases hentry : tree.get? address with
    | none => rfl
    | some entry =>
      match entry with
      | .directory => rfl
      | .file (.bytes bytes) => rfl
      | .file (.text text) =>
        have hnone : paths.countP (tree.opensAt address) = 0 := by
          refine List.countP_eq_zero.mpr fun path hpath hopen ↦ ?_
          have haddress := (opensAt_iff.mp hopen).1
          exact h path hpath haddress text (readText_eq_ok_iff.mpr ⟨address, haddress, hentry⟩)
        simp only [hnone]
        rfl

end Files.Tree

/-! ### Batches -/

/-- Why the edit of a path fails, if it does: the path leads to no file with a text, or the new text
cannot be written. -/
def Files.Tree.editFault? (tree : Tree) (rule : Edit.Rule) (dryRun : Bool) (path : Path) :
    Option String :=
  match tree.readText path with
  | .error fault =>
    if tree.isFile path then some (⟨.readSource, path, fault⟩ : Failure).line
    else some "file does not exist"
  | .ok text =>
    if dryRun = true ∨ (rule.apply text).content = text then none
    else (tree.refusalAt? path).map fun refusal ↦
      (⟨.writeSource, path, .refused refusal⟩ : Failure).line

theorem Files.Tree.editFault?_eq_none_iff {tree : Tree} {rule : Edit.Rule} {dryRun : Bool}
    {path : Path} :
    tree.editFault? rule dryRun path = none ↔ ∃ text, tree.readText path = .ok text ∧
      (tree.Permits dryRun path ∨ (rule.apply text).content = text) := by
  unfold editFault? Permits
  cases tree.readText path with
  | error fault => simp [ite_eq_iff]
  | ok text =>
    simp only [Except.ok.injEq, exists_eq_left', ite_eq_left_iff, not_or, and_imp,
      Option.map_eq_none_iff]
    tauto

namespace Run

variable {tree : Tree} {project : Project} {rule : Edit.Rule} {dryRun : Bool}

/-- The issue of a path whose edit fails. -/
def editIssue? (project : Project) (rule : Edit.Rule) (dryRun : Bool) (tree : Tree) (path : Path) :
    Option Issue :=
  (tree.editFault? rule dryRun path).map fun reason ↦ .missingInput (project.shown path) reason

/-- How a file is listed as changed, if the rule makes another text of its text and nothing keeps it
from that. -/
def changedFile? (project : Project) (rule : Edit.Rule) (dryRun : Bool) (tree : Tree)
    (path : Path) : Option (String × FileEdit) :=
  match tree.readText path with
  | .ok text =>
    if (rule.apply text).content ≠ text ∧ tree.Permits dryRun path then
      some (project.shown path, ⟨path, (rule.apply text).changes, !dryRun⟩)
    else none
  | .error _ => none

/-- One path of a batch adds what is to be said of it alone. -/
theorem editOne_step (project : Project) (rule : Edit.Rule) (dryRun : Bool) (tree : Tree)
    (batch : Batch) (path : Path) :
    editOne project rule dryRun (tree, batch) path =
      ((tree.editFile rule dryRun path).1,
        ⟨batch.changed ++ (changedFile? project rule dryRun tree path).toList,
          batch.checked + (if tree.isFile path then 1 else 0),
          batch.issues ++ (editIssue? project rule dryRun tree path).toList⟩) := by
  cases hread : tree.readText path with
  | error fault =>
    unfold editOne changedFile? editIssue? Tree.editFault?
    simp only [Tree.editFile_of_error hread, hread]
    split_ifs <;> simp
  | ok text =>
    obtain ⟨reached, haddress, hfile⟩ := Tree.readText_eq_ok_iff.mp hread
    unfold editOne changedFile? editIssue? Tree.editFault? Tree.Permits
    simp only [hread, Tree.isFile_of_readText hread, if_true,
      Tree.editFile_of_text haddress hfile, Tree.refusalAt?_of_address haddress]
    by_cases hsame : (rule.apply text).content = text
    · simp [hsame, FileEdit.isChanged]
    · have hchanges := Edit.Rule.changes_ne_nil_of_content_ne hsame
      cases dryRun with
      | true => simp [hsame, hchanges, FileEdit.isChanged]
      | false =>
        cases tree.refusal? reached <;> simp [hsame, hchanges, FileEdit.isChanged]

/-- A batch of edits of different files says of each path what is to be said of it alone. -/
theorem foldl_editOne_of_leadApart {paths : List Path} (h : paths.Pairwise tree.LeadApart)
    (project : Project) (rule : Edit.Rule) (dryRun : Bool) (batch : Batch) :
    paths.foldl (editOne project rule dryRun) (tree, batch) =
      (tree.afterEdits rule dryRun paths,
        ⟨batch.changed ++ paths.filterMap (changedFile? project rule dryRun tree),
          batch.checked + paths.countP tree.isFile,
          batch.issues ++ paths.filterMap (editIssue? project rule dryRun tree)⟩) := by
  induction paths generalizing tree batch with
  | nil => simp [Tree.afterEdits]
  | cons path paths ih =>
    obtain ⟨hpath, hrest⟩ := List.pairwise_cons.mp h
    have hshape := tree.sameShape_editFile rule dryRun path
    -- The other paths still lead to what they led to at the start.
    have hchanged : paths.filterMap
        (changedFile? project rule dryRun (tree.editFile rule dryRun path).1) =
          paths.filterMap (changedFile? project rule dryRun tree) := by
      refine List.filterMap_congr fun other hother ↦ ?_
      simp only [changedFile?, Tree.readText_editFile_of_leadApart (hpath other hother),
        ← hshape.permits_iff]
    have hissues : paths.filterMap
        (editIssue? project rule dryRun (tree.editFile rule dryRun path).1) =
          paths.filterMap (editIssue? project rule dryRun tree) := by
      refine List.filterMap_congr fun other hother ↦ ?_
      rw [editIssue?, editIssue?, Tree.editFault?, Tree.editFault?, hshape.isFile_eq other,
        hshape.refusalAt?_eq other, Tree.readText_editFile_of_leadApart (hpath other hother)]
    have hchecked : paths.countP (tree.editFile rule dryRun path).1.isFile =
        paths.countP tree.isFile :=
      List.countP_congr fun other _ ↦ by rw [hshape.isFile_eq other]
    rw [List.foldl_cons, editOne_step, ih (hrest.imp hshape.leadApart_iff.mp), hchanged, hissues,
      hchecked, Tree.afterEdits, Tree.afterEdits, List.foldl_cons]
    simp only [List.append_assoc, filterMap_cons_eq_append, List.countP_cons, Nat.add_assoc,
      Nat.add_comm (if tree.isFile path then 1 else 0)]

/-- What a batch of edits of different files gives. -/
theorem editFiles_of_leadApart {paths : List Path} (h : paths.Pairwise tree.LeadApart)
    (project : Project) (rule : Edit.Rule) (ruleName : String) (dryRun : Bool) :
    editFiles tree project paths rule ruleName dryRun =
      (tree.afterEdits rule dryRun paths, .ok (.ofIssues
        (.edited ruleName (paths.filterMap (changedFile? project rule dryRun tree))
          (paths.countP tree.isFile) dryRun)
        (paths.filterMap (editIssue? project rule dryRun tree)))) := by
  rw [editFiles, foldl_editOne_of_leadApart h]
  simp

/-- A file is listed as changed exactly if the rule makes another text of its text and nothing keeps
it from that. -/
theorem mem_filterMap_changedFile?_iff {paths : List Path} {listed : String × FileEdit} :
    listed ∈ paths.filterMap (changedFile? project rule dryRun tree) ↔
      ∃ path ∈ paths, ∃ text, tree.readText path = .ok text ∧ (rule.apply text).content ≠ text ∧
        tree.Permits dryRun path ∧
        listed = (project.shown path, ⟨path, (rule.apply text).changes, !dryRun⟩) := by
  rw [List.mem_filterMap]
  refine exists_congr fun path ↦ and_congr_right fun _ ↦ ?_
  unfold changedFile?
  cases tree.readText path with
  | error fault => simp
  | ok text => simp [eq_comm, and_assoc]

/-- The files that are listed as changed stand in the order of the batch. -/
theorem sublist_filterMap_changedFile? (paths : List Path) :
    ((paths.filterMap (changedFile? project rule dryRun tree)).map (·.2.path)).Sublist paths := by
  induction paths with
  | nil => exact .slnil
  | cons path paths ih =>
    rw [List.filterMap_cons]
    cases hlisted : changedFile? project rule dryRun tree path with
    | none => exact ih.cons path
    | some listed =>
      have hpath : listed.2.path = path := by
        unfold changedFile? at hlisted
        split at hlisted
        · split_ifs at hlisted
          obtain rfl := Option.some.inj hlisted
          rfl
        · cases hlisted
      simp only [List.map_cons, hpath]
      exact ih.cons_cons path

/-- A batch of edits of different files is its rule applied to each file. After a real run every
file with a text that can be written holds what the rule makes of it, and everything else is as it
was; after a dry run everything is as it was. Each path that leads to no file with a text, or whose
new text cannot be written, gives one issue. A file is listed as changed exactly if the rule makes
another text of its text and nothing keeps it from that, which is when it is written unless the run
is dry. In another order the same files are left, and the same is reported. -/
theorem editFiles_pointwise {paths : List Path} (h : paths.Pairwise tree.LeadApart)
    (project : Project) (rule : Edit.Rule) (ruleName : String) (dryRun : Bool) :
    ∃ after changed issues,
      editFiles tree project paths rule ruleName dryRun = (after, .ok
        ⟨.edited ruleName changed (paths.countP tree.isFile) dryRun, issues⟩) ∧
      (∀ path ∈ paths, ∀ text, tree.readText path = .ok text →
        after.readText path = .ok (if dryRun = false ∧ tree.refusalAt? path = none then
          (rule.apply text).content else text)) ∧
      (∀ address, (∀ path ∈ paths, tree.address path = .ok address →
        ∀ text, tree.readText path ≠ .ok text) → after.get? address = tree.get? address) ∧
      (dryRun = true → after = tree) ∧
      issues.Perm (paths.filterMap fun path ↦ (tree.editFault? rule dryRun path).map
        fun reason ↦ .missingInput (project.shown path) reason) ∧
      (∀ path, tree.editFault? rule dryRun path = none ↔
        ∃ text, tree.readText path = .ok text ∧
          (tree.Permits dryRun path ∨ (rule.apply text).content = text)) ∧
      (∀ listed, listed ∈ changed ↔ ∃ path ∈ paths, ∃ text, tree.readText path = .ok text ∧
        (rule.apply text).content ≠ text ∧ tree.Permits dryRun path ∧
        listed = (project.shown path, ⟨path, (rule.apply text).changes, !dryRun⟩)) ∧
      (changed.map (·.2.path)).Sublist paths ∧
      (∀ (between : Tree) (path : Path) (text : String), between.readText path = .ok text →
        between.Permits dryRun path →
        ∃ next edit, between.editFile rule dryRun path = (next, .ok edit) ∧
          (edit.isChanged = true ↔ (rule.apply text).content ≠ text) ∧
          (edit.written = true ↔ (rule.apply text).content ≠ text ∧ dryRun = false) ∧
          (edit.written = false → next = between)) ∧
      ∀ paths', paths.Perm paths' → ∃ changed' issues',
        editFiles tree project paths' rule ruleName dryRun = (after, .ok
          ⟨.edited ruleName changed' (paths.countP tree.isFile) dryRun, issues'⟩) ∧
        changed'.Perm changed ∧ issues'.Perm issues := by
  refine ⟨_, _, _, editFiles_of_leadApart h project rule ruleName dryRun,
    fun path hpath text hread ↦ ?_,
    fun address haddress ↦ Tree.get?_afterEdits_of_unread haddress rule dryRun, ?_, ?_,
    fun path ↦ Tree.editFault?_eq_none_iff, fun listed ↦ mem_filterMap_changedFile?_iff, ?_,
    fun between path text hread ↦ Tree.editFile_written_iff hread rule,
    fun paths' hperm ↦ ?_⟩
  · cases dryRun with
    | true => rw [Tree.afterEdits_dryRun, hread, if_neg (by simp)]
    | false =>
      rw [Tree.readText_afterEdits h hpath hread]
      simp only [true_and]
  · rintro rfl
    exact Tree.afterEdits_dryRun rule tree paths
  · exact List.mergeSort_perm _ _
  · exact sublist_filterMap_changedFile? paths
  · have h' := (hperm.pairwise_iff fun hapart ↦ Tree.LeadApart.symm hapart).mp h
    have hrun := editFiles_of_leadApart h' project rule ruleName dryRun
    rw [← Tree.afterEdits_perm hperm h, ← hperm.countP_eq] at hrun
    refine ⟨_, _, hrun, (hperm.filterMap _).symm, ?_⟩
    · exact (List.mergeSort_perm _ _).trans
        ((hperm.filterMap _).symm.trans (List.mergeSort_perm _ _).symm)

/-- Four sources: one with a category to be renamed, one that is no text, one without a category,
and one with a category that may be read but not written. -/
def paintTree : Tree where
  entries := [
    (["a.dart"], .file (.text "Paint(category: CalculatorCategory.walls)")),
    (["b.dart"], .file (.bytes [255])),
    (["c.dart"], .file (.text "Paint()")),
    (["d.dart"], .file (.text "Paint(category: CalculatorCategory.walls)"))]
  refusals := [(["d.dart"], .readOnlySystem)]

/-- A batch with a path that leads nowhere and the paths of the four sources. -/
def paintPaths : List Path :=
  [⟨"gone.dart"⟩, ⟨"d.dart"⟩, ⟨"c.dart"⟩, ⟨"./b.dart"⟩, ⟨"./a.dart"⟩]

/-- The category is renamed, and the three paths without a text or with one that cannot be written
do not keep the batch from it. -/
theorem editFiles_pointwise_paintTree :
    paintPaths.Pairwise paintTree.LeadApart ∧
      ∃ after changed issues,
        editFiles paintTree ⟨⟨"."⟩, Config.standard⟩ paintPaths
            (.renameCategories "CalculatorCategory") "category remap" false = (after, .ok
          ⟨.edited "category remap" changed (paintPaths.countP paintTree.isFile) false, issues⟩) ∧
        after.readText ⟨"./a.dart"⟩ = .ok "Paint(category: CalculatorCategory.exterior)" ∧
        after.get? ["b.dart"] = some (.file (.bytes [255])) ∧
        after.readText ⟨"d.dart"⟩ = .ok "Paint(category: CalculatorCategory.walls)" ∧
        issues.Perm [.missingInput "gone.dart" "file does not exist",
          .missingInput "d.dart" "Failed to write: d.dart: Read-only file system (os error 30)",
          .missingInput "b.dart" "Failed to read: ./b.dart: stream did not contain valid UTF-8"] ∧
        ("a.dart", ⟨⟨"./a.dart"⟩, [.categoryRenamed 1 "walls" "exterior"], true⟩) ∈ changed := by
  have hapart : paintPaths.Pairwise paintTree.LeadApart :=
    List.Pairwise.imp Tree.leadApart_of_address_ne (by decide +kernel)
  have hread : paintTree.readText ⟨"./a.dart"⟩ =
      .ok "Paint(category: CalculatorCategory.walls)" := by decide +kernel
  have hedit : (Edit.Rule.renameCategories "CalculatorCategory").apply
      "Paint(category: CalculatorCategory.walls)" =
        ⟨"Paint(category: CalculatorCategory.exterior)",
          [.categoryRenamed 1 "walls" "exterior"]⟩ := by decide +kernel
  have hbytes : paintTree.readText ⟨"./b.dart"⟩ = .error .invalidText := by decide +kernel
  have hlocked : paintTree.readText ⟨"d.dart"⟩ =
      .ok "Paint(category: CalculatorCategory.walls)" := by decide +kernel
  have honly : ∀ path ∈ paintPaths, paintTree.address path = .ok ["b.dart"] →
      path = ⟨"./b.dart"⟩ := by decide +kernel
  obtain ⟨after, changed, issues, hrun, htexts, hothers, -, hissues, -, hchanged, -⟩ :=
    editFiles_pointwise hapart ⟨⟨"."⟩, Config.standard⟩ (.renameCategories "CalculatorCategory")
      "category remap" false
  refine ⟨hapart, after, changed, issues, hrun, ?_, ?_, ?_, ?_, ?_⟩
  · rw [htexts _ (by decide) _ hread, hedit]
    rfl
  · refine (hothers ["b.dart"] fun path hpath haddress text ↦ ?_).trans rfl
    rw [honly path hpath haddress, hbytes]
    simp
  · rw [htexts _ (by decide) _ hlocked]
    rfl
  · refine hissues.trans (.of_eq ?_)
    decide +kernel
  · refine (hchanged _).mpr ⟨⟨"./a.dart"⟩, by decide, _, hread, ?_⟩
    rw [hedit]
    exact ⟨by decide, .inr rfl, by decide +kernel⟩

end Run

end CalculatorCatalog
