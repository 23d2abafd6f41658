import CalculatorCatalog.Files.Output
import CalculatorCatalog.Proofs.Files.Parents

/-!
# Creating files

Creating files and directories only ever adds entries (`Tree.Grows`), so whatever a path leads to it
still leads to afterwards (`Grows.isPresent`). No file is created where something is there, also
after others have been (`saveNew_ne_created`), and in a directory that is there a file is created
where nothing is unless the system refuses it (`NamesIn.saveNew_eq`).
-/

set_option autoImplicit false
set_option relaxedAutoImplicit false

namespace CalculatorCatalog.Files.Tree

variable {tree tree' : Tree}

/-! ### Trees with more entries -/

/-- All that is there in one tree is there in the other. -/
def Grows (tree tree' : Tree) : Prop :=
  ∀ address entry, tree.get? address = some entry → tree'.get? address = some entry

namespace Grows

theorem refl (tree : Tree) : tree.Grows tree :=
  fun _ _ h ↦ h

theorem trans {tree'' : Tree} (h : tree.Grows tree') (h' : tree'.Grows tree'') :
    tree.Grows tree'' :=
  fun address entry hentry ↦ h' address entry (h address entry hentry)

/-- Where nothing is, nothing was. -/
theorem get?_eq_none (h : tree.Grows tree') {address : Address}
    (hnone : tree'.get? address = none) : tree.get? address = none := by
  cases hold : tree.get? address with
  | none => rfl
  | some entry =>
    rw [h _ _ hold] at hnone
    cases hnone

theorem follow_eq (h : tree.Grows tree') {address reached : Address} {segments : List String}
    (hreached : tree.follow address segments = .ok reached) :
    tree'.follow address segments = .ok reached := by
  induction segments generalizing address with
  | nil => exact hreached
  | cons segment segments ih =>
    obtain ⟨hdirectory, next, hnext, hrest⟩ := follow_cons_eq_ok_iff.mp hreached
    exact follow_cons_eq_ok_iff.mpr ⟨h _ _ hdirectory, next, hnext, ih hrest⟩

theorem followPath_eq (h : tree.Grows tree') {segments : List String} {reached : Address}
    (hreached : tree.followPath segments = .ok reached) :
    tree'.followPath segments = .ok reached := by
  unfold followPath at hreached ⊢
  split at hreached <;> exact h.follow_eq hreached

theorem address_eq (h : tree.Grows tree') {path : Path} {reached : Address}
    (hreached : tree.address path = .ok reached) : tree'.address path = .ok reached := by
  obtain ⟨hchecked, hpath⟩ := address_eq_ok_iff.mp hreached
  exact address_eq_ok_iff.mpr ⟨hchecked, h.followPath_eq hpath⟩

theorem namesIn (h : tree.Grows tree') {path : Path} {before : List String} {directory : Address}
    {name : String} (hnames : tree.NamesIn path before directory name) :
    tree'.NamesIn path before directory name :=
  { hnames with
    followPath_eq := h.followPath_eq hnames.followPath_eq
    get?_eq := h _ _ hnames.get?_eq }

/-- What is there stays there. -/
theorem isPresent (h : tree.Grows tree') {path : Path} (hpresent : tree.isPresent path = true) :
    tree'.isPresent path = true := by
  obtain ⟨address, haddress, hsome⟩ := isPresent_iff.mp hpresent
  obtain ⟨entry, hentry⟩ := Option.ne_none_iff_exists'.mp hsome
  refine isPresent_iff.mpr ⟨address, h.address_eq haddress, ?_⟩
  rw [h address entry hentry]
  simp

end Grows

/-! ### Creating -/

theorem isOutside_eq_false_of_get?_eq_none {address : Address} (h : tree.get? address = none) :
    isOutside address = false := by
  by_contra houtside
  rw [get?_of_isOutside (by simpa using houtside)] at h
  cases h

theorem grows_put {address : Address} (h : tree.get? address = none) (entry : Entry) :
    tree.Grows (tree.put address entry) := by
  intro other old hold
  have hne : other ≠ address := by
    rintro rfl
    rw [h] at hold
    cases hold
  rw [get?_put (isOutside_eq_false_of_get?_eq_none h), if_neg hne, hold]

/-- A path under which a directory can be created: a name in a directory that is there, where
nothing is so far, with slashes after it. -/
structure Creatable (tree : Tree) (path : Path) (before : List String) (name : String)
    (slashes : List String) (directory : Address) : Prop where
  checked_eq : checked path = .ok path
  segments_eq : path.segments = before ++ [name] ++ slashes
  slashes_eq : ∀ segment ∈ slashes, segment = ""
  followPath_eq : tree.followPath before = .ok directory
  get?_eq : tree.get? directory = some .directory
  name_ne : name ≠ ""
  step_eq : step directory name = .ok (directory ++ [name])
  none : tree.get? (directory ++ [name]) = none

/-- A directory is created where nothing was. -/
theorem makeDirectory_eq_ok {path : Path} (h : tree.makeDirectory path = .ok tree') :
    ∃ before name slashes directory, tree.Creatable path before name slashes directory ∧
      tree' = tree.put (directory ++ [name]) .directory := by
  rw [makeDirectory, bind_eq_ok_iff] at h
  obtain ⟨path', hchecked, h⟩ := h
  obtain rfl := eq_of_checked hchecked
  rw [bind_eq_ok_iff] at h
  obtain ⟨target, htarget, h⟩ := h
  cases target with
  | present => cases h
  | name directory name =>
    obtain ⟨before, hwithout, hname, hbefore, hdirectory⟩ := exists_concat_of_target htarget
    obtain ⟨address, haddress, h⟩ := bind_eq_ok_iff.mp h
    unfold addressIn at haddress
    split_ifs at haddress with hlength
    obtain rfl := Except.ok.inj haddress
    have hstep : step directory name = .ok (directory ++ [name]) := by
      rw [step, if_neg (not_or.mpr ⟨hname.1, hname.2.1⟩), if_neg hname.2.2, if_neg hlength]
    obtain ⟨before', last, slashes, hwithout', -, hsegments, hslashes⟩ | hroot :=
      withoutEndSlashes_cases path'.segments
    · rw [hwithout] at hwithout'
      obtain ⟨rfl, hlast⟩ := List.append_inj' hwithout' rfl
      obtain rfl := List.head_eq_of_cons_eq hlast
      cases hentry : tree.get? (directory ++ [name]) with
      | some entry =>
        rw [hentry] at h
        cases h
      | none =>
        rw [hentry] at h
        exact ⟨before, name, slashes, directory, ⟨hchecked, hsegments, hslashes, hbefore,
          hdirectory, hname.1, hstep, hentry⟩, (tryPut_eq_ok_iff.mp h).2⟩
    · rw [hwithout] at hroot
      obtain ⟨rfl, hlast⟩ := List.append_inj' (hroot.trans (List.nil_append _).symm) rfl
      exact absurd (List.head_eq_of_cons_eq hlast) hname.1

theorem grows_makeDirectory {path : Path} (h : tree.makeDirectory path = .ok tree') :
    tree.Grows tree' := by
  obtain ⟨before, name, slashes, directory, hmade, rfl⟩ := makeDirectory_eq_ok h
  exact grows_put hmade.none .directory

/-- What holds between a tree and itself, and is kept by each directory that is created, holds
between a tree and what creating directories makes of it. -/
theorem makeAll_of_makeDirectory {R : Tree → Tree → Prop} (hrefl : ∀ tree, R tree tree)
    (htrans : ∀ tree between after, R tree between → R between after → R tree after)
    (hmake : ∀ tree path made, tree.makeDirectory path = .ok made → R tree made) (tree : Tree)
    (paths : List Path) : R tree (tree.makeAll paths).1 := by
  induction paths generalizing tree with
  | nil => exact hrefl tree
  | cons path above ih =>
    rw [makeAll]
    split
    · exact hrefl tree
    · split
      · rename_i made hmade
        exact hmake tree path made hmade
      · have hbelow := ih tree
        split
        · rename_i hall
          rwa [hall] at hbelow
        · rename_i between hall
          rw [hall] at hbelow
          split
          · rename_i made hmade
            exact htrans _ _ _ hbelow (hmake between path made hmade)
          · exact hbelow
      · exact hrefl tree

theorem makeParent_of_makeDirectory {R : Tree → Tree → Prop} (hrefl : ∀ tree, R tree tree)
    (htrans : ∀ tree between after, R tree between → R between after → R tree after)
    (hmake : ∀ tree path made, tree.makeDirectory path = .ok made → R tree made) (tree : Tree)
    (path : Path) : R tree (tree.makeParent path).1 := by
  unfold makeParent
  split
  · exact hrefl tree
  · split_ifs
    · exact hrefl tree
    · exact makeAll_of_makeDirectory hrefl htrans hmake tree _

/-- Creating directories does not change where the system refuses writing. -/
theorem refusals_makeParent (tree : Tree) (path : Path) :
    (tree.makeParent path).1.refusals = tree.refusals :=
  makeParent_of_makeDirectory (R := fun tree made ↦ made.refusals = tree.refusals) (fun _ ↦ rfl)
    (fun _ _ _ hbetween hafter ↦ hafter.trans hbetween)
    (fun _ _ _ hmade ↦ by
      obtain ⟨before, name, slashes, directory, -, rfl⟩ := makeDirectory_eq_ok hmade
      exact refusals_put _ _ _) tree path

theorem grows_makeParent (tree : Tree) (path : Path) : tree.Grows (tree.makeParent path).1 :=
  makeParent_of_makeDirectory .refl (fun _ _ _ ↦ .trans) (fun _ _ _ ↦ grows_makeDirectory) tree path

/-- A file is created where nothing was. -/
theorem createNew_eq_ok {path : Path} {content : Content}
    (h : tree.createNew path content = .ok tree') :
    ∃ address, tree.address path = .ok address ∧ tree.get? address = none ∧
      tree' = tree.put address (.file content) := by
  rw [createNew, bind_eq_ok_iff] at h
  obtain ⟨address, haddress, h⟩ := h
  cases hentry : tree.get? address with
  | some entry =>
    rw [hentry] at h
    cases h
  | none =>
    rw [hentry] at h
    exact ⟨address, address_of_fileAddress haddress, hentry, (tryPut_eq_ok_iff.mp h).2⟩

theorem grows_saveNew (tree : Tree) (path : Path) (text : String) :
    tree.Grows (tree.saveNew path text).1 := by
  have hparent := tree.grows_makeParent path
  unfold saveNew
  split
  · rename_i hmade
    rwa [hmade] at hparent
  · rename_i between hmade
    rw [hmade] at hparent
    split
    · rename_i written hwritten
      obtain ⟨address, -, hnone, rfl⟩ := createNew_eq_ok hwritten
      exact hparent.trans (grows_put hnone _)
    · exact hparent
    · exact hparent

@[simp]
theorem refusals_saveNew (tree : Tree) (path : Path) (text : String) :
    (tree.saveNew path text).1.refusals = tree.refusals := by
  have hparent := tree.refusals_makeParent path
  unfold saveNew
  split
  · rename_i hmade
    rwa [hmade] at hparent
  · rename_i between hmade
    rw [hmade] at hparent
    split
    · rename_i written hwritten
      obtain ⟨address, -, -, rfl⟩ := createNew_eq_ok hwritten
      exact (refusals_put _ _ _).trans hparent
    · exact hparent
    · exact hparent

/-- No file is created where something is. -/
theorem saveNew_ne_created {path : Path} (h : tree.isPresent path = true) (text : String) :
    (tree.saveNew path text).2 ≠ .created := by
  have hparent := tree.grows_makeParent path
  unfold saveNew
  split
  · simp
  · rename_i between hmade
    rw [hmade] at hparent
    split
    · rename_i written hwritten
      obtain ⟨address, haddress, hnone, -⟩ := createNew_eq_ok hwritten
      obtain ⟨address', haddress', hsome⟩ := isPresent_iff.mp (hparent.isPresent h)
      obtain rfl := Except.ok.inj (haddress.symm.trans haddress')
      exact absurd hnone hsome
    · simp
    · simp

/-! ### Sources in directories that are there -/

section Named

variable {path : Path} {before : List String} {directory : Address} {name : String}

theorem NamesIn.isPresent_iff (h : tree.NamesIn path before directory name) :
    tree.isPresent path = true ↔ tree.get? (directory ++ [name]) ≠ none := by
  rw [Tree.isPresent_iff, h.address_eq]
  simp

/-- In a directory that is there, a source is created exactly if it is not there and the system does
not refuse it. -/
theorem NamesIn.saveNew_eq (h : tree.NamesIn path before directory name) (text : String) :
    tree.saveNew path text =
      if tree.isPresent path then (tree, .present)
      else match tree.refusal? (directory ++ [name]) with
        | some refusal => (tree, .failed ⟨.createSource, path, .refused refusal⟩)
        | none => (tree.put (directory ++ [name]) (.file (.text text)), .created) := by
  rw [saveNew, h.makeParent_eq]
  simp only [createNew, h.fileAddress_eq, bind, Except.bind]
  cases hentry : tree.get? (directory ++ [name]) with
  | some entry => rw [if_pos (h.isPresent_iff.mpr (by simp [hentry]))]
  | none =>
    rw [if_neg (fun hpresent ↦ h.isPresent_iff.mp hpresent hentry)]
    cases hrefusal : tree.refusal? (directory ++ [name]) with
    | some refusal => simp only [tryPut_of_some hrefusal]
    | none => simp only [tryPut_of_none hrefusal]

end Named

end CalculatorCatalog.Files.Tree
