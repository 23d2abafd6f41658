import CalculatorCatalog.Config.Lookup
import CalculatorCatalog.Files.Walk
import CalculatorCatalog.Proofs.Files.Addresses
import Mathlib.Data.List.Nodup

/-!
# Overwriting files

Where paths lead and what is there does not depend on what the files hold. `Tree.SameShape` relates
trees that differ in contents only, and `sameShape_put` says that overwriting a file gives such a
tree. The texts of all other files stay (`readText_put_of_ne`), and so does the list of the files
below a directory (`walkFiles_put`), because no address is that of two entries (`Tree.IsDistinct`,
which every operation keeps).
-/

set_option autoImplicit false
set_option relaxedAutoImplicit false

namespace CalculatorCatalog.Files.Tree

variable {tree tree' : Tree}

/-! ### Trees that differ in contents only -/

/-- The same addresses are those of directories, the same are those of nothing, and the same may not
be written. -/
structure SameShape (tree tree' : Tree) : Prop where
  directory_iff : ∀ address,
    tree.get? address = some .directory ↔ tree'.get? address = some .directory
  none_iff : ∀ address, tree.get? address = none ↔ tree'.get? address = none
  refusals_eq : tree.refusals = tree'.refusals

namespace SameShape

theorem refl (tree : Tree) : tree.SameShape tree :=
  ⟨fun _ ↦ Iff.rfl, fun _ ↦ Iff.rfl, rfl⟩

theorem symm (h : tree.SameShape tree') : tree'.SameShape tree :=
  ⟨fun address ↦ (h.directory_iff address).symm, fun address ↦ (h.none_iff address).symm,
    h.refusals_eq.symm⟩

theorem trans {tree'' : Tree} (h : tree.SameShape tree') (h' : tree'.SameShape tree'') :
    tree.SameShape tree'' :=
  ⟨fun address ↦ (h.directory_iff address).trans (h'.directory_iff address),
    fun address ↦ (h.none_iff address).trans (h'.none_iff address),
    h.refusals_eq.trans h'.refusals_eq⟩

/-- A file is where a file is. -/
theorem exists_file (h : tree.SameShape tree') {address : Address} {content : Content}
    (hfile : tree.get? address = some (.file content)) :
    ∃ content', tree'.get? address = some (.file content') := by
  cases hentry : tree'.get? address with
  | none =>
    rw [(h.none_iff address).mpr hentry] at hfile
    cases hfile
  | some entry =>
    cases entry with
    | file content' => exact ⟨content', rfl⟩
    | directory =>
      rw [(h.directory_iff address).mpr hentry] at hfile
      cases hfile

theorem follow_eq (h : tree.SameShape tree') (address : Address) (segments : List String) :
    tree.follow address segments = tree'.follow address segments := by
  induction segments generalizing address with
  | nil => rfl
  | cons segment segments ih =>
    rw [follow, follow]
    cases hentry : tree.get? address with
    | none => rw [(h.none_iff address).mp hentry]
    | some entry =>
      cases entry with
      | file content =>
        obtain ⟨content', hcontent'⟩ := h.exists_file hentry
        rw [hcontent']
      | directory =>
        rw [(h.directory_iff address).mp hentry]
        simp only [ih]

theorem address_eq (h : tree.SameShape tree') (path : Path) :
    tree.address path = tree'.address path := by
  have hpath : ∀ segments, tree.followPath segments = tree'.followPath segments := by
    intro segments
    unfold followPath
    split <;> exact h.follow_eq _ _
  simp only [address, hpath]

theorem isDirectory_eq (h : tree.SameShape tree') (path : Path) :
    tree.isDirectory path = tree'.isDirectory path := by
  rw [Bool.eq_iff_iff, isDirectory_iff, isDirectory_iff, h.address_eq path]
  simp only [h.directory_iff]

theorem isPresent_eq (h : tree.SameShape tree') (path : Path) :
    tree.isPresent path = tree'.isPresent path := by
  rw [Bool.eq_iff_iff, isPresent_iff, isPresent_iff, h.address_eq path]
  simp only [ne_eq, h.none_iff]

theorem refusal?_eq (h : tree.SameShape tree') (address : Address) :
    tree.refusal? address = tree'.refusal? address := by
  rw [refusal?, refusal?, h.refusals_eq]

theorem refusalAt?_eq (h : tree.SameShape tree') (path : Path) :
    tree.refusalAt? path = tree'.refusalAt? path := by
  rw [refusalAt?, refusalAt?, h.address_eq path]
  cases tree'.address path with
  | error fault => rfl
  | ok reached => exact h.refusal?_eq reached

end SameShape

/-! ### Overwriting one file -/

/-- Overwriting a file changes no more than its content. -/
theorem sameShape_put {reached : Address} {old : Content}
    (hfile : tree.get? reached = some (.file old)) (content : Content) :
    tree.SameShape (tree.put reached (.file content)) := by
  have hget : ∀ address, (tree.put reached (.file content)).get? address =
      if address = reached then some (.file content) else tree.get? address :=
    get?_put (isOutside_eq_false_of_get? hfile) (.file content)
  refine ⟨fun address ↦ ?_, fun address ↦ ?_, (refusals_put tree reached _).symm⟩
  all_goals
    rw [hget]
    split_ifs with hsame
    · rw [hsame, hfile]
      simp
    · rfl

theorem readText_put_self {path : Path} {reached : Address} {old : Content}
    (haddress : tree.address path = .ok reached) (hfile : tree.get? reached = some (.file old))
    (text : String) : (tree.put reached (.file (.text text))).readText path = .ok text := by
  refine readText_eq_ok_iff.mpr ⟨reached, ?_, ?_⟩
  · rw [← (sameShape_put hfile _).address_eq, haddress]
  · rw [get?_put (isOutside_eq_false_of_get? hfile), if_pos rfl]

/-- Other files are read as before. -/
theorem readText_put_of_ne {path : Path} {reached : Address} {old : Content}
    (haddress : tree.address path ≠ .ok reached) (hfile : tree.get? reached = some (.file old))
    (content : Content) :
    (tree.put reached (.file content)).readText path = tree.readText path := by
  have hentry : (tree.put reached (.file content)).entry path = tree.entry path := by
    rw [entry, entry, ← (sameShape_put hfile content).address_eq]
    cases hother : tree.address path with
    | error fault => rfl
    | ok other =>
      have hne : other ≠ reached := by
        rintro rfl
        exact haddress hother
      simp only [bind, Except.bind]
      rw [get?_put (isOutside_eq_false_of_get? hfile), if_neg hne]
  rw [readText, readText, read, read, hentry]

/-! ### Distinct addresses -/

/-- No address is that of two entries. -/
def IsDistinct (tree : Tree) : Prop :=
  (tree.entries.map (·.1)).Nodup

theorem isDistinct_empty : Tree.empty.IsDistinct :=
  List.nodup_nil

theorem isDistinct_put (h : tree.IsDistinct) (address : Address) (entry : Entry) :
    (tree.put address entry).IsDistinct := by
  unfold put IsDistinct
  split_ifs with hany
  · have hsame : (tree.entries.map fun old ↦
        if old.1 = address then (address, entry) else old).map (·.1) =
        tree.entries.map (·.1) := by
      rw [List.map_map]
      refine List.map_congr_left fun old _ ↦ ?_
      simp only [Function.comp_apply]
      split_ifs with hold
      · exact hold.symm
      · rfl
    rw [hsame]
    exact h
  · rw [List.map_append, List.map_singleton, ← List.concat_eq_append]
    refine List.Nodup.concat ?_ h
    intro hmem
    obtain ⟨old, hold, rfl⟩ := List.mem_map.mp hmem
    exact hany (List.any_eq_true.mpr ⟨old, hold, by simp⟩)

theorem isDistinct_remove (h : tree.IsDistinct) (address : Address) :
    (tree.remove address).IsDistinct :=
  h.sublist (List.filter_sublist.map _)

theorem mem_entries_of_get? {address : Address} {entry : Entry}
    (hget : tree.get? address = some entry) (hinside : isOutside address = false) :
    (address, entry) ∈ tree.entries := by
  rw [get?, if_neg (by simp [hinside])] at hget
  obtain ⟨before, after, hentries, -⟩ := List.lookup_eq_some_iff.mp hget
  rw [hentries]
  exact List.mem_append_right _ List.mem_cons_self

theorem eq_of_mem_entries (h : tree.IsDistinct) {address : Address} {entry entry' : Entry}
    (hget : tree.get? address = some entry) (hinside : isOutside address = false)
    (hmem : (address, entry') ∈ tree.entries) : entry' = entry :=
  congrArg Prod.snd (List.inj_on_of_nodup_map h hmem (mem_entries_of_get? hget hinside) rfl)

/-! ### Walks -/

/-- The path of the file that an entry below an address is, as a walk gives it. -/
def walkedFile? (path : Path) (root : Address) (entry : Address × Entry) : Option Path :=
  match entry.2 with
  | .file _ =>
    if isWithin root entry.1 then some (descend path (entry.1.drop root.length)) else none
  | .directory => none

/-- A walk over a directory gives the files below it. -/
theorem walkFiles_of_directory {path : Path} {root : Address}
    (haddress : tree.address path = .ok root) (hdirectory : tree.get? root = some .directory) :
    tree.walkFiles path = .ok (tree.entries.filterMap (walkedFile? path root)) := by
  simp only [walkFiles, walk, haddress, bind, Except.bind, hdirectory, pure, Except.pure,
    Except.map, List.filterMap_cons, List.filterMap_filterMap]
  congr 2
  funext entry
  obtain ⟨address, entry⟩ := entry
  cases entry <;> by_cases hbelow : isWithin root address <;> simp [walkedFile?, hbelow]

theorem walkFiles_of_file {path : Path} {root : Address} {content : Content}
    (haddress : tree.address path = .ok root) (hfile : tree.get? root = some (.file content)) :
    tree.walkFiles path = .ok [path] := by
  simp only [walkFiles, walk, haddress, bind, Except.bind, hfile, pure, Except.pure, Except.map]
  rfl

theorem walkFiles_of_none {path : Path} {root : Address}
    (haddress : tree.address path = .ok root) (hnone : tree.get? root = none) :
    tree.walkFiles path = .error .notFound := by
  simp only [walkFiles, walk, haddress, bind, Except.bind, hnone, Except.map]

/-- The only file below a directory is its only module if its name ends in the right way. -/
theorem moduleFiles_of_walkFiles {root path : Path} {ending : String} {file : ModuleFile}
    (hwalk : tree.walkFiles root = .ok [path]) (hfile : moduleFile? ending path = some file) :
    moduleFiles tree root ending = ([file], 0) := by
  rw [moduleFiles, hwalk]
  simp [Path.sort, hfile]

/-- Overwriting a file changes nothing in where files are found. -/
theorem walkFiles_put (hdistinct : tree.IsDistinct) {reached : Address} {old : Content}
    (hfile : tree.get? reached = some (.file old)) (content : Content) (path : Path) :
    (tree.put reached (.file content)).walkFiles path = tree.walkFiles path := by
  have hshape := sameShape_put hfile content
  have hinside := isOutside_eq_false_of_get? hfile
  cases haddress : tree.address path with
  | error fault =>
    have haddress' := (hshape.address_eq path).symm.trans haddress
    simp only [walkFiles, walk, haddress, haddress', bind, Except.bind]
  | ok root =>
    have haddress' := (hshape.address_eq path).symm.trans haddress
    cases hroot : tree.get? root with
    | none =>
      rw [walkFiles_of_none haddress hroot,
        walkFiles_of_none haddress' ((hshape.none_iff root).mp hroot)]
    | some entry =>
      cases entry with
      | file content =>
        obtain ⟨content', hroot'⟩ := hshape.exists_file hroot
        rw [walkFiles_of_file haddress hroot, walkFiles_of_file haddress' hroot']
      | directory =>
        rw [walkFiles_of_directory haddress hroot,
          walkFiles_of_directory haddress' ((hshape.directory_iff root).mp hroot)]
        congr 1
        unfold put
        split_ifs with hany
        · rw [List.filterMap_map]
          refine List.filterMap_congr fun entry hentry ↦ ?_
          obtain ⟨address, entry⟩ := entry
          simp only [Function.comp_apply]
          split_ifs with hsame
          · subst hsame
            rw [eq_of_mem_entries hdistinct hfile hinside hentry]
            rfl
          · rfl
        · refine absurd (List.any_eq_true.mpr ⟨_, mem_entries_of_get? hfile hinside, ?_⟩) hany
          simp

end CalculatorCatalog.Files.Tree
