import CalculatorCatalog.Proofs.Files.Growth
import CalculatorCatalog.Proofs.Files.Overwriting

/-!
# What the files hold

`Tree.file?` is the content of the file at an address. Directories can be created without any change
to the files (`addsDirectories_makeParent`). To save a text either comes to no more than that, if it
fails, or writes the file that the path leads to and no other one (`save_cases`); to create a source
does the same and never writes where something is (`saveNew_cases`).
-/

set_option autoImplicit false
set_option relaxedAutoImplicit false

namespace CalculatorCatalog.Files.Tree

variable {tree tree' : Tree} {path : Path}

/-- The content of the file at an address, if there is one. -/
def file? (tree : Tree) (address : Address) : Option Content :=
  match tree.get? address with
  | some (.file content) => some content
  | _ => none

theorem file?_eq_some_iff {address : Address} {content : Content} :
    tree.file? address = some content ↔ tree.get? address = some (.file content) := by
  unfold file?
  cases tree.get? address with
  | none => simp
  | some entry => cases entry <;> simp

theorem file?_put {address : Address} (h : isOutside address = false) (entry : Entry)
    (other : Address) :
    (tree.put address entry).file? other =
      if other = address then (match entry with
        | .file content => some content
        | .directory => none)
      else tree.file? other := by
  unfold file?
  rw [get?_put h]
  split_ifs
  · cases entry <;> rfl
  · rfl

theorem Grows.file?_eq (h : tree.Grows tree') {address : Address} {content : Content}
    (hfile : tree.file? address = some content) : tree'.file? address = some content :=
  file?_eq_some_iff.mpr (h _ _ (file?_eq_some_iff.mp hfile))

/-! ### Creating directories -/

/-- All that was there is there, and nothing but directories is new. -/
structure AddsDirectories (tree tree' : Tree) : Prop where
  grows : tree.Grows tree'
  file?_eq : ∀ address, tree'.file? address = tree.file? address

namespace AddsDirectories

theorem refl (tree : Tree) : tree.AddsDirectories tree :=
  ⟨.refl tree, fun _ ↦ rfl⟩

theorem trans {tree'' : Tree} (h : tree.AddsDirectories tree') (h' : tree'.AddsDirectories tree'') :
    tree.AddsDirectories tree'' :=
  ⟨h.grows.trans h'.grows, fun address ↦ (h'.file?_eq address).trans (h.file?_eq address)⟩

end AddsDirectories

theorem addsDirectories_makeDirectory (h : tree.makeDirectory path = .ok tree') :
    tree.AddsDirectories tree' := by
  refine ⟨grows_makeDirectory h, fun other ↦ ?_⟩
  obtain ⟨before, name, slashes, directory, hmade, rfl⟩ := makeDirectory_eq_ok h
  rw [file?_put (isOutside_eq_false_of_get?_eq_none hmade.none)]
  split_ifs with hsame
  · rw [hsame, file?, hmade.none]
  · rfl

theorem addsDirectories_makeParent (tree : Tree) (path : Path) :
    tree.AddsDirectories (tree.makeParent path).1 :=
  makeParent_of_makeDirectory .refl (fun _ _ _ ↦ .trans) (fun _ _ _ ↦ addsDirectories_makeDirectory)
    tree path

/-! ### Writing -/

/-- The content has been written to the file that the path leads to, and to no other one. -/
structure Wrote (tree tree' : Tree) (path : Path) (content : Content) (reached : Address) :
    Prop where
  address_eq : tree'.address path = .ok reached
  file?_eq : ∀ address,
    tree'.file? address = if address = reached then some content else tree.file? address

theorem AddsDirectories.wrote {between : Tree} {content : Content} {reached : Address}
    (h : tree.AddsDirectories between) (hwrote : between.Wrote tree' path content reached) :
    tree.Wrote tree' path content reached :=
  ⟨hwrote.address_eq, fun address ↦ by rw [hwrote.file?_eq, h.file?_eq]⟩

/-- What has been written is what is read there. -/
theorem Wrote.readText_eq {text : String} {reached : Address}
    (h : tree.Wrote tree' path (.text text) reached) : tree'.readText path = .ok text := by
  refine readText_eq_ok_iff.mpr ⟨reached, h.address_eq, file?_eq_some_iff.mp ?_⟩
  rw [h.file?_eq, if_pos rfl]

/-- A file is written where a file or nothing is. -/
theorem wrote_put {reached : Address} (haddress : tree.address path = .ok reached)
    (hentry : tree.get? reached ≠ some .directory) (content : Content) :
    tree.Wrote (tree.put reached (.file content)) path content reached := by
  cases hold : tree.get? reached with
  | none =>
    exact ⟨(grows_put hold _).address_eq haddress,
      file?_put (isOutside_eq_false_of_get?_eq_none hold) (.file content)⟩
  | some entry =>
    cases entry with
    | directory => exact absurd hold hentry
    | file old =>
      exact ⟨((sameShape_put hold content).address_eq path).symm.trans haddress,
        file?_put (isOutside_eq_false_of_get? hold) (.file content)⟩

theorem write_eq_ok {content : Content} (h : tree.write path content = .ok tree') :
    ∃ reached, tree.address path = .ok reached ∧ tree.get? reached ≠ some .directory ∧
      tree' = tree.put reached (.file content) := by
  rw [write, bind_eq_ok_iff] at h
  obtain ⟨reached, hreached, h⟩ := h
  refine ⟨reached, address_of_fileAddress hreached, ?_⟩
  split at h
  · cases h
  · rename_i hentry
    exact ⟨hentry, (tryPut_eq_ok_iff.mp h).2⟩

/-- To save a text either fails, and then no file has changed, or writes it under the path. -/
theorem save_cases (tree : Tree) (action : Action) (path : Path) (text : String) :
    (∃ after failure, tree.save action path text = (after, some failure) ∧
      tree.AddsDirectories after) ∨
    ∃ after reached, tree.save action path text = (after, none) ∧
      tree.Wrote after path (.text text) reached := by
  have hparent := tree.addsDirectories_makeParent path
  unfold save
  split
  · rename_i after failure hmade
    rw [hmade] at hparent
    exact .inl ⟨after, failure, rfl, hparent⟩
  · rename_i between hmade
    rw [hmade] at hparent
    split
    · rename_i after hwritten
      obtain ⟨reached, haddress, hentry, rfl⟩ := write_eq_ok hwritten
      exact .inr ⟨_, reached, rfl, hparent.wrote (wrote_put haddress hentry _)⟩
    · rename_i fault hfault
      exact .inl ⟨between, ⟨action, path, fault⟩, rfl, hparent⟩

/-- A text that has been saved is read back. -/
theorem readText_of_save {action : Action} {text : String}
    (h : tree.save action path text = (tree', none)) : tree'.readText path = .ok text := by
  obtain ⟨after, failure, hsave, -⟩ | ⟨after, reached, hsave, hwrote⟩ :=
    tree.save_cases action path text
  · rw [hsave] at h
    cases h
  · rw [hsave] at h
    cases h
    exact hwrote.readText_eq

/-- A source that is created is written where nothing was; otherwise no file changes. -/
theorem saveNew_cases (tree : Tree) (path : Path) (text : String) :
    (tree.saveNew path text).2 ≠ .created ∧ tree.AddsDirectories (tree.saveNew path text).1 ∨
    (tree.saveNew path text).2 = .created ∧
      ∃ reached, tree.Wrote (tree.saveNew path text).1 path (.text text) reached ∧
        tree.get? reached = none := by
  have hparent := tree.addsDirectories_makeParent path
  unfold saveNew
  split
  · rename_i after failure hmade
    rw [hmade] at hparent
    exact .inl ⟨by simp, hparent⟩
  · rename_i between hmade
    rw [hmade] at hparent
    split
    · rename_i after hwritten
      obtain ⟨reached, haddress, hnone, rfl⟩ := createNew_eq_ok hwritten
      exact .inr ⟨rfl, reached, hparent.wrote (wrote_put haddress (by simp [hnone]) _),
        hparent.grows.get?_eq_none hnone⟩
    · exact .inl ⟨by simp, hparent⟩
    · exact .inl ⟨by simp, hparent⟩

end CalculatorCatalog.Files.Tree
