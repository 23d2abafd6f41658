import CalculatorCatalog.Config.Lookup
import CalculatorCatalog.Proofs.Files.Ascending

/-!
# Where the configuration is searched

The search for a configuration looks into a directory and goes on with the parent of its path
(`find?_eq`). It is meant to go upward (`SearchesUpward`): what is found is the configuration of the
start or of a directory above it, and nothing nearer to the start holds a configuration or a `.git`.

The parent of a path is the directory above only if the last component is a name. A double dot is
taken away like a name, and then the search goes down into the directory that the double dot has
left. Still, two directories that the search looks into one after the other are next to each other,
so that it reaches a directory above the start only after all that are nearer (`Front`). So the
search goes upward exactly as long as what it finds is not beside or below the start
(`searchesUpward_iff`), and always if the start is written without double dots.
-/

set_option autoImplicit false
set_option relaxedAutoImplicit false

namespace CalculatorCatalog.Config

open CalculatorCatalog.Files CalculatorCatalog.Files.Tree CalculatorCatalog.Path
open CalculatorCatalog.Text

/-! ### The search as a loop -/

/-- One round of the search: a configuration ends it, and so does a `.git`; otherwise it goes on
with the parent, if there is one. -/
theorem find?_eq (tree : Tree) (directory : Path) :
    find? tree directory =
      if tree.isPresent (directory.join fileName) then some (directory.join fileName)
      else if tree.isPresent (directory.join ".git") then none
      else match directory.parent? with
        | none => none
        | some parent => find? tree parent := by
  rw [find?, ancestors_eq, findIn]
  cases directory.parent? with
  | none => simp only [findIn]
  | some parent => rfl

/-- The paths of the directories that the search may come to, in their order. -/
def searched (start : Path) : List Path :=
  ancestors start.text.length start

/-- Whether the search ends in a directory. -/
def endsSearch (tree : Tree) (directory : Path) : Bool :=
  tree.isPresent (directory.join fileName) || tree.isPresent (directory.join ".git")

/-- The first directory that ends the search decides. -/
theorem findIn_eq_bind (tree : Tree) (directories : List Path) :
    findIn tree directories = (directories.find? (endsSearch tree)).bind fun directory ↦
      if tree.isPresent (directory.join fileName) then some (directory.join fileName)
      else none := by
  induction directories with
  | nil => rfl
  | cons first directories ih =>
    rw [findIn, List.find?_cons, endsSearch]
    cases hconfig : tree.isPresent (first.join fileName) with
    | true => simp [hconfig]
    | false =>
      cases hgit : tree.isPresent (first.join ".git") with
      | true => simp [hconfig]
      | false => simpa using ih

/-- What is found is the configuration in the first directory that ends the search. -/
theorem findIn_eq_some_iff {tree : Tree} {directories : List Path} {found : Path} :
    findIn tree directories = some found ↔
      ∃ before directory after, directories = before ++ directory :: after ∧
        (∀ earlier ∈ before, endsSearch tree earlier = false) ∧
        tree.isPresent (directory.join fileName) = true ∧ directory.join fileName = found := by
  rw [findIn_eq_bind]
  simp only [Option.bind_eq_some_iff, List.find?_eq_some_iff_append, Option.ite_none_right_eq_some,
    Option.some.injEq, Bool.not_eq_eq_eq_not, Bool.not_true]
  constructor
  · rintro ⟨directory, ⟨-, before, after, hsplit, hbefore⟩, hpresent, hfound⟩
    exact ⟨before, directory, after, hsplit, hbefore, hpresent, hfound⟩
  · rintro ⟨before, directory, after, hsplit, hbefore, hpresent, hfound⟩
    exact ⟨directory, ⟨by rw [endsSearch, hpresent, Bool.true_or], before, after, hsplit, hbefore⟩,
      hpresent, hfound⟩

/-! ### Looking into a directory -/

/-- A directory that the search can look into: there, and with room in its path for the name of the
configuration. The empty path stands for the working directory. -/
structure IsOpen (tree : Tree) (directory : Path) : Prop where
  isDirectory : directory.text = "" ∨ tree.isDirectory directory = true
  length_lt : byteLength directory.text.toList + byteLength fileName.toList + 1 < maxPath

/-- The place of a directory that can be looked into is a directory. -/
theorem IsOpen.address_cases {tree : Tree} {directory : Path} (h : IsOpen tree directory) :
    directory.text = "" ∧ Program.addressOf directory = [] ∨
      tree.address directory = .ok (Program.addressOf directory) ∧
        tree.get? (Program.addressOf directory) = some .directory := by
  obtain hempty | hdirectory := h.isDirectory
  · obtain ⟨text⟩ := directory
    obtain rfl := hempty
    exact .inl ⟨rfl, rfl⟩
  · obtain ⟨reached, haddress, hentry⟩ := isDirectory_iff.mp hdirectory
    rw [addressOf_of_address haddress]
    exact .inr ⟨haddress, hentry⟩

/-- The names that the search looks for. -/
def searchedNames : List String := [fileName, ".git"]

/-- A name that the search looks for is looked up in the directory. -/
theorem IsOpen.exists_namesIn {tree : Tree} {directory : Path} (h : IsOpen tree directory)
    {name : String} (hname : name ∈ searchedNames) :
    ∃ before, tree.NamesIn (directory.join name) before (Program.addressOf directory) name := by
  obtain ⟨hisName, hnul, hshort, hlength⟩ : IsName name ∧ '\x00' ∉ name.toList ∧
      ¬maxName < byteLength name.toList ∧
      byteLength name.toList ≤ byteLength fileName.toList := by
    have hnames : ∀ name ∈ searchedNames, (name ≠ "" ∧ name ≠ "." ∧ name ≠ "..") ∧
        '/' ∉ name.toList ∧ '\x00' ∉ name.toList ∧ ¬maxName < byteLength name.toList ∧
        byteLength name.toList ≤ byteLength fileName.toList := by decide
    obtain ⟨hne, hslash, hrest⟩ := hnames name hname
    exact ⟨⟨hne, hslash⟩, hrest⟩
  have hroom := h.length_lt
  have hchecked : checked (directory.join name) = .ok (directory.join name) := by
    refine checked_join ?_ hisName hnul (by omega)
    obtain hempty | hdirectory := h.isDirectory
    · exact .inl hempty
    · obtain ⟨reached, haddress, -⟩ := isDirectory_iff.mp hdirectory
      exact .inr (address_eq_ok_iff.mp haddress).1
  exact exists_namesIn_join h.address_cases hisName hshort hchecked

/-- Above a directory that can be looked into is another one. -/
theorem IsOpen.parent? {tree : Tree} {directory parent : Path} (h : IsOpen tree directory)
    (hparent : directory.parent? = some parent) : IsOpen tree parent where
  isDirectory := by
    by_cases hempty : parent.text = ""
    · exact .inl hempty
    · refine .inr (isDirectory_parent hparent hempty (h.isDirectory.resolve_left ?_))
      intro hdirectory
      have hlt := length_text_parent?_lt hparent
      rw [hdirectory] at hlt
      exact Nat.not_lt_zero _ hlt
  length_lt := by
    obtain ⟨rest, hrest⟩ := text_parent?_isPrefix hparent
    have hroom := h.length_lt
    rw [← hrest, byteLength_append] at hroom
    omega

/-! ### Going upward -/

/-- A place that holds neither a configuration nor a `.git`. -/
def IsClear (tree : Tree) (address : Address) : Prop :=
  ∀ name ∈ searchedNames, tree.get? (address ++ [name]) = none

/-- The search goes upward from a directory: what is found is the configuration of the directory or
of one above it, and those that are nearer hold neither a configuration nor a `.git`. -/
def SearchesUpward (tree : Tree) (start : Path) (reached : Address) : Prop :=
  ∀ found, find? tree start = some found →
    ∃ count, tree.address found = .ok (above^[count] reached ++ [fileName]) ∧
      ∀ nearer < count, IsClear tree (above^[nearer] reached)

/-- What is known when the search has come to an address: all directories below the one that lies
the given number of levels above the start are clear, and the address is that of this directory, or
this one is clear as well and the address lies below it. -/
structure Front (tree : Tree) (start : Address) (count : Nat) (address : Address) : Prop where
  clear_lt : ∀ nearer < count, IsClear tree (above^[nearer] start)
  eq_or_below : address = above^[count] start ∨
    IsClear tree (above^[count] start) ∧ ∃ further, above^[further] address = above^[count] start

namespace Front

variable {tree : Tree} {start address next : Address} {count : Nat}

/-- A place that is clear lies at or below the front, and the front is clear. -/
theorem clear_and_below (h : Front tree start count address) (hclear : IsClear tree address) :
    IsClear tree (above^[count] start) ∧
      ∃ further, above^[further] address = above^[count] start := by
  obtain heq | hbelow := h.eq_or_below
  · exact ⟨heq ▸ hclear, 0, heq⟩
  · exact hbelow

/-- The search goes down. -/
theorem down (h : Front tree start count address) (hclear : IsClear tree address)
    (hnext : address = above next) : Front tree start count next := by
  obtain ⟨hfront, further, hfurther⟩ := h.clear_and_below hclear
  refine ⟨h.clear_lt, .inr ⟨hfront, further + 1, ?_⟩⟩
  rw [Function.iterate_succ_apply, ← hnext, hfurther]

/-- The search goes up. -/
theorem up (h : Front tree start count address) (hclear : IsClear tree address) :
    ∃ count', Front tree start count' (above address) := by
  obtain ⟨hfront, further, hfurther⟩ := h.clear_and_below hclear
  cases further with
  | zero =>
    refine ⟨count + 1, fun nearer hnearer ↦ ?_, .inl ?_⟩
    · obtain hlt | rfl := Nat.lt_succ_iff_lt_or_eq.mp hnearer
      · exact h.clear_lt nearer hlt
      · exact hfront
    · rw [Function.iterate_succ_apply', ← hfurther]
      rfl
  | succ further =>
    refine ⟨count, h.clear_lt, .inr ⟨hfront, further, ?_⟩⟩
    rw [← hfurther, Function.iterate_succ_apply]

/-- All directories nearer than one above the start that the search has come to are clear. -/
theorem exists_nearer_clear (h : Front tree start count address) {level : Nat}
    (hlevel : address = above^[level] start) :
    ∃ count', address = above^[count'] start ∧
      ∀ nearer < count', IsClear tree (above^[nearer] start) := by
  obtain heq | ⟨-, further, hfurther⟩ := h.eq_or_below
  · exact ⟨count, heq, h.clear_lt⟩
  · obtain hle | hlt := Nat.lt_or_ge count level |>.symm
    · exact ⟨level, hlevel, fun nearer hnearer ↦ h.clear_lt nearer (by omega)⟩
    · -- Going up from the front leads back to it, so it is the root.
      obtain ⟨more, rfl⟩ : ∃ more, level = more + 1 + count := ⟨level - count - 1, by omega⟩
      rw [Function.iterate_add_apply] at hlevel
      have hback : above^[further + more + 1] (above^[count] start) = above^[count] start := by
        rw [Nat.add_assoc, Function.iterate_add_apply, ← hlevel, hfurther]
      have hroot := above_eq_of_iterate hback
      refine ⟨count, ?_, h.clear_lt⟩
      rw [hlevel, Function.iterate_fixed hroot]

end Front

variable {tree : Tree} {start : Path} {home : Address}

/-- In a directory that can be looked into, the search ends unless it is clear. -/
theorem IsOpen.isClear_of_endsSearch {directory : Path} (h : IsOpen tree directory)
    (hends : endsSearch tree directory = false) : IsClear tree (Program.addressOf directory) := by
  intro name hname
  obtain ⟨before, hnames⟩ := h.exists_namesIn hname
  have habsent : ¬tree.isPresent (directory.join name) = true := by
    obtain ⟨hconfig, hgit⟩ := Bool.or_eq_false_iff.mp hends
    obtain rfl | rfl := List.mem_pair.mp hname
    · rw [hconfig]
      exact Bool.false_ne_true
    · rw [hgit]
      exact Bool.false_ne_true
  exact not_not.mp (mt hnames.isPresent_iff.mpr habsent)

/-- The front moves along with the search. -/
theorem exists_front {count level : Nat} {path : Path} (hopen : IsOpen tree path)
    (hfront : Front tree home level (Program.addressOf path)) {before after : List Path}
    {directory : Path} (hsplit : ancestors count path = before ++ directory :: after)
    (hbefore : ∀ earlier ∈ before, endsSearch tree earlier = false) :
    IsOpen tree directory ∧ ∃ level', Front tree home level' (Program.addressOf directory) := by
  have hlast : ∀ {only : Path} {before : List Path}, [only] = before ++ directory :: after →
      directory = only := by
    intro only before hsingle
    refine List.mem_singleton.mp ?_
    rw [hsingle]
    simp
  induction count generalizing path level before with
  | zero =>
    rw [hlast hsplit]
    exact ⟨hopen, level, hfront⟩
  | succ count ih =>
    rw [ancestors] at hsplit
    cases hparent : path.parent? with
    | none =>
      rw [hparent] at hsplit
      rw [hlast hsplit]
      exact ⟨hopen, level, hfront⟩
    | some parent =>
      rw [hparent] at hsplit
      cases before with
      | nil =>
        obtain ⟨rfl, -⟩ := List.cons.inj hsplit
        exact ⟨hopen, level, hfront⟩
      | cons earlier before =>
        obtain ⟨rfl, hrest⟩ := List.cons.inj hsplit
        rw [List.forall_mem_cons] at hbefore
        have hclear := hopen.isClear_of_endsSearch hbefore.1
        have hnext : ∃ level', Front tree home level' (Program.addressOf parent) := by
          obtain ⟨_, -, ⟨-, hdown⟩ | hsame | hup⟩ := addressOf_parent?_cases hparent
          · exact ⟨level, hfront.down hclear hdown⟩
          · exact ⟨level, hsame ▸ hfront⟩
          · exact hup ▸ hfront.up hclear
        obtain ⟨level', hfront'⟩ := hnext
        exact ih (hopen.parent? hparent) hfront' hrest hbefore.2

/-- Whether an address is that of a directory or of one above it. -/
def IsAtOrAbove (address home : Address) : Prop :=
  ∃ count, address = above^[count] home

/-- The search goes upward exactly if it finds nothing beside or below the start. -/
theorem searchesUpward_iff (haddress : tree.address start = .ok home)
    (hdirectory : tree.get? home = some .directory)
    (hroom : byteLength start.text.toList + byteLength fileName.toList + 1 < maxPath) :
    SearchesUpward tree start home ↔
      ∀ before directory after, searched start = before ++ directory :: after →
        (∀ earlier ∈ before, endsSearch tree earlier = false) →
        tree.isPresent (directory.join fileName) = true →
        IsAtOrAbove (Program.addressOf directory) home := by
  have hopen : IsOpen tree start := ⟨.inr (isDirectory_iff.mpr ⟨home, haddress, hdirectory⟩), hroom⟩
  have hhome := addressOf_of_address haddress
  have hfront : Front tree home 0 (Program.addressOf start) := ⟨by simp, .inl hhome⟩
  have hname : fileName ∈ searchedNames := List.mem_cons_self
  constructor
  · intro hupward before directory after hsplit hbefore hpresent
    obtain ⟨count, hfound, -⟩ := hupward _
      (findIn_eq_some_iff.mpr ⟨before, directory, after, hsplit, hbefore, hpresent, rfl⟩)
    obtain ⟨_, hnames⟩ := (exists_front hopen hfront hsplit hbefore).1.exists_namesIn hname
    rw [hnames.address_eq] at hfound
    exact ⟨count, (List.append_inj' (Except.ok.inj hfound) rfl).1⟩
  · intro habove found hfound
    obtain ⟨before, directory, after, hsplit, hbefore, hpresent, rfl⟩ :=
      findIn_eq_some_iff.mp hfound
    obtain ⟨hopen', level, hfront'⟩ := exists_front hopen hfront hsplit hbefore
    obtain ⟨count, hcount⟩ := habove before directory after hsplit hbefore hpresent
    obtain ⟨count', hcount', hclear⟩ := hfront'.exists_nearer_clear hcount
    obtain ⟨_, hnames⟩ := hopen'.exists_namesIn hname
    refine ⟨count', ?_, hclear⟩
    rw [hnames.address_eq, ← hcount']

/-- Without double dots, all paths above a path lead to it or above it. -/
theorem isAtOrAbove_of_mem_ancestors {count : Nat} {path directory : Path}
    (hups : Component.up ∉ path.components) (hmem : directory ∈ ancestors count path) :
    IsAtOrAbove (Program.addressOf directory) (Program.addressOf path) := by
  induction count generalizing path with
  | zero =>
    obtain rfl := List.mem_singleton.mp hmem
    exact ⟨0, rfl⟩
  | succ count ih =>
    rw [ancestors] at hmem
    cases hparent : path.parent? with
    | none =>
      rw [hparent] at hmem
      obtain rfl := List.mem_singleton.mp hmem
      exact ⟨0, rfl⟩
    | some parent =>
      rw [hparent] at hmem
      obtain rfl | hmem := List.mem_cons.mp hmem
      · exact ⟨0, rfl⟩
      · obtain ⟨component, hcomponents, hcases⟩ := addressOf_parent?_cases hparent
        rw [hcomponents, List.mem_append, not_or, List.mem_singleton] at hups
        obtain ⟨further, hfurther⟩ := ih hups.1 hmem
        obtain ⟨hup, -⟩ | hsame | habove := hcases
        · exact absurd hup.symm hups.2
        · exact ⟨further, by rw [hfurther, hsame]⟩
        · exact ⟨further + 1, by rw [hfurther, habove, Function.iterate_succ_apply]⟩

/-- The search is a loop that comes to an end. From a directory whose path has room for the name of
the configuration it goes upward exactly if it finds nothing beside or below this directory, and
always if the path has no double dots. -/
theorem searchesUpward_exact (haddress : tree.address start = .ok home)
    (hdirectory : tree.get? home = some .directory)
    (hroom : byteLength start.text.toList + byteLength fileName.toList + 1 < maxPath) :
    (∀ directory, find? tree directory =
      if tree.isPresent (directory.join fileName) then some (directory.join fileName)
      else if tree.isPresent (directory.join ".git") then none
      else match directory.parent? with
        | none => none
        | some parent => find? tree parent) ∧
    (SearchesUpward tree start home ↔
      ∀ before directory after, searched start = before ++ directory :: after →
        (∀ earlier ∈ before, endsSearch tree earlier = false) →
        tree.isPresent (directory.join fileName) = true →
        IsAtOrAbove (Program.addressOf directory) home) ∧
    (Component.up ∉ start.components → SearchesUpward tree start home) := by
  have hiff := searchesUpward_iff haddress hdirectory hroom
  refine ⟨find?_eq tree, hiff, fun hups ↦ hiff.mpr fun before directory after hsplit _ _ ↦ ?_⟩
  have hmem : directory ∈ searched start := by
    rw [hsplit]
    simp
  rw [← addressOf_of_address haddress]
  exact isAtOrAbove_of_mem_ancestors hups hmem

/-- A tree with a configuration in a directory, and a directory below it. -/
def deepTree : Tree := ⟨[
  (["a"], .directory),
  (["a", ".calcmigrc.json"], .file (.text "\x7b\x7d")),
  (["a", "b"], .directory)], []⟩

/-- From the directory below, the configuration above is found. -/
theorem searchesUpward_exact_deepTree :
    deepTree.address ⟨"a/b"⟩ = .ok ["a", "b"] ∧ deepTree.get? ["a", "b"] = some .directory ∧
      byteLength "a/b".toList + byteLength fileName.toList + 1 < maxPath ∧
      Component.up ∉ (Path.mk "a/b").components ∧
      find? deepTree ⟨"a/b"⟩ = some ⟨"a/.calcmigrc.json"⟩ ∧
      SearchesUpward deepTree ⟨"a/b"⟩ ["a", "b"] := by
  have haddress : deepTree.address ⟨"a/b"⟩ = .ok ["a", "b"] := by decide +kernel
  have hdirectory : deepTree.get? ["a", "b"] = some .directory := by decide +kernel
  have hroom : byteLength "a/b".toList + byteLength fileName.toList + 1 < maxPath := by
    decide +kernel
  have hups : Component.up ∉ (Path.mk "a/b").components := by decide +kernel
  exact ⟨haddress, hdirectory, hroom, hups, by decide +kernel,
    (searchesUpward_exact haddress hdirectory hroom).2.2 hups⟩

/-- From a directory that is written as the one above another, the configuration of the other one is
found, which lies below. -/
theorem not_searchesUpward_deepTree :
    deepTree.address ⟨"a/.."⟩ = .ok [] ∧ deepTree.get? [] = some .directory ∧
      find? deepTree ⟨"a/.."⟩ = some ⟨"a/.calcmigrc.json"⟩ ∧
      ¬SearchesUpward deepTree ⟨"a/.."⟩ [] := by
  have hfound : find? deepTree ⟨"a/.."⟩ = some ⟨"a/.calcmigrc.json"⟩ := by decide +kernel
  refine ⟨by decide +kernel, rfl, hfound, fun hupward ↦ ?_⟩
  obtain ⟨count, haddress, -⟩ := hupward _ hfound
  have hplace : deepTree.address ⟨"a/.calcmigrc.json"⟩ = .ok (["a"] ++ [fileName]) := by
    decide +kernel
  rw [hplace] at haddress
  have hlevel := level_iterate_above_le count []
  rw [← (List.append_inj' (Except.ok.inj haddress) rfl).1] at hlevel
  exact absurd hlevel (by decide)

end CalculatorCatalog.Config
