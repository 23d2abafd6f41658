import CalculatorCatalog.Files.Tree

/-!
# Walks

`Tree.walk` lists everything that a path leads to: the file or directory itself and, for a
directory, all that lies below it. Each entry comes with the path that leads to it by way of the
path the walk began with. `moduleFiles` finds the files of a directory whose names end in a given
way.
-/

set_option autoImplicit false
set_option relaxedAutoImplicit false

namespace CalculatorCatalog.Files

namespace Tree

/-- The path of an entry that lies at the given names below a path. -/
def descend (path : Path) (names : List String) : Path :=
  names.foldl Path.join path

/-- Whether an address lies at or below another one. One that goes on with double dots or a slash
lies outside of the working directory, and not below it. -/
def isWithin (root address : Address) : Bool :=
  root.isPrefixOf address &&
    !(address.drop root.length).any fun name ↦ name == ".." || name == "/"

/-- The entries that a path leads to, each with its path. -/
def walk (tree : Tree) (path : Path) : Except Fault (List (Path × Entry)) := do
  let root ← tree.address path
  match tree.get? root with
  | none => .error .notFound
  | some (.file content) => return [(path, .file content)]
  | some .directory =>
    return (path, .directory) :: tree.entries.filterMap fun (address, entry) ↦
      if isWithin root address then some (descend path (address.drop root.length), entry)
      else none

/-- The paths of the regular files that a path leads to. -/
def walkFiles (tree : Tree) (path : Path) : Except Fault (List Path) :=
  (tree.walk path).map fun found ↦ found.filterMap fun
    | (path, .file _) => some path
    | (_, .directory) => none

end Tree

/-- A file that declares calculators, and the module it belongs to. -/
structure ModuleFile where
  module : String
  path : Path
  deriving DecidableEq, Repr

/-- A text without the given ending, if it has that ending and more before it. -/
def withoutEnding? (ending text : String) : Option String :=
  let kept := text.toList.take (text.toList.length - ending.toList.length)
  if kept.isEmpty then none
  else if kept ++ ending.toList = text.toList then some (String.ofList kept)
  else none

/-- The module that a file belongs to: its name without the ending. -/
def moduleFile? (ending : String) (path : Path) : Option ModuleFile := do
  let module ← withoutEnding? ending (path.fileName?.getD path.text)
  return ⟨module, path⟩

/-- The files below a directory whose names end in the given way, in the order of their paths, and
the number of places that could not be looked at. -/
def moduleFiles (tree : Tree) (root : Path) (ending : String) : List ModuleFile × Nat :=
  match tree.walkFiles root with
  | .error _ => ([], 1)
  | .ok paths => ((Path.sort paths).filterMap (moduleFile? ending), 0)

end CalculatorCatalog.Files
