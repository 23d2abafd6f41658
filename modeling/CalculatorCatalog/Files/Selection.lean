import CalculatorCatalog.Files.Search
import CalculatorCatalog.Files.Walk

/-!
# Selecting files

`select` resolves the patterns that say which files are meant: `includes` name files and
directories, by pattern or as they are, and `ignores` take files away again. A directory stands for
all files below it. The selected paths come in the order of their components, each once, together
with the number of places that could not be looked at.

An ignore with a wildcard is compared with the whole text of a path. One without is a path below the
base and takes away everything at or below it that is spelt the same way.
-/

set_option autoImplicit false
set_option relaxedAutoImplicit false

namespace CalculatorCatalog.Files

/-- The selected files, and the number of places that could not be looked at. -/
structure Selection where
  files : List Path
  skipped : Nat
  deriving DecidableEq, Repr

/-- Whether a path is taken away by an ignore. A wrong pattern takes nothing away. -/
def isIgnoredBy (base path : Path) (ignore : String) : Bool :=
  if Pattern.hasWildcard ignore then
    match Pattern.parse ignore with
    | .ok pattern => pattern.isMatch path.text.toList
    | .error _ => false
  else path.isBelow (base.join ignore)

/-- The paths that an inclusion names. -/
def includedPaths (tree : Tree) (base : Path) (inclusion : String) : List Path :=
  let path := base.join inclusion
  if Pattern.hasWildcard inclusion then tree.search path
  else if tree.isPresent path then [path]
  else []

/-- The first of each run of paths with the same components. -/
def withoutRepeats : List Path → List Path
  | [] => []
  | [path] => [path]
  | first :: second :: paths =>
    if first.compare second = .eq then
      match withoutRepeats (second :: paths) with
      | [] => [first]
      | _ :: rest => first :: rest
    else first :: withoutRepeats (second :: paths)

/-- The files that the includes name and the ignores do not take away. -/
def select (tree : Tree) (base : Path) (includes ignores : List String) : Selection :=
  let walks := (includes.flatMap (includedPaths tree base)).map tree.walkFiles
  let found := (walks.filterMap Except.toOption).flatten
  let kept := found.filter fun path ↦ !ignores.any (isIgnoredBy base path)
  ⟨withoutRepeats (Path.sort kept), walks.countP fun walked ↦ !walked.toOption.isSome⟩

end CalculatorCatalog.Files
