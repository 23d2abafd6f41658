import CalculatorCatalog.Files.Pattern
import CalculatorCatalog.Files.Tree

/-!
# Searching for files by pattern

`Tree.search` lists the paths that a pattern with slashes describes. The pattern is taken component
by component from the working directory, or from the root if it begins with a slash. A component
without wildcards is followed as it is, if it is there; any other is compared with the names in a
directory, hidden ones included. `**` passes through any number of directories, none included; at
the end it stands for the directories themselves. A component that begins with a dot can also stand
for the directory itself and for the one above.
-/

set_option autoImplicit false
set_option relaxedAutoImplicit false

namespace CalculatorCatalog.Files.Tree

/-- Whether a path is a spelling of the working directory. -/
def isHere (path : Path) : Bool :=
  path.components == [.here]

/-- The path of a name in a directory; in the working directory it is the name alone. -/
def child (path : Path) (name : String) : Path :=
  if isHere path then ⟨name⟩ else path.join name

/-- The paths of the entries of a directory, in the order of their names. -/
def children (tree : Tree) (path : Path) : List Path :=
  match tree.address path with
  | .error _ => []
  | .ok address => (tree.names address).map (child path)

/-- What a found path gives, given the patterns that are left: the path itself if there are none,
and otherwise what `searchBelow` finds from there. -/
def reach (tree : Tree) (onlyDirectories : Bool) (searchBelow : List Pattern → Path → List Path)
    (rest : List Pattern) (path : Path) : List Path :=
  if rest.isEmpty then (if onlyDirectories && !tree.isDirectory path then [] else [path])
  else searchBelow rest path

/-- What an entry gives whose name is to be compared with the first of the patterns. -/
def compareName (tree : Tree) (onlyDirectories : Bool)
    (searchBelow : List Pattern → Path → List Path) (patterns : List Pattern) (path : Path) :
    List Path :=
  match patterns, path.fileName? with
  | pattern :: rest, some name =>
    if pattern.isMatch name.toList then reach tree onlyDirectories searchBelow rest path else []
  | _, _ => []

/-- What an entry of a directory gives. If any number of directories may be passed through, the
entry itself may be where that ends, and its own entries come after it. -/
def visit (tree : Tree) (onlyDirectories : Bool) (searchBelow : List Pattern → Path → List Path)
    (patterns : List Pattern) (path : Path) : List Path :=
  match patterns with
  | [] => []
  | pattern :: rest =>
    if pattern.isDirectories then
      let rest := rest.dropWhile Pattern.isDirectories
      let here := if rest.isEmpty then (if tree.isDirectory path then [path] else [])
        else compareName tree onlyDirectories searchBelow rest path
      here ++ (if tree.isDirectory path then searchBelow (pattern :: rest) path else [])
    else compareName tree onlyDirectories searchBelow patterns path

/-- The two names that stand for directories without being entries, in the order in which they are
tried. A pattern describes one of them only if it begins with a dot. -/
def specialNames (pattern : Pattern) : List String :=
  if pattern.head? = some (.character '.') then
    ["..", "."].filter fun name ↦ pattern.isMatch name.toList
  else []

/-- What the patterns describe from a path on. Each step takes away a pattern or goes one directory
deeper; `steps` bounds their number. -/
def searchFrom (tree : Tree) (onlyDirectories : Bool) : Nat → List Pattern → Path → List Path
  | 0, _, _ => []
  | _ + 1, [], _ => []
  | steps + 1, pattern :: rest, path =>
    let below := searchFrom tree onlyDirectories steps
    match Pattern.literal? pattern with
    | some name =>
      let next := child path name
      let found :=
        if name = "." ∨ name = ".." then tree.isDirectory path else tree.isPresent next
      if found then reach tree onlyDirectories below rest next else []
    | none =>
      if tree.isDirectory path then
        (specialNames pattern).flatMap (fun name ↦
          reach tree onlyDirectories below rest (path.join name)) ++
        (children tree path).flatMap (visit tree onlyDirectories below (pattern :: rest))
      else []

/-- The greatest number of names that lead to an entry. -/
def depth (tree : Tree) : Nat :=
  (tree.entries.map (·.1.length)).foldl max 0

/-- The patterns of the components of a pattern with slashes. A slash at the end does not begin a
component. -/
def componentPatterns (segments : List String) : Except PatternFault (List Pattern) :=
  let segments := if segments.getLast? = some "" then segments.dropLast else segments
  segments.mapM Pattern.parse

/-- The paths that a pattern with slashes describes. A wrong pattern describes none. -/
def search (tree : Tree) (pattern : Path) : List Path :=
  let absolute := pattern.text.toList.head? = some '/'
  let segments := if absolute then pattern.segments.drop 1 else pattern.segments
  match Pattern.parse pattern.text, componentPatterns segments with
  | .ok _, .ok patterns =>
    searchFrom tree (pattern.text.toList.getLast? = some '/')
      (patterns.length * (tree.depth + 2) + 1) patterns (if absolute then ⟨"/"⟩ else ⟨"."⟩)
  | _, _ => []

end CalculatorCatalog.Files.Tree
