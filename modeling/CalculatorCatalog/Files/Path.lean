/-!
# Paths

A `Path` is the text by which a file is named. Names in it are divided by slashes; what it means is
given by its `components`, in which repeated slashes, a slash at the end and dots between names do
not count, while a leading dot and double dots do. Two paths are compared by their components, and
`Path.parent?` and `Path.below?` cut a path between components without touching the rest of its
text. `Path.join` works on the text alone and does not simplify anything.
-/

set_option autoImplicit false
set_option relaxedAutoImplicit false

namespace CalculatorCatalog

/-- A path as it is written. -/
structure Path where
  text : String
  deriving DecidableEq, Repr

/-- One step of a path. -/
inductive Path.Component where
  /-- The root of all files. -/
  | root
  /-- The directory itself. -/
  | here
  /-- The directory above. -/
  | up
  | name (name : String)
  deriving DecidableEq, Repr

namespace Path

/-! ### Components -/

/-- The texts between slashes. There is at least one, which may be empty. -/
def splitSlashes : List Char → List (List Char)
  | [] => [[]]
  | c :: text =>
    if c = '/' then [] :: splitSlashes text
    else match splitSlashes text with
      | [] => [[c]]
      | segment :: segments => (c :: segment) :: segments

/-- The segments of a path. -/
def segments (path : Path) : List String :=
  (splitSlashes path.text.toList).map String.ofList

/-- The component of a segment after the first. -/
def innerComponent (segment : String) : Option Component :=
  if segment = "" ∨ segment = "." then none
  else if segment = ".." then some .up
  else some (.name segment)

/-- The component of the first segment; `alone` tells that there is no other. An empty one before a
slash is the root. -/
def firstComponent (alone : Bool) (segment : String) : Option Component :=
  if segment = "" then (if alone then none else some .root)
  else if segment = "." then some .here
  else innerComponent segment

/-- The segments of a path, each with the component it stands for, if any. -/
def tagged (path : Path) : List (String × Option Component) :=
  match path.segments with
  | [] => []
  | first :: rest =>
    (first, firstComponent rest.isEmpty first)
      :: rest.map fun segment ↦ (segment, innerComponent segment)

/-- The components of a path. -/
def components (path : Path) : List Component :=
  path.tagged.filterMap (·.2)

/-- The path with the given segments. -/
def ofTagged (segments : List (String × Option Component)) : Path :=
  match segments with
  | [(_, some .root)] => ⟨"/"⟩
  | _ => ⟨"/".intercalate (segments.map (·.1))⟩

/-- Drops the segments at the beginning that stand for nothing. -/
def dropIdle (segments : List (String × Option Component)) : List (String × Option Component) :=
  segments.dropWhile (·.2.isNone)

/-- Drops the segments at the end that stand for nothing. -/
def dropIdleEnd (segments : List (String × Option Component)) :
    List (String × Option Component) :=
  (dropIdle segments.reverse).reverse

/-! ### Parts of a path -/

/-- The path without its last component. The root and the empty path have no parent. -/
def parent? (path : Path) : Option Path :=
  match dropIdle path.tagged.reverse with
  | [] => none
  | (_, some .root) :: _ => none
  | _ :: rest => some (ofTagged (dropIdle rest).reverse)

/-- The last component, if it is a name. -/
def fileName? (path : Path) : Option String :=
  match path.components.getLast? with
  | some (.name name) => some name
  | _ => none

/-- Drops the given number of components and what stands for nothing after them. -/
def dropComponents : Nat → List (String × Option Component) → List (String × Option Component)
  | 0, segments => segments
  | _ + 1, [] => []
  | count + 1, (_, some _) :: segments =>
    match count with
    | 0 => dropIdle segments
    | count + 1 => dropComponents (count + 1) segments
  | count + 1, (_, none) :: segments => dropComponents (count + 1) segments

/-- Whether a path begins with all components of another one. -/
def isBelow (path base : Path) : Bool :=
  base.components.isPrefixOf path.components

/-- What is left of a path after the components of another one, if it begins with them. -/
def below? (path base : Path) : Option Path :=
  if path.isBelow base then
    some (ofTagged (dropIdleEnd (dropComponents base.components.length path.tagged)))
  else none

/-- A path that follows another one. An absolute path stands alone; otherwise the two texts are
divided by one slash. -/
def join (base : Path) (relative : String) : Path :=
  if relative.toList.head? = some '/' then ⟨relative⟩
  else if base.text = "" ∨ base.text.toList.getLast? = some '/' then ⟨base.text ++ relative⟩
  else ⟨base.text ++ "/" ++ relative⟩

/-! ### Order -/

/-- The rank of a component among those of other kinds. -/
def Component.rank : Component → Nat
  | .root => 0
  | .here => 1
  | .up => 2
  | .name _ => 3

/-- The name that a component gives, if any. -/
def Component.text : Component → String
  | .name value => value
  | _ => ""

/-- Compares two components by kind, then by name in the order of bytes. -/
def Component.compare (first second : Component) : Ordering :=
  (Ord.compare first.rank second.rank).then (Ord.compare first.text second.text)

/-- Compares two lists of components; a list comes after each list that it begins with. -/
def compareComponents : List Component → List Component → Ordering
  | [], [] => .eq
  | [], _ :: _ => .lt
  | _ :: _, [] => .gt
  | first :: firsts, second :: seconds =>
    (first.compare second).then (compareComponents firsts seconds)

/-- Compares two paths component by component. -/
def compare (first second : Path) : Ordering :=
  compareComponents first.components second.components

/-- Sorts paths; those with the same components keep their order. -/
def sort (paths : List Path) : List Path :=
  paths.mergeSort fun first second ↦ first.compare second != .gt

end Path

end CalculatorCatalog
