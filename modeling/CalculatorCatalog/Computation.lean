import CalculatorCatalog.Citation
import CalculatorCatalog.Files.Output
import CalculatorCatalog.Json.Value
import CalculatorCatalog.Naming
import CalculatorCatalog.Text.Utf8

/-!
# Units of computation

A definition names the unit that computes its results; the unit's file has that name in snake case.
`Computation.inspect` looks at the file: which building norms it cites and how large it is. A file
that does not exist is no failure.
-/

set_option autoImplicit false
set_option relaxedAutoImplicit false

namespace CalculatorCatalog

open CalculatorCatalog.Files

/-- What is known about the unit that computes the results of a definition. -/
inductive Computation where
  | missing
  /-- There is a file with these citations and this number of bytes. -/
  | found (citations : List String) (size : Nat)
  deriving DecidableEq, Repr

namespace Computation

/-- The file of a unit. -/
def path (root : Path) (name extension : String) : Path :=
  root.join (Naming.snakeCase name ++ extension)

/-- What the text of a unit shows. -/
def ofText (text : String) : Computation :=
  .found (Citation.citations text.toList) (Text.byteLength text.toList)

/-- Looks at the file of a unit. -/
def inspect (tree : Tree) (path : Path) : Except Failure Computation :=
  match tree.readText path with
  | .ok text => .ok (ofText text)
  | .error .notFound => .ok .missing
  | .error fault => .error ⟨.readComputation, path, fault⟩

/-- The norms that a unit cites. -/
def citations : Computation → List String
  | .missing => []
  | .found citations _ => citations

/-- Whether a unit cites any norms. -/
def hasCitations (computation : Computation) : Bool :=
  !computation.citations.isEmpty

/-- A unit as reports show it. -/
def toJson (computation : Computation) : Json :=
  .object ([
    ("exists", .bool (computation ≠ .missing)),
    ("hasNorms", .bool computation.hasCitations),
    ("norms", Json.ofStrings computation.citations)] ++
    match computation with
    | .missing => []
    | .found _ size => [("fileSize", .integer size)])

end Computation

end CalculatorCatalog
