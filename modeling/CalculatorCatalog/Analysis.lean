import CalculatorCatalog.Computation
import CalculatorCatalog.Dictionary.Missing

/-!
# The analysis report

An `Analysis` lists the definitions of a project with what is known about each: its module, the unit
that computes its results, its title, and the label keys without a text. `Analysis.toText` is the
form in which it is handed to other tools, with a summary that counts them.
-/

set_option autoImplicit false
set_option relaxedAutoImplicit false

namespace CalculatorCatalog

open CalculatorCatalog.Files

/-- What is known about one definition. -/
structure AnalyzedDefinition where
  definition : Definition
  module : String
  computation : Computation
  /-- The text of the title, if there is one. -/
  title : Option String
  /-- The label keys without a text. -/
  missing : List String
  deriving DecidableEq, Repr

/-- What is known about the definitions of a project. -/
structure Analysis where
  definitions : List AnalyzedDefinition
  /-- The number of declarations of definitions that could not be used. -/
  dropped : Nat
  deriving DecidableEq, Repr

/-- A definition as the report shows it: its own members, then what is known about it. -/
def AnalyzedDefinition.toJson (analyzed : AnalyzedDefinition) : Json :=
  .object (analyzed.definition.jsonMembers ++ [
    ("module", .string analyzed.module),
    ("computation", analyzed.computation.toJson),
    ("translations", .object [
      ("title", Json.ofOption analyzed.title),
      ("missing", Json.ofStrings analyzed.missing)])])

namespace Analysis

/-- The number of definitions. -/
def total (analysis : Analysis) : Nat :=
  analysis.definitions.length

/-- The number of definitions whose computation cites norms. -/
def withNorms (analysis : Analysis) : Nat :=
  analysis.definitions.countP (·.computation.hasCitations)

/-- The number of missing keys, over all definitions. -/
def missingKeys (analysis : Analysis) : Nat :=
  (analysis.definitions.flatMap (·.missing)).length

/-- The report as a value. -/
def toJson (analysis : Analysis) : Json :=
  .object [
    ("totalDefinitions", .integer analysis.total),
    ("definitions", .array (analysis.definitions.map AnalyzedDefinition.toJson)),
    ("summary", .object [
      ("totalDefinitions", .integer analysis.total),
      ("withNorms", .integer analysis.withNorms),
      ("withUnresolvedNorms", .integer (analysis.total - analysis.withNorms : Nat)),
      ("withUnresolvedTranslations",
        .integer (analysis.definitions.countP (!·.missing.isEmpty))),
      ("missingKeys", .integer analysis.missingKeys),
      ("droppedDeclarations", .integer analysis.dropped)])]

/-- The report as it is written. -/
def toText (analysis : Analysis) : String :=
  analysis.toJson.pretty ++ "\n"

/-- Writes the report to a file, in directories that are created if need be. -/
def save (analysis : Analysis) (tree : Tree) (path : Path) : Tree × Option Failure :=
  tree.save .writeReport path analysis.toText

end Analysis

end CalculatorCatalog
