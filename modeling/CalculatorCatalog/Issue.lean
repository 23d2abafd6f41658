import CalculatorCatalog.Definition.Extraction
import CalculatorCatalog.Generation

/-!
# Issues

Nothing that is wrong with a single definition or file stops a command; it becomes an `Issue`. An
issue knows everything that is shown of it: its severity, the rule it breaks, a message, sometimes a
detail and a hint, and the place it concerns. `Issue.compare` orders issues by place, then rule,
then message; other differences do not count, and `Issue.sort` keeps the order of issues that differ
in nothing else.
-/

set_option autoImplicit false
set_option relaxedAutoImplicit false

namespace CalculatorCatalog

/-- How serious an issue is. -/
inductive Severity where
  | error
  | warning
  deriving DecidableEq, Repr

/-- The severity in a word. -/
def Severity.word : Severity → String
  | .error => "error"
  | .warning => "warning"

/-- Something that is wrong with a definition or a file. -/
inductive Issue where
  /-- A definition refers to a label key without a text. -/
  | missingLabel (excerpt : Excerpt) (id key : String) (role : LabelRole)
  /-- A definition refers to a label key that is not a section and a short key. -/
  | malformedKey (excerpt : Excerpt) (id key : String) (role : LabelRole)
  /-- A declaration could not be used. -/
  | droppedDeclaration (dropped : Dropped)
  /-- No source was generated for a definition. -/
  | generationSkipped (excerpt : Excerpt) (id : String) (reason : SkipReason)
  /-- A file or directory is not there or cannot be read. -/
  | missingInput (path reason : String)
  /-- There is a file already where one was to be generated. -/
  | writeConflict (path id : String)
  /-- A generated source could not be written. -/
  | writeFailed (path id reason : String)
  /-- A section of the dictionary holds something that is no mapping. -/
  | sectionConflict (path key sectionName : String)
  deriving DecidableEq, Repr

/-- The place that an issue concerns. -/
inductive Issue.Place where
  | source (excerpt : Excerpt)
  | file (path : String)
  deriving DecidableEq, Repr

namespace Issue

/-- How serious an issue is. -/
def severity : Issue → Severity
  | .missingLabel .. => .error
  | .writeFailed .. => .error
  | _ => .warning

/-- The rule that an issue breaks. -/
def rule : Issue → String
  | .missingLabel .. => "missing-translation"
  | .malformedKey .. => "malformed-key"
  | .droppedDeclaration .. => "dropped-declaration"
  | .missingInput .. => "missing-input"
  | .writeConflict .. => "write-conflict"
  | .writeFailed .. => "write-failed"
  | .sectionConflict .. => "section-conflict"
  | .generationSkipped .. => "generation-skipped"

/-- The rank of the rule among all rules. -/
def ruleRank : Issue → Nat
  | .missingLabel .. => 0
  | .malformedKey .. => 1
  | .droppedDeclaration .. => 2
  | .missingInput .. => 3
  | .writeConflict .. => 4
  | .writeFailed .. => 5
  | .sectionConflict .. => 6
  | .generationSkipped .. => 7

/-- What an issue is about: a key, a path, an identifier or a reason. -/
def message : Issue → String
  | .missingLabel _ _ key _ => key
  | .malformedKey _ _ key _ => key
  | .droppedDeclaration dropped => dropped.reason.phrase
  | .generationSkipped _ id _ => id
  | .missingInput path _ => path
  | .writeConflict path _ => path
  | .writeFailed path _ _ => path
  | .sectionConflict _ key _ => key

/-- A name between single quotes. -/
def inQuotes (name : String) : String :=
  "'" ++ name ++ "'"

/-- What else there is to say. -/
def details : Issue → String
  | .missingLabel _ id _ role => role.phrase ++ " of " ++ inQuotes id
  | .malformedKey _ id _ role =>
    role.phrase ++ " of " ++ inQuotes id ++ " is not of the form `section.key`"
  | .droppedDeclaration dropped => dropped.kind.phrase ++ " skipped"
  | .generationSkipped _ _ reason => reason.phrase
  | .missingInput _ reason => reason
  | .writeConflict _ id => "already exists, " ++ inQuotes id ++ " not generated"
  | .writeFailed _ id reason => inQuotes id ++ " not generated: " ++ reason
  | .sectionConflict _ _ sectionName => "section " ++ inQuotes sectionName ++ " is not an object"

/-- How the issue can be settled. -/
def hint? : Issue → Option String
  | .missingLabel .. => some "run `calcmig translate` to backfill the dictionary"
  | _ => none

/-- The place that an issue concerns. -/
def place : Issue → Place
  | .missingLabel excerpt .. => .source excerpt
  | .malformedKey excerpt .. => .source excerpt
  | .droppedDeclaration dropped => .source dropped.excerpt
  | .generationSkipped excerpt .. => .source excerpt
  | .missingInput path _ => .file path
  | .writeConflict path _ => .file path
  | .writeFailed path _ _ => .file path
  | .sectionConflict path _ _ => .file path

/-! ### Order -/

/-- The file, line and column of a place; a file as a whole comes before its lines. -/
def Place.key : Place → String × Nat × Nat
  | .source excerpt => (excerpt.location.file, excerpt.location.line, excerpt.location.column)
  | .file path => (path, 0, 0)

/-- Compares two issues by file, line, column, rule and message. -/
def compare (first second : Issue) : Ordering :=
  let (firstFile, firstLine, firstColumn) := first.place.key
  let (secondFile, secondLine, secondColumn) := second.place.key
  (Ord.compare firstFile secondFile).then <|
    (Ord.compare firstLine secondLine).then <|
    (Ord.compare firstColumn secondColumn).then <|
    (Ord.compare first.ruleRank second.ruleRank).then <|
    Ord.compare first.message second.message

/-- Sorts issues; those that compare equal keep their order. -/
def sort (issues : List Issue) : List Issue :=
  issues.mergeSort fun first second ↦ first.compare second != .gt

end Issue

end CalculatorCatalog
