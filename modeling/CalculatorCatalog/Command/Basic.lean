import CalculatorCatalog.Dictionary.Backfill
import CalculatorCatalog.Edit.Files
import CalculatorCatalog.Project

/-!
# Commands and their results

A `Command` is what the program is asked to do, a `Summary` what came of it, and a `Result` adds the
issues that were met. `Result.exitCode` tells success from work that is left to do. A command that
cannot proceed at all ends in a `RunError`.
-/

set_option autoImplicit false
set_option relaxedAutoImplicit false

namespace CalculatorCatalog

open CalculatorCatalog.Files

/-- What all commands may be told. -/
structure CommonOptions where
  project : ProjectOptions
  verbose : Bool
  deriving DecidableEq, Repr

/-- What the program is asked to do. -/
inductive Command where
  /-- Report on the definitions of a project, to the given file if it is not the configured one. -/
  | analyze (options : CommonOptions) (dryRun : Bool) (output : Option String)
  /-- Fill in missing label texts. -/
  | backfill (options : CommonOptions) (dryRun : Bool)
  /-- Generate sources. -/
  | generate (options : CommonOptions) (dryRun : Bool)
  /-- Give old categories their new names. -/
  | renameCategories (options : CommonOptions) (dryRun : Bool)
  /-- Remove the fields with a key, in the given files if there are any. -/
  | removeField (options : CommonOptions) (key : String) (files : List String) (dryRun : Bool)
  /-- Write a configuration file. -/
  | init (options : CommonOptions)
  deriving DecidableEq, Repr

/-- The options that all commands have. -/
def Command.options : Command → CommonOptions
  | .analyze options _ _ => options
  | .backfill options _ => options
  | .generate options _ => options
  | .renameCategories options _ => options
  | .removeField options _ _ _ => options
  | .init options => options

/-- What came of a command. -/
inductive Summary where
  /-- How many definitions there are, how many cite norms, how many keys are missing, and where the
  report was written, if it was. -/
  | analyzed (definitions withNorms missingKeys : Nat) (report : Option String)
  | backfilled (outcomes : List Outcome) (dictionary : String) (written dryRun : Bool)
  /-- The files that are new, and how many were there already or skipped. -/
  | generated (files : List String) (existing skipped : Nat) (dryRun : Bool)
  /-- The files that a rule changed, and how many it was applied to. -/
  | edited (rule : String) (changed : List (String × FileEdit)) (checked : Nat) (dryRun : Bool)
  | initialized (path : Path) (created : Bool)
  deriving DecidableEq, Repr

/-- What came of a command, and the issues that were met. -/
structure Result where
  summary : Summary
  issues : List Issue
  deriving DecidableEq, Repr

/-- A result whose issues are in order. -/
def Result.ofIssues (summary : Summary) (issues : List Issue) : Result :=
  ⟨summary, Issue.sort issues⟩

/-- Whether a dry run has found something that a real run would do. -/
def Summary.hasPending : Summary → Bool
  | .backfilled outcomes _ _ dryRun => dryRun && Dictionary.isChangedBy outcomes
  | .generated files _ _ dryRun => dryRun && !files.isEmpty
  | .edited _ changed _ dryRun => dryRun && !changed.isEmpty
  | .analyzed .. => false
  | .initialized .. => false

/-- Whether a command was asked for something that was there already. -/
def Summary.isRefusal : Summary → Bool
  | .initialized _ created => !created
  | _ => false

/-- The number of issues of a severity. -/
def Result.count (result : Result) (severity : Severity) : Nat :=
  result.issues.countP (·.severity = severity)

/-- Zero if there is nothing left to do, one otherwise. -/
def Result.exitCode (result : Result) : Nat :=
  if result.summary.isRefusal || result.count .error != 0 || result.summary.hasPending then 1
  else 0

/-- Why a command cannot proceed. -/
inductive RunError where
  | config (error : Config.LoadError)
  | dictionary (shown : String) (error : DictionaryError)
  | output (failure : Failure)
  deriving DecidableEq, Repr

/-- The error as it is reported, from what failed to why. -/
def RunError.chain : RunError → List String
  | .config error => error.chain
  | .dictionary shown error => ("Cannot use dictionary " ++ shown) :: error.chain
  | .output failure => failure.chain

/-- The error on one line. -/
def RunError.line (error : RunError) : String :=
  "Error: " ++ ": ".intercalate error.chain

end CalculatorCatalog
