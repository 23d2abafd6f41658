import CalculatorCatalog.Files.Tree

/-!
# Reading and writing the files of a project

The file operations of the commands, with failures that say what was being done: a `Failure` names
the action, the path and the fault. `Tree.save` writes a text and creates the directories above it
first; `Tree.saveNew` does the same but leaves alone what is there already.
-/

set_option autoImplicit false
set_option relaxedAutoImplicit false

namespace CalculatorCatalog.Files

/-- What is being done with a file. -/
inductive Action where
  | createDirectory
  | readDictionary
  | writeDictionary
  | writeReport
  | createSource
  | readSource
  | writeSource
  | readComputation
  | writeConfig
  deriving DecidableEq, Repr

/-- How the report of a failed action begins; the path follows. -/
def Action.failurePhrase : Action → String
  | .createDirectory => "Failed to create directory: "
  | .readDictionary => "Failed to read dictionary: "
  | .writeDictionary => "Failed to write dictionary: "
  | .writeReport => "Failed to write report: "
  | .createSource => "Failed to create: "
  | .readSource => "Failed to read: "
  | .writeSource => "Failed to write: "
  | .readComputation => "Failed to read computation file: "
  | .writeConfig => "Failed to write "

/-- An action on a file that failed. -/
structure Failure where
  action : Action
  path : Path
  fault : Fault
  deriving DecidableEq, Repr

/-- The failure as it is reported: what failed, then why. -/
def Failure.chain (failure : Failure) : List String :=
  [failure.action.failurePhrase ++ failure.path.text, failure.fault.message]

/-- The failure on one line. -/
def Failure.line (failure : Failure) : String :=
  ": ".intercalate failure.chain

namespace Tree

/-- Creates the directory above a path, and those above it, as far as they are missing. -/
def makeParent (tree : Tree) (path : Path) : Tree × Option Failure :=
  match path.parent? with
  | none => (tree, none)
  | some parent =>
    if parent.text = "" then (tree, none)
    else
      let (tree, fault) := tree.makeDirectories parent
      (tree, fault.map fun fault ↦ ⟨.createDirectory, parent, fault⟩)

/-- Writes a text as a file, in directories that are created if need be. -/
def save (tree : Tree) (action : Action) (path : Path) (text : String) : Tree × Option Failure :=
  match tree.makeParent path with
  | (tree, some failure) => (tree, some failure)
  | (tree, none) =>
    match tree.writeText path text with
    | .ok written => (written, none)
    | .error fault => (tree, some ⟨action, path, fault⟩)

/-- What became of a file that was to be created. -/
inductive Creation where
  | created
  /-- There was something already, and it stays. -/
  | present
  | failed (failure : Failure)
  deriving DecidableEq, Repr

/-- Creates a source file unless something is there already, in directories that are created if need
be. -/
def saveNew (tree : Tree) (path : Path) (text : String) : Tree × Creation :=
  match tree.makeParent path with
  | (tree, some failure) => (tree, .failed failure)
  | (tree, none) =>
    match tree.createNew path (.text text) with
    | .ok written => (written, .created)
    | .error .alreadyExists => (tree, .present)
    | .error fault => (tree, .failed ⟨.createSource, path, fault⟩)

end Tree

end CalculatorCatalog.Files
