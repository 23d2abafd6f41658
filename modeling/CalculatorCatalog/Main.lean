import CalculatorCatalog.Command.Arguments
import CalculatorCatalog.Command.Console
import CalculatorCatalog.Command.Run

/-!
# The program

`main` reads the files that a command may concern into a tree, runs the command on it, writes what
has changed back to the disk and prints the result. The files are those below the project's root,
those that the command or the configuration names outside of it, and the configuration files above.
-/

set_option autoImplicit false
set_option relaxedAutoImplicit false

namespace CalculatorCatalog.Program

open CalculatorCatalog.Files

/-! ### Places on the disk -/

/-- The text of the path that leads to an address. -/
def addressText (address : Address) : String :=
  if address.isEmpty then "." else "/".intercalate address

/-- The address that a path leads to if every directory on the way exists. -/
def addressOf (path : Path) : Address :=
  path.components.foldl
    (fun address component ↦
      match component with
      | .root => ["/"]
      | .here => address
      | .up => Tree.above address
      | .name name => address ++ [name])
    []

/-- Whether a path can lead out of the directory from which it is followed. -/
def leaves (path : Path) : Bool :=
  path.components.any fun component ↦ component = .root ∨ component = .up

/-- The paths that a project or a command on it names beyond the root of the project. -/
def namedOutside (project : Project) (command : Command) : List Path :=
  let config := project.config
  let named := match command with
    | .analyze _ _ (some output) => [output]
    | .removeField _ _ files _ => files
    | _ => []
  let all := named ++ [config.dictionaryPath, config.modulesRoot, config.computationsRoot,
    config.outputRoot, config.reportPath]
  (all.filter fun text ↦ leaves ⟨text⟩).map project.resolve

/-! ### Reading and writing -/

/-- The entry at an address, without what is below it. -/
def readEntry (address : Address) : IO (Option Entry) := do
  try
    let place := (← IO.currentDir) / addressText address
    if ← place.isDir then return some .directory
    else return some (.file (.ofBytes (← IO.FS.readBinFile place)))
  catch _ => return none

/-- Puts an entry into a tree. Directories that hold no entries of the tree are always there. -/
def enter (tree : Tree) (address : Address) (entry : Entry) : Tree :=
  if Tree.isOutside address then tree else tree.put address entry

/-- Why the system does not open a file for writing, if it does not. The file stays as it is. -/
def readRefusal (address : Address) : IO (Option Refusal) := do
  try
    let place := (← IO.currentDir) / addressText address
    let _ ← IO.FS.Handle.mk place .readWrite
    return none
  catch
    | .permissionDenied _ 30 _ => return some .readOnlySystem
    | .permissionDenied _ _ _ => return some .permissionDenied
    | .resourceExhausted _ _ _ => return some .noSpace
    | .hardwareFault _ _ => return some .inputOutput
    | _ => return none

/-- Puts a file into a tree, with the refusal of the system if it may not be written. -/
def enterFile (tree : Tree) (address : Address) (content : Content) : IO Tree := do
  let tree := enter tree address (.file content)
  match ← readRefusal address with
  | some refusal => return { tree with refusals := tree.refusals ++ [(address, refusal)] }
  | none => return tree

/-- Puts the entry at an address into a tree, and all entries below it. -/
partial def readBelow (tree : Tree) (address : Address) : IO Tree := do
  match ← readEntry address with
  | none => return tree
  | some (.file content) => enterFile tree address content
  | some .directory =>
    let entries ← try ((← IO.currentDir) / addressText address).readDir catch _ => pure #[]
    entries.foldlM (fun tree entry ↦ readBelow tree (address ++ [entry.fileName]))
      (enter tree address .directory)

/-- Puts an entry into a tree if there is one at the address. -/
def readOne (tree : Tree) (address : Address) : IO Tree := do
  match ← readEntry address with
  | none => return tree
  | some (.file content) => enterFile tree address content
  | some .directory => return enter tree address .directory

/-- Puts the directory at an address into a tree with what tells which configuration applies
there. -/
def readSettings (tree : Tree) (address : Address) : IO Tree := do
  let tree ← readOne tree address
  let tree ← readOne tree (address ++ [Config.fileName])
  readOne tree (address ++ [".git"])

/-- Puts what is at and below a path into a tree, with the directories above it. -/
def readAround (tree : Tree) (path : Path) : IO Tree := do
  let address := addressOf path
  let tree ← ((List.range address.length).map address.take).foldlM readSettings tree
  readBelow tree address

/-- The files that a command may concern. -/
def readTree (command : Command) : IO Tree := do
  let options := command.options.project
  let tree ← readAround .empty (Project.rootOf options)
  match Project.ofOptions tree options with
  | .error _ => return tree
  | .ok project => (namedOutside project command).foldlM readAround tree

/-- Writes an entry of a tree to the disk. -/
def writeEntry (address : Address) : Entry → IO Unit
  | .directory => IO.FS.createDirAll (addressText address)
  | .file content => IO.FS.writeBinFile (addressText address) content.toBytes

/-! ### Running -/

/-- Whether the program is to colour what it prints. -/
def askColor : IO Bool := do
  return Console.wantsColor (← IO.getEnv "CLICOLOR_FORCE") (← IO.getEnv "NO_COLOR")
    (← IO.getEnv "CLICOLOR") (← (← IO.getStdout).isTty)

/-- Carries out a command on the disk, and gives the exit code. -/
def execute (command : Command) : IO Nat := do
  let before ← readTree command
  let (after, outcome) := run before command
  for (address, entry) in after.changesSince before do
    writeEntry address entry
  match outcome with
  | .error error =>
    IO.eprintln error.line
    return 2
  | .ok result =>
    IO.print (Console.render (← askColor) command.options.verbose result)
    return result.exitCode

/-- What is shown when arguments give no command goes to the errors if it is a mistake. -/
def showProblem (problem : UsageProblem) : IO Nat := do
  if problem.exitCode = 0 then IO.print problem.text else IO.eprint problem.text
  return problem.exitCode

end CalculatorCatalog.Program

open CalculatorCatalog in
/-- Runs the program with the given arguments. -/
def main (arguments : List String) : IO UInt32 := do
  let code ← match Arguments.parse arguments with
    | .error problem => Program.showProblem problem
    | .ok none => do
      IO.print Arguments.helpText
      pure 0
    | .ok (some command) => Program.execute command
  return code.toUInt32
