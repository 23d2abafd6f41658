import CalculatorCatalog.Config.Reader
import CalculatorCatalog.Files.Tree
import CalculatorCatalog.Text.Quoted

/-!
# Finding the configuration

The configuration of a directory is the file `.calcmigrc.json` in it or, if there is none, in the
nearest directory above it that has one; the search does not go beyond a directory that holds a
`.git`. Going up takes away the last component of the path. Where no file is found the standard
configuration applies (`Config.load`).
-/

set_option autoImplicit false
set_option relaxedAutoImplicit false

namespace CalculatorCatalog.Config

open CalculatorCatalog.Files CalculatorCatalog.Text

/-- The name of configuration files. -/
def fileName : String := ".calcmigrc.json"

/-- Looks for a configuration file in directories in the given order, up to one that is the top of
a repository. -/
def findIn (tree : Tree) : List Path → Option Path
  | [] => none
  | directory :: above =>
    if tree.isPresent (directory.join fileName) then some (directory.join fileName)
    else if tree.isPresent (directory.join ".git") then none
    else findIn tree above

/-- The configuration file that applies to a directory. -/
def find? (tree : Tree) (directory : Path) : Option Path :=
  findIn tree (Tree.ancestors directory.text.length directory)

/-- Why a configuration cannot be used. -/
inductive LoadError where
  | unreadable (path : Path) (fault : Files.Fault)
  | unparsable (path : Path) (fault : Json.Fault)
  | flawed (flaw : Flaw)
  deriving DecidableEq, Repr

/-- The error as it is reported, from what failed to why. -/
def LoadError.chain : LoadError → List String
  | .unreadable path fault =>
    ["Failed to read config file: " ++ quoted path.text, fault.message]
  | .unparsable path fault =>
    ["Failed to parse config file: " ++ quoted path.text, fault.message]
  | .flawed flaw => flaw.chain

/-- A configuration, and whether it comes from a file. -/
structure Loaded where
  config : Config
  fromFile : Bool
  deriving DecidableEq, Repr

/-- The configuration in a file. -/
def readFile (tree : Tree) (path : Path) : Except LoadError Config := do
  let text ← (tree.readText path).mapError (.unreadable path)
  let config ← (read text).mapError (.unparsable path)
  match config.check with
  | none => return config
  | some flaw => .error (.flawed flaw)

/-- The configuration that applies to a directory. -/
def load (tree : Tree) (directory : Path) : Except LoadError Loaded :=
  match find? tree directory with
  | none => .ok ⟨standard, false⟩
  | some path => (readFile tree path).map fun config ↦ ⟨config, true⟩

end CalculatorCatalog.Config
