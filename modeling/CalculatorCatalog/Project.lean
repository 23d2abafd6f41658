import CalculatorCatalog.Config.Lookup
import CalculatorCatalog.Dictionary.Basic
import CalculatorCatalog.Files.Walk
import CalculatorCatalog.Issue

/-!
# Projects

A `Project` is a root directory with the configuration that applies to it. `Project.scan` reads the
modules of a project and extracts the definitions they declare; what cannot be read or used becomes
an issue of the `Scan`. `Project.loadDictionary` reads the dictionary, if there is one.
-/

set_option autoImplicit false
set_option relaxedAutoImplicit false

namespace CalculatorCatalog

open CalculatorCatalog.Files

/-- A root directory and the configuration that applies to it. -/
structure Project where
  root : Path
  config : Config
  deriving DecidableEq, Repr

/-- What a command may be told about the project it works on. -/
structure ProjectOptions where
  /-- The root directory, if it is not the working directory. -/
  root : Option String
  /-- The dictionary, if it is not the configured one. -/
  dictionary : Option String
  /-- The directory of the modules, if it is not the configured one. -/
  modulesRoot : Option String
  deriving DecidableEq, Repr

/-- A definition with the module that declares it and the text of the line it begins on. -/
structure ScannedDefinition where
  module : String
  definition : Definition
  sourceLine : String
  deriving DecidableEq, Repr

/-- The place of a definition with its line. -/
def ScannedDefinition.excerpt (scanned : ScannedDefinition) : Excerpt :=
  ⟨scanned.definition.location, scanned.sourceLine⟩

/-- What the modules of a project declare. -/
structure Scan where
  definitions : List ScannedDefinition
  dropped : List Dropped
  /-- What could not be read. -/
  unreadable : List Issue
  deriving DecidableEq, Repr

/-- The issues of a scan. -/
def Scan.issues (scan : Scan) : List Issue :=
  scan.unreadable ++ scan.dropped.map .droppedDeclaration

/-- The number of definitions that were dropped. -/
def Scan.failureCount (scan : Scan) : Nat :=
  scan.dropped.countP (·.kind = .definition)

/-- Joins what two lists of modules declare. -/
def Scan.append (first second : Scan) : Scan :=
  ⟨first.definitions ++ second.definitions, first.dropped ++ second.dropped,
    first.unreadable ++ second.unreadable⟩

namespace Project

/-- The root directory that options name. -/
def rootOf (options : ProjectOptions) : Path :=
  ⟨options.root.getD "."⟩

/-- The project that options name. -/
def ofOptions (tree : Tree) (options : ProjectOptions) : Except Config.LoadError Project := do
  let root := rootOf options
  let loaded ← Config.load tree root
  return ⟨root, { loaded.config with
    dictionaryPath := options.dictionary.getD loaded.config.dictionaryPath
    modulesRoot := options.modulesRoot.getD loaded.config.modulesRoot }⟩

/-! ### Paths -/

/-- A path below the root. -/
def resolve (project : Project) (path : String) : Path :=
  project.root.join path

/-- A path as it is shown: from the root if it lies below it. -/
def shown (project : Project) (path : Path) : String :=
  ((path.below? project.root).getD path).text

/-- The directory of the modules. -/
def modulesRoot (project : Project) : Path := project.resolve project.config.modulesRoot

/-- The dictionary. -/
def dictionaryPath (project : Project) : Path := project.resolve project.config.dictionaryPath

/-- The directory of the units that compute results. -/
def computationsRoot (project : Project) : Path := project.resolve project.config.computationsRoot

/-- The directory of the generated sources. -/
def outputRoot (project : Project) : Path := project.resolve project.config.outputRoot

/-- The analysis report. -/
def reportPath (project : Project) : Path := project.resolve project.config.reportPath

/-! ### Definitions -/

/-- What one module declares. -/
def scanModule (project : Project) (tree : Tree) (file : ModuleFile) : Scan :=
  let shown := project.shown file.path
  match tree.readText file.path with
  | .error fault => ⟨[], [], [.missingInput shown fault.message]⟩
  | .ok content =>
    let extraction := Definition.extract shown content
    let text := content.toList
    ⟨extraction.definitions.map fun definition ↦
        ⟨file.module, definition,
          String.ofList (Source.lineText text definition.location.line)⟩,
      extraction.dropped, []⟩

/-- What the modules of a project declare, in the order of the modules' paths. -/
def scan (project : Project) (tree : Tree) : Scan :=
  let root := project.modulesRoot
  if tree.isDirectory root then
    let (modules, _) := moduleFiles tree root project.config.moduleFileSuffix
    (modules.map (project.scanModule tree)).foldr Scan.append ⟨[], [], []⟩
  else
    ⟨[], [], [.missingInput (project.shown root) "modules directory does not exist"]⟩

/-! ### The dictionary -/

/-- The dictionary of a project; `none` if there is no such file. -/
def loadDictionary (project : Project) (tree : Tree) :
    Except DictionaryError (Option Dictionary) :=
  if tree.isPresent project.dictionaryPath then
    (Dictionary.load tree project.dictionaryPath).map some
  else .ok none

/-- The issue of a project without a dictionary. -/
def missingDictionary (project : Project) : Issue :=
  .missingInput (project.shown project.dictionaryPath) "dictionary file does not exist"

end Project

end CalculatorCatalog
