import CalculatorCatalog.Files.Pattern
import CalculatorCatalog.Json.Printer
import CalculatorCatalog.Text.WhiteSpace

/-!
# Configuration

A `Config` says where the parts of a project are and how generated sources are named. Its settings
are listed by `Setting`: ten hold a text and two a list of texts. `Config.standard` holds what
applies to a setting that is not given, `Config.toJson` is the form in which a configuration is
written, and `Config.check` says what is wrong with one.
-/

set_option autoImplicit false
set_option relaxedAutoImplicit false

namespace CalculatorCatalog

open CalculatorCatalog.Text

/-- Where the parts of a project are, and how generated sources are named. -/
structure Config where
  /-- The directory of the modules that declare calculators. -/
  modulesRoot : String
  /-- How the names of those modules end. -/
  moduleFileSuffix : String
  /-- The directory of the units that compute results. -/
  computationsRoot : String
  /-- The directory of the generated sources. -/
  outputRoot : String
  dictionaryPath : String
  reportPath : String
  /-- The ending of source files, with or without its dot. -/
  fileExtension : String
  /-- What the names of generated sources add to an identifier. -/
  generatedSuffix : String
  /-- The enumeration whose members are the generated categories. -/
  categoryNamespace : String
  /-- The constructor of fields in generated sources. -/
  fieldConstructor : String
  /-- The generated sources to be edited. -/
  editIncludes : List String
  /-- The generated sources that are not to be edited. -/
  editIgnores : List String
  deriving DecidableEq, Repr

/-- A setting that holds a text. -/
inductive TextSetting where
  | modulesRoot
  | moduleFileSuffix
  | computationsRoot
  | outputRoot
  | dictionaryPath
  | reportPath
  | fileExtension
  | generatedSuffix
  | categoryNamespace
  | fieldConstructor
  deriving DecidableEq, Repr

/-- A setting that holds a list of texts. -/
inductive ListSetting where
  | editIncludes
  | editIgnores
  deriving DecidableEq, Repr

/-- A setting of the configuration. -/
inductive Setting where
  | text (setting : TextSetting)
  | list (setting : ListSetting)
  deriving DecidableEq, Repr

/-- The name of a setting in a configuration file. -/
def TextSetting.name : TextSetting → String
  | .modulesRoot => "modulesRoot"
  | .moduleFileSuffix => "moduleFileSuffix"
  | .computationsRoot => "computationsRoot"
  | .outputRoot => "outputRoot"
  | .dictionaryPath => "dictionaryPath"
  | .reportPath => "reportPath"
  | .fileExtension => "fileExtension"
  | .generatedSuffix => "generatedSuffix"
  | .categoryNamespace => "categoryNamespace"
  | .fieldConstructor => "fieldConstructor"

/-- The name of a setting in a configuration file. -/
def ListSetting.name : ListSetting → String
  | .editIncludes => "rewriteIncludes"
  | .editIgnores => "rewriteIgnores"

/-- The name of a setting in a configuration file. -/
def Setting.name : Setting → String
  | .text setting => setting.name
  | .list setting => setting.name

/-- All settings, in the order in which they are written. -/
def Setting.all : List Setting := [
  .text .modulesRoot, .text .moduleFileSuffix, .text .computationsRoot, .text .outputRoot,
  .text .dictionaryPath, .text .reportPath, .text .fileExtension, .text .generatedSuffix,
  .text .categoryNamespace, .text .fieldConstructor, .list .editIncludes, .list .editIgnores]

/-- The setting with a given name. -/
def Setting.named? (name : String) : Option Setting :=
  Setting.all.find? (·.name = name)

namespace Config

/-- The configuration that applies where nothing else is given. -/
def standard : Config where
  modulesRoot := "lib/domain/calculators/modules"
  moduleFileSuffix := "_calculators.dart"
  computationsRoot := "lib/domain/usecases"
  outputRoot := "lib/domain/calculators"
  dictionaryPath := "assets/lang/ru.json"
  reportPath := "migration_analysis.json"
  fileExtension := "dart"
  generatedSuffix := "_v2"
  categoryNamespace := "CalculatorCategory"
  fieldConstructor := "CalculatorField"
  editIncludes := ["lib/domain/calculators/*_v2.dart"]
  editIgnores := ["**/calculator_definition_v2.dart"]

/-- The text of a setting. -/
def text (config : Config) : TextSetting → String
  | .modulesRoot => config.modulesRoot
  | .moduleFileSuffix => config.moduleFileSuffix
  | .computationsRoot => config.computationsRoot
  | .outputRoot => config.outputRoot
  | .dictionaryPath => config.dictionaryPath
  | .reportPath => config.reportPath
  | .fileExtension => config.fileExtension
  | .generatedSuffix => config.generatedSuffix
  | .categoryNamespace => config.categoryNamespace
  | .fieldConstructor => config.fieldConstructor

/-- The list of a setting. -/
def list (config : Config) : ListSetting → List String
  | .editIncludes => config.editIncludes
  | .editIgnores => config.editIgnores

/-- Gives a setting a text. -/
def setText (config : Config) (value : String) : TextSetting → Config
  | .modulesRoot => { config with modulesRoot := value }
  | .moduleFileSuffix => { config with moduleFileSuffix := value }
  | .computationsRoot => { config with computationsRoot := value }
  | .outputRoot => { config with outputRoot := value }
  | .dictionaryPath => { config with dictionaryPath := value }
  | .reportPath => { config with reportPath := value }
  | .fileExtension => { config with fileExtension := value }
  | .generatedSuffix => { config with generatedSuffix := value }
  | .categoryNamespace => { config with categoryNamespace := value }
  | .fieldConstructor => { config with fieldConstructor := value }

/-- Gives a setting a list. -/
def setList (config : Config) (values : List String) : ListSetting → Config
  | .editIncludes => { config with editIncludes := values }
  | .editIgnores => { config with editIgnores := values }

/-- The value of a setting in JSON. -/
def settingJson (config : Config) : Setting → Json
  | .text setting => .string (config.text setting)
  | .list setting => Json.ofStrings (config.list setting)

/-- A configuration as it is written, with all its settings. -/
def toJson (config : Config) : Json :=
  .object (Setting.all.map fun setting ↦ (setting.name, config.settingJson setting))

/-- The ending of source files with its dot. -/
def dottedExtension (config : Config) : String :=
  "." ++ String.ofList (config.fileExtension.toList.dropWhile (· == '.'))

/-! ### What can be wrong -/

/-- What is wrong with a configuration. -/
inductive Flaw where
  /-- A pattern of a list is wrong. -/
  | pattern (setting : ListSetting) (text : String) (fault : Files.PatternFault)
  /-- A setting that must not be empty is. -/
  | empty (setting : TextSetting)
  deriving DecidableEq, Repr

/-- The flaw as it is reported: what is wrong, then why. -/
def Flaw.chain : Flaw → List String
  | .pattern setting text fault =>
    ["Invalid glob pattern in '" ++ setting.name ++ "': \x22" ++ text ++ "\x22", fault.message]
  | .empty setting => ["'" ++ setting.name ++ "' must not be empty"]

/-- The first wrong pattern of a list setting. -/
def patternFlaw? (config : Config) (setting : ListSetting) : Option Flaw :=
  (config.list setting).findSome? fun pattern ↦
    match Files.Pattern.parse pattern with
    | .ok _ => none
    | .error fault => some (.pattern setting pattern fault)

/-- The flaw of an empty setting; `isEmpty` says what counts as empty. -/
def emptyFlaw? (config : Config) (isEmpty : List Char → Bool) (setting : TextSetting) :
    Option Flaw :=
  if isEmpty (config.text setting).toList then some (.empty setting) else none

/-- The first flaw of a configuration. The two names that patterns are built from must not be
blank, the ending of module names must not be empty. -/
def check (config : Config) : Option Flaw :=
  config.patternFlaw? .editIncludes
    <|> config.patternFlaw? .editIgnores
    <|> config.emptyFlaw? isBlank .categoryNamespace
    <|> config.emptyFlaw? isBlank .fieldConstructor
    <|> config.emptyFlaw? List.isEmpty .moduleFileSuffix

end Config

end CalculatorCatalog
