import CalculatorCatalog.Config.Basic
import CalculatorCatalog.Definition.Basic
import CalculatorCatalog.Files.Path
import CalculatorCatalog.Naming

/-!
# Generated sources

For each definition a source file of the new kind can be generated: `Generator.render` gives its
path and text, or says why there is none. The file is named by the identifier of the definition,
so the identifier must be usable as a file name, and the definition must name the unit that computes
its results.
-/

set_option autoImplicit false
set_option relaxedAutoImplicit false

namespace CalculatorCatalog

open CalculatorCatalog.Text

/-- Why no source is generated for a definition. -/
inductive SkipReason where
  | noComputation
  /-- The identifier would not stay one file name below the output directory. -/
  | notPlainName
  deriving DecidableEq, Repr

/-- The reason in words. -/
def SkipReason.phrase : SkipReason → String
  | .noComputation => "no computation reference"
  | .notPlainName => "id is not a plain file name"

/-- A source to be written. -/
structure GeneratedFile where
  id : String
  path : Path
  content : String
  deriving DecidableEq, Repr

/-- How generated sources are named and where they go. -/
structure Generator where
  outputRoot : Path
  suffix : String
  /-- The ending of source files with its dot. -/
  extension : String
  categoryNamespace : String
  deriving DecidableEq, Repr

/-- Whether a text holds two dots in a row. -/
def hasDoubleDot : List Char → Bool
  | '.' :: '.' :: _ => true
  | _ :: text => hasDoubleDot text
  | [] => false

/-- Whether an identifier can be used as a file name: it is not empty, and it holds no slash, no
backslash and no double dot. -/
def isPlainName (id : String) : Bool :=
  id ≠ "" && !id.toList.contains '/' && !id.toList.contains '\\' && !hasDoubleDot id.toList

/-- The parts of a text between underscores. There is at least one, which may be empty. -/
def splitUnderscores : List Char → List (List Char)
  | [] => [[]]
  | c :: text =>
    if c = '_' then [] :: splitUnderscores text
    else match splitUnderscores text with
      | [] => [[c]]
      | part :: parts => (c :: part) :: parts

/-- A part of a name with its first character in upper case. -/
def capitalized : List Char → List Char
  | [] => []
  | first :: rest => uppercase first ++ rest

namespace Generator

/-- The generator of a configured project whose output directory is given. -/
def ofConfig (outputRoot : Path) (config : Config) : Generator where
  outputRoot := outputRoot
  suffix := config.generatedSuffix
  extension := config.dottedExtension
  categoryNamespace := config.categoryNamespace

/-- The name of the file for an identifier. -/
def fileName (generator : Generator) (id : String) : String :=
  id ++ generator.suffix ++ generator.extension

/-- The path of the file for an identifier. -/
def targetPath (generator : Generator) (id : String) : Path :=
  generator.outputRoot.join (generator.fileName id)

/-- The name of the variable for an identifier: the parts of the suffix are added in camel case. -/
def variableName (generator : Generator) (id : String) : String :=
  id ++ String.ofList ((splitUnderscores generator.suffix.toList).flatMap capitalized)

/-- The lines of the source for a definition of a module. -/
def lines (generator : Generator) (definition : Definition) (module computation : String) :
    List String :=
  let extension := generator.extension
  let computationFile := Naming.snakeCase computation
  let category := Vocabulary.categoryFor definition.category
  let subCategory := Vocabulary.subCategoryFor definition.subCategory module
  [ "import '../core/enums/calculator_category" ++ extension ++ "';",
    "import '../usecases/" ++ computationFile ++ extension ++ "';",
    "import 'calculator_constants" ++ extension ++ "';",
    "import 'models/calculator_definition_v2" ++ extension ++ "';",
    "import 'models/calculator_field" ++ extension ++ "';",
    "",
    "/// Calculator: " ++ definition.titleKey,
    "///",
    "/// Generated from module: " ++ module,
    "final " ++ generator.variableName definition.id ++ " = CalculatorDefinitionV2(",
    "  id: '" ++ definition.id ++ "',",
    "  titleKey: '" ++ definition.titleKey ++ "',",
    "  descriptionKey: '" ++ definition.titleKey ++ ".description',",
    "  category: " ++ generator.categoryNamespace ++ "." ++ category ++ ",",
    "  subCategory: '" ++ subCategory ++ "',",
    "  fields: [",
    "    // TODO: port the field declarations by hand",
    "  ],",
    "  useCase: " ++ computation ++ "(),",
    "  complexity: 2,",
    "  popularity: 10,",
    "  tags: ['" ++ definition.category ++ "', '" ++ definition.subCategory ++ "', '" ++ module
      ++ "'],",
    ");" ]

/-- The source for a definition of a module. An identifier that is no file name is reported before
a computation that is missing. -/
def render (generator : Generator) (definition : Definition) (module : String) :
    Except SkipReason GeneratedFile :=
  if !isPlainName definition.id then .error .notPlainName
  else match definition.computation with
    | none => .error .noComputation
    | some computation =>
      if computation = "" then .error .noComputation
      else .ok {
        id := definition.id
        path := generator.targetPath definition.id
        content := String.join
          ((generator.lines definition module computation).map fun line ↦ line ++ "\n") }

end Generator

end CalculatorCatalog
