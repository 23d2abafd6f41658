import CalculatorCatalog.Command.Basic

/-!
# Command line arguments

`Arguments.parse` reads the arguments of the program: a command and its options, or nothing, or what
is wrong with them (`UsageProblem`). Options are read from left to right. One that takes a value can
have it attached after an equals sign or as the next argument, provided that does not look like an
option itself; the value counts when the next thing is read. Two dashes end the options.
-/

set_option autoImplicit false
set_option relaxedAutoImplicit false

namespace CalculatorCatalog

/-- Why arguments give no command, or what is asked for in its place. -/
inductive UsageProblem where
  | displayHelp
  | displayVersion
  | invalidSubcommand
  | unknownArgument
  | invalidValue
  | argumentConflict
  | tooManyValues
  | missingRequiredArgument
  deriving DecidableEq, Repr

/-- Asking for help or for the version is no mistake. -/
def UsageProblem.exitCode : UsageProblem → Nat
  | .displayHelp => 0
  | .displayVersion => 0
  | _ => 2

/-- The names of the commands. -/
inductive CommandName where
  | analyze
  | backfill
  | generate
  | renameCategories
  | removeField
  | init
  deriving DecidableEq, Repr

/-- How a command is called on the command line. -/
def CommandName.text : CommandName → String
  | .analyze => "analyze"
  | .backfill => "translate"
  | .generate => "generate"
  | .renameCategories => "migrate-categories"
  | .removeField => "remove-field"
  | .init => "init"

/-- The command that is called by a name. -/
def CommandName.ofText? (text : String) : Option CommandName :=
  [CommandName.analyze, .backfill, .generate, .renameCategories, .removeField, .init].find?
    (·.text = text)

/-- An option that takes a value. -/
inductive ValueOption where
  | root
  | dictionary
  | modulesRoot
  | output
  | file
  deriving DecidableEq, Repr

/-- An option that takes no value. -/
inductive FlagOption where
  | verbose
  | dryRun
  | help
  deriving DecidableEq, Repr

/-- Any option. -/
inductive AnyOption where
  | value (option : ValueOption)
  | flag (option : FlagOption)
  deriving DecidableEq, Repr

namespace Arguments

/-- The option of a command that is called by a long name. -/
def longOption? (command : CommandName) (name : String) : Option AnyOption :=
  if name = "root" then some (.value .root)
  else if name = "dictionary" then some (.value .dictionary)
  else if name = "modules-root" then some (.value .modulesRoot)
  else if name = "verbose" then some (.flag .verbose)
  else if name = "help" then some (.flag .help)
  else if name = "dry-run" ∧ command ≠ .init then some (.flag .dryRun)
  else if name = "output" ∧ command = .analyze then some (.value .output)
  else if name = "file" ∧ command = .removeField then some (.value .file)
  else none

/-- The option that is called by a single letter. -/
def shortOption? (letter : Char) : Option FlagOption :=
  if letter = 'v' then some .verbose
  else if letter = 'h' then some .help
  else none

/-! ### Kinds of argument -/

/-- What an argument looks like. -/
inductive Shape where
  /-- Two dashes and nothing else. -/
  | endOfOptions
  /-- The long name of an option, with an attached value if there is one. -/
  | long (name : String) (value : Option String)
  /-- Single letters after a dash. -/
  | short (letters : List Char)
  /-- Anything else, a dash alone included. -/
  | plain
  deriving DecidableEq, Repr

/-- Divides a long option from the value that an equals sign attaches to it. -/
def longShape (text : List Char) : Shape :=
  let name := String.ofList (text.takeWhile (· != '='))
  match text.dropWhile (· != '=') with
  | [] => .long name none
  | _ :: value => .long name (some (String.ofList value))

/-- What an argument looks like. -/
def shape (argument : String) : Shape :=
  match argument.toList with
  | ['-', '-'] => .endOfOptions
  | '-' :: '-' :: text => longShape text
  | '-' :: letter :: letters => .short (letter :: letters)
  | _ => .plain

/-! ### Reading the arguments of a command -/

/-- What has been read of the arguments of a command. -/
structure Draft where
  root : Option String
  dictionary : Option String
  modulesRoot : Option String
  output : Option String
  files : List String
  verbose : Bool
  dryRun : Bool
  key : Option String
  /-- The last option that takes a value, with its value once there is one. -/
  pending : Option (ValueOption × Option String)
  /-- Whether the options have ended. -/
  ended : Bool
  deriving DecidableEq, Repr

/-- The draft before anything has been read. -/
def Draft.empty : Draft :=
  ⟨none, none, none, none, [], false, false, none, none, false⟩

/-- A value for an option that must have none yet, and that must not be empty. -/
def once (old : Option String) (value : String) : Except UsageProblem (Option String) :=
  if old.isSome then .error .argumentConflict
  else if value = "" then .error .invalidValue
  else .ok (some value)

namespace Draft

/-- Gives an option its value. Only files can be given more than once. -/
def setValue (draft : Draft) (option : ValueOption) (value : String) :
    Except UsageProblem Draft :=
  match option with
  | .root => do return { draft with root := ← once draft.root value }
  | .dictionary => do return { draft with dictionary := ← once draft.dictionary value }
  | .modulesRoot => do return { draft with modulesRoot := ← once draft.modulesRoot value }
  | .output => do return { draft with output := ← once draft.output value }
  | .file =>
    if value = "" then .error .invalidValue
    else .ok { draft with files := draft.files ++ [value] }

/-- Settles the option whose value has been waited for. -/
def settle (draft : Draft) : Except UsageProblem Draft :=
  match draft.pending with
  | none => .ok draft
  | some (_, none) => .error .invalidValue
  | some (option, some value) => setValue { draft with pending := none } option value

/-- Sets a flag, which must not be set yet. Asking for help ends everything. -/
def setFlag (draft : Draft) (option : FlagOption) : Except UsageProblem Draft := do
  let draft ← draft.settle
  match option with
  | .help => .error .displayHelp
  | .verbose =>
    if draft.verbose then .error .argumentConflict else return { draft with verbose := true }
  | .dryRun =>
    if draft.dryRun then .error .argumentConflict else return { draft with dryRun := true }

/-- Sets the flags of single letters. -/
def setFlags (draft : Draft) : List Char → Except UsageProblem Draft
  | [] => .ok draft
  | letter :: letters =>
    match shortOption? letter with
    | none => .error .unknownArgument
    | some option => do setFlags (← draft.setFlag option) letters

/-- Takes a long option. -/
def takeLong (draft : Draft) (command : CommandName) (name : String) (value : Option String) :
    Except UsageProblem Draft :=
  match longOption? command name, value with
  | none, _ => .error .unknownArgument
  | some (.flag _), some _ => .error .tooManyValues
  | some (.flag option), none => draft.setFlag option
  | some (.value option), some value => do (← draft.settle).setValue option value
  | some (.value option), none => do return { ← draft.settle with pending := some (option, none) }

/-- Takes an argument that belongs to no option: only the key of fields to remove is one. -/
def takePlain (draft : Draft) (command : CommandName) (argument : String) :
    Except UsageProblem Draft :=
  if command = .removeField ∧ draft.key = none then do
    return { ← draft.settle with key := some argument }
  else .error .unknownArgument

/-- Takes one argument. -/
def take (command : CommandName) (draft : Draft) (argument : String) :
    Except UsageProblem Draft :=
  if draft.ended then draft.takePlain command argument
  else match shape argument with
    | .endOfOptions => .ok { draft with ended := true }
    | .long name value => draft.takeLong command name value
    | .short letters => draft.setFlags letters
    | .plain =>
      match draft.pending with
      | some (option, none) => .ok { draft with pending := some (option, some argument) }
      | _ => draft.takePlain command argument

/-- The options that all commands have. -/
def common (draft : Draft) : CommonOptions :=
  ⟨⟨draft.root, draft.dictionary, draft.modulesRoot⟩, draft.verbose⟩

/-- The command with everything that has been read. -/
def command (draft : Draft) : CommandName → Except UsageProblem Command
  | .analyze => .ok (.analyze draft.common draft.dryRun draft.output)
  | .backfill => .ok (.backfill draft.common draft.dryRun)
  | .generate => .ok (.generate draft.common draft.dryRun)
  | .renameCategories => .ok (.renameCategories draft.common draft.dryRun)
  | .removeField =>
    match draft.key with
    | some key => .ok (.removeField draft.common key draft.files draft.dryRun)
    | none => .error .missingRequiredArgument
  | .init => .ok (.init draft.common)

end Draft

/-- Reads the arguments of a command. -/
def parseCommand (name : CommandName) (arguments : List String) :
    Except UsageProblem Command := do
  let draft ← arguments.foldlM (Draft.take name) .empty
  (← draft.settle).command name

/-! ### Reading all arguments -/

/-- The arguments of the help command name a command, and then nothing more. -/
def parseHelp (arguments : List String) : UsageProblem :=
  match arguments with
  | [] => .displayHelp
  | [name] =>
    if (CommandName.ofText? name).isSome ∨ name = "help" then .displayHelp else .invalidSubcommand
  | _ => .invalidSubcommand

/-- What an option before any command asks for. -/
def topLevelOption (isHelp isVersion attached : Bool) : UsageProblem :=
  if !isHelp && !isVersion then .unknownArgument
  else if attached then .tooManyValues
  else if isHelp then .displayHelp
  else .displayVersion

/-- What is wrong with arguments that begin with the end of the options. -/
def afterEnd (name : String) : UsageProblem :=
  if (CommandName.ofText? name).isSome ∨ name = "help" then .unknownArgument
  else .invalidSubcommand

/-- Reads the arguments of the program. There is no command if there are no arguments. -/
def parse (arguments : List String) : Except UsageProblem (Option Command) :=
  match arguments with
  | [] => .ok none
  | first :: rest =>
    match shape first with
    | .endOfOptions =>
      match rest with
      | [] => .ok none
      | name :: _ => .error (afterEnd name)
    | .long name value =>
      .error (topLevelOption (name = "help") (name = "version") value.isSome)
    | .short letters =>
      .error (topLevelOption (letters.head? = some 'h') (letters.head? = some 'V') false)
    | .plain =>
      if first = "help" then .error (parseHelp rest)
      else match CommandName.ofText? first with
        | some name => (parseCommand name rest).map some
        | none => .error .invalidSubcommand

/-- The lines that are shown when no command is given. -/
def helpLines : List String := [
  "Batch analysis, translation backfill and structural rewrites for calculator definitions",
  "",
  "Usage: calcmig [COMMAND]",
  "",
  "Commands:",
  "  analyze             Extract definitions and report missing translations and norm references",
  "  translate           Insert missing label keys into the dictionary",
  "  generate            Generate new calculator files from the extracted definitions",
  "  migrate-categories  Rename old category names in generated files",
  "  remove-field        Remove field blocks with the given key from generated files",
  "  init                Initialize a new .calcmigrc.json configuration file",
  "  help                Print this message or the help of the given subcommand(s)",
  "",
  "Options:",
  "  -h, --help     Print help",
  "  -V, --version  Print version"]

/-- What is shown when no command is given. -/
def helpText : String :=
  String.join (helpLines.map fun line ↦ line ++ "\n")

/-- What is shown when the version is asked for. -/
def versionText : String := "calcmig 0.1.0\n"

end Arguments

/-- What is shown when arguments give no command. -/
def UsageProblem.text : UsageProblem → String
  | .displayHelp => Arguments.helpText
  | .displayVersion => Arguments.versionText
  | .invalidSubcommand => "error: unrecognized command\n"
  | .unknownArgument => "error: unexpected argument\n"
  | .invalidValue => "error: an option has no value or an empty one\n"
  | .argumentConflict => "error: an option is given more than once\n"
  | .tooManyValues => "error: an option that takes no value is given one\n"
  | .missingRequiredArgument => "error: an argument is missing\n"

end CalculatorCatalog
