import CalculatorCatalog.Command.Basic
import CalculatorCatalog.Text.DisplayWidth

/-!
# What a command prints

`Console.render` gives the text that is printed for the result of a command: every issue with the
line it concerns and a mark under the place, a count of the issues, and what the command has done.
With colours, some words are put between escape sequences; without, the text is the same less the
sequences. On a dry run, or when asked for, single changes are listed.
-/

set_option autoImplicit false
set_option relaxedAutoImplicit false

namespace CalculatorCatalog.Console

open CalculatorCatalog.Naming

/-! ### Colours -/

/-- The end of coloured text. -/
def reset : List Char := '\x1b' :: "[0m".toList

/-- Begins a style again after every place at which the text ends one, given how many characters of
such an end are still to come. -/
def restyled (start : List Char) : Nat → List Char → List Char
  | _, [] => []
  | 0, c :: text =>
    if reset.isPrefixOf (c :: text) then c :: restyled start (reset.length - 1) text
    else c :: restyled start 0 text
  | 1, c :: text => c :: start ++ restyled start 0 text
  | left + 2, c :: text => c :: restyled start (left + 1) text

/-- A text in a style, which is given by its codes. -/
def painted (color : Bool) (codes text : String) : String :=
  if color then
    let start := '\x1b' :: '[' :: codes.toList ++ ['m']
    String.ofList (start ++ restyled start 0 text.toList ++ reset)
  else text

/-- The style of faults. -/
def red (color : Bool) (text : String) : String := painted color "31" text

/-- The style of what is done. -/
def green (color : Bool) (text : String) : String := painted color "32" text

/-- The style of warnings. -/
def yellow (color : Bool) (text : String) : String := painted color "33" text

/-- The style of the frame around source lines. -/
def blue (color : Bool) (text : String) : String := painted color "34" text

/-- The style of a verb for what was done. -/
def doneVerb (color : Bool) (text : String) : String := painted color "1;32" text

/-- The style of a verb for what would be done. -/
def pendingVerb (color : Bool) (text : String) : String := painted color "1;33" text

/-- The mark of success. -/
def successMark : String := "✓"

/-- The mark of failure. -/
def failureMark : String := "✘"

/-- Whether to colour what is printed. A request to force colours comes first, one to have none
second; otherwise a terminal gets colours unless they are turned off. Each of the three is on if it
is set to anything but `0`, and the second counts as soon as it is set. -/
def wantsColor (forced refused allowed : Option String) (isTerminal : Bool) : Bool :=
  if forced.any (· != "0") then true
  else if refused.isSome then false
  else allowed.all (· != "0") && isTerminal

/-! ### Issues -/

/-- So many spaces. -/
def spaces (count : Nat) : String :=
  String.ofList (List.replicate count ' ')

/-- A text at the right end of a column. -/
def alignRight (width : Nat) (text : String) : String :=
  spaces (width - text.length) ++ text

/-- The column of line numbers is as wide as the largest one. -/
def numberWidth (issues : List Issue) : Nat :=
  match (issues.filterMap fun issue ↦
      match issue.place with
      | .source excerpt => some excerpt.location.line
      | .file _ => none).max? with
  | some line => (toString line).length
  | none => 1

/-- The word for the severity of an issue. -/
def severityWord (color : Bool) : Severity → String
  | .error => painted color "1;31" Severity.error.word
  | .warning => painted color "1;33" Severity.warning.word

/-- The mark under a place. -/
def caret (color : Bool) : Severity → String
  | .error => red color "^"
  | .warning => yellow color "^"

/-- The lines that show a place: where it is, the source line, and a mark under it. -/
def placeLines (color : Bool) (width : Nat) (severity : Severity) : Issue.Place → List String
  | .file path => ["  " ++ blue color "-->" ++ " " ++ path]
  | .source excerpt =>
    let location := excerpt.location
    let before := excerpt.sourceLine.toList.take (location.column - 1)
    let bar := blue color "|"
    [ "  " ++ blue color "-->" ++ " " ++ location.file ++ ":" ++ toString location.line ++ ":"
        ++ toString location.column,
      spaces width ++ " " ++ bar,
      blue color (alignRight width (toString location.line)) ++ " " ++ bar ++ " "
        ++ excerpt.sourceLine,
      spaces width ++ " " ++ bar ++ " " ++ spaces (Text.displayWidth before)
        ++ caret color severity ]

/-- The first line of an issue: how serious it is, what it is about and the rule it breaks. -/
def headingLine (color : Bool) (severity : Severity) (message rule : String) : String :=
  severityWord color severity ++ ": \x22" ++ message ++ "\x22  " ++ painted color "2;36" rule

/-- The lines that show an issue, the last one empty. -/
def issueLines (color : Bool) (width : Nat) (issue : Issue) : List String :=
  let sign := spaces width ++ " " ++ blue color "="
  let heading := headingLine color issue.severity issue.message issue.rule
  let note := sign ++ " " ++ painted color "1" "note:" ++ " " ++ issue.details
  let hint := match issue.hint? with
    | some hint => [sign ++ " " ++ painted color "1;36" "hint:" ++ " " ++ hint]
    | none => []
  heading :: placeLines color width issue.severity issue.place ++ [note] ++ hint ++ [""]

/-- The line that counts issues. -/
def countLine (color : Bool) (issues : List Issue) : String :=
  let errors := issues.countP (·.severity = .error)
  let warnings := issues.length - errors
  red color failureMark ++ " " ++ toString issues.length ++ " problems (" ++ toString errors ++ " "
    ++ red color (plural errors "error" "errors") ++ ", " ++ toString warnings ++ " "
    ++ yellow color (plural warnings "warning" "warnings") ++ ")"

/-- The lines that show all issues and count them; none if there are no issues. -/
def issuesLines (color : Bool) (issues : List Issue) : List String :=
  if issues.isEmpty then []
  else issues.flatMap (issueLines color (numberWidth issues)) ++ [countLine color issues]

/-! ### Summaries -/

/-- A count with its noun. -/
def counted (count : Nat) (noun : String) : String :=
  toString count ++ " " ++ plural count noun (noun ++ "s")

/-- A line that says that all is well. -/
def successLine (color : Bool) (text : String) : String :=
  green color successMark ++ " " ++ green color text

/-- A line for a count, left out if it is zero. -/
def countItem (label : String) (count : Nat) : List String :=
  if count = 0 then [] else ["  - " ++ label ++ ": " ++ toString count]

/-- The lines for an analysis. -/
def analyzedLines (color : Bool) (definitions withNorms missingKeys : Nat)
    (report : Option String) : List String :=
  [ successLine color ("Analyzed " ++ counted definitions "definition" ++ " (" ++ toString withNorms
      ++ " with norms, " ++ counted missingKeys "missing key" ++ ")"),
    match report with
    | some path => doneVerb color "Wrote" ++ " " ++ path
    | none => pendingVerb color "Would write" ++ " analysis report" ]

/-- The line for a text that was entered. -/
def insertionLine? (color : Bool) : Outcome → Option String
  | .inserted key label source =>
    let origin := match source with
      | .curated => "(curated)"
      | .generated => "(generated)"
    some ("  " ++ green color "+" ++ " " ++ key ++ " = \x22" ++ label ++ "\x22 "
      ++ painted color "2" origin)
  | _ => none

/-- The lines for filling in label texts. -/
def backfilledLines (color verbose : Bool) (outcomes : List Outcome) (dictionary : String)
    (dryRun : Bool) : List String :=
  let inserted := outcomes.countP Outcome.isInserted
  if inserted = 0 then [successLine color ("No keys to insert into " ++ dictionary)]
  else
    (if verbose || dryRun then outcomes.filterMap (insertionLine? color) else [])
    ++ [ (if dryRun then pendingVerb color "Would insert" else doneVerb color "Inserted") ++ " "
          ++ counted inserted "key" ++ " into " ++ dictionary,
        "  - curated: " ++ toString (outcomes.countP (Outcome.isFrom .curated)),
        "  - generated: " ++ toString (outcomes.countP (Outcome.isFrom .generated)) ]
    ++ countItem "already present" (outcomes.countP Outcome.isPresent)
    ++ countItem "rejected" (outcomes.countP Outcome.isRejected)

/-- The lines for generating sources. -/
def generatedLines (color verbose : Bool) (files : List String) (existing skipped : Nat)
    (dryRun : Bool) : List String :=
  (if files.isEmpty then [successLine color "No new files to generate"]
    else
      (if verbose || dryRun then files.map fun file ↦ "  " ++ green color "+" ++ " " ++ file
        else [])
      ++ [ (if dryRun then pendingVerb color "Would create" else doneVerb color "Created") ++ " "
            ++ counted files.length "file" ])
  ++ countItem "already exist" existing
  ++ countItem "skipped" skipped

/-- The lines for one file that a rule has changed. -/
def editLines (color detailed : Bool) (edit : String × FileEdit) : List String :=
  ("  " ++ yellow color "~" ++ " " ++ edit.1
      ++ " (" ++ counted edit.2.changes.length "change" ++ ")")
    :: (if detailed then edit.2.changes.map fun change ↦ "      " ++ change.phrase else [])

/-- The lines for applying a rule to files. -/
def editedLines (color verbose : Bool) (rule : String) (changed : List (String × FileEdit))
    (checked : Nat) (dryRun : Bool) : List String :=
  if changed.isEmpty then
    [successLine color
      ("Checked " ++ counted checked "file" ++ " - nothing to change for " ++ rule)]
  else
    let changes := (changed.flatMap (·.2.changes)).length
    changed.flatMap (editLines color (verbose || dryRun))
    ++ [ (if dryRun then pendingVerb color "Would rewrite" else doneVerb color "Rewrote") ++ " "
          ++ counted changed.length "file" ++ " (" ++ counted changes "change" ++ ", " ++ rule
          ++ ")" ]

/-- The line for writing a configuration file. -/
def initializedLine (color : Bool) (path : Path) (created : Bool) : String :=
  if created then successLine color ("Created " ++ path.text)
  else red color failureMark ++ " " ++ path.text ++ " already exists"

/-- The lines for what a command has done. -/
def summaryLines (color verbose : Bool) : Summary → List String
  | .analyzed definitions withNorms missingKeys report =>
    analyzedLines color definitions withNorms missingKeys report
  | .backfilled outcomes dictionary _ dryRun =>
    backfilledLines color verbose outcomes dictionary dryRun
  | .generated files existing skipped dryRun =>
    generatedLines color verbose files existing skipped dryRun
  | .edited rule changed checked dryRun => editedLines color verbose rule changed checked dryRun
  | .initialized path created => [initializedLine color path created]

/-- The lines for the result of a command: the issues that were met, then what was done. -/
def lines (color verbose : Bool) (result : Result) : List String :=
  issuesLines color result.issues ++ summaryLines color verbose result.summary

/-- What is printed for the result of a command. -/
def render (color verbose : Bool) (result : Result) : String :=
  String.join ((lines color verbose result).map fun line ↦ line ++ "\n")

end CalculatorCatalog.Console
