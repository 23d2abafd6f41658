import CalculatorCatalog.Config.Basic
import CalculatorCatalog.Json.Token

/-!
# Reading configurations

A configuration is read token by token from a JSON text: an object whose members give settings by
name, in any order, or an array that gives them in the order of `Setting.all`. Settings that are not
given keep their standard values. Members of other names are passed over (`Skipping`); they must be
JSON, but neither the size of their numbers nor their nesting is limited. A setting that is given
twice, or a value of the wrong shape, is a fault at the place where it is read, whatever comes
later.
-/

set_option autoImplicit false
set_option relaxedAutoImplicit false

namespace CalculatorCatalog.Config

open CalculatorCatalog.Json (Token Fault)

/-! ### Passing over a value -/

/-- An array or object that is still open in a value that is passed over. -/
inductive Enclosure where
  | array
  | object
  deriving DecidableEq, Repr

/-- What may come next in a value that is passed over, with the open arrays and objects, innermost
first. -/
inductive Skipping where
  | atValue (enclosures : List Enclosure)
  | atFirstItem (enclosures : List Enclosure)
  | afterItem (enclosures : List Enclosure)
  | atFirstMember (enclosures : List Enclosure)
  | atName (enclosures : List Enclosure)
  | atColon (enclosures : List Enclosure)
  | afterMember (enclosures : List Enclosure)
  | done
  deriving DecidableEq, Repr

namespace Skipping

/-- Goes on after a value. -/
def complete : List Enclosure → Skipping
  | [] => .done
  | .array :: enclosures => .afterItem enclosures
  | .object :: enclosures => .afterMember enclosures

/-- Takes a token where a value is expected. -/
def beginValue (enclosures : List Enclosure) : Token → Except Fault Skipping
  | .openArray => .ok (.atFirstItem enclosures)
  | .openObject => .ok (.atFirstMember enclosures)
  | .null => .ok (complete enclosures)
  | .bool _ => .ok (complete enclosures)
  | .string _ extent => extent.map fun _ ↦ complete enclosures
  | .number _ extent => extent.map fun _ ↦ complete enclosures
  | .invalid fault => .error fault
  | _ => .error .malformed

/-- Takes a token where the name of a member is expected. -/
def beginMember (enclosures : List Enclosure) : Token → Except Fault Skipping
  | .string _ extent => extent.map fun _ ↦ .atColon enclosures
  | _ => .error .malformed

/-- Takes one token. -/
def step : Skipping → Token → Except Fault Skipping
  | .atValue enclosures, token => beginValue enclosures token
  | .atFirstItem enclosures, .closeArray => .ok (complete enclosures)
  | .atFirstItem enclosures, token => beginValue (.array :: enclosures) token
  | .afterItem enclosures, .closeArray => .ok (complete enclosures)
  | .afterItem enclosures, .comma => .ok (.atValue (.array :: enclosures))
  | .atFirstMember enclosures, .closeObject => .ok (complete enclosures)
  | .atFirstMember enclosures, token => beginMember enclosures token
  | .atName enclosures, token => beginMember enclosures token
  | .atColon enclosures, .colon => .ok (.atValue (.object :: enclosures))
  | .afterMember enclosures, .closeObject => .ok (complete enclosures)
  | .afterMember enclosures, .comma => .ok (.atName enclosures)
  | _, _ => .error .malformed

end Skipping

/-! ### Reading the settings -/

/-- How the settings are given: as members, of which some have been given already, or as items, of
which some are still to come. -/
inductive Form where
  | members (given : List Setting)
  | items (pending : List Setting)
  deriving DecidableEq, Repr

/-- What has been read of a configuration. -/
structure Draft where
  config : Config
  form : Form
  deriving DecidableEq, Repr

/-- What may come next in a configuration. -/
inductive Reading where
  /-- The whole configuration. -/
  | atStart
  /-- A first item, or the end of the array. -/
  | atFirstItem (draft : Draft)
  /-- A first member, or the end of the object. -/
  | atFirstMember (draft : Draft)
  /-- A member's name. -/
  | atName (draft : Draft)
  /-- The colon after the name of a setting. -/
  | atColon (setting : Setting) (draft : Draft)
  /-- The colon after any other name. -/
  | atOtherColon (draft : Draft)
  /-- The value of a setting. -/
  | atValue (setting : Setting) (draft : Draft)
  /-- A first text, or the end of the list. -/
  | atFirstText (setting : ListSetting) (draft : Draft)
  /-- A text of a list. -/
  | atText (setting : ListSetting) (texts : List String) (draft : Draft)
  /-- A comma, or the end of the list. -/
  | afterText (setting : ListSetting) (texts : List String) (draft : Draft)
  /-- The rest of a value that is passed over. -/
  | skipping (state : Skipping) (draft : Draft)
  /-- A comma, or the end of the array or object. -/
  | afterValue (draft : Draft)
  /-- Nothing: the configuration is complete. -/
  | done (config : Config)
  deriving DecidableEq, Repr

namespace Reading

/-- The fault of a token that stands where a text, or the start of something else, is expected. -/
def wrongShape : Token → Fault
  | .openArray => .unexpectedShape
  | .openObject => .unexpectedShape
  | .null => .unexpectedShape
  | .bool _ => .unexpectedShape
  | .string (.error fault) _ => fault
  | .string (.ok _) _ => .unexpectedShape
  | .number (.error fault) _ => fault
  | .number (.ok _) _ => .unexpectedShape
  | .invalid fault => fault
  | _ => .malformed

/-- Takes a text. -/
def takeText : Token → Except Fault String
  | .string value _ => value
  | token => .error (wrongShape token)

/-- Takes the name of a member. -/
def beginMember (draft : Draft) : Token → Except Fault Reading
  | .string value _ => do
    match Setting.named? (← value), draft.form with
    | some setting, .members given =>
      if setting ∈ given then .error .unexpectedShape
      else return .atColon setting { draft with form := .members (setting :: given) }
    | some setting, .items _ => return .atColon setting draft
    | none, _ => return .atOtherColon draft
  | _ => .error .malformed

/-- Takes a token where the value of a setting is expected. -/
def beginValue (setting : Setting) (draft : Draft) (token : Token) : Except Fault Reading :=
  match setting, token with
  | .text setting, token => do
    return .afterValue { draft with config := draft.config.setText (← takeText token) setting }
  | .list setting, .openArray => .ok (.atFirstText setting draft)
  | .list _, token => .error (wrongShape token)

/-- Takes a token where an item is expected; the items give the pending settings in order. -/
def beginItem (draft : Draft) (token : Token) : Except Fault Reading :=
  match draft.form with
  | .items (setting :: pending) =>
    beginValue setting { draft with form := .items pending } token
  | _ => .error .malformed

/-- Takes a text of a list. -/
def beginText (setting : ListSetting) (texts : List String) (draft : Draft) (token : Token) :
    Except Fault Reading := do
  return .afterText setting (texts ++ [← takeText token]) draft

/-- Goes on after the end of a list. -/
def closeList (setting : ListSetting) (texts : List String) (draft : Draft) : Reading :=
  .afterValue { draft with config := draft.config.setList texts setting }

/-- Takes a token after a value. -/
def separate (draft : Draft) (token : Token) : Except Fault Reading :=
  match draft.form, token with
  | .members _, .comma => .ok (.atName draft)
  | .members _, .closeObject => .ok (.done draft.config)
  | .items (setting :: pending), .comma =>
    .ok (.atValue setting { draft with form := .items pending })
  | .items _, .closeArray => .ok (.done draft.config)
  | _, _ => .error .malformed

/-- Takes one token. -/
def step : Reading → Token → Except Fault Reading
  | .atStart, .openObject => .ok (.atFirstMember ⟨standard, .members []⟩)
  | .atStart, .openArray => .ok (.atFirstItem ⟨standard, .items Setting.all⟩)
  | .atStart, token => .error (wrongShape token)
  | .atFirstItem draft, .closeArray => .ok (.done draft.config)
  | .atFirstItem draft, token => beginItem draft token
  | .atFirstMember draft, .closeObject => .ok (.done draft.config)
  | .atFirstMember draft, token => beginMember draft token
  | .atName draft, token => beginMember draft token
  | .atColon setting draft, .colon => .ok (.atValue setting draft)
  | .atOtherColon draft, .colon => .ok (.skipping (.atValue []) draft)
  | .atValue setting draft, token => beginValue setting draft token
  | .atFirstText setting draft, .closeArray => .ok (closeList setting [] draft)
  | .atFirstText setting draft, token => beginText setting [] draft token
  | .atText setting texts draft, token => beginText setting texts draft token
  | .afterText setting texts draft, .closeArray => .ok (closeList setting texts draft)
  | .afterText setting texts draft, .comma => .ok (.atText setting texts draft)
  | .skipping state draft, token => (state.step token).map fun
    | .done => .afterValue draft
    | state => .skipping state draft
  | .afterValue draft, token => separate draft token
  | _, _ => .error .malformed

/-- The configuration that has been read when the text ends. -/
def finish : Reading → Except Fault Config
  | .done config => .ok config
  | _ => .error .incomplete

end Reading

/-- The configuration that a sequence of tokens gives. -/
def ofTokens (tokens : List Token) : Except Fault Config := do
  (← tokens.foldlM Reading.step .atStart).finish

/-- The configuration that a JSON text gives. -/
def read (text : String) : Except Fault Config :=
  ofTokens (Json.tokens text.toList)

end CalculatorCatalog.Config
