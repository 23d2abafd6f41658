import CalculatorCatalog.Json.Token
import CalculatorCatalog.Json.Value

/-!
# Reading JSON values

A JSON text is read token by token. `Reading` says what may come next together with what has been
read so far: the arrays and objects that are still open, innermost first. `Reading.step` takes one
token; reading a text is folding it over the tokens (`read`). A member that is repeated keeps its
first place and takes its last value, and arrays and objects nest at most 127 deep.
-/

set_option autoImplicit false
set_option relaxedAutoImplicit false

namespace CalculatorCatalog.Json

/-- An array or object that is still open: its items or members so far, and for an object the name
of the member whose value is being read. -/
inductive Frame where
  | array (items : List Json)
  | object (members : List (String × Json)) (name : String)

/-- What may come next in a JSON text. -/
inductive Reading where
  /-- A value. -/
  | atValue (frames : List Frame)
  /-- A first item, or the end of the array. -/
  | atFirstItem (frames : List Frame)
  /-- A comma, or the end of the array. -/
  | afterItem (items : List Json) (frames : List Frame)
  /-- A first member, or the end of the object. -/
  | atFirstMember (frames : List Frame)
  /-- A member's name. -/
  | atName (members : List (String × Json)) (frames : List Frame)
  /-- The colon after a member's name. -/
  | atColon (members : List (String × Json)) (name : String) (frames : List Frame)
  /-- A comma, or the end of the object. -/
  | afterMember (members : List (String × Json)) (frames : List Frame)
  /-- Nothing: the value is complete. -/
  | done (value : Json)

/-- How deep arrays and objects may nest. -/
def maxDepth : Nat := 127

/-- The number as a value. -/
def Numeral.toJson : Numeral → Json
  | .integer value => .integer value
  | .float value => .float value

namespace Reading

/-- Goes on after a value inside the given open arrays and objects. -/
def complete (value : Json) : List Frame → Reading
  | [] => .done value
  | .array items :: frames => .afterItem (items ++ [value]) frames
  | .object members name :: frames => .afterMember (insert name value members) frames

/-- Begins an array or object unless too many are open already. -/
def enter (frames : List Frame) (opened : Reading) : Except Fault Reading :=
  if maxDepth ≤ frames.length then .error .malformed else .ok opened

/-- Takes a token where a value is expected. -/
def beginValue (frames : List Frame) : Token → Except Fault Reading
  | .openArray => enter frames (.atFirstItem frames)
  | .openObject => enter frames (.atFirstMember frames)
  | .null => .ok (complete .null frames)
  | .bool value => .ok (complete (.bool value) frames)
  | .string value _ => value.map fun text ↦ complete (.string text) frames
  | .number value _ => value.map fun numeral ↦ complete numeral.toJson frames
  | .invalid fault => .error fault
  | _ => .error .malformed

/-- Takes a token where the name of a member is expected. -/
def beginMember (members : List (String × Json)) (frames : List Frame) :
    Token → Except Fault Reading
  | .string value _ => value.map fun name ↦ .atColon members name frames
  | _ => .error .malformed

/-- Takes one token. -/
def step : Reading → Token → Except Fault Reading
  | .atValue frames, token => beginValue frames token
  | .atFirstItem frames, .closeArray => .ok (complete (.array []) frames)
  | .atFirstItem frames, token => beginValue (.array [] :: frames) token
  | .afterItem items frames, .closeArray => .ok (complete (.array items) frames)
  | .afterItem items frames, .comma => .ok (.atValue (.array items :: frames))
  | .atFirstMember frames, .closeObject => .ok (complete (.object []) frames)
  | .atFirstMember frames, token => beginMember [] frames token
  | .atName members frames, token => beginMember members frames token
  | .atColon members name frames, .colon => .ok (.atValue (.object members name :: frames))
  | .afterMember members frames, .closeObject => .ok (complete (.object members) frames)
  | .afterMember members frames, .comma => .ok (.atName members frames)
  | _, _ => .error .malformed

/-- The value that has been read when the text ends. -/
def finish : Reading → Except Fault Json
  | .done value => .ok value
  | _ => .error .incomplete

end Reading

/-- The value of a sequence of tokens. -/
def ofTokens (tokens : List Token) : Except Fault Json := do
  (← tokens.foldlM Reading.step (.atValue [])).finish

/-- The value of a JSON text. -/
def read (text : String) : Except Fault Json :=
  ofTokens (tokens text.toList)

end CalculatorCatalog.Json
