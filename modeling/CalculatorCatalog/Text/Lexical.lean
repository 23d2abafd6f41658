import CalculatorCatalog.Text.Utf8

/-!
# Lexical structure of declaration sources

Of the language in which declarations are written this library understands three things: bracket
nesting, quoted literals and comments. `Mode.step` reads one character, with one character of
lookahead, and says what the character belongs to (`Kind`) and how the reading goes on (`Mode`);
`scan` runs it over a text. Every view of the lexical structure is computed from that one scan:

* `blankComments` replaces what is commented out by spaces and keeps line breaks,
* `maskNested` also hides what is nested in brackets, literals included,
* `enclosed?` cuts a text at the bracket that closes the one before it, and `closingOffset?` gives
  that bracket's byte offset.

The two views keep byte offsets: a hidden character gives way to as many spaces as it has bytes.
A literal honours backslash escapes and ends at its quote or, when it is not closed, at the end of
the line. A block comment that is not closed runs to the end of the text.
-/

set_option autoImplicit false
set_option relaxedAutoImplicit false

namespace CalculatorCatalog.Text

/-! ### One character at a time -/

/-- What a character of a source belongs to. -/
inductive Kind where
  | code
  | literal
  | comment
  deriving DecidableEq, Repr

/-- Where in the lexical structure the next character stands. -/
inductive Mode where
  /-- Outside literals and comments. -/
  | code
  /-- Inside a literal with the given quote. -/
  | literal (quote : Char)
  /-- Right after a backslash inside a literal. -/
  | escaped (quote : Char)
  /-- Inside a comment that ends with the line. -/
  | lineComment
  /-- At the star that opens a block comment. -/
  | blockOpening
  /-- Inside a block comment. -/
  | blockComment
  /-- At the slash that closes a block comment. -/
  | blockClosing
  deriving DecidableEq, Repr

/-- Single and double quotes delimit literals. -/
def isQuote (c : Char) : Bool :=
  c == '\x27' || c == '\x22'

/-- Round, square and curly brackets nest alike. -/
def isOpening (c : Char) : Bool :=
  c == '(' || c == '[' || c == '\x7b'

/-- The closing counterparts of `isOpening`; the three kinds are not told apart. -/
def isClosing (c : Char) : Bool :=
  c == ')' || c == ']' || c == '\x7d'

/-- Reads one character: what it belongs to and the mode after it. The lookahead decides whether a
slash opens a comment and whether a star closes one. -/
def Mode.step (mode : Mode) (c : Char) (next : Option Char) : Kind × Mode :=
  match mode with
  | .code =>
    if isQuote c then (.literal, .literal c)
    else if c = '/' ∧ next = some '/' then (.comment, .lineComment)
    else if c = '/' ∧ next = some '*' then (.comment, .blockOpening)
    else (.code, .code)
  | .literal quote =>
    if c = '\\' then (.literal, .escaped quote)
    else if c = '\n' then (.code, .code)
    else if c = quote then (.literal, .code)
    else (.literal, .literal quote)
  | .escaped quote => (.literal, .literal quote)
  | .lineComment => if c = '\n' then (.code, .code) else (.comment, .lineComment)
  | .blockOpening => (.comment, .blockComment)
  | .blockComment =>
    if c = '*' ∧ next = some '/' then (.comment, .blockClosing) else (.comment, .blockComment)
  | .blockClosing => (.comment, .code)

/-- Each character of a text with what it belongs to, from a given mode on. -/
def scanFrom (mode : Mode) : List Char → List (Char × Kind)
  | [] => []
  | c :: text => (c, (mode.step c text.head?).1) :: scanFrom (mode.step c text.head?).2 text

/-- Each character of a source with what it belongs to. -/
def scan (text : List Char) : List (Char × Kind) :=
  scanFrom .code text

/-! ### Views that keep offsets -/

/-- As many spaces as a character has bytes. -/
def hidden (c : Char) : List Char :=
  List.replicate c.utf8Size ' '

/-- A character of a comment gives way to spaces, line breaks apart; any other stays. -/
def withoutComment : Char × Kind → List Char
  | (c, .comment) => if c = '\n' then [c] else hidden c
  | (c, _) => [c]

/-- The source with its comments hidden: offsets, lines, literals and code stay as they are. -/
def blankComments (text : List Char) : List Char :=
  (scan text).flatMap withoutComment

/-- The number of brackets that are open after a character. A closing bracket without a partner
changes nothing. -/
def depthAfter (depth : Nat) : Char × Kind → Nat
  | (c, .code) => if isOpening c then depth + 1 else if isClosing c then depth - 1 else depth
  | _ => depth

/-- Whether a character is hidden by `maskNested` at the given depth: all comments are, and all
that stands inside an outermost pair of brackets, while that pair itself stays visible. -/
def isMasked (depth : Nat) : Char × Kind → Bool
  | (_, .comment) => true
  | (_, .literal) => depth ≠ 0
  | (c, .code) => if isClosing c then depth - 1 ≠ 0 else depth ≠ 0

/-- Hides comments and nested text of a scanned source, given the depth at its start. -/
def maskScanned (depth : Nat) : List (Char × Kind) → List Char
  | [] => []
  | item :: rest =>
    (if isMasked depth item then hidden item.1 else [item.1])
      ++ maskScanned (depthAfter depth item) rest

/-- The source with comments and everything nested in brackets hidden, so that a search in it only
finds what stands at the top level. -/
def maskNested (text : List Char) : List Char :=
  maskScanned 0 (scan text)

/-! ### Matching brackets -/

/-- The characters before the bracket that closes the enclosing one, where `depth` further brackets
are open, and those after it; `none` if the source ends first. -/
def closeScanned? (depth : Nat) : List (Char × Kind) → Option (List Char × List Char)
  | [] => none
  | item :: rest =>
    if item.2 = .code ∧ isClosing item.1 ∧ depth = 0 then some ([], rest.map (·.1))
    else (closeScanned? (depthAfter depth item) rest).map fun (inner, after) ↦
      (item.1 :: inner, after)

/-- Splits the source that follows an opening bracket at the bracket that closes it: what is
enclosed, and what comes after. Brackets in literals and comments do not count. -/
def enclosed? (text : List Char) : Option (List Char × List Char) :=
  closeScanned? 0 (scan text)

/-- The offset of the bracket that closes the one at the given offset. -/
def closingOffset? (text : List Char) (offset : Nat) : Option Nat :=
  match splitBytes? offset text with
  | some (_, c :: rest) =>
    if isOpening c then (enclosed? rest).map fun (inner, _) ↦ offset + 1 + byteLength inner
    else none
  | _ => none

end CalculatorCatalog.Text
