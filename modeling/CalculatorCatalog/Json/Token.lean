import CalculatorCatalog.Number.Binary64
import CalculatorCatalog.Text.Utf8

/-!
# Tokens of JSON texts

`tokens` reads a JSON text into punctuation, literals, strings and numbers. A reader may need the
value of a string or number, or may only pass over it, and passing over accepts more: any escaped
code unit, a number of any size. So these tokens carry two verdicts, `value` for what the token
stands for and `extent` for whether it could be passed over at all. After a token that cannot be
passed over nothing more is read.

A `Fault` says what is wrong with a text: it ends too early, it is malformed, or it is well formed
but of the wrong shape for what it should describe.
-/

set_option autoImplicit false
set_option relaxedAutoImplicit false

namespace CalculatorCatalog.Json

open CalculatorCatalog.Number CalculatorCatalog.Text

/-- What is wrong with a JSON text. -/
inductive Fault where
  /-- The text ends too early. -/
  | incomplete
  /-- The text breaks the grammar, or a limit on numbers or nesting. -/
  | malformed
  /-- The text describes a value of another shape than the one expected. -/
  | unexpectedShape
  deriving DecidableEq, Repr

/-- The fault as it is reported. -/
def Fault.message : Fault → String
  | .incomplete => "json:eof"
  | .malformed => "json:syntax"
  | .unexpectedShape => "json:data"

/-- A number as it is kept: exactly when it is a whole number that fits 64 bits. -/
inductive Numeral where
  | integer (value : Int)
  | float (value : Binary64)
  deriving DecidableEq, Repr

/-- A unit of a JSON text. -/
inductive Token where
  | openArray
  | closeArray
  | openObject
  | closeObject
  | comma
  | colon
  | null
  | bool (value : Bool)
  | string (value : Except Fault String) (extent : Except Fault Unit)
  | number (value : Except Fault Numeral) (extent : Except Fault Unit)
  /-- A character that begins no token, or a literal that is cut short or misspelt. -/
  | invalid (fault : Fault)

/-! ### Strings -/

/-- The value of a hexadecimal digit. -/
def hexValue? (c : Char) : Option Nat :=
  if '0' ≤ c ∧ c ≤ '9' then some (c.toNat - 48)
  else if 'a' ≤ c ∧ c ≤ 'f' then some (c.toNat - 87)
  else if 'A' ≤ c ∧ c ≤ 'F' then some (c.toNat - 55)
  else none

/-- The code unit that four hexadecimal digits give. A text of less than four bytes ends too
early, whatever it holds. -/
def codeUnit (text : List Char) : Except Fault (Nat × List Char) :=
  if byteLength (text.take 4) < 4 then .error .incomplete
  else match text with
    | a :: b :: c :: d :: rest =>
      match hexValue? a, hexValue? b, hexValue? c, hexValue? d with
      | some a, some b, some c, some d => .ok (((a * 16 + b) * 16 + c) * 16 + d, rest)
      | _, _, _, _ => .error .malformed
    | _ => .error .malformed

/-- The character that a one-letter escape stands for. -/
def shortEscape? : Char → Option Char
  | '\x22' => some '\x22'
  | '\\' => some '\\'
  | '/' => some '/'
  | 'b' => some '\x08'
  | 'f' => some '\x0c'
  | 'n' => some '\n'
  | 'r' => some '\r'
  | 't' => some '\t'
  | _ => none

/-- The character that a code unit stands for, given the text after it: a leading surrogate needs
its partner there, and a trailing one must not stand alone. -/
def characterOfUnit (unit : Nat) (text : List Char) : Except Fault Char :=
  if 0xDC00 ≤ unit ∧ unit ≤ 0xDFFF then .error .malformed
  else if 0xD800 ≤ unit ∧ unit ≤ 0xDBFF then
    match text with
    | [] => .error .incomplete
    | ['\\'] => .error .incomplete
    | '\\' :: 'u' :: rest => do
      let (second, _) ← codeUnit rest
      if 0xDC00 ≤ second ∧ second ≤ 0xDFFF then
        return Char.ofNat (0x10000 + (unit - 0xD800) * 0x400 + (second - 0xDC00))
      else .error .malformed
    | _ => .error .malformed
  else .ok (Char.ofNat unit)

/-- Where the reading of a string stands. -/
inductive StringMode where
  /-- At an unescaped character. -/
  | plain
  /-- Right after a backslash. -/
  | escape
  /-- Inside an escape that has been read already, with so many of its characters left. -/
  | passing (left : Nat)
  deriving DecidableEq, Repr

/-- Adds a character to the value of a string, unless either is faulty; the first fault counts. -/
def prependCharacter (c : Except Fault Char) (value : Except Fault (List Char)) :
    Except Fault (List Char) := do
  return (← c) :: (← value)

/-- What a string contains, whether it ends properly, and the text after its closing quote. -/
def readString : StringMode → List Char →
    Except Fault (List Char) × Except Fault Unit × List Char
  | _, [] => (.error .incomplete, .error .incomplete, [])
  | .plain, c :: text =>
    if c = '\x22' then (.ok [], .ok (), text)
    else if c = '\\' then readString .escape text
    else if c.toNat < 32 then (.error .malformed, .error .malformed, text)
    else
      let (value, extent, rest) := readString .plain text
      (prependCharacter (.ok c) value, extent, rest)
  | .escape, c :: text =>
    if c = 'u' then
      match codeUnit text with
      | .error fault => (.error fault, .error fault, text)
      | .ok (unit, after) =>
        let c := characterOfUnit unit after
        let paired := 0xD800 ≤ unit && unit ≤ 0xDBFF && c.toOption.isSome
        let (value, extent, rest) := readString (.passing (if paired then 10 else 4)) text
        (prependCharacter c value, extent, rest)
    else match shortEscape? c with
      | none => (.error .malformed, .error .malformed, text)
      | some meaning =>
        let (value, extent, rest) := readString .plain text
        (prependCharacter (.ok meaning) value, extent, rest)
  | .passing left, _ :: text => readString (if left ≤ 1 then .plain else .passing (left - 1)) text

/-! ### Numbers -/

/-- The largest significand that is accumulated exactly. -/
def maxSignificand : Nat := 0xFFFFFFFFFFFFFFFF

/-- The significand and the decimal exponent of the digits before and after the point. Digits from
the first one on that would not fit 64 bits are dropped; before the point they count towards the
exponent, after it they do not. -/
structure Significand where
  value : Nat
  exponent : Int
  saturated : Bool
  deriving DecidableEq, Repr

/-- Adds a digit before the point. -/
def Significand.addWhole (significand : Significand) (c : Char) : Significand :=
  let next := significand.value * 10 + (c.toNat - 48)
  if significand.saturated ∨ maxSignificand < next then
    { significand with exponent := significand.exponent + 1, saturated := true }
  else { significand with value := next }

/-- Adds a digit after the point. -/
def Significand.addFraction (significand : Significand) (c : Char) : Significand :=
  let next := significand.value * 10 + (c.toNat - 48)
  if significand.saturated ∨ maxSignificand < next then { significand with saturated := true }
  else { significand with value := next, exponent := significand.exponent - 1 }

/-- The largest exponent that is accumulated. -/
def maxExponent : Nat := 0x7FFFFFFF

/-- A written exponent, limited to the range in which exponents are accumulated. -/
def addExponents (exponent written : Int) : Int :=
  max (-0x80000000) (min 0x7FFFFFFF (exponent + written))

/-- Multiplies or divides a magnitude by a power of ten, one rounding for the power and one for the
result. Exponents beyond 308 are divided out in steps; `count` bounds their number. -/
def scale (count : Nat) (value : Binary64) (exponent : Int) : Except Fault Binary64 :=
  if exponent.natAbs ≤ 308 then
    let power := Binary64.ofDecimal false 1 exponent.natAbs
    if 0 ≤ exponent then
      match Binary64.multiply value power with
      | .infinite _ => .error .malformed
      | product => .ok product
    else .ok (Binary64.divide value power)
  else if value = .finite false 0 then .ok value
  else if 0 ≤ exponent then .error .malformed
  else match count with
    | 0 => .ok (.finite false 0)
    | count + 1 =>
      scale count (Binary64.divide value (Binary64.ofDecimal false 1 308)) (exponent + 308)

/-- The number of a sign, a significand and an exponent. -/
def scaled (negative : Bool) (significand : Nat) (exponent : Int) : Except Fault Numeral := do
  let magnitude ← scale 4 (.ofNat significand) exponent
  return .float (if negative then magnitude.negate else magnitude)

/-- The number of a sign and digits without fraction and exponent. -/
def wholeNumeral (negative : Bool) (significand : Significand) : Except Fault Numeral :=
  if significand.saturated then scaled negative significand.value significand.exponent
  else if !negative then .ok (.integer significand.value)
  else if 0 < significand.value ∧ significand.value ≤ 0x8000000000000000 then
    .ok (.integer (-significand.value))
  else .ok (.float (Binary64.ofNat significand.value).negate)

/-- The parts of a number after its sign: the digits, the digits after the point if there is one,
and the sign and digits of the exponent if there is one; then what follows. -/
structure NumberParts where
  whole : List Char
  fraction : Option (List Char)
  exponent : Option (Bool × List Char)
  rest : List Char

/-- The digits of a text after a point or an exponent mark, which must not be missing: a text that
ends there ends too early. -/
def someDigits (text : List Char) : Except Fault (List Char × List Char) :=
  match text.takeWhile Char.isDigit, text with
  | [], [] => .error .incomplete
  | [], _ :: _ => .error .malformed
  | digits, _ => .ok (digits, text.dropWhile Char.isDigit)

/-- The fraction at the beginning of a text. -/
def readFraction (text : List Char) : Except Fault (Option (List Char) × List Char) :=
  match text with
  | '.' :: rest => do
    let (digits, rest) ← someDigits rest
    return (some digits, rest)
  | _ => .ok (none, text)

/-- The exponent at the beginning of a text, with whether it is negative. -/
def readExponent (text : List Char) : Except Fault (Option (Bool × List Char) × List Char) :=
  match text with
  | [] => .ok (none, [])
  | mark :: rest =>
    if mark = 'e' ∨ mark = 'E' then do
      let unsigned := if rest.head? = some '+' ∨ rest.head? = some '-' then rest.drop 1 else rest
      let (digits, after) ← someDigits unsigned
      return (some (rest.head? = some '-', digits), after)
    else .ok (none, text)

/-- The digits before the point: a zero stands alone. -/
def readWhole (text : List Char) : Except Fault (List Char × List Char) := do
  let (digits, rest) ← someDigits text
  match digits with
  | '0' :: _ :: _ => .error .malformed
  | _ => return (digits, rest)

/-- The parts of a number at the beginning of a text, after its sign. -/
def readParts (text : List Char) : Except Fault NumberParts := do
  let (whole, rest) ← readWhole text
  let (fraction, rest) ← readFraction rest
  let (exponent, rest) ← readExponent rest
  return ⟨whole, fraction, exponent, rest⟩

/-- The value of decimal digits. -/
def digitsValue (digits : List Char) : Nat :=
  digits.foldl (fun value c ↦ value * 10 + (c.toNat - 48)) 0

/-- The number that the parts stand for. An exponent that is too large to accumulate makes the
number zero, or puts it out of range if it is positive and the significand is not zero. -/
def numeralOfParts (negative : Bool) (parts : NumberParts) : Except Fault Numeral :=
  let whole := parts.whole.foldl Significand.addWhole ⟨0, 0, false⟩
  match parts.fraction, parts.exponent with
  | none, none => wholeNumeral negative whole
  | fraction, exponent =>
    let significand :=
      (fraction.getD []).foldl Significand.addFraction { whole with saturated := false }
    match exponent with
    | none => scaled negative significand.value significand.exponent
    | some (below, digits) =>
      let written := digitsValue digits
      if maxExponent < written then
        if significand.value ≠ 0 ∧ !below then .error .malformed
        else .ok (.float (.finite negative 0))
      else
        let written : Int := if below then -written else written
        scaled negative significand.value (addExponents significand.exponent written)

/-- A number at the beginning of a text, as a token, and what follows it. To pass over a number
that ends too early is as wrong as any other malformed number. -/
def readNumber (text : List Char) : Token × List Char :=
  let negative := text.head? = some '-'
  match readParts (if negative then text.drop 1 else text) with
  | .ok parts => (.number (numeralOfParts negative parts) (.ok ()), parts.rest)
  | .error fault => (.number (.error fault) (.error .malformed), [])

/-! ### Tokens -/

/-- White space between tokens. -/
def isSpace (c : Char) : Bool :=
  c == ' ' || c == '\n' || c == '\t' || c == '\r'

/-- What is wrong with a text that should begin with the given letters, or the text after them. -/
def readLetters : List Char → List Char → Except Fault (List Char)
  | [], text => .ok text
  | _ :: _, [] => .error .incomplete
  | expected :: letters, c :: text =>
    if c = expected then readLetters letters text else .error .malformed

/-- A literal word whose first letter has been read. -/
def readLiteral (letters : List Char) (token : Token) (text : List Char) : Token × List Char :=
  match readLetters letters text with
  | .ok rest => (token, rest)
  | .error fault => (.invalid fault, [])

/-- A string whose opening quote has been read. -/
def readStringToken (text : List Char) : Token × List Char :=
  let (value, extent, rest) := readString .plain text
  match extent with
  | .ok () => (.string (value.map String.ofList) extent, rest)
  | .error _ => (.string (value.map String.ofList) extent, [])

/-- The token that begins with a given character, and the text after it; nothing is left after a
token that cannot be passed over. -/
def readToken (c : Char) (text : List Char) : Token × List Char :=
  if c = '[' then (.openArray, text)
  else if c = ']' then (.closeArray, text)
  else if c = '\x7b' then (.openObject, text)
  else if c = '\x7d' then (.closeObject, text)
  else if c = ',' then (.comma, text)
  else if c = ':' then (.colon, text)
  else if c = '\x22' then readStringToken text
  else if c = 'n' then readLiteral ['u', 'l', 'l'] .null text
  else if c = 't' then readLiteral ['r', 'u', 'e'] (.bool true) text
  else if c = 'f' then readLiteral ['a', 'l', 's', 'e'] (.bool false) text
  else if c = '-' ∨ c.isDigit then readNumber (c :: text)
  else (.invalid .malformed, [])

/-- At most `count` steps of reading a text into tokens. Each step takes a character at least, so
that the length of the text is enough. -/
def tokensWithin : Nat → List Char → List Token
  | 0, _ => []
  | _ + 1, [] => []
  | count + 1, c :: text =>
    if isSpace c then tokensWithin count text
    else
      let (token, rest) := readToken c text
      token :: tokensWithin count rest

/-- The tokens of a JSON text. -/
def tokens (text : List Char) : List Token :=
  tokensWithin text.length text

end CalculatorCatalog.Json
