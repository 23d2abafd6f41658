/-!
# File patterns

A pattern describes file names: `?` stands for any character, `*` for any number of them, `**` as a
whole component for any number of directories, and a class in square brackets for one character of
it, or for one outside it if it begins with an exclamation mark. Everything else stands for itself.
`Pattern.parse` reads a pattern and says where a wrong one goes wrong; `Pattern.isMatch` tells
whether a pattern describes a whole text. A slash is a character like any other for it.
-/

set_option autoImplicit false
set_option relaxedAutoImplicit false

namespace CalculatorCatalog.Files

/-- The characters from one to another, the two included. -/
structure CharacterRange where
  first : Char
  last : Char
  deriving DecidableEq, Repr

/-- A part of a pattern. -/
inductive PatternPart where
  | character (c : Char)
  | anyCharacter
  | anySequence
  /-- Any number of directories, each with its slash. -/
  | anyDirectories
  | oneOf (ranges : List CharacterRange)
  | noneOf (ranges : List CharacterRange)
  deriving DecidableEq, Repr

/-- The character that a part stands for, if it is no wildcard and no class. -/
def PatternPart.character? : PatternPart → Option Char
  | .character c => some c
  | _ => none

/-- What is wrong with a pattern. -/
inductive PatternFlaw where
  | tooManyStars
  | notWholeComponent
  | invalidClass
  deriving DecidableEq, Repr

/-- The flaw in words. -/
def PatternFlaw.phrase : PatternFlaw → String
  | .tooManyStars => "wildcards are either regular `*` or recursive `**`"
  | .notWholeComponent => "recursive wildcards must form a single path component"
  | .invalidClass => "invalid range pattern"

/-- A flaw and where it is, counted in characters. -/
structure PatternFault where
  position : Nat
  flaw : PatternFlaw
  deriving DecidableEq, Repr

/-- The fault as it is reported. -/
def PatternFault.message (fault : PatternFault) : String :=
  s!"Pattern syntax error near position {fault.position}: {fault.flaw.phrase}"

/-- The parts of a pattern. -/
abbrev Pattern : Type := List PatternPart

namespace Pattern

/-! ### Reading patterns -/

/-- The ranges of a class: a hyphen between two characters makes a range of them. -/
def classRanges : List Char → List CharacterRange
  | first :: '-' :: last :: rest => ⟨first, last⟩ :: classRanges rest
  | c :: rest => ⟨c, c⟩ :: classRanges rest
  | [] => []

/-- The inside of a class, whose first character stands for itself whatever it is. -/
def classBody? (text : List Char) : Option (List Char) :=
  match text with
  | [] => none
  | first :: rest =>
    if rest.contains ']' then some (first :: rest.takeWhile (· != ']')) else none

/-- The class whose opening bracket is followed by the text, and its length after the bracket. -/
def readClass? (text : List Char) : Option (PatternPart × Nat) :=
  match text with
  | '!' :: rest => (classBody? rest).map fun body ↦ (.noneOf (classRanges body), body.length + 2)
  | _ => (classBody? text).map fun body ↦ (.oneOf (classRanges body), body.length + 1)

/-- The part that stars stand for, given the character before them and the text after the first
one, and the length of the part after that star. -/
def readStars (position : Nat) (before : Option Char) (text : List Char) :
    Except PatternFault (PatternPart × Nat) :=
  match text.takeWhile (· == '*') with
  | [] => .ok (.anySequence, 0)
  | [_] =>
    if before = none ∨ before = some '/' then
      match text.drop 1 with
      | [] => .ok (.anyDirectories, 1)
      | '/' :: _ => .ok (.anyDirectories, 2)
      | _ => .error ⟨position + 2, .notWholeComponent⟩
    else .error ⟨position - 1, .notWholeComponent⟩
  | _ => .error ⟨position + 2, .tooManyStars⟩

/-- The part that begins with a character, and its length after that character. -/
def readPart (position : Nat) (before : Option Char) (c : Char) (text : List Char) :
    Except PatternFault (PatternPart × Nat) :=
  if c = '?' then .ok (.anyCharacter, 0)
  else if c = '*' then readStars position before text
  else if c = '[' then
    match readClass? text with
    | some part => .ok part
    | none => .error ⟨position, .invalidClass⟩
  else .ok (.character c, 0)

/-- The parts of a pattern from a position on, after passing over `skip` characters. -/
def parseFrom : Nat → Nat → Option Char → List Char → Except PatternFault Pattern
  | _, _, _, [] => .ok []
  | skip + 1, position, _, c :: text => parseFrom skip (position + 1) (some c) text
  | 0, position, before, c :: text => do
    let (part, length) ← readPart position before c text
    return part :: (← parseFrom length (position + 1) (some c) text)

/-- Reads a pattern. -/
def parse (text : String) : Except PatternFault Pattern :=
  parseFrom 0 0 none text.toList

/-! ### Matching -/

/-- Whether a character lies in one of the ranges of a class. -/
def inRanges (ranges : List CharacterRange) (c : Char) : Bool :=
  ranges.any fun range ↦ range.first ≤ c && c ≤ range.last

/-- For a text and each of its ends, the longest first, whether it is empty. -/
def emptyEnds : List Char → List Bool
  | [] => [true]
  | _ :: text => false :: emptyEnds text

/-- From the answers for a text and its ends, those for a character of some kind before them. -/
def endsAfter (kind : Char → Bool) : List Char → List Bool → List Bool
  | c :: text, _ :: ends => (kind c && ends.headD false) :: endsAfter kind text ends
  | _, _ => [false]

/-- From the answers for a text and its ends, those for any characters before them. -/
def endsAfterAny : List Bool → List Bool
  | [] => []
  | whole :: ends =>
    let later := endsAfterAny ends
    (whole || later.headD false) :: later

/-- From the answers for a text and its ends, those for any characters and a slash before them. The
slash may be missing before the empty text. -/
def endsAfterSlash : List Char → List Bool → List Bool
  | c :: text, _ :: ends =>
    let later := endsAfterSlash text ends
    ((c == '/' && ends.headD false) || later.headD false) :: later
  | _, ends => ends

/-- For a text and each of its ends, the longest first, whether a pattern describes it. Each part
takes one pass over the answers for the parts after it. -/
def describedEnds (text : List Char) : Pattern → List Bool
  | [] => emptyEnds text
  | part :: parts =>
    let ends := describedEnds text parts
    match part with
    | .character expected => endsAfter (· == expected) text ends
    | .anyCharacter => endsAfter (fun _ ↦ true) text ends
    | .oneOf ranges => endsAfter (inRanges ranges) text ends
    | .noneOf ranges => endsAfter (!inRanges ranges ·) text ends
    | .anySequence => endsAfterAny ends
    | .anyDirectories => ends.zipWith (· || ·) (endsAfterSlash text ends)

/-- Whether a pattern describes a whole text. -/
def isMatch (pattern : Pattern) (text : List Char) : Bool :=
  (describedEnds text pattern).headD false

/-- Whether a pattern stands for any number of directories. -/
def isDirectories (pattern : Pattern) : Bool :=
  pattern.contains .anyDirectories

/-- The only text that a pattern without wildcards and classes describes. -/
def literal? (pattern : Pattern) : Option String :=
  (pattern.mapM PatternPart.character?).map String.ofList

/-- Whether a text is meant as a pattern: it has a wildcard. -/
def hasWildcard (text : String) : Bool :=
  text.toList.any fun c ↦ c == '*' || c == '?'

end Pattern

end CalculatorCatalog.Files
