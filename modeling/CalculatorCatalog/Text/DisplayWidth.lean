import CalculatorCatalog.Text.Ligature

/-!
# Display width

The number of terminal columns that a text takes, `displayWidth`. It is the sum of the widths of its
characters except for sequences that are shown as one sign: an emoji that consists of several
characters takes two columns as a whole, and so do quotation marks that a selector makes wide; a
picture that a selector turns into text takes one column; ligatures take less than their letters.

A text is read from its end, so that `stepBack` knows what follows a character: the sequence that
has been read (`Following`) and a selector before it (`Selector`).
-/

set_option autoImplicit false
set_option relaxedAutoImplicit false

namespace CalculatorCatalog.Text

/-- The part of a sequence that follows a character. -/
inductive Following where
  /-- Nothing that matters. -/
  | other
  /-- A skin tone. -/
  | skinTone
  /-- One flag letter. -/
  | flagLetter
  /-- Two or more flag letters. -/
  | flagLetters
  /-- An emoji. -/
  | picture
  /-- A joiner and an emoji. -/
  | joined
  /-- A keycap, a joiner and an emoji. -/
  | joinedKeycap
  /-- One flag letter, a joiner and an emoji. -/
  | joinedFlagLetter
  /-- Two or more flag letters, a joiner and an emoji; `even` tells that they are in pairs. -/
  | joinedFlagLetters (even : Bool)
  /-- The end of a tag, a joiner and an emoji, with the numbers of digits and letters of the tag
  that have been read. -/
  | joinedTag (digits letters : Nat)
  /-- The end of a ligature. -/
  | ligature (read : LigatureEnd)
  deriving DecidableEq, Repr

/-- What a selector asks for. -/
inductive Selector where
  | picture
  | text
  | wide
  deriving DecidableEq, Repr

/-- The selector that a character is. -/
def Selector.of? (c : Char) : Option Selector :=
  if c = pictureSelector then some .picture
  else if c = textSelector then some .text
  else if c = '\ufe01' then some .wide
  else none

/-- Whether a character is a quotation mark that can be wide. -/
def isCurlyQuote (c : Char) : Bool :=
  c.toNat ∈ [0x2018, 0x2019, 0x201C, 0x201D]

/-- What follows a character. -/
structure Context where
  following : Following
  selector : Option Selector
  deriving DecidableEq, Repr

namespace Following

/-- The columns of a character that does not merge with what follows, and what the character is
for the one before it. -/
def alone (c : Char) : Int × Following :=
  (characterWidth c,
    if isSkinTone c then .skinTone
    else if isFlagLetter c then .flagLetter
    else if isPicture c then .picture
    else match LigatureEnd.of? c with
      | some read => .ligature read
      | none => .other)

/-- The columns that a character adds before the end of a ligature. -/
def stepLigature (c : Char) (read : LigatureEnd) : Int × Following :=
  match read.passOver? c with
  | some read => (0, .ligature read)
  | none =>
    match read.merge? c with
    | some (columns, some read) => (columns, .ligature read)
    | some (columns, none) => (columns, .other)
    | none => alone c

/-- The columns that a character adds before the end of a tag. Three to six letters, or three digits
with up to four letters after them, make a black flag that of a region. -/
def stepTag (c : Char) (digits letters : Nat) : Int × Following :=
  if isTagLetter c ∧ digits = 0 ∧ letters < 6 then (0, .joinedTag 0 (letters + 1))
  else if isTagDigit c ∧ digits = 0 ∧ letters ≤ 4 then (0, .joinedTag 1 letters)
  else if isTagDigit c ∧ 0 < digits ∧ digits < 3 then (0, .joinedTag (digits + 1) letters)
  else if c = blackFlag ∧ (digits = 3 ∨ digits = 0 ∧ 3 ≤ letters) then (0, .picture)
  else alone c

/-- The columns that a character adds before a joiner and an emoji. -/
def stepJoined (c : Char) : Int × Following :=
  if c = keycap then (0, .joinedKeycap)
  else if isFlagLetter c then (1, .joinedFlagLetter)
  else if isSkinTone c then (0, .skinTone)
  else if c = tagEnd then (0, .joinedTag 0 0)
  else if isPicture c then (0, .picture)
  else alone c

/-- The columns that a character adds before the rest of a sequence, and the sequence with it. The
second letter of a flag that is joined to an emoji takes back the column of the first one. -/
def stepOver (c : Char) : Following → Int × Following
  | .skinTone =>
    if takesSkinTone c then (0, .picture) else if c = joiner then (0, .joined) else alone c
  | .flagLetter => if isFlagLetter c then (1, .flagLetters) else alone c
  | .flagLetters =>
    if isFlagLetter c then (1, .flagLetters) else if c = joiner then (0, .joined) else alone c
  | .picture => if c = joiner then (0, .joined) else alone c
  | .joined => stepJoined c
  | .joinedFlagLetter => if isFlagLetter c then (-1, .joinedFlagLetters true) else alone c
  | .joinedFlagLetters even =>
    if isFlagLetter c then (if even then 3 else -1, .joinedFlagLetters !even)
    else if c = joiner then (0, .joined)
    else alone c
  | .joinedTag digits letters => stepTag c digits letters
  | .ligature read => stepLigature c read
  | _ => alone c

/-- Whether an emoji follows after a joiner, and perhaps after a keycap. -/
def isJoined : Following → Bool
  | .joined => true
  | .joinedKeycap => true
  | _ => false

/-- What is left of a sequence before a selector that has no effect. -/
def withoutSelector : Following → Following
  | .ligature read => .ligature read
  | _ => .other

/-- What is left of a sequence before a selector. -/
def withSelector (c : Char) (selector : Selector) : Following → Following
  | .ligature read => if (read.passOver? c).isSome then .ligature read else .other
  | following => if following.isJoined ∧ selector = .picture then following else .other

end Following

/-- The columns that a character takes before what follows it, if a selector that follows it decides
them. -/
def selected? (c : Char) (context : Context) : Option (Int × Context) :=
  match context.selector with
  | some .picture =>
    if takesPictureSelector c then
      some (if context.following.isJoined then 0 else 2, ⟨.picture, none⟩)
    else none
  | some .text => if takesTextSelector c then some (1, ⟨.other, none⟩) else none
  | some .wide => if isCurlyQuote c then some (2, ⟨.other, none⟩) else none
  | none => none

/-- The columns that a character adds before what follows it, and what follows the character before
it. -/
def stepBack (c : Char) (context : Context) : Int × Context :=
  match selected? c context with
  | some answer => answer
  | none =>
    let following :=
      if context.selector.isSome then context.following.withoutSelector else context.following
    match Selector.of? c with
    | some selector => (0, ⟨following.withSelector c selector, some selector⟩)
    | none =>
      let (columns, following) := following.stepOver c
      (columns, ⟨following, none⟩)

/-- The number of columns that a text takes. -/
def displayWidth (text : List Char) : Nat :=
  (text.foldr
    (fun c (width, context) ↦
      let (columns, context) := stepBack c context
      (columns + width, context))
    ((0 : Int), (⟨.other, none⟩ : Context))).1.toNat

end CalculatorCatalog.Text
