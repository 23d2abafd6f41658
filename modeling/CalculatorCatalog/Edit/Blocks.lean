import CalculatorCatalog.Edit.Basic
import CalculatorCatalog.Source
import CalculatorCatalog.Text.Recognizer

/-!
# Removing blocks

`removeBlocks` removes every call of a constructor whose `key` attribute has a given value. The
blocks are searched for in the source with its comments hidden, so that what is commented out stays,
and each is cut out of the source as a range of byte offsets (`Removal`).

A block ends at the bracket that closes its own. The comma that separates it from its neighbour goes
with it: the one after it or, if there is none, the one before it. A block that stands on lines of
its own takes those lines along. No range reaches back into the one before it.
-/

set_option autoImplicit false
set_option relaxedAutoImplicit false

namespace CalculatorCatalog.Edit

open CalculatorCatalog.Text

/-! ### Recognising blocks -/

/-- Where a block opens: a call of the constructor that begins at a word boundary, with or without
the constant marker before it. After the marker and its white space a word boundary is where a word
begins. -/
def blockOpening (constructor : List Char) : Recognizer Unit := fun before text ↦
  if isWordBoundary before text.head? then
    let constant := (afterConst? text).bind fun rest ↦
      if isWordAt rest.head? then afterCall? constructor rest else none
    (constant <|> afterCall? constructor text).map ((), ·)
  else none

/-- A `key` attribute with the given value. -/
def keyAttribute (key : List Char) : Recognizer Unit := fun before text ↦ do
  match ← afterAttributeName? "key".toList before text with
  | [] => none
  | quote :: rest =>
    match isQuote quote, ← afterWord? key rest with
    | true, closing :: rest => if isQuote closing then some ((), rest) else none
    | _, _ => none

/-- Whether the inside of a block has the key at its top level. -/
def hasKey (key inner : List Char) : Bool :=
  (first? (keyAttribute key) none (maskNested inner)).isSome

/-! ### Ranges to remove -/

/-- A range of byte offsets to cut out, and the offset at which its block begins. -/
structure Removal where
  start : Nat
  stop : Nat
  block : Nat
  deriving DecidableEq, Repr

/-- A space or a tab. -/
def isHorizontal (c : Char) : Bool :=
  c == ' ' || c == '\t'

/-- The number of bytes of a line break that comes next; none are needed at the end of the text. -/
def lineEnd? : List Char → Option Nat
  | [] => some 0
  | '\n' :: _ => some 1
  | '\r' :: '\n' :: _ => some 2
  | _ => none

/-- The number of bytes back to a comma that only blanks and line breaks divide from a place, not
more than `room` bytes before it. The text before the place is given backwards. -/
def precedingComma? : Nat → List Char → Option Nat
  | 0, _ => none
  | _ + 1, [] => none
  | room + 1, c :: before =>
    if c = ',' then some 1
    else if isHorizontal c ∨ c = '\n' ∨ c = '\r' then (precedingComma? room before).map (· + 1)
    else none

/-- What follows a block up to the next thing on its line: whether there is a comma, and the text
after the comma and the blanks around it. -/
def afterBlock (after : List Char) : Bool × List Char :=
  match after.dropWhile isHorizontal with
  | ',' :: rest => (true, rest.dropWhile isHorizontal)
  | rest => (false, rest)

/-- The range to remove for a block from offset `start` to offset `stop`, given what has not been
removed since offset `floor`, the text before the block, backwards, and the text after it. -/
def removal (floor start stop : Nat) (before after : List Char) : Removal :=
  let (hasComma, tail) := afterBlock after
  let tailStart := stop + byteLength after - byteLength tail
  let indentation := before.takeWhile (· != '\n')
  let lineStart := start - byteLength indentation
  let ownLine := if floor ≤ lineStart ∧ isBlank indentation then lineEnd? tail else none
  match ownLine with
  | some length => ⟨lineStart, tailStart + length, start⟩
  | none =>
    if hasComma then ⟨start, tailStart, start⟩
    else match precedingComma? (start - floor) before with
      | some distance => ⟨start - distance, stop, start⟩
      | none => ⟨start, stop, start⟩

/-- The ranges to remove from a source without comments, from the byte `offset` on, after passing
over `skip` characters; the text before is given backwards. -/
def removalsFrom (constructor key : List Char) :
    Nat → Nat → List Char → Nat → List Char → List Removal
  | _, _, _, _, [] => []
  | floor, skip + 1, before, offset, c :: text =>
    removalsFrom constructor key floor skip (c :: before) (offset + c.utf8Size) text
  | floor, 0, before, offset, c :: text =>
    match blockOpening constructor before.head? (c :: text) with
    | none => removalsFrom constructor key floor 0 (c :: before) (offset + c.utf8Size) text
    | some (_, inside) =>
      let opened := text.length - inside.length
      match enclosed? inside with
      | none =>
        removalsFrom constructor key floor opened (c :: before) (offset + c.utf8Size) text
      | some (inner, after) =>
        let passed := opened + inner.length + 1
        if hasKey key inner then
          let stop := offset + byteLength (c :: text) - byteLength after
          let range := removal floor offset stop before after
          range :: removalsFrom constructor key range.stop passed (c :: before)
            (offset + c.utf8Size) text
        else
          removalsFrom constructor key floor passed (c :: before) (offset + c.utf8Size) text

/-- The ranges to remove from a source. -/
def removals (constructor key content : List Char) : List Removal :=
  removalsFrom constructor key 0 0 [] 0 (blankComments content)

/-- The text without the characters that begin inside one of the ranges. -/
def cut (ranges : List Removal) : Nat → List Char → List Char
  | _, [] => []
  | offset, c :: text =>
    if ranges.any fun range ↦ range.start ≤ offset && offset < range.stop then
      cut ranges (offset + c.utf8Size) text
    else c :: cut ranges (offset + c.utf8Size) text

/-- Removes every call of a constructor that has the given key. -/
def removeBlocks (constructor key content : String) : Edit :=
  let text := content.toList
  let ranges := removals constructor.toList key.toList text
  ⟨String.ofList (cut ranges 0 text),
    ranges.map fun range ↦ .blockRemoved (Source.lineNumber text range.block)⟩

end CalculatorCatalog.Edit
