/-!
# Byte offsets

Positions in a text are counted in bytes of its UTF-8 form. Texts are lists of characters here, so
an offset is a derived measure: `byteLength` of the characters before it. `dropBytes` and
`takeBytes` cut a text at an offset, and `splitBytes?` does so only when the offset falls between
two characters or at an end of the text.
-/

set_option autoImplicit false
set_option relaxedAutoImplicit false

namespace CalculatorCatalog.Text

/-- The number of bytes of a text. -/
def byteLength : List Char → Nat
  | [] => 0
  | c :: text => c.utf8Size + byteLength text

/-- The text without the characters that begin before the given offset. -/
def dropBytes : Nat → List Char → List Char
  | _, [] => []
  | 0, c :: text => c :: text
  | offset + 1, c :: text => dropBytes (offset + 1 - c.utf8Size) text

/-- The characters of the text that begin before the given offset. -/
def takeBytes : Nat → List Char → List Char
  | _, [] => []
  | 0, _ :: _ => []
  | offset + 1, c :: text => c :: takeBytes (offset + 1 - c.utf8Size) text

/-- The text before and after an offset, if the offset is not past the end and does not fall
inside a character. -/
def splitBytes? : Nat → List Char → Option (List Char × List Char)
  | 0, text => some ([], text)
  | _ + 1, [] => none
  | offset + 1, c :: text =>
    if offset + 1 < c.utf8Size then none
    else (splitBytes? (offset + 1 - c.utf8Size) text).map fun (before, after) ↦ (c :: before, after)

@[simp] theorem byteLength_nil : byteLength [] = 0 := rfl

@[simp] theorem byteLength_cons (c : Char) (text : List Char) :
    byteLength (c :: text) = c.utf8Size + byteLength text := rfl

/-- Offsets add up when texts are joined. -/
@[simp] theorem byteLength_append (first second : List Char) :
    byteLength (first ++ second) = byteLength first + byteLength second := by
  induction first with
  | nil => simp
  | cons c text ih => simp [ih, Nat.add_assoc]

end CalculatorCatalog.Text
