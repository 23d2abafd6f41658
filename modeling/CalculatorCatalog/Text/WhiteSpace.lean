/-!
# White space

`isWhiteSpace` is the White_Space property of a character: the ASCII blanks and line breaks, the
next-line control, the no-break space and the blanks and separators of the general punctuation
block. `skipWhite` passes over it, and `isBlank` tells whether a text consists of nothing else.
-/

set_option autoImplicit false
set_option relaxedAutoImplicit false

namespace CalculatorCatalog.Text

/-- Whether a character is white space. The zero-width space is not. -/
def isWhiteSpace (c : Char) : Bool :=
  if c.toNat < 128 then c == ' ' || (9 ≤ c.toNat && c.toNat ≤ 13)
  else c.toNat ∈ [0x85, 0xA0, 0x1680, 0x2028, 0x2029, 0x202F, 0x205F, 0x3000]
    || (0x2000 ≤ c.toNat && c.toNat ≤ 0x200A)

/-- The text after its leading white space. -/
def skipWhite (text : List Char) : List Char :=
  text.dropWhile isWhiteSpace

/-- Whether a text holds nothing but white space. -/
def isBlank (text : List Char) : Bool :=
  text.all isWhiteSpace

end CalculatorCatalog.Text
