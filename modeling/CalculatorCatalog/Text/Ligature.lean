import CalculatorCatalog.Text.CharacterWidth
import CalculatorCatalog.Text.Emoji

/-!
# Ligatures

Letters that are shown as one sign when they meet: lam and alef in Arabic, letters around a joiner
in Buginese, Hebrew, Tifinagh and Old Turkic, subscript letters in Khmer, vowel signs in Kirat Rai
and tone letters in Lisu. A text is read from its end, so that a ligature begins with its last
letter (`LigatureEnd.of?`), may pass over characters that do not count (`LigatureEnd.passOver?`)
and takes up the letters before it (`LigatureEnd.merge?`).
-/

set_option autoImplicit false
set_option relaxedAutoImplicit false

namespace CalculatorCatalog.Text

/-- The characters without width of their own that end an Arabic ligature instead of standing within
it, as closed intervals of code points in ascending order. -/
def opaqueRanges : List (Nat × Nat) :=
  [(0x605, 0x605), (0x890, 0x891), (0x8E2, 0x8E2), (0x9BE, 0x9BE), (0x9D7, 0x9D7),
   (0xB3E, 0xB3E), (0xB57, 0xB57), (0xBBE, 0xBBE), (0xBD7, 0xBD7), (0xCC0, 0xCC0),
   (0xCC2, 0xCC2), (0xCC7, 0xCC8), (0xCCA, 0xCCB), (0xCD5, 0xCD6), (0xD3E, 0xD3E),
   (0xD4E, 0xD4E), (0xD57, 0xD57), (0xDCF, 0xDCF), (0xDDF, 0xDDF), (0x1160, 0x11FF),
   (0x1715, 0x1715), (0x1734, 0x1734), (0x180E, 0x180E), (0x1B35, 0x1B35), (0x1B3B, 0x1B3B),
   (0x1B3D, 0x1B3D), (0x1B43, 0x1B44), (0x1BAA, 0x1BAA), (0x1BF2, 0x1BF3), (0x200C, 0x200D),
   (0x2065, 0x2069), (0x302E, 0x302F), (0x3164, 0x3164), (0xA8FA, 0xA8FA), (0xA953, 0xA953),
   (0xA9C0, 0xA9C0), (0xD7B0, 0xD7C6), (0xD7CB, 0xD7FB), (0xFFA0, 0xFFA0), (0xFFF0, 0xFFF8),
   (0x111C0, 0x111C0), (0x111C2, 0x111C3), (0x11235, 0x11235), (0x1133E, 0x1133E),
   (0x1134D, 0x1134D), (0x11357, 0x11357), (0x113B8, 0x113B8), (0x113C2, 0x113C2),
   (0x113C5, 0x113C5), (0x113C7, 0x113C9), (0x113CF, 0x113CF), (0x113D1, 0x113D1),
   (0x114B0, 0x114B0), (0x114BD, 0x114BD), (0x115AF, 0x115AF), (0x116B6, 0x116B6),
   (0x11930, 0x11930), (0x1193D, 0x1193D), (0x1193F, 0x1193F), (0x11941, 0x11941),
   (0x11A84, 0x11A89), (0x11D46, 0x11D46), (0x11F02, 0x11F02), (0x11F41, 0x11F41),
   (0x16FF0, 0x16FF1), (0x1D165, 0x1D166), (0x1D16D, 0x1D172), (0xE0000, 0xE0000),
   (0xE0002, 0xE001F), (0xE0080, 0xE00FF), (0xE01F0, 0xE0FFF)]

/-- Whether a character may stand between the letters of an Arabic ligature. -/
def isTransparent (c : Char) : Bool :=
  characterWidth c == 0 && !covered c.toNat opaqueRanges

/-- The marks that are not shown, as closed intervals of code points in ascending order. -/
def hiddenMarkRanges : List (Nat × Nat) :=
  [(0x34F, 0x34F), (0x17B4, 0x17B5), (0x180B, 0x180D), (0x180F, 0x180F), (0xFE00, 0xFE0F),
   (0xE0100, 0xE01EF)]

/-- Whether a character is a mark that is not shown. -/
def isHiddenMark (c : Char) : Bool :=
  covered c.toNat hiddenMarkRanges

/-- The forms of the Arabic lam, as closed intervals of code points in ascending order. -/
def lamRanges : List (Nat × Nat) :=
  [(0x644, 0x644), (0x6B5, 0x6B8), (0x76A, 0x76A), (0x8A6, 0x8A6), (0x8C7, 0x8C7)]

/-- The forms of the Arabic alef, as closed intervals of code points in ascending order. -/
def alefRanges : List (Nat × Nat) :=
  [(0x622, 0x623), (0x625, 0x625), (0x627, 0x627), (0x671, 0x673), (0x675, 0x675),
   (0x773, 0x774), (0x870, 0x882)]

/-- The Khmer letters that have a subscript form without width, as closed intervals of code points
in ascending order. -/
def subscriptRanges : List (Nat × Nat) :=
  [(0x1780, 0x1782), (0x1784, 0x1787), (0x1789, 0x178C), (0x178E, 0x1793), (0x1795, 0x1798),
   (0x179B, 0x179D), (0x17A0, 0x17A0), (0x17A2, 0x17A2), (0x17A7, 0x17A7), (0x17AB, 0x17AC),
   (0x17AF, 0x17AF)]

/-- The Tifinagh consonants that join, as closed intervals of code points in ascending order. -/
def consonantRanges : List (Nat × Nat) :=
  [(0x2D31, 0x2D65), (0x2D6F, 0x2D6F)]

/-- The part of a ligature that has been read, from its end; `joined` tells that a joiner precedes
it. -/
inductive LigatureEnd where
  /-- An Arabic alef. -/
  | alef
  /-- A Hebrew lamed. -/
  | lamed (joined : Bool)
  /-- A Buginese ya. -/
  | ya (joined : Bool)
  /-- A Buginese vowel sign, a joiner and a ya. -/
  | signAndYa
  /-- A Khmer letter that has a subscript form. -/
  | subscript
  /-- A Tifinagh consonant. -/
  | consonant (joined : Bool)
  /-- A Tifinagh consonant after the sign that joins it to another one. -/
  | joinedConsonant
  /-- An Old Turkic i. -/
  | orkhonI (joined : Bool)
  /-- One of the Lisu tone letters that follow others. -/
  | toneLetter
  /-- The Kirat Rai vowel sign e. -/
  | signE
  /-- The Kirat Rai vowel sign ai, or the two signs e that are shown like it. -/
  | signAi
  deriving DecidableEq, Repr

namespace LigatureEnd

/-- The ligature that may end with a character. -/
def of? (c : Char) : Option LigatureEnd :=
  if covered c.toNat alefRanges then some .alef
  else if c.toNat = 0x5DC then some (.lamed false)
  else if c.toNat = 0x1A10 then some (.ya false)
  else if covered c.toNat subscriptRanges then some .subscript
  else if covered c.toNat consonantRanges then some (.consonant false)
  else if c.toNat = 0x10C03 then some (.orkhonI false)
  else if c.toNat = 0xA4FC ∨ c.toNat = 0xA4FD then some .toneLetter
  else if c.toNat = 0x16D67 then some .signE
  else if c.toNat = 0x16D68 then some .signAi
  else none

/-- A ligature before whose last letter there is a joiner. -/
def join : LigatureEnd → LigatureEnd
  | .lamed _ => .lamed true
  | .ya _ => .ya true
  | .consonant _ => .consonant true
  | .orkhonI _ => .orkhonI true
  | other => other

/-- What is left of a ligature before a character without width that does not break it. -/
def passOver? (c : Char) : LigatureEnd → Option LigatureEnd
  | .alef => if isTransparent c then some .alef else none
  | .signE => none
  | .signAi => none
  | other =>
    if c = joiner then some other.join
    else if isHiddenMark c then some other
    else none

/-- The columns that a character adds to the ligature after it, if it belongs to it, and what the
ligature is with it; it may be complete. -/
def merge? (c : Char) : LigatureEnd → Option (Int × Option LigatureEnd)
  | .alef => if covered c.toNat lamRanges then some (0, none) else none
  | .lamed joined => if joined ∧ c.toNat = 0x5D0 then some (0, none) else none
  | .ya joined => if joined ∧ c.toNat = 0x1A17 then some (0, some .signAndYa) else none
  | .signAndYa => if c.toNat = 0x1A15 then some (0, none) else none
  | .subscript => if c.toNat = 0x17D2 then some (-1, none) else none
  | .consonant joined =>
    if c.toNat = 0x2D7F then some (1, some .joinedConsonant)
    else if joined ∧ covered c.toNat consonantRanges then some (0, none)
    else none
  | .joinedConsonant => if covered c.toNat consonantRanges then some (-1, none) else none
  | .orkhonI joined => if joined ∧ c.toNat = 0x10C32 then some (0, none) else none
  | .toneLetter => if 0xA4F8 ≤ c.toNat ∧ c.toNat ≤ 0xA4FB then some (0, none) else none
  | .signE =>
    if c.toNat = 0x16D63 ∨ c.toNat = 0x16D69 then some (0, none)
    else if c.toNat = 0x16D67 then some (0, some .signAi)
    else if c.toNat = 0x16D68 then some (1, some .signE)
    else none
  | .signAi => if c.toNat = 0x16D63 then some (0, none) else none

end LigatureEnd

end CalculatorCatalog.Text
