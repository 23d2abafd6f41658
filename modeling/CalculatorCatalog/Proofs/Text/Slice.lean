import CalculatorCatalog.Proofs.Text.Offset
import CalculatorCatalog.Proofs.Text.Search

/-!
# Operations at byte offsets

A program that holds a text as bytes can go wrong where this library cannot: an offset may lie past
the end of the text or inside a character, and the offsets of a slice may be out of order. The
operations of this module take offsets and answer `none` where such a program would stop. So a
computation that is written with them and gives an answer has used no offset out of range.

`slice?` cuts a part out of a text, `difference?` subtracts, and `findAt?` searches from an offset
on. `slice?_eq_some_iff` says which part a slice is, and `findAt?_append` relates the search to the
one of `first?`.
-/

set_option autoImplicit false
set_option relaxedAutoImplicit false

namespace CalculatorCatalog.Text

/-! ### Cutting -/

/-- A text is cut at an offset exactly where a place has that offset. -/
theorem splitBytes?_eq_some_iff {offset : Nat} {text before after : List Char} :
    splitBytes? offset text = some (before, after) ↔
      text = before ++ after ∧ byteLength before = offset := by
  constructor
  · intro h
    induction text generalizing offset before with
    | nil =>
      cases offset with
      | zero =>
        obtain ⟨rfl, rfl⟩ := Prod.mk.inj (Option.some.inj h)
        exact ⟨rfl, rfl⟩
      | succ offset => cases h
    | cons c text ih =>
      cases offset with
      | zero =>
        obtain ⟨rfl, rfl⟩ := Prod.mk.inj (Option.some.inj h)
        exact ⟨rfl, rfl⟩
      | succ offset =>
        rw [splitBytes?] at h
        split_ifs at h with hinside
        obtain ⟨⟨before', after'⟩, hsplit, heq⟩ := Option.map_eq_some_iff.mp h
        obtain ⟨rfl, rfl⟩ := Prod.mk.inj heq
        obtain ⟨rfl, hlength⟩ := ih hsplit
        refine ⟨rfl, ?_⟩
        rw [byteLength_cons]
        omega
  · rintro ⟨rfl, rfl⟩
    induction before with
    | nil => rw [byteLength_nil, splitBytes?, List.nil_append]
    | cons c before ih =>
      have hpos := c.utf8Size_pos
      obtain ⟨offset, hoffset⟩ : ∃ offset, byteLength (c :: before) = offset + 1 :=
        ⟨c.utf8Size + byteLength before - 1, by rw [byteLength_cons]; omega⟩
      have hrest : offset + 1 - c.utf8Size = byteLength before := by
        rw [← hoffset, byteLength_cons, Nat.add_sub_cancel_left]
      have hinside : ¬offset + 1 < c.utf8Size := by
        rw [← hoffset, byteLength_cons]
        omega
      rw [hoffset, List.cons_append, splitBytes?, if_neg hinside, hrest, ih, Option.map_some]

/-- A place of a text can be cut at. -/
theorem splitBytes?_append (before after : List Char) :
    splitBytes? (byteLength before) (before ++ after) = some (before, after) :=
  splitBytes?_eq_some_iff.mpr ⟨rfl, rfl⟩

/-- The difference of two offsets, if they are in order. -/
def difference? (offset earlier : Nat) : Option Nat :=
  if earlier ≤ offset then some (offset - earlier) else none

theorem difference?_add (earlier length : Nat) :
    difference? (earlier + length) earlier = some length := by
  rw [difference?, if_pos (Nat.le_add_right earlier length), Nat.add_sub_cancel_left]

/-- The part of a text between two offsets, if they are places of the text and in order. -/
def slice? (start stop : Nat) (text : List Char) : Option (List Char) := do
  let (_, rest) ← splitBytes? start text
  let length ← difference? stop start
  let (part, _) ← splitBytes? length rest
  return part

theorem slice?_eq_some_iff {start stop : Nat} {text part : List Char} :
    slice? start stop text = some part ↔
      ∃ before after, text = before ++ (part ++ after) ∧ byteLength before = start ∧
        byteLength (before ++ part) = stop := by
  constructor
  · intro h
    obtain ⟨⟨before, rest⟩, hstart, h⟩ := Option.bind_eq_some_iff.mp h
    obtain ⟨length, hlength, h⟩ := Option.bind_eq_some_iff.mp h
    obtain ⟨⟨part', after⟩, hstop, heq⟩ := Option.bind_eq_some_iff.mp h
    obtain rfl : part' = part := Option.some.inj heq
    obtain ⟨rfl, rfl⟩ := splitBytes?_eq_some_iff.mp hstart
    obtain ⟨rfl, rfl⟩ := splitBytes?_eq_some_iff.mp hstop
    rw [difference?] at hlength
    split_ifs at hlength with hle
    have hstop := Option.some.inj hlength
    refine ⟨before, after, rfl, rfl, ?_⟩
    rw [byteLength_append]
    omega
  · rintro ⟨before, after, rfl, rfl, rfl⟩
    rw [slice?, splitBytes?_append, byteLength_append]
    simp only [Option.bind_eq_bind, Option.bind_some, difference?_add, splitBytes?_append]
    rfl

/-- A part of a text is a slice of it. -/
theorem slice?_append (before part after : List Char) :
    slice? (byteLength before) (byteLength before + byteLength part) (before ++ (part ++ after)) =
      some part :=
  slice?_eq_some_iff.mpr ⟨before, after, rfl, rfl, byteLength_append before part⟩

/-! ### Searching -/

variable {α : Type}

/-- Searches a text from an offset on for what a recogniser reads: the offsets at which it begins
and ends, `some none` if it is not found, and `none` if the offset is no place of the text. -/
def findAt? (recognize : Recognizer α) (cursor : Nat) (text : List Char) :
    Option (Option (Nat × Nat)) :=
  (splitBytes? cursor text).map fun (before, rest) ↦
    (first? recognize (lastOr none before) rest).map fun found ↦
      (cursor + byteLength found.passed, byteLength text - byteLength found.rest)

/-- A search that starts at a place of a text finds what there is behind the place. -/
theorem findAt?_append (recognize : Recognizer α) (before text : List Char) :
    findAt? recognize (byteLength before) (before ++ text) =
      some ((first? recognize (lastOr none before) text).map fun found ↦
        (byteLength before + byteLength found.passed,
          byteLength before + byteLength text - byteLength found.rest)) := by
  rw [findAt?, splitBytes?_append, Option.map_some, byteLength_append]

end CalculatorCatalog.Text
