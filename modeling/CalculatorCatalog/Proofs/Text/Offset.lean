import CalculatorCatalog.Text.Utf8
import Mathlib.Data.List.Basic

/-!
# Places of a text

A place of a text is a way to cut it in two, and its offset is the byte length of the first part.
Every character has at least one byte, so a place is determined by its offset
(`append_inj_of_byteLength`), and no place falls inside a character
(`not_byteLength_between`). An offset that belongs to a place is an `IsPlace`.
-/

set_option autoImplicit false
set_option relaxedAutoImplicit false

namespace CalculatorCatalog.Text

theorem byteLength_eq_zero {text : List Char} : byteLength text = 0 ↔ text = [] := by
  cases text with
  | nil => simp
  | cons c text =>
    have hpos := c.utf8Size_pos
    simp only [byteLength_cons, reduceCtorEq, iff_false]
    omega

theorem byteLength_concat (text : List Char) (c : Char) :
    byteLength (text ++ [c]) = byteLength text + c.utf8Size := by
  rw [byteLength_append, byteLength_cons, byteLength_nil, Nat.add_zero]

theorem byteLength_replicate_space (count : Nat) :
    byteLength (List.replicate count ' ') = count := by
  induction count with
  | zero => rfl
  | succ count ih =>
    rw [List.replicate_succ, byteLength_cons, ih]
    exact Nat.add_comm 1 count

theorem byteLength_reverse (text : List Char) : byteLength text.reverse = byteLength text := by
  induction text with
  | nil => rfl
  | cons c text ih =>
    rw [List.reverse_cons, byteLength_concat, ih, byteLength_cons, Nat.add_comm]

/-- Cutting a text at the offset of a place gives what comes after the place. -/
theorem dropBytes_byteLength_append (first second : List Char) :
    dropBytes (byteLength first) (first ++ second) = second := by
  induction first with
  | nil => cases second <;> rfl
  | cons c first ih =>
    have hpos := c.utf8Size_pos
    obtain ⟨offset, hoffset⟩ : ∃ offset, byteLength (c :: first) = offset + 1 :=
      ⟨c.utf8Size + byteLength first - 1, by rw [byteLength_cons]; omega⟩
    have hrest : offset + 1 - c.utf8Size = byteLength first := by
      rw [← hoffset, byteLength_cons, Nat.add_sub_cancel_left]
    rw [hoffset, List.cons_append, dropBytes, hrest, ih]

/-- Cutting inside the first part leaves the second as it is. -/
theorem dropBytes_append {offset : Nat} {first : List Char} (h : dropBytes offset first ≠ [])
    (second : List Char) : dropBytes offset (first ++ second) = dropBytes offset first ++ second := by
  induction first generalizing offset with
  | nil => exact absurd (by cases offset <;> rfl) h
  | cons c first ih =>
    cases offset with
    | zero => rfl
    | succ offset =>
      rw [dropBytes] at h
      rw [List.cons_append, dropBytes, dropBytes, ih h]

theorem takeBytes_zero (text : List Char) : takeBytes 0 text = [] := by
  cases text <;> rfl

/-- Cutting a text at the offset of a place gives what comes before the place. -/
theorem takeBytes_byteLength_append (first second : List Char) :
    takeBytes (byteLength first) (first ++ second) = first := by
  induction first with
  | nil => cases second <;> rfl
  | cons c first ih =>
    have hpos := c.utf8Size_pos
    obtain ⟨offset, hoffset⟩ : ∃ offset, byteLength (c :: first) = offset + 1 :=
      ⟨c.utf8Size + byteLength first - 1, by rw [byteLength_cons]; omega⟩
    have hrest : offset + 1 - c.utf8Size = byteLength first := by
      rw [← hoffset, byteLength_cons, Nat.add_sub_cancel_left]
    rw [hoffset, List.cons_append, takeBytes, hrest, ih]

/-- Of two places of a text the one with the smaller offset comes first. -/
theorem exists_eq_append_of_byteLength_le {first second first' second' : List Char}
    (h : first ++ second = first' ++ second') (hle : byteLength first ≤ byteLength first') :
    ∃ middle, first' = first ++ middle ∧ second = middle ++ second' := by
  rcases List.append_eq_append_iff.mp h with ⟨middle, rfl, rfl⟩ | ⟨middle, rfl, rfl⟩
  · exact ⟨middle, rfl, rfl⟩
  · rw [byteLength_append] at hle
    have hmiddle : middle = [] := byteLength_eq_zero.mp (by omega)
    subst hmiddle
    exact ⟨[], by simp, by simp⟩

/-- A place of a text is determined by its offset. -/
theorem append_inj_of_byteLength {first second first' second' : List Char}
    (h : first ++ second = first' ++ second') (hlength : byteLength first = byteLength first') :
    first = first' ∧ second = second' := by
  obtain ⟨middle, rfl, rfl⟩ := exists_eq_append_of_byteLength_le h (Nat.le_of_eq hlength)
  rw [byteLength_append] at hlength
  have hmiddle : middle = [] := byteLength_eq_zero.mp (by omega)
  subst hmiddle
  exact ⟨by simp, by simp⟩

theorem append_eq_append_iff_of_byteLength {first second first' second' : List Char}
    (hlength : byteLength first = byteLength first') :
    first ++ second = first' ++ second' ↔ first = first' ∧ second = second' := by
  constructor
  · exact fun h ↦ append_inj_of_byteLength h hlength
  · rintro ⟨rfl, rfl⟩
    rfl

/-- An offset of a text that belongs to a place: it is not past the end of the text and does not
fall inside a character. -/
def IsPlace (text : List Char) (offset : Nat) : Prop :=
  ∃ before after, text = before ++ after ∧ byteLength before = offset

/-- No place of a text falls inside a character. -/
theorem not_byteLength_between {first second first' second' : List Char} {c : Char}
    (h : first ++ second = first' ++ c :: second') (hafter : byteLength first' < byteLength first) :
    byteLength first' + c.utf8Size ≤ byteLength first := by
  obtain ⟨middle, rfl, hmiddle⟩ := exists_eq_append_of_byteLength_le h.symm (Nat.le_of_lt hafter)
  cases middle with
  | nil => simp at hafter
  | cons d middle =>
    obtain ⟨rfl, -⟩ := List.cons.inj hmiddle
    rw [byteLength_append, byteLength_cons]
    omega

end CalculatorCatalog.Text
