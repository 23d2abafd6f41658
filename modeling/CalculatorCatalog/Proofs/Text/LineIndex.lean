import CalculatorCatalog.Proofs.Text.Slice
import CalculatorCatalog.Source
import Mathlib.Data.List.TakeWhile

/-!
# Lines and columns from an index

A program that turns many offsets of one text into lines and columns first lists the offsets at
which the lines begin and then looks an offset up in that list. `excerptByLines?` is this
computation with its offsets checked. At a place of the text it succeeds and gives the place that
`excerptBetween` describes (`excerptByLines?_append`), which is the line and the column that a
reader counts (`isLocationAt_excerptBetween`).
-/

set_option autoImplicit false
set_option relaxedAutoImplicit false

namespace CalculatorCatalog.Source

open CalculatorCatalog.Text

/-! ### The index -/

/-- The offsets after the line breaks of a text that begins at `offset`. -/
def lineStartsFrom (offset : Nat) : List Char → List Nat
  | [] => []
  | c :: text =>
    if c = '\n' then (offset + 1) :: lineStartsFrom (offset + 1) text
    else lineStartsFrom (offset + c.utf8Size) text

/-- The offsets at which the lines of a text begin. -/
def lineStarts (text : List Char) : List Nat :=
  0 :: lineStartsFrom 0 text

/-- The number of the line that an offset is on: the place of the offset in the index if a line
begins there, and otherwise the number of lines that begin before it. -/
def lineOf (starts : List Nat) (offset : Nat) : Nat :=
  match starts.findIdx? (· = offset) with
  | some index => index + 1
  | none => starts.countP (· < offset)

/-- The offset at which the line with the given number ends, its line break apart, in a text of the
given length. -/
def lineStop? (starts : List Nat) (number length : Nat) : Option Nat :=
  match starts[number]? with
  | some next => difference? next 1
  | none => some length

/-- The place at an offset, found in the index of lines. -/
def excerptByLines? (file : String) (text : List Char) (offset : Nat) : Option Excerpt := do
  let starts := lineStarts text
  let number := lineOf starts offset
  let index ← difference? number 1
  let start ← starts[index]?
  let stop ← lineStop? starts number (byteLength text)
  let line ← slice? start stop text
  let passed ← slice? start offset text
  return ⟨⟨file, number, passed.length + 1⟩, String.ofList (trimReturns line)⟩

theorem lineStartsFrom_append (offset : Nat) (first second : List Char) :
    lineStartsFrom offset (first ++ second) =
      lineStartsFrom offset first ++ lineStartsFrom (offset + byteLength first) second := by
  induction first generalizing offset with
  | nil => rfl
  | cons c first ih =>
    rw [List.cons_append, lineStartsFrom, lineStartsFrom, byteLength_cons, ← Nat.add_assoc]
    split_ifs with hc
    · subst hc
      rw [ih, List.cons_append]
      rfl
    · rw [ih]

theorem lineStartsFrom_eq_nil {text : List Char} (h : '\n' ∉ text) (offset : Nat) :
    lineStartsFrom offset text = [] := by
  induction text generalizing offset with
  | nil => rfl
  | cons c text ih =>
    rw [List.mem_cons, not_or] at h
    rw [lineStartsFrom, if_neg (Ne.symm h.1), ih h.2]

theorem bounds_of_mem_lineStartsFrom {offset start : Nat} {text : List Char}
    (h : start ∈ lineStartsFrom offset text) :
    offset < start ∧ start ≤ offset + byteLength text := by
  induction text generalizing offset with
  | nil => cases h
  | cons c text ih =>
    rw [lineStartsFrom] at h
    rw [byteLength_cons]
    split_ifs at h with hc
    · subst hc
      have hsize : ('\n').utf8Size = 1 := rfl
      rcases List.mem_cons.mp h with rfl | hlater
      · omega
      · have hbounds := ih hlater
        omega
    · have hbounds := ih h
      have hpos := c.utf8Size_pos
      omega

theorem length_lineStartsFrom (offset : Nat) (text : List Char) :
    (lineStartsFrom offset text).length = text.count '\n' := by
  induction text generalizing offset with
  | nil => rfl
  | cons c text ih =>
    rw [lineStartsFrom, List.count_cons]
    split_ifs with hc heq heq
    · rw [List.length_cons, ih]
    · exact absurd (beq_iff_eq.mpr hc) heq
    · exact absurd (beq_iff_eq.mp heq) hc
    · rw [ih, Nat.add_zero]

/-! ### The line before a place -/

/-- Whole lines: the empty text, or a text that ends with a line break. -/
def AreLines (text : List Char) : Prop :=
  text = [] ∨ text.getLast? = some '\n'

/-- The rest of a line ends with the text or at a line break. -/
theorem exists_restOfLine (text : List Char) :
    ∃ tail, text = text.takeWhile (· != '\n') ++ tail ∧ '\n' ∉ text.takeWhile (· != '\n') ∧
      (tail = [] ∨ ∃ rest, tail = '\n' :: rest) := by
  refine ⟨text.dropWhile (· != '\n'), List.takeWhile_append_dropWhile.symm, fun hmem ↦ ?_, ?_⟩
  · simpa using List.mem_takeWhile_imp hmem
  · cases hrest : text.dropWhile (· != '\n') with
    | nil => exact .inl rfl
    | cons c rest =>
      have hhead := List.head?_dropWhile_not (· != '\n') text
      rw [hrest] at hhead
      obtain rfl : c = '\n' := by simpa using hhead
      exact .inr ⟨rest, rfl⟩

/-- A text is divided into whole lines and the part of a line that it ends with. -/
theorem exists_lines (text : List Char) :
    ∃ lines, text = lines ++ openLine text ∧ AreLines lines ∧ '\n' ∉ openLine text := by
  obtain ⟨tail, htext, hline, htail⟩ := exists_restOfLine text.reverse
  refine ⟨tail.reverse, ?_, ?_, ?_⟩
  · rw [openLine, ← List.reverse_append, ← htext, List.reverse_reverse]
  · obtain rfl | ⟨rest, rfl⟩ := htail
    · exact .inl rfl
    · exact .inr (by simp)
  · rwa [openLine, List.mem_reverse]

/-- The place of an offset as a reader counts it: one more than the lines before it, and one more
than the characters before it on its line. -/
def IsLocationAt (file : String) (text : List Char) (offset : Nat) (location : Location) : Prop :=
  ∃ lines line after, text = lines ++ (line ++ after) ∧
    byteLength lines + byteLength line = offset ∧ AreLines lines ∧ '\n' ∉ line ∧
    location = ⟨file, 1 + lines.count '\n', 1 + line.length⟩

theorem isLocationAt_excerptBetween (file : String) (before after : List Char) :
    IsLocationAt file (before ++ after) (byteLength before)
      (excerptBetween file before after).location := by
  obtain ⟨lines, hbefore, hlines, hline⟩ := exists_lines before
  refine ⟨lines, openLine before, after, ?_, ?_, hlines, hline, ?_⟩
  · rw [← List.append_assoc, ← hbefore]
  · rw [← byteLength_append, ← hbefore]
  · have hcount : before.count '\n' = lines.count '\n' := by
      conv_lhs => rw [hbefore]
      rw [List.count_append, List.count_eq_zero_of_not_mem hline, Nat.add_zero]
    rw [excerptBetween, hcount]

/-- The last line that begins in whole lines begins at their end. -/
theorem exists_lineStarts_eq {lines : List Char} (h : AreLines lines) :
    ∃ earlier, lineStarts lines = earlier ++ [byteLength lines] ∧
      (∀ start ∈ earlier, start < byteLength lines) ∧ earlier.length = lines.count '\n' := by
  rcases h with rfl | hlast
  · exact ⟨[], rfl, by simp, rfl⟩
  · obtain ⟨init, rfl⟩ := List.getLast?_eq_some_iff.mp hlast
    have hlength : byteLength (init ++ ['\n']) = byteLength init + 1 := byteLength_concat init '\n'
    refine ⟨0 :: lineStartsFrom 0 init, ?_, ?_, ?_⟩
    · rw [lineStarts, lineStartsFrom_append, hlength, Nat.zero_add]
      rfl
    · rw [hlength, List.forall_mem_cons]
      refine ⟨Nat.succ_pos _, fun start hstart ↦ ?_⟩
      have hbounds := (bounds_of_mem_lineStartsFrom hstart).2
      omega
    · rw [List.length_cons, length_lineStartsFrom, List.count_append, List.count_singleton_self]

/-! ### Looking a place up -/

section Lookup

variable {lines line after : List Char}

/-- The index of a text, divided at the line that a place is on. -/
theorem exists_lineStarts_append (h : AreLines lines) (hline : '\n' ∉ line) (after : List Char) :
    ∃ earlier, lineStarts (lines ++ line ++ after) =
        earlier ++ byteLength lines :: lineStartsFrom (byteLength (lines ++ line)) after ∧
      (∀ start ∈ earlier, start < byteLength lines) ∧ earlier.length = lines.count '\n' := by
  obtain ⟨earlier, hstarts, hbefore, hlength⟩ := exists_lineStarts_eq h
  refine ⟨earlier, ?_, hbefore, hlength⟩
  rw [lineStarts, List.append_assoc, lineStartsFrom_append, lineStartsFrom_append,
    lineStartsFrom_eq_nil hline, List.nil_append, ← List.cons_append, ← lineStarts, hstarts,
    List.append_assoc, List.singleton_append, Nat.zero_add, byteLength_append]

/-- A place is on the last line that begins at it or before. -/
theorem lineOf_append {earlier later : List Nat} {start offset : Nat}
    (hearlier : ∀ other ∈ earlier, other < start) (hstart : start ≤ offset)
    (hlater : ∀ other ∈ later, offset < other) :
    lineOf (earlier ++ start :: later) offset = earlier.length + 1 := by
  have hne : ∀ other ∈ earlier, ¬decide (other = offset) = true := by
    intro other hother heq
    have hlt := hearlier other hother
    have heq := of_decide_eq_true heq
    omega
  rw [lineOf, List.findIdx?_append, List.findIdx?_eq_none_iff.mpr (by simpa using hne),
    Option.none_or, List.findIdx?_cons]
  by_cases heq : start = offset
  · simp [heq]
  · have hnone : later.findIdx? (· = offset) = none := by
      rw [List.findIdx?_eq_none_iff]
      intro other hother
      have hlt := hlater other hother
      simp only [decide_eq_false_iff_not]
      omega
    have hall : earlier.countP (· < offset) = earlier.length := by
      rw [List.countP_eq_length]
      intro other hother
      have hlt := hearlier other hother
      simp only [decide_eq_true_eq]
      omega
    have hafter : later.countP (· < offset) = 0 := by
      rw [List.countP_eq_zero]
      intro other hother
      have hlt := hlater other hother
      simp only [decide_eq_true_eq]
      omega
    have hbegins : start < offset := by omega
    simp [heq, hnone, hall, hafter, hbegins]

/-- A line ends where the next one begins, its line break apart. -/
theorem lineStop?_append {rest tail : List Char} (hrest : '\n' ∉ rest)
    (htail : tail = [] ∨ ∃ later, tail = '\n' :: later) (earlier : List Nat) (start offset : Nat) :
    lineStop? (earlier ++ start :: lineStartsFrom offset (rest ++ tail)) (earlier.length + 1)
      (offset + byteLength (rest ++ tail)) = some (offset + byteLength rest) := by
  have hnext : (earlier ++ start :: lineStartsFrom offset (rest ++ tail))[earlier.length + 1]? =
      (lineStartsFrom (offset + byteLength rest) tail)[0]? := by
    rw [List.getElem?_append_right (Nat.le_succ _), Nat.succ_sub (Nat.le_refl _), Nat.sub_self,
      List.getElem?_cons_succ, lineStartsFrom_append, lineStartsFrom_eq_nil hrest, List.nil_append]
  rw [lineStop?, hnext]
  obtain rfl | ⟨later, rfl⟩ := htail
  · rw [List.append_nil]
    rfl
  · rw [lineStartsFrom, if_pos rfl]
    exact if_pos (Nat.succ_pos _)

/-- At a place of a text the index gives the place. -/
theorem excerptByLines?_append (file : String) (before after : List Char) :
    excerptByLines? file (before ++ after) (byteLength before) =
      some (excerptBetween file before after) := by
  obtain ⟨lines, hbefore, hlines, hline⟩ := exists_lines before
  obtain ⟨tail, hafter, hrest, htail⟩ := exists_restOfLine after
  generalize hopen : openLine before = line at hbefore hline
  generalize hshown : after.takeWhile (· != '\n') = rest at hafter hrest
  subst hbefore
  subst hafter
  obtain ⟨earlier, hstarts, hearlier, hlength⟩ := exists_lineStarts_append hlines hline
    (rest ++ tail)
  have hnumber : lineOf (earlier ++ byteLength lines ::
      lineStartsFrom (byteLength (lines ++ line)) (rest ++ tail)) (byteLength (lines ++ line)) =
        earlier.length + 1 := by
    refine lineOf_append hearlier ?_ fun other hother ↦ (bounds_of_mem_lineStartsFrom hother).1
    rw [byteLength_append]
    exact Nat.le_add_right _ _
  have hindex : difference? (earlier.length + 1) 1 = some earlier.length :=
    if_pos (Nat.succ_pos _)
  have hcount : (lines ++ line).count '\n' = earlier.length := by
    rw [List.count_append, List.count_eq_zero_of_not_mem hline, hlength, Nat.add_zero]
  have htext : lines ++ line ++ (rest ++ tail) = lines ++ ((line ++ rest) ++ tail) := by simp
  have hline : slice? (byteLength lines) (byteLength (lines ++ line) + byteLength rest)
      (lines ++ line ++ (rest ++ tail)) = some (line ++ rest) := by
    rw [htext, byteLength_append, Nat.add_assoc, ← byteLength_append line]
    exact slice?_append _ _ _
  have hpassed : slice? (byteLength lines) (byteLength (lines ++ line))
      (lines ++ line ++ (rest ++ tail)) = some line := by
    rw [byteLength_append, List.append_assoc]
    exact slice?_append _ _ _
  rw [excerptByLines?]
  simp only [hstarts, hnumber, hindex, Option.bind_eq_bind, Option.bind_some,
    List.getElem?_append_right (Nat.le_refl earlier.length), Nat.sub_self,
    List.getElem?_cons_zero, byteLength_append _ (rest ++ tail), lineStop?_append hrest htail,
    hline, hpassed]
  rw [excerptBetween, hopen, hshown, hcount, Nat.add_comm 1, Nat.add_comm 1]
  rfl

end Lookup

end CalculatorCatalog.Source
