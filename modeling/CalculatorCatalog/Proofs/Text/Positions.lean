import CalculatorCatalog.Proofs.Text.LineIndex
import Mathlib.Data.List.DropRight

/-!
# Positions

Where a place of a text is shown to stand, and what is shown of it, is determined by how the place
divides the text (`LineAt`): whole lines before it, the two parts of its own line, and what comes
behind that line. `IsExcerptAt` reads the line, the column and the shown text off this division, and
`excerptByLines?_exact` says that exactly this is found, at the offsets of places and at no others.

A line is looked up in the index by halving (`lineBySearch`). Positions are ordered by line and then
by column, and this is the order of the offsets (`lt_iff_lex_position`); so an offset can be told
from its position.
-/

set_option autoImplicit false
set_option relaxedAutoImplicit false

namespace CalculatorCatalog

open CalculatorCatalog.Text

/-- The line and the column of a location. -/
def Location.position (location : Location) : Nat × Nat :=
  (location.line, location.column)

namespace Source

/-! ### Looking up a line by halving -/

/-- The index to which a search among `size` ascending offsets, from the index `base` on, comes
down. Each step gives up the half that does not hold the last one that is not past `offset`. -/
def lastFrom (starts : List Nat) (offset base size : Nat) : Nat :=
  if size ≤ 1 then base
  else if starts[base + size / 2]?.any (· ≤ offset) then
    lastFrom starts offset (base + size / 2) (size - size / 2)
  else lastFrom starts offset base (size - size / 2)
termination_by size

/-- The index of an offset in an ascending list, or else the index at which it is missing. -/
def search (starts : List Nat) (offset : Nat) : Except Nat Nat :=
  let index := lastFrom starts offset 0 starts.length
  if starts[index]? = some offset then .ok index
  else if starts[index]?.any (· < offset) then .error (index + 1)
  else .error index

/-- The number of the line that an offset is on, looked up by halving. -/
def lineBySearch (starts : List Nat) (offset : Nat) : Nat :=
  match search starts offset with
  | .ok index => index + 1
  | .error index => index

theorem pairwise_lineStartsFrom (offset : Nat) (text : List Char) :
    (lineStartsFrom offset text).Pairwise (· < ·) := by
  induction text generalizing offset with
  | nil => exact .nil
  | cons c text ih =>
    rw [lineStartsFrom]
    split_ifs
    · exact .cons (fun start hstart ↦ (bounds_of_mem_lineStartsFrom hstart).1) (ih _)
    · exact ih _

/-- The offsets at which lines begin ascend. -/
theorem pairwise_lineStarts (text : List Char) : (lineStarts text).Pairwise (· < ·) :=
  .cons (fun _ hstart ↦ (bounds_of_mem_lineStartsFrom hstart).1) (pairwise_lineStartsFrom 0 text)

/-- The search comes down to the last offset that is not past the one that is searched for, if the
first one is not past it. -/
theorem exists_lastFrom {starts : List Nat} {offset base size : Nat}
    (hsorted : starts.Pairwise (· < ·)) (hsize : 0 < size) (hbound : base + size ≤ starts.length)
    (hbase : ∃ start, starts[base]? = some start ∧ start ≤ offset)
    (hafter : ∀ index start, base + size ≤ index → starts[index]? = some start → offset < start) :
    ∃ start, starts[lastFrom starts offset base size]? = some start ∧ start ≤ offset ∧
      ∀ index later, lastFrom starts offset base size < index → starts[index]? = some later →
        offset < later := by
  fun_induction lastFrom starts offset base size with
  | case1 base size hone =>
    obtain ⟨start, hstart, hle⟩ := hbase
    exact ⟨start, hstart, hle, fun index later hindex ↦ hafter index later (by omega)⟩
  | case2 base size hmany hhalf ih =>
    refine ih (by omega) (by omega) ?_ fun index start hindex ↦ hafter index start (by omega)
    simpa [Option.any_eq_true] using hhalf
  | case3 base size hmany hhalf ih =>
    refine ih (by omega) (by omega) hbase fun index start hindex hstart ↦ ?_
    -- Past the middle everything is at least as large as what stands in the middle.
    have hmiddle : base + size / 2 < starts.length := by omega
    have hlarge : offset < starts[base + size / 2] := by
      simpa [List.getElem?_eq_getElem hmiddle] using hhalf
    obtain ⟨hlength, rfl⟩ := List.getElem?_eq_some_iff.mp hstart
    rcases Nat.eq_or_lt_of_le (show base + size / 2 ≤ index by omega) with rfl | hlt
    · exact hlarge
    · exact Nat.lt_trans hlarge (List.pairwise_iff_getElem.mp hsorted _ _ hmiddle hlength hlt)

/-- Looking up by halving finds the line of an offset that is not before the first one. -/
theorem lineBySearch_eq {starts : List Nat} {offset : Nat} (hsorted : starts.Pairwise (· < ·))
    (hfirst : ∃ start, starts[0]? = some start ∧ start ≤ offset) :
    lineBySearch starts offset = lineOf starts offset := by
  have hsize : 0 < starts.length := by
    obtain ⟨start, hstart, -⟩ := hfirst
    exact (List.getElem?_eq_some_iff.mp hstart).1
  obtain ⟨start, hstart, hle, hafter⟩ := exists_lastFrom hsorted hsize
    (Nat.le_of_eq (Nat.zero_add starts.length)) hfirst fun index later hindex hlater ↦ by
      obtain ⟨hlength, -⟩ := List.getElem?_eq_some_iff.mp hlater
      omega
  have hnumber : lineBySearch starts offset = lastFrom starts offset 0 starts.length + 1 := by
    rcases Nat.eq_or_lt_of_le hle with rfl | hlt
    · simp only [lineBySearch, search, hstart, if_true]
    · simp [lineBySearch, search, hstart, hlt, Nat.ne_of_lt hlt]
  generalize lastFrom starts offset 0 starts.length = index at *
  obtain ⟨hlength, rfl⟩ := List.getElem?_eq_some_iff.mp hstart
  have hsplit : starts = starts.take index ++ starts[index] :: starts.drop (index + 1) := by
    rw [← List.drop_eq_getElem_cons hlength, List.take_append_drop]
  have hearlier : ∀ other ∈ starts.take index, other < starts[index] := by
    rw [hsplit, List.pairwise_append] at hsorted
    exact fun other hother ↦ hsorted.2.2 other hother _ List.mem_cons_self
  have hlater : ∀ other ∈ starts.drop (index + 1), offset < other := by
    intro other hother
    obtain ⟨place, hplace, rfl⟩ := List.mem_iff_getElem.mp hother
    refine hafter (index + 1 + place) _ (by omega) ?_
    rw [List.getElem_drop, List.getElem?_eq_getElem]
  have hline := lineOf_append hearlier hle hlater
  rw [← hsplit, List.length_take_of_le (Nat.le_of_lt hlength)] at hline
  exact hnumber.trans hline.symm

/-- In the index of a text every offset is found on its line. -/
theorem lineBySearch_lineStarts (text : List Char) (offset : Nat) :
    lineBySearch (lineStarts text) offset = lineOf (lineStarts text) offset :=
  lineBySearch_eq (pairwise_lineStarts text) ⟨0, rfl, Nat.zero_le offset⟩

/-! ### The line around a place -/

/-- A place of a text with the line that it is on: whole lines before that line, the parts of the
line before and behind the place, and what comes behind the line. -/
structure LineAt (text : List Char) (offset : Nat) where
  lines : List Char
  line : List Char
  rest : List Char
  tail : List Char
  text_eq : text = lines ++ line ++ (rest ++ tail)
  offset_eq : byteLength (lines ++ line) = offset
  areLines : AreLines lines
  notMem_line : '\n' ∉ line
  notMem_rest : '\n' ∉ rest
  tail_eq : tail = [] ∨ ∃ later, tail = '\n' :: later

/-- A line as it is shown: without the carriage returns at its end. -/
def IsShownAs (line : List Char) (shown : String) : Prop :=
  ∃ count, line = shown.toList ++ List.replicate count '\r' ∧ shown.toList.getLast? ≠ some '\r'

/-- What is shown of an offset of a text. The line is one more than the line breaks before the
offset, the column one more than the characters from the last of them on. -/
def IsExcerptAt (file : String) (text : List Char) (offset : Nat) (excerpt : Excerpt) : Prop :=
  ∃ place : LineAt text offset,
    excerpt.location = ⟨file, 1 + (place.lines ++ place.line).count '\n', 1 + place.line.length⟩ ∧
      IsShownAs (place.line ++ place.rest) excerpt.sourceLine

/-- Every place of a text is on a line. -/
theorem exists_lineAt (before after : List Char) :
    ∃ place : LineAt (before ++ after) (byteLength before),
      before = place.lines ++ place.line ∧ after = place.rest ++ place.tail := by
  obtain ⟨lines, hbefore, hlines, hline⟩ := exists_lines before
  obtain ⟨tail, hafter, hrest, htail⟩ := exists_restOfLine after
  refine ⟨⟨lines, openLine before, after.takeWhile (· != '\n'), tail, ?_, ?_, hlines, hline, hrest,
    htail⟩, hbefore, hafter⟩
  · rw [← hbefore, ← hafter]
  · rw [← hbefore]

theorem takeWhile_append_of_lineBreak {line tail : List Char} (hline : '\n' ∉ line)
    (htail : tail = [] ∨ ∃ later, tail = '\n' :: later) :
    (line ++ tail).takeWhile (· != '\n') = line := by
  have hall : ∀ c ∈ line, (c != '\n') = true := by
    intro c hc
    simpa using fun heq : c = '\n' ↦ hline (heq ▸ hc)
  rw [List.takeWhile_append_of_pos hall]
  obtain rfl | ⟨later, rfl⟩ := htail
  · exact List.append_nil line
  · exact List.append_nil line

/-- Behind whole lines, the last line of a text is open. -/
theorem openLine_append {lines line : List Char} (hlines : AreLines lines) (hline : '\n' ∉ line) :
    openLine (lines ++ line) = line := by
  have hreverse : lines.reverse = [] ∨ ∃ later, lines.reverse = '\n' :: later := by
    rcases hlines with rfl | hlast
    · exact .inl rfl
    · obtain ⟨init, rfl⟩ := List.getLast?_eq_some_iff.mp hlast
      exact .inr ⟨init.reverse, by simp⟩
  have hstop := takeWhile_append_of_lineBreak (List.mem_reverse.not.mpr hline) hreverse
  rw [openLine, List.reverse_append, hstop, List.reverse_reverse]

theorem trimReturns_append {shown : List Char} (hlast : shown.getLast? ≠ some '\r') (count : Nat) :
    trimReturns (shown ++ List.replicate count '\r') = shown := by
  change (shown ++ List.replicate count '\r').rdropWhile (· == '\r') = shown
  induction count with
  | zero =>
    rw [List.replicate_zero, List.append_nil, List.rdropWhile_eq_self_iff]
    intro hne hreturn
    rw [List.getLast?_eq_some_getLast hne, beq_iff_eq.mp hreturn] at hlast
    exact hlast rfl
  | succ count ih =>
    rw [List.replicate_succ', ← List.append_assoc, List.rdropWhile_concat_pos _ _ _ (by rfl), ih]

/-- Every line ends in a number of carriage returns behind something else. -/
theorem exists_returns (line : List Char) :
    ∃ shown count, line = shown ++ List.replicate count '\r' ∧ shown.getLast? ≠ some '\r' := by
  induction line using List.reverseRecOn with
  | nil => exact ⟨[], 0, rfl, by simp⟩
  | append_singleton init c ih =>
    by_cases hc : c = '\r'
    · obtain ⟨shown, count, rfl, hlast⟩ := ih
      refine ⟨shown, count + 1, ?_, hlast⟩
      rw [hc, List.append_assoc, ← List.replicate_succ']
    · exact ⟨init ++ [c], 0, by simp, by simpa using hc⟩

/-- A line is shown without the carriage returns at its end, and in no other way. -/
theorem isShownAs_iff {line : List Char} {shown : String} :
    IsShownAs line shown ↔ shown = String.ofList (trimReturns line) := by
  constructor
  · rintro ⟨count, rfl, hlast⟩
    rw [trimReturns_append hlast, String.ofList_toList]
  · rintro rfl
    obtain ⟨shown, count, rfl, hlast⟩ := exists_returns line
    rw [trimReturns_append hlast]
    exact ⟨count, by rw [String.toList_ofList], by rwa [String.toList_ofList]⟩

namespace LineAt

variable {text : List Char} {offset : Nat}

/-- The excerpt at a place is read off the line around it. -/
theorem excerptBetween_eq (place : LineAt text offset) (file : String) :
    excerptBetween file (place.lines ++ place.line) (place.rest ++ place.tail) =
      ⟨⟨file, 1 + (place.lines ++ place.line).count '\n', 1 + place.line.length⟩,
        String.ofList (trimReturns (place.line ++ place.rest))⟩ := by
  rw [excerptBetween, openLine_append place.areLines place.notMem_line,
    takeWhile_append_of_lineBreak place.notMem_rest place.tail_eq]

theorem excerptAt?_eq (place : LineAt text offset) (file : String) :
    excerptAt? file text offset =
      some (excerptBetween file (place.lines ++ place.line) (place.rest ++ place.tail)) := by
  rw [excerptAt?, splitBytes?_eq_some_iff.mpr ⟨place.text_eq, place.offset_eq⟩, Option.map_some]

end LineAt

/-- What is found at an offset is what is to be shown of it. -/
theorem excerptAt?_eq_some_iff {file : String} {text : List Char} {offset : Nat}
    {excerpt : Excerpt} :
    excerptAt? file text offset = some excerpt ↔ IsExcerptAt file text offset excerpt := by
  constructor
  · intro h
    obtain ⟨⟨before, after⟩, hsplit, -⟩ := Option.map_eq_some_iff.mp h
    obtain ⟨rfl, rfl⟩ := splitBytes?_eq_some_iff.mp hsplit
    obtain ⟨place, -, -⟩ := exists_lineAt before after
    rw [place.excerptAt?_eq, place.excerptBetween_eq] at h
    obtain rfl := Option.some.inj h
    exact ⟨place, rfl, isShownAs_iff.mpr rfl⟩
  · rintro ⟨place, hlocation, hshown⟩
    rw [place.excerptAt?_eq, place.excerptBetween_eq, ← hlocation, ← isShownAs_iff.mp hshown]

/-- Something is found at the offsets of places and at no others. -/
theorem exists_excerptAt?_iff {file : String} {text : List Char} {offset : Nat} :
    (∃ excerpt, excerptAt? file text offset = some excerpt) ↔ IsPlace text offset := by
  constructor
  · rintro ⟨excerpt, h⟩
    obtain ⟨place, -, -⟩ := excerptAt?_eq_some_iff.mp h
    exact ⟨_, _, place.text_eq, place.offset_eq⟩
  · rintro ⟨before, after, rfl, rfl⟩
    exact ⟨_, by rw [excerptAt?, splitBytes?_append, Option.map_some]⟩

/-- The index answers where there is something to find, and gives it. -/
theorem excerptByLines?_eq (file : String) (text : List Char) (offset : Nat) :
    excerptByLines? file text offset = excerptAt? file text offset := by
  cases hsplit : splitBytes? offset text with
  | some parts =>
    obtain ⟨rfl, rfl⟩ := splitBytes?_eq_some_iff.mp hsplit
    rw [excerptByLines?_append, excerptAt?, hsplit, Option.map_some]
  | none =>
    rw [excerptAt?, hsplit, Option.map_none, Option.eq_none_iff_forall_ne_some]
    intro excerpt h
    simp only [excerptByLines?, Option.bind_eq_bind, Option.bind_eq_some_iff] at h
    obtain ⟨_, -, start, -, _, -, _, -, passed, hpassed, -⟩ := h
    obtain ⟨before, after, htext, -, hoffset⟩ := slice?_eq_some_iff.mp hpassed
    rw [← List.append_assoc] at htext
    rw [splitBytes?_eq_some_iff.mpr ⟨htext, hoffset⟩] at hsplit
    cases hsplit

/-! ### The order of positions -/

/-- A later place is on a later line, or further right on the same line. -/
theorem lex_of_lt {text : List Char} {offset offset' : Nat} (place : LineAt text offset)
    (place' : LineAt text offset') (h : offset < offset') :
    Prod.Lex (· < ·) (· < ·)
      (1 + (place.lines ++ place.line).count '\n', 1 + place.line.length)
      (1 + (place'.lines ++ place'.line).count '\n', 1 + place'.line.length) := by
  have hoffsets : byteLength (place.lines ++ place.line) <
      byteLength (place'.lines ++ place'.line) := by
    rwa [place.offset_eq, place'.offset_eq]
  obtain ⟨middle, hmiddle, -⟩ := exists_eq_append_of_byteLength_le
    (place.text_eq.symm.trans place'.text_eq) (Nat.le_of_lt hoffsets)
  have hcount : (place'.lines ++ place'.line).count '\n' =
      (place.lines ++ place.line).count '\n' + middle.count '\n' := by
    rw [hmiddle]
    exact List.count_append
  rw [Prod.lex_def, hcount]
  by_cases hbreak : '\n' ∈ middle
  · have hpos : 0 < middle.count '\n' := List.count_pos_iff.mpr hbreak
    exact .inl (by omega)
  · have hline : place'.line = place.line ++ middle := by
      have hopen : '\n' ∉ place.line ++ middle := by
        rw [List.mem_append, not_or]
        exact ⟨place.notMem_line, hbreak⟩
      rw [← openLine_append place'.areLines place'.notMem_line, hmiddle, List.append_assoc,
        openLine_append place.areLines hopen]
    have hlength : 0 < middle.length := by
      rw [List.length_pos_iff]
      rintro rfl
      rw [hmiddle, List.append_nil] at hoffsets
      exact Nat.lt_irrefl _ hoffsets
    refine .inr ⟨?_, ?_⟩
    · rw [List.count_eq_zero_of_not_mem hbreak, Nat.add_zero]
    · rw [hline, List.length_append]
      omega

/-- Offsets are ordered as their positions are. -/
theorem lt_iff_lex_position {file : String} {text : List Char} {offset offset' : Nat}
    {excerpt excerpt' : Excerpt} (h : excerptAt? file text offset = some excerpt)
    (h' : excerptAt? file text offset' = some excerpt') :
    offset < offset' ↔
      Prod.Lex (· < ·) (· < ·) excerpt.location.position excerpt'.location.position := by
  obtain ⟨place, hlocation, -⟩ := excerptAt?_eq_some_iff.mp h
  obtain ⟨place', hlocation', -⟩ := excerptAt?_eq_some_iff.mp h'
  constructor
  · intro hlt
    rw [hlocation, hlocation']
    exact lex_of_lt place place' hlt
  · intro hlex
    rcases Nat.lt_trichotomy offset offset' with hlt | rfl | hlt
    · exact hlt
    · obtain rfl := Option.some.inj (h.symm.trans h')
      rw [Prod.lex_def] at hlex
      omega
    · have hback := lex_of_lt place' place hlt
      rw [hlocation, hlocation', Prod.lex_def] at hlex
      rw [Prod.lex_def] at hback
      simp only [Location.position] at hlex hback
      omega

/-- Positions are exact and can be turned back. Looking a line up by halving finds it. Something is
found at the offsets at which a character begins or the text ends, and at no others, and no index
is out of range on the way: the line is one more than the line breaks before the offset, the column
one more than the characters from the last of them on, and the line is shown without its line break
and the carriage returns before it. A later offset has a later position, and no two offsets have the
same. -/
theorem excerptByLines?_exact (file : String) (text : List Char) :
    (∀ offset, lineBySearch (lineStarts text) offset = lineOf (lineStarts text) offset) ∧
      (∀ offset, excerptByLines? file text offset = excerptAt? file text offset) ∧
      (∀ offset, (∃ excerpt, excerptByLines? file text offset = some excerpt) ↔
        IsPlace text offset) ∧
      (∀ offset excerpt, excerptByLines? file text offset = some excerpt ↔
        IsExcerptAt file text offset excerpt) ∧
      ∀ offset offset' excerpt excerpt', excerptByLines? file text offset = some excerpt →
        excerptByLines? file text offset' = some excerpt' →
        (offset < offset' ↔
          Prod.Lex (· < ·) (· < ·) excerpt.location.position excerpt'.location.position) ∧
        (excerpt.location.position = excerpt'.location.position → offset = offset') := by
  refine ⟨lineBySearch_lineStarts text, excerptByLines?_eq file text, ?_⟩
  simp only [excerptByLines?_eq]
  refine ⟨fun _ ↦ exists_excerptAt?_iff, fun _ _ ↦ excerptAt?_eq_some_iff,
    fun offset offset' excerpt excerpt' h h' ↦ ⟨lt_iff_lex_position h h', fun heq ↦ ?_⟩⟩
  -- Neither offset is before the other, as neither position is.
  have hnot := mt (lt_iff_lex_position h h').mp
  have hnot' := mt (lt_iff_lex_position h' h).mp
  rw [heq, Prod.lex_def] at hnot hnot'
  omega

/-- Before and behind a line break with a carriage return. -/
theorem excerptByLines?_exact_returns :
    excerptByLines? "m.dart" "a\r\nж".toList 1 = some ⟨⟨"m.dart", 1, 2⟩, "a"⟩ ∧
      excerptByLines? "m.dart" "a\r\nж".toList 5 = some ⟨⟨"m.dart", 2, 2⟩, "ж"⟩ ∧
      (1 < 5 ↔ Prod.Lex (· < ·) (· < ·) (1, 2) (2, 2)) := by
  have hfirst : excerptByLines? "m.dart" "a\r\nж".toList 1 = some ⟨⟨"m.dart", 1, 2⟩, "a"⟩ := by
    decide
  have hsecond : excerptByLines? "m.dart" "a\r\nж".toList 5 = some ⟨⟨"m.dart", 2, 2⟩, "ж"⟩ := by
    decide
  exact ⟨hfirst, hsecond,
    ((excerptByLines?_exact "m.dart" "a\r\nж".toList).2.2.2.2 1 5 _ _ hfirst hsecond).1⟩

end Source

end CalculatorCatalog
