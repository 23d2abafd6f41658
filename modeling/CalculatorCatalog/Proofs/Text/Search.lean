import CalculatorCatalog.Text.Recognizer
import Mathlib.Data.List.Basic

/-!
# What recognisers read

The recognisers of `Text.Recognizer` are programs on lists of characters. This module says what the
shared ones accept, as equations between the text and what is left of it (`afterWord?_eq_some_iff`,
`afterCall?_eq_some_iff`, `afterConst?_eq_some_iff`), and how the two ways of searching behave on a
text that is put together from parts.

`Declines recognize before passed rest` says that nothing is recognised at any place inside `passed`
when `rest` comes after it. A search then passes over it (`first?_append_of_declines`). A recogniser
`StopsAt` a character that it neither reads nor looks beyond; pieces of a text fall apart at such a
character (`piecesFrom_append_barrier`).
-/

set_option autoImplicit false
set_option relaxedAutoImplicit false

namespace CalculatorCatalog.Text

variable {α : Type}

/-! ### White space -/

theorem isBlank_nil : isBlank [] = true := rfl

theorem isBlank_takeWhile (text : List Char) : isBlank (text.takeWhile isWhiteSpace) = true :=
  List.all_takeWhile

theorem takeWhile_append_skipWhite (text : List Char) :
    text.takeWhile isWhiteSpace ++ skipWhite text = text :=
  List.takeWhile_append_dropWhile

/-- White space in front of a text is passed over. -/
theorem skipWhite_append {gap : List Char} (hgap : isBlank gap = true) (text : List Char) :
    skipWhite (gap ++ text) = skipWhite text :=
  List.dropWhile_append_of_pos (List.all_eq_true.mp hgap)

theorem skipWhite_cons {c : Char} (hc : isWhiteSpace c = false) (text : List Char) :
    skipWhite (c :: text) = c :: text := by
  rw [skipWhite, List.dropWhile_cons_of_neg (by rw [hc]; exact Bool.false_ne_true)]

/-- Passing over white space goes no further than a character that is none. -/
theorem skipWhite_append_cons {c : Char} (hc : isWhiteSpace c = false) (text rest : List Char) :
    skipWhite (text ++ c :: rest) = skipWhite text ++ c :: rest := by
  induction text with
  | nil => exact skipWhite_cons hc rest
  | cons d text ih =>
    cases hd : isWhiteSpace d with
    | true =>
      have hskip (tail : List Char) : skipWhite (d :: tail) = skipWhite tail :=
        List.dropWhile_cons_of_pos hd
      rw [List.cons_append, hskip, hskip, ih]
    | false => rw [List.cons_append, skipWhite_cons hd, skipWhite_cons hd, List.cons_append]

/-! ### What the shared recognisers accept -/

theorem afterWord?_eq_some_iff {word text rest : List Char} :
    afterWord? word text = some rest ↔ text = word ++ rest := by
  induction word generalizing text with
  | nil => simp [afterWord?]
  | cons expected word ih =>
    cases text with
    | nil => simp [afterWord?]
    | cons c text =>
      rw [afterWord?]
      split_ifs with hc
      · subst hc
        simp [ih]
      · simp [hc]

@[simp] theorem afterWord?_append (word rest : List Char) :
    afterWord? word (word ++ rest) = some rest :=
  afterWord?_eq_some_iff.mpr rfl

/-- White space and then a fixed character. -/
theorem afterWord?_skipWhite_eq_some_iff {c : Char} (hc : isWhiteSpace c = false)
    {text rest : List Char} :
    afterWord? [c] (skipWhite text) = some rest ↔
      ∃ gap, isBlank gap = true ∧ text = gap ++ c :: rest := by
  rw [afterWord?_eq_some_iff]
  constructor
  · intro h
    refine ⟨text.takeWhile isWhiteSpace, isBlank_takeWhile text, ?_⟩
    have hsplit := takeWhile_append_skipWhite text
    rw [h] at hsplit
    exact hsplit.symm
  · rintro ⟨gap, hgap, rfl⟩
    rw [skipWhite_append hgap, skipWhite_cons hc]
    rfl

theorem afterCall?_eq_some_iff {constructor text rest : List Char} :
    afterCall? constructor text = some rest ↔
      ∃ gap, isBlank gap = true ∧ text = constructor ++ gap ++ '(' :: rest := by
  constructor
  · intro h
    obtain ⟨tail, hword, hrest⟩ := Option.bind_eq_some_iff.mp h
    obtain ⟨gap, hgap, rfl⟩ := (afterWord?_skipWhite_eq_some_iff (by decide)).mp hrest
    refine ⟨gap, hgap, ?_⟩
    rw [afterWord?_eq_some_iff.mp hword, List.append_assoc]
  · rintro ⟨gap, hgap, rfl⟩
    rw [afterCall?, List.append_assoc, afterWord?_append]
    exact (afterWord?_skipWhite_eq_some_iff (by decide)).mpr ⟨gap, hgap, rfl⟩

theorem afterConst?_eq_some_iff {text rest : List Char} :
    afterConst? text = some rest ↔
      ∃ c tail, isWhiteSpace c = true ∧ text = constWord ++ c :: tail ∧ rest = skipWhite tail := by
  constructor
  · intro h
    obtain ⟨after, hword, hrest⟩ := Option.bind_eq_some_iff.mp h
    cases after with
    | nil => simp at hrest
    | cons c tail =>
      rw [afterWord?_eq_some_iff] at hword
      by_cases hc : isWhiteSpace c = true
      · exact ⟨c, tail, hc, hword, by simpa [hc] using hrest.symm⟩
      · simp [hc] at hrest
  · rintro ⟨c, tail, hc, rfl, rfl⟩
    rw [afterConst?, afterWord?_append]
    simp [hc]

/-! ### Reading up to a character

A character that a reading never takes ends the text for it: what comes after is left as it is.
-/

section Barrier

variable {barrier : Char}

theorem takeWhile_append_barrier {kind : Char → Bool} (hkind : kind barrier = false)
    (text rest : List Char) : (text ++ barrier :: rest).takeWhile kind = text.takeWhile kind := by
  induction text with
  | nil => exact List.takeWhile_cons_of_neg (by simp [hkind])
  | cons c text ih =>
    rw [List.cons_append, List.takeWhile_cons, List.takeWhile_cons, ih]

theorem dropWhile_append_barrier {kind : Char → Bool} (hkind : kind barrier = false)
    (text rest : List Char) :
    (text ++ barrier :: rest).dropWhile kind = text.dropWhile kind ++ barrier :: rest := by
  induction text with
  | nil => exact List.dropWhile_cons_of_neg (by simp [hkind])
  | cons c text ih =>
    rw [List.cons_append, List.dropWhile_cons, List.dropWhile_cons, ih]
    split_ifs <;> rfl

theorem afterWord?_append_barrier {word : List Char} (hword : barrier ∉ word)
    (text rest : List Char) :
    afterWord? word (text ++ barrier :: rest) =
      (afterWord? word text).map (· ++ barrier :: rest) := by
  induction word generalizing text with
  | nil => rfl
  | cons expected word ih =>
    rw [List.mem_cons, not_or] at hword
    cases text with
    | nil => simp [afterWord?, hword.1]
    | cons c text =>
      rw [List.cons_append, afterWord?, afterWord?]
      split_ifs with hc
      · exact ih hword.2 text
      · rfl

theorem afterCall?_append_barrier {constructor : List Char} (hconstructor : barrier ∉ constructor)
    (hwhite : isWhiteSpace barrier = false) (hparen : barrier ≠ '(') (text rest : List Char) :
    afterCall? constructor (text ++ barrier :: rest) =
      (afterCall? constructor text).map (· ++ barrier :: rest) := by
  have hbracket : barrier ∉ ['('] := by simpa using hparen
  rw [afterCall?, afterCall?, afterWord?_append_barrier hconstructor]
  cases afterWord? constructor text with
  | none => rfl
  | some tail =>
    change afterWord? ['('] (skipWhite (tail ++ barrier :: rest)) =
      (afterWord? ['('] (skipWhite tail)).map (· ++ barrier :: rest)
    rw [skipWhite_append_cons hwhite, afterWord?_append_barrier hbracket]

theorem afterConst?_append_barrier (hconst : barrier ∉ constWord)
    (hwhite : isWhiteSpace barrier = false) (text rest : List Char) :
    afterConst? (text ++ barrier :: rest) = (afterConst? text).map (· ++ barrier :: rest) := by
  rw [afterConst?, afterConst?, afterWord?_append_barrier hconst]
  cases afterWord? constWord text with
  | none => rfl
  | some tail =>
    cases tail with
    | nil => simp [hwhite]
    | cons c tail =>
      by_cases hc : isWhiteSpace c = true
      · simp [hc, skipWhite_append_cons hwhite]
      · simp [hc]

end Barrier

/-! ### The character before a place -/

/-- The character before the place that is reached from a place by passing over a text. -/
def lastOr : Option Char → List Char → Option Char
  | before, [] => before
  | _, c :: passed => lastOr (some c) passed

@[simp] theorem lastOr_nil (before : Option Char) : lastOr before [] = before := rfl

@[simp] theorem lastOr_cons (before : Option Char) (c : Char) (passed : List Char) :
    lastOr before (c :: passed) = lastOr (some c) passed := rfl

@[simp] theorem lastOr_append (before : Option Char) (first second : List Char) :
    lastOr before (first ++ second) = lastOr (lastOr before first) second := by
  induction first generalizing before with
  | nil => rfl
  | cons c first ih => exact ih (some c)

theorem lastOr_eq (before : Option Char) (passed : List Char) :
    lastOr before passed = passed.getLast?.or before := by
  induction passed generalizing before with
  | nil => rfl
  | cons c passed ih =>
    rw [lastOr_cons, ih, List.getLast?_cons]
    cases passed.getLast? <;> rfl

theorem lastOr_none (passed : List Char) : lastOr none passed = passed.getLast? := by
  rw [lastOr_eq, Option.or_none]

/-! ### Searching for the first occurrence -/

/-- Nothing is recognised at any place inside `passed`, given the text that comes after it. -/
def Declines (recognize : Recognizer α) : Option Char → List Char → List Char → Prop
  | _, [], _ => True
  | before, c :: passed, rest =>
    recognize before (c :: (passed ++ rest)) = none ∧ Declines recognize (some c) passed rest

theorem declines_append {recognize : Recognizer α} {before : Option Char}
    {first second rest : List Char} :
    Declines recognize before (first ++ second) rest ↔
      Declines recognize before first (second ++ rest) ∧
        Declines recognize (lastOr before first) second rest := by
  induction first generalizing before with
  | nil => simp [Declines]
  | cons c first ih =>
    simp only [List.cons_append, Declines, List.append_assoc, lastOr_cons, ih, and_assoc]

/-- Nothing is recognised in a text if nothing is at any of its characters. -/
theorem declines_of_forall {recognize : Recognizer α} {passed : List Char}
    (h : ∀ c ∈ passed, ∀ before text, recognize before (c :: text) = none) (before : Option Char)
    (rest : List Char) : Declines recognize before passed rest := by
  induction passed generalizing before with
  | nil => exact trivial
  | cons c passed ih =>
    exact ⟨h c List.mem_cons_self before _,
      ih (fun d hd ↦ h d (List.mem_cons_of_mem c hd)) (some c)⟩

/-- A recogniser that looks for words recognises nothing inside a word. -/
theorem declines_inside_word {recognize : Recognizer α} {before : Option Char} {word : List Char}
    (h : ∀ before text, isWordAt before = true → isWordAt text.head? = true →
      recognize before text = none)
    (hbefore : isWordAt before = true) (hword : word.all isWordCharacter = true)
    (rest : List Char) : Declines recognize before word rest := by
  induction word generalizing before with
  | nil => exact trivial
  | cons c word ih =>
    rw [List.all_cons, Bool.and_eq_true] at hword
    exact ⟨h before _ hbefore hword.1, ih hword.1 hword.2⟩

/-- A recogniser that looks for words recognises nothing in a word that it declines. -/
theorem declines_word {recognize : Recognizer α} {before : Option Char} {word rest : List Char}
    (h : ∀ before text, isWordAt before = true → isWordAt text.head? = true →
      recognize before text = none)
    (hword : word.all isWordCharacter = true) (hstart : recognize before (word ++ rest) = none) :
    Declines recognize before word rest := by
  cases word with
  | nil => exact trivial
  | cons c word =>
    rw [List.all_cons, Bool.and_eq_true] at hword
    have hbefore : isWordAt (some c) = true := hword.1
    exact ⟨hstart, declines_inside_word h hbefore hword.2 rest⟩

/-- A search passes over what a recogniser declines. -/
theorem first?_append_of_declines {recognize : Recognizer α} {before : Option Char}
    {passed rest : List Char} (hpassed : Declines recognize before passed rest) :
    first? recognize before (passed ++ rest) =
      (first? recognize (lastOr before passed) rest).map fun found ↦
        { found with passed := passed ++ found.passed } := by
  induction passed generalizing before with
  | nil => cases h : first? recognize before rest <;> simp [h]
  | cons c passed ih =>
    obtain ⟨hhead, htail⟩ := hpassed
    rw [List.cons_append, first?, hhead]
    simp only [ih htail, lastOr_cons, Option.map_map]
    rfl

/-- What is recognised at once is found at once. -/
theorem first?_of_some {recognize : Recognizer α} {before : Option Char} {text rest : List Char}
    {value : α} (h : recognize before text = some (value, rest)) :
    first? recognize before text = some ⟨[], value, rest⟩ := by
  cases text with
  | nil => rw [first?, h, Option.map_some]
  | cons c text => rw [first?, h]

/-- Where a search finds nothing, nothing is recognised. -/
theorem declines_of_first?_eq_none {recognize : Recognizer α} {before : Option Char}
    {text : List Char} (h : first? recognize before text = none) :
    Declines recognize before text [] := by
  induction text generalizing before with
  | nil => exact trivial
  | cons c text ih =>
    rw [first?] at h
    split at h
    · cases h
    · rename_i hread
      rw [Option.map_eq_none_iff] at h
      exact ⟨by rw [List.append_nil, hread], ih h⟩

/-- What a search has passed over is not recognised, and what it has found is. -/
theorem exists_of_first?_eq_some {recognize : Recognizer α} {before : Option Char}
    {text : List Char} {found : Occurrence α} (h : first? recognize before text = some found) :
    ∃ after, text = found.passed ++ after ∧ Declines recognize before found.passed after ∧
      recognize (lastOr before found.passed) after = some (found.value, found.rest) := by
  induction text generalizing before found with
  | nil =>
    obtain ⟨⟨value, rest⟩, hread, rfl⟩ := Option.map_eq_some_iff.mp h
    exact ⟨[], rfl, trivial, hread⟩
  | cons c text ih =>
    rw [first?] at h
    cases hread : recognize before (c :: text) with
    | some result =>
      rw [hread] at h
      obtain rfl := Option.some.inj h
      exact ⟨c :: text, rfl, trivial, hread⟩
    | none =>
      rw [hread] at h
      obtain ⟨later, hlater, rfl⟩ := Option.map_eq_some_iff.mp h
      obtain ⟨after, rfl, hpassed, hafter⟩ := ih hlater
      exact ⟨after, rfl, ⟨hread, hpassed⟩, hafter⟩

/-- A recogniser that does not look at the character before a place finds the same whatever that
character is. -/
theorem first?_congr_before {recognize : Recognizer α}
    (h : ∀ before text, recognize before text = recognize none text) (before : Option Char)
    (text : List Char) : first? recognize before text = first? recognize none text := by
  cases text with
  | nil => rw [first?, first?, h]
  | cons c text => rw [first?, first?, h]

/-- What is found stands after what has been passed over. -/
theorem first?_eq_some {recognize : Recognizer α} {before : Option Char} {text : List Char}
    {found : Occurrence α} (h : first? recognize before text = some found) :
    ∃ after, text = found.passed ++ after ∧
      recognize (lastOr before found.passed) after = some (found.value, found.rest) := by
  obtain ⟨after, htext, -, hread⟩ := exists_of_first?_eq_some h
  exact ⟨after, htext, hread⟩

/-- Something is found exactly if it is recognised somewhere in the text. -/
theorem isSome_first?_iff {recognize : Recognizer α} (hnil : ∀ before, recognize before [] = none)
    {text : List Char} :
    (first? recognize none text).isSome = true ↔
      ∃ passed after, text = passed ++ after ∧
        (recognize passed.getLast? after).isSome = true := by
  constructor
  · intro h
    obtain ⟨found, hfound⟩ := Option.isSome_iff_exists.mp h
    obtain ⟨after, htext, hread⟩ := first?_eq_some hfound
    refine ⟨found.passed, after, htext, ?_⟩
    rw [← lastOr_none, hread]
    rfl
  · rintro ⟨passed, after, rfl, hread⟩
    by_contra hnone
    rw [Option.not_isSome_iff_eq_none] at hnone
    have hdeclines := (declines_append.mp (declines_of_first?_eq_none hnone)).2
    cases after with
    | nil =>
      rw [hnil] at hread
      cases hread
    | cons c after =>
      rw [lastOr_none, Declines, List.append_nil] at hdeclines
      rw [hdeclines.1] at hread
      cases hread

/-! ### Reading a text into pieces -/

/-- Characters that have been read already yield no pieces. -/
theorem piecesFrom_append_skip (recognize : Recognizer α) (before : Option Char)
    (passed text : List Char) (skip : Nat) :
    piecesFrom recognize (passed.length + skip) before (passed ++ text) =
      piecesFrom recognize skip (lastOr before passed) text := by
  induction passed generalizing before with
  | nil => rw [List.length_nil, Nat.zero_add, List.nil_append, lastOr_nil]
  | cons c passed ih =>
    have hlength : (c :: passed).length + skip = passed.length + skip + 1 := by
      rw [List.length_cons]
      omega
    rw [hlength, List.cons_append, piecesFrom, ih, lastOr_cons]

/-- The piece at a place where something is recognised, and the pieces after it. -/
theorem piecesFrom_of_found {recognize : Recognizer α} {before : Option Char}
    {read rest : List Char} {value : α} (hread : read ≠ [])
    (h : recognize before (read ++ rest) = some (value, rest)) :
    piecesFrom recognize 0 before (read ++ rest) =
      .found read value :: piecesFrom recognize 0 (lastOr before read) rest := by
  cases read with
  | nil => exact absurd rfl hread
  | cons c read =>
    have hskip : (read ++ rest).length - rest.length = read.length + 0 := by
      rw [List.length_append]
      omega
    have htaken : (c :: (read ++ rest)).length - rest.length = (c :: read).length := by
      simp only [List.length_cons, List.length_append]
      omega
    rw [List.cons_append] at h ⊢
    rw [piecesFrom, h]
    simp only [hskip, htaken]
    rw [piecesFrom_append_skip, lastOr_cons, ← List.cons_append, List.take_left]

/-- What a recogniser declines yields single characters. -/
theorem piecesFrom_append_of_declines {recognize : Recognizer α} {before : Option Char}
    {passed rest : List Char} (hpassed : Declines recognize before passed rest) :
    piecesFrom recognize 0 before (passed ++ rest) =
      passed.map .plain ++ piecesFrom recognize 0 (lastOr before passed) rest := by
  induction passed generalizing before with
  | nil => rfl
  | cons c passed ih =>
    obtain ⟨hhead, htail⟩ := hpassed
    rw [List.cons_append, piecesFrom, hhead, List.map_cons, List.cons_append, lastOr_cons,
      ← ih htail]

/-- A recogniser moves forward if what it leaves is a proper end of the text. -/
def MovesForward (recognize : Recognizer α) : Prop :=
  ∀ before text value rest, recognize before text = some (value, rest) →
    ∃ c read, text = c :: (read ++ rest)

/-- The pieces of a text cover it. -/
theorem flatMap_source_piecesFrom {recognize : Recognizer α} (hforward : MovesForward recognize)
    (skip : Nat) (before : Option Char) (text : List Char) :
    (piecesFrom recognize skip before text).flatMap Piece.source = text.drop skip := by
  induction text generalizing skip before with
  | nil => simp [piecesFrom]
  | cons c text ih =>
    cases skip with
    | succ skip => exact ih skip (some c)
    | zero =>
      rw [piecesFrom]
      cases hread : recognize before (c :: text) with
      | none => simpa [Piece.source] using ih 0 (some c)
      | some result =>
        obtain ⟨value, rest⟩ := result
        obtain ⟨d, read, heq⟩ := hforward before (c :: text) value rest hread
        obtain ⟨rfl, rfl⟩ := List.cons.inj heq
        have hskip : (read ++ rest).length - rest.length = read.length := by
          rw [List.length_append]
          omega
        have htaken : (c :: (read ++ rest)).length - rest.length = (c :: read).length := by
          simp only [List.length_cons, List.length_append]
          omega
        simp only [hskip, htaken, List.flatMap_cons, Piece.source, ih, List.drop_left]
        rw [← List.cons_append, List.take_left, List.drop_zero]

/-- Only the first place of a text sees the character before the text. -/
theorem piecesFrom_congr_before {recognize : Recognizer α} {before before' : Option Char}
    (h : ∀ text, recognize before text = recognize before' text) (text : List Char) :
    piecesFrom recognize 0 before text = piecesFrom recognize 0 before' text := by
  cases text with
  | nil => rfl
  | cons c text => rw [piecesFrom, piecesFrom, h]

/-- A recogniser stops at a character if it reads neither the character nor what comes after it: the
text before the character is read as if it ended there. -/
structure StopsAt (recognize : Recognizer α) (barrier : Char) : Prop where
  declines_nil : ∀ before, recognize before [] = none
  append : ∀ before text rest, recognize before (text ++ barrier :: rest) =
    (recognize before text).map fun (value, left) ↦ (value, left ++ barrier :: rest)

theorem StopsAt.declines {recognize : Recognizer α} {barrier : Char}
    (hstops : StopsAt recognize barrier) (before : Option Char) (rest : List Char) :
    recognize before (barrier :: rest) = none := by
  have h := hstops.append before [] rest
  rwa [hstops.declines_nil] at h

/-- The pieces of a text are those before a character at which the recogniser stops, the character
itself, and those after it. -/
theorem piecesFrom_append_barrier {recognize : Recognizer α} {barrier : Char}
    (hstops : StopsAt recognize barrier) (skip : Nat) (before : Option Char)
    (text rest : List Char) (hskip : skip ≤ text.length) :
    piecesFrom recognize skip before (text ++ barrier :: rest) =
      piecesFrom recognize skip before text ++
        .plain barrier :: piecesFrom recognize 0 (some barrier) rest := by
  induction text generalizing skip before with
  | nil =>
    obtain rfl := Nat.le_zero.mp hskip
    rw [List.nil_append, piecesFrom.eq_3, hstops.declines, piecesFrom, List.nil_append]
  | cons c text ih =>
    cases skip with
    | succ skip => exact ih skip (some c) (Nat.le_of_succ_le_succ hskip)
    | zero =>
      have hread := hstops.append before (c :: text) rest
      rw [List.cons_append] at hread ⊢
      rw [piecesFrom, piecesFrom, hread]
      cases recognize before (c :: text) with
      | none => exact congrArg (Piece.plain c :: ·) (ih 0 (some c) (Nat.zero_le _))
      | some result =>
        obtain ⟨value, left⟩ := result
        have hpassed : (text ++ barrier :: rest).length - (left ++ barrier :: rest).length =
            text.length - left.length := by
          simp only [List.length_append]
          omega
        have htaken : (c :: (text ++ barrier :: rest)).length - (left ++ barrier :: rest).length =
            (c :: text).length - left.length := by
          simp only [List.length_cons, List.length_append]
          omega
        simp only [Option.map_some, List.cons_append, hpassed, htaken]
        have hmatched : ((c :: text) ++ barrier :: rest).take ((c :: text).length - left.length) =
            (c :: text).take ((c :: text).length - left.length) :=
          List.take_append_of_le_length (Nat.sub_le _ _)
        rw [ih _ _ (Nat.sub_le _ _), ← hmatched, List.cons_append]

end CalculatorCatalog.Text
