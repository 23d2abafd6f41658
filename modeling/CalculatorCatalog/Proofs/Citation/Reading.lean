import CalculatorCatalog.Citation
import CalculatorCatalog.Proofs.Text.Occurrences
import Mathlib.Data.List.Forall2
import Mathlib.Data.List.TakeWhile

/-!
# How a citation is read

After an abbreviation a code is looked for behind one hyphen or space, then without, and the longest
code that ends at a word boundary counts. `afterRun?_cases` says what that comes to. A code is taken
from the run of digits and marks that stands there, and either all codes of a run are followed by a
word character or none is, according to what follows the whole run: a shorter code can only end at a
boundary of the same kind. So a code ends with a mark exactly if its run `RunsInto` a word.

`citation_eq_some_iff` says what is read as a citation, and `readsApart_citation` that no citation
begins inside of another one.
-/

set_option autoImplicit false
set_option relaxedAutoImplicit false

namespace CalculatorCatalog

namespace Text

/-! ### Digits are word characters -/

/-- A code point in a table lies in one of its intervals. -/
theorem exists_mem_of_covered {code : Nat} {ranges : List (Nat × Nat)}
    (h : covered code ranges = true) : ∃ range ∈ ranges, range.1 ≤ code ∧ code ≤ range.2 := by
  induction ranges with
  | nil => cases h
  | cons range ranges ih =>
    rw [covered] at h
    split_ifs at h with hbefore hinside
    · exact ⟨range, List.mem_cons_self, Nat.not_lt.mp hbefore, hinside⟩
    · obtain ⟨other, hother, hcode⟩ := ih h
      exact ⟨other, List.mem_cons_of_mem range hother, hcode⟩

/-- All code points of an interval are found in a table whose intervals ascend. -/
theorem covered_of_mem {code : Nat} {ranges : List (Nat × Nat)}
    (hascending : ranges.Pairwise fun range other ↦ range.1 ≤ other.1) {range : Nat × Nat}
    (hrange : range ∈ ranges) (hcode : range.1 ≤ code ∧ code ≤ range.2) :
    covered code ranges = true := by
  induction ranges with
  | nil => cases hrange
  | cons first ranges ih =>
    obtain ⟨hfirst, hrest⟩ := List.pairwise_cons.mp hascending
    rw [covered]
    obtain rfl | hrange := List.mem_cons.mp hrange
    · rw [if_neg (Nat.not_lt.mpr hcode.1), if_pos hcode.2]
    · rw [if_neg (Nat.not_lt.mpr (Nat.le_trans (hfirst range hrange) hcode.1))]
      split_ifs
      · rfl
      · exact ih hrest hrange

theorem pairwise_wordRanges : wordRanges.Pairwise fun range other ↦ range.1 ≤ other.1 := by
  refine List.isChain_iff_pairwise.mp ?_
  decide +kernel

/-- Every interval of digits lies in one of word characters. -/
theorem digitRanges_within : (digitRanges.all fun range ↦ wordRanges.any fun other ↦
    other.1.ble range.1 && range.2.ble other.2) = true := by
  decide +kernel

theorem isWordCharacter_of_isDecimalDigit {c : Char} (h : isDecimalDigit c = true) :
    isWordCharacter c = true := by
  unfold isDecimalDigit at h
  unfold isWordCharacter
  split_ifs at h ⊢
  · simp [Char.isAlphanum, h]
  · obtain ⟨range, hrange, hfirst, hlast⟩ := exists_mem_of_covered h
    obtain ⟨other, hother, hwithin⟩ :=
      List.any_eq_true.mp (List.all_eq_true.mp digitRanges_within range hrange)
    rw [Bool.and_eq_true, Nat.ble_eq, Nat.ble_eq] at hwithin
    exact covered_of_mem pairwise_wordRanges hother
      ⟨Nat.le_trans hwithin.1 hfirst, Nat.le_trans hlast hwithin.2⟩

end Text

namespace Citation

open CalculatorCatalog.Text

/-! ### Letters -/

/-- A spelling of an abbreviation. -/
def Spells (abbreviation : Abbreviation) (letters : List Char) : Prop :=
  List.Forall₂ (· ∈ ·) letters abbreviation.letters

theorem afterLetters?_eq_some_iff {letters : List (List Char)} {text rest : List Char} :
    afterLetters? letters text = some rest ↔
      ∃ spelling, List.Forall₂ (· ∈ ·) spelling letters ∧ text = spelling ++ rest := by
  induction letters generalizing text with
  | nil => simp [afterLetters?, eq_comm]
  | cons forms letters ih =>
    cases text with
    | nil => simp [afterLetters?]
    | cons c text =>
      rw [afterLetters?]
      split_ifs with hc
      · rw [ih]
        constructor
        · rintro ⟨spelling, hspelling, rfl⟩
          exact ⟨c :: spelling, .cons hc hspelling, rfl⟩
        · rintro ⟨spelling, hspelling, htext⟩
          obtain ⟨d, tail, hd, htail, rfl⟩ := List.forall₂_cons_right_iff.mp hspelling
          obtain ⟨rfl, rfl⟩ := List.cons.inj htext
          exact ⟨tail, htail, rfl⟩
      · refine ⟨fun h ↦ (by cases h), fun ⟨spelling, hspelling, htext⟩ ↦ ?_⟩
        obtain ⟨d, tail, hd, -, rfl⟩ := List.forall₂_cons_right_iff.mp hspelling
        obtain ⟨rfl, rfl⟩ := List.cons.inj htext
        exact absurd hd hc

/-- The letters of abbreviations are word characters, but no digits. -/
theorem letter_kind : ∀ abbreviation ∈ abbreviations, ∀ forms ∈ abbreviation.letters, ∀ c ∈ forms,
    isWordCharacter c = true ∧ isDecimalDigit c = false := by
  have hall : (abbreviations.all fun abbreviation ↦ abbreviation.letters.all fun forms ↦
      forms.all fun c ↦ isWordCharacter c && !isDecimalDigit c) = true := by
    decide +kernel
  simpa only [List.all_eq_true, Bool.and_eq_true, Bool.not_eq_true'] using hall

theorem Spells.kind_of_mem {abbreviation : Abbreviation} {letters : List Char}
    (h : Spells abbreviation letters) (hmem : abbreviation ∈ abbreviations) {c : Char}
    (hc : c ∈ letters) : isWordCharacter c = true ∧ isDecimalDigit c = false := by
  obtain ⟨i, hi, rfl⟩ := List.mem_iff_getElem.mp hc
  have hi' : i < abbreviation.letters.length := h.length_eq ▸ hi
  exact letter_kind abbreviation hmem _ (List.getElem_mem hi') _ (h.get hi hi')

/-- Abbreviations have letters. -/
theorem letters_ne_nil : ∀ abbreviation ∈ abbreviations, abbreviation.letters ≠ [] := by
  decide +kernel

theorem Spells.exists_cons {abbreviation : Abbreviation} {letters : List Char}
    (h : Spells abbreviation letters) (hmem : abbreviation ∈ abbreviations) :
    ∃ c rest, letters = c :: rest := by
  refine List.exists_cons_of_ne_nil ?_
  rintro rfl
  exact letters_ne_nil abbreviation hmem (List.forall₂_nil_left_iff.mp h)

/-- Two abbreviations differ in a letter before either ends. -/
def differ (first second : Abbreviation) : Bool :=
  (first.letters.zip second.letters).any fun pair ↦ pair.1.all fun c ↦ !pair.2.contains c

theorem pairwise_abbreviations :
    abbreviations.Pairwise fun first second ↦ differ first second = true := by
  decide +kernel

/-- A text begins with one of two abbreviations that differ at most. -/
theorem eq_none_of_differ {first second : Abbreviation} (h : differ first second = true)
    (text : List Char) :
    afterLetters? first.letters text = none ∨ afterLetters? second.letters text = none := by
  obtain ⟨pair, hpair, hall⟩ := List.any_eq_true.mp h
  have hapart : ∀ c ∈ pair.1, c ∉ pair.2 := by simpa using hall
  by_contra hboth
  rw [not_or, ← Ne, ← Ne, Option.ne_none_iff_exists', Option.ne_none_iff_exists'] at hboth
  obtain ⟨⟨rest, hfirst⟩, ⟨rest', hsecond⟩⟩ := hboth
  obtain ⟨spelling, hspelling, rfl⟩ := afterLetters?_eq_some_iff.mp hfirst
  obtain ⟨spelling', hspelling', htext⟩ := afterLetters?_eq_some_iff.mp hsecond
  obtain ⟨i, hi, rfl⟩ := List.mem_iff_getElem.mp hpair
  have hwithin : i < spelling.length ∧ i < spelling'.length := by
    rwa [List.length_zip, ← hspelling.length_eq, ← hspelling'.length_eq, Nat.lt_min] at hi
  obtain ⟨hlt, hlt'⟩ := hwithin
  rw [List.getElem_zip] at hapart
  -- Both spellings have the same letter at the place where the abbreviations differ.
  have hsame : spelling[i] = spelling'[i] := by
    have hat := congrArg (·[i]?) htext
    rw [List.getElem?_append_left hlt, List.getElem?_append_left hlt',
      List.getElem?_eq_getElem hlt, List.getElem?_eq_getElem hlt'] at hat
    exact Option.some.inj hat
  refine hapart _ (hspelling.get hlt (hspelling.length_eq ▸ hlt)) ?_
  rw [List.get_eq_getElem, hsame]
  exact hspelling'.get hlt' (hspelling'.length_eq ▸ hlt')

/-! ### Runs -/

/-- A character that a code may hold. -/
def isCodeCharacter (marks : List Char) (c : Char) : Bool :=
  isDecimalDigit c || marks.contains c

/-- The digits and marks that a text begins with. -/
def run (marks text : List Char) : List Char :=
  text.takeWhile (isCodeCharacter marks)

/-- What follows the run that a text begins with. -/
def afterRun (marks text : List Char) : List Char :=
  text.dropWhile (isCodeCharacter marks)

/-- A code that a text begins with: some digits and marks up to a word boundary. -/
structure IsCode (marks code rest : List Char) : Prop where
  ne_nil : code ≠ []
  isCodeCharacter : ∀ c ∈ code, isCodeCharacter marks c = true
  isWordBoundary : isWordBoundary code.getLast? rest.head? = true

/-- The marks of abbreviations are the dot and the hyphen. -/
theorem mark_kind : ∀ abbreviation ∈ abbreviations, ∀ c ∈ abbreviation.codeMarks,
    c = '.' ∨ c = '-' := by
  have hall : (abbreviations.all fun abbreviation ↦ abbreviation.codeMarks.all fun c ↦
      c == '.' || c == '-') = true := by
    decide +kernel
  simpa only [List.all_eq_true, Bool.or_eq_true, beq_iff_eq] using hall

section

variable {marks : List Char}

theorem isCodeCharacter_of_mem_run {text : List Char} {c : Char} (h : c ∈ run marks text) :
    isCodeCharacter marks c = true :=
  List.mem_takeWhile_imp h

theorem run_cons {c : Char} (h : isCodeCharacter marks c = true) (text : List Char) :
    run marks (c :: text) = c :: run marks text :=
  List.takeWhile_cons_of_pos h

theorem afterRun_cons {c : Char} (h : isCodeCharacter marks c = true) (text : List Char) :
    afterRun marks (c :: text) = afterRun marks text :=
  List.dropWhile_cons_of_pos h

theorem run_cons_of_not {c : Char} (h : isCodeCharacter marks c = false) (text : List Char) :
    run marks (c :: text) = [] :=
  List.takeWhile_cons_of_neg (by simp [h])

theorem afterRun_cons_of_not {c : Char} (h : isCodeCharacter marks c = false) (text : List Char) :
    afterRun marks (c :: text) = c :: text :=
  List.dropWhile_cons_of_neg (by simp [h])

theorem isCodeCharacter_of_mem_run_cons {c d : Char} {text : List Char}
    (h : d ∈ run marks (c :: text)) : isCodeCharacter marks c = true := by
  by_contra hno
  rw [run_cons_of_not (Bool.eq_false_iff.mpr hno)] at h
  cases h

theorem run_append {code : List Char} (h : ∀ c ∈ code, isCodeCharacter marks c = true)
    (rest : List Char) : run marks (code ++ rest) = code ++ run marks rest :=
  List.takeWhile_append_of_pos h

/-- The longest code of a run, if there is any. What follows a code is a word character exactly if
one follows the whole run, and there is a code if the run has a character of the other kind. -/
theorem afterRun?_cases (marks text : List Char) :
    (afterRun? marks text = none ∧
        ∀ c ∈ run marks text, isWordCharacter c = isWordAt (afterRun marks text).head?) ∨
      ∃ code rest, afterRun? marks text = some rest ∧ text = code ++ rest ∧
        IsCode marks code rest ∧ isWordAt rest.head? = isWordAt (afterRun marks text).head? := by
  induction text with
  | nil => exact .inl ⟨rfl, by simp [run]⟩
  | cons c text ih =>
    cases hc : isCodeCharacter marks c with
    | false =>
      rw [run_cons_of_not hc]
      exact .inl ⟨by rw [afterRun?, ← isCodeCharacter.eq_def, hc]; rfl, by simp⟩
    | true =>
      rw [run_cons hc, afterRun_cons hc, afterRun?, ← isCodeCharacter.eq_def, if_pos hc]
      obtain ⟨hnone, hkind⟩ | ⟨code, rest, hsome, rfl, hcode, hrest⟩ := ih
      · -- The rest of the run is of one kind, so its first character is of the kind that follows.
        have hnext : isWordAt text.head? = isWordAt (afterRun marks text).head? := by
          cases text with
          | nil => rfl
          | cons d text =>
            cases hd : isCodeCharacter marks d with
            | false => rw [afterRun_cons_of_not hd]
            | true => exact hkind d (by rw [run_cons hd]; exact List.mem_cons_self)
        simp only [hnone, Option.orElse_eq_orElse, Option.orElse_eq_or, Option.none_or]
        split_ifs with hboundary
        · refine .inr ⟨[c], text, rfl, rfl, ⟨by simp, by simpa using hc, hboundary⟩, hnext⟩
        · refine .inl ⟨rfl, List.forall_mem_cons.mpr ⟨?_, hkind⟩⟩
          rw [← hnext]
          simpa [Text.isWordBoundary, isWordAt] using hboundary
      · refine .inr ⟨c :: code, rest, by rw [hsome]; rfl, rfl, ⟨by simp, ?_, ?_⟩, hrest⟩
        · exact List.forall_mem_cons.mpr ⟨hc, hcode.isCodeCharacter⟩
        · obtain ⟨d, code, rfl⟩ := List.exists_cons_of_ne_nil hcode.ne_nil
          rw [List.getLast?_cons_cons]
          exact hcode.isWordBoundary

theorem afterRun?_eq_some {text rest : List Char} (h : afterRun? marks text = some rest) :
    ∃ code, text = code ++ rest ∧ IsCode marks code rest ∧
      isWordAt rest.head? = isWordAt (afterRun marks text).head? := by
  obtain ⟨hnone, -⟩ | ⟨code, other, hsome, hcode⟩ := afterRun?_cases marks text
  · rw [hnone] at h
    cases h
  · obtain rfl := Option.some.inj (hsome.symm.trans h)
    exact ⟨code, hcode⟩

theorem afterRun?_eq_none {text : List Char} (h : afterRun? marks text = none) :
    ∀ c ∈ run marks text, isWordCharacter c = isWordAt (afterRun marks text).head? := by
  obtain ⟨-, hkind⟩ | ⟨code, other, hsome, -⟩ := afterRun?_cases marks text
  · exact hkind
  · rw [hsome] at h
    cases h

/-! ### Codes -/

/-- The run that a text begins with has a mark and is followed by a word character. -/
def RunsInto (marks text : List Char) : Prop :=
  isWordAt (afterRun marks text).head? = true ∧ ∃ c ∈ run marks text, c ∈ marks

/-- The run that a text begins with starts with a mark and has a digit. -/
def OpensWithMark (marks text : List Char) : Prop :=
  (∃ c ∈ marks, text.head? = some c) ∧ ∃ c ∈ run marks text, isDecimalDigit c = true

/-- The text behind one hyphen or space, if it begins with one. -/
def afterSeparator : List Char → List Char
  | [] => []
  | c :: text => if c = '-' ∨ c = ' ' then text else c :: text

theorem isWordCharacter_of_separator {c : Char} (h : c = '-' ∨ c = ' ') :
    isWordCharacter c = false := by
  obtain rfl | rfl := h <;> rfl

/-- What may stand between an abbreviation and its code. -/
def IsSeparator (separator : List Char) : Prop :=
  separator = [] ∨ separator = ['-'] ∨ separator = [' ']

/-- What a citation holds after its abbreviation: nothing, or a code. -/
inductive IsTail (marks : List Char) : List Char → List Char → Prop where
  | alone {rest : List Char} (hrest : isWordAt rest.head? = false) : IsTail marks [] rest
  | code {separator code rest : List Char} (hseparator : IsSeparator separator)
      (hcode : IsCode marks code rest) : IsTail marks (separator ++ code) rest

/-- The last character of a code, and its kind. -/
theorem IsCode.exists_getLast? {code rest : List Char} (h : IsCode marks code rest) :
    ∃ c ∈ code, code.getLast? = some c ∧ isWordCharacter c = !isWordAt rest.head? := by
  have hlast := h.isWordBoundary
  rw [List.getLast?_eq_some_getLast h.ne_nil] at hlast ⊢
  exact ⟨_, List.getLast_mem h.ne_nil, rfl, Bool.eq_not.mpr (bne_iff_ne.mp hlast)⟩

theorem IsCode.subset_run {code rest : List Char} (h : IsCode marks code rest) {c : Char}
    (hc : c ∈ code) : c ∈ run marks (code ++ rest) := by
  rw [run_append h.isCodeCharacter]
  exact List.mem_append_left _ hc

/-- A code is looked for behind a separator first. -/
theorem afterCode?_separator {c : Char} (hc : c = '-' ∨ c = ' ') (text : List Char) :
    afterCode? marks (c :: text) =
      (afterRun? marks text).or ((afterRun? marks (c :: text)).or (some (c :: text))) := by
  have hplain : ¬isWordAt (List.head? (c :: text)) = true := by
    obtain rfl | rfl := hc <;> exact Bool.false_ne_true
  simp only [afterCode?, if_pos hc, if_neg hplain, Option.orElse_eq_orElse, Option.orElse_eq_or]

theorem afterCode?_of_afterSeparator_eq {text : List Char} (h : afterSeparator text = text) :
    afterCode? marks text =
      (afterRun? marks text).or (if isWordAt text.head? then none else some text) := by
  cases text with
  | nil => rfl
  | cons c text =>
    have hc : ¬(c = '-' ∨ c = ' ') := by
      intro hc
      rw [afterSeparator, if_pos hc] at h
      exact absurd (congrArg List.length h) (by simp)
    simp only [afterCode?, if_neg hc, Option.orElse_eq_orElse, Option.orElse_eq_or, Option.none_or]

/-- A text either begins with a separator or not. -/
theorem afterSeparator_cases (text : List Char) :
    afterSeparator text = text ∨ ∃ c, (c = '-' ∨ c = ' ') ∧ text = c :: afterSeparator text := by
  cases text with
  | nil => exact .inl rfl
  | cons c text =>
    rw [afterSeparator]
    split_ifs with hc
    · exact .inr ⟨c, hc, rfl⟩
    · exact .inl rfl

theorem exists_separator (text : List Char) :
    ∃ separator, IsSeparator separator ∧ text = separator ++ afterSeparator text := by
  obtain hsame | ⟨c, hc, htext⟩ := afterSeparator_cases text
  · exact ⟨[], .inl rfl, hsame.symm⟩
  · exact ⟨[c], .inr (by simpa using hc), htext⟩

/-- A code behind the separator runs into a word, or the one that begins with it does. -/
def Strays (marks text : List Char) : Prop :=
  RunsInto marks (afterSeparator text) ∨ RunsInto marks text

/-- A code that starts with a mark and has a digit is read unless it strays. -/
theorem exists_code_of_opensWithMark {text : List Char} (hstays : ¬Strays marks text)
    (hopens : OpensWithMark marks (afterSeparator text)) :
    ∃ code rest, afterCode? marks text = some rest ∧ afterSeparator text = code ++ rest ∧
      IsCode marks code rest := by
  obtain ⟨⟨c, hc, hhead⟩, d, hd, hdigit⟩ := hopens
  have hcode : isCodeCharacter marks c = true := by
    rw [isCodeCharacter, Bool.or_eq_true, List.contains_iff_mem]
    exact .inr hc
  have hrun : c ∈ run marks (afterSeparator text) := by
    obtain ⟨behind, hbehind⟩ := List.head?_eq_some_iff.mp hhead
    rw [hbehind, run_cons hcode]
    exact List.mem_cons_self
  have hafter : isWordAt (afterRun marks (afterSeparator text)).head? = false :=
    Bool.eq_false_iff.mpr fun hword ↦ hstays (.inl ⟨hword, c, hrun, hc⟩)
  cases hsome : afterRun? marks (afterSeparator text) with
  | none =>
    have hplain := afterRun?_eq_none hsome d hd
    rw [isWordCharacter_of_isDecimalDigit hdigit, hafter] at hplain
    cases hplain
  | some rest =>
    obtain ⟨code, hsplit, hcode, -⟩ := afterRun?_eq_some hsome
    refine ⟨code, rest, ?_, hsplit, hcode⟩
    obtain hsame | ⟨e, he, htext⟩ := afterSeparator_cases text
    · rw [afterCode?_of_afterSeparator_eq hsame, ← hsame, hsome, Option.some_or]
    · rw [htext, afterCode?_separator he, hsome, Option.some_or]

/-- What is read after an abbreviation. -/
theorem exists_tail {text rest : List Char} (h : afterCode? marks text = some rest) :
    ∃ tail, text = tail ++ rest ∧ IsTail marks tail rest := by
  obtain hsame | ⟨c, hc, htext⟩ := afterSeparator_cases text
  · rw [afterCode?_of_afterSeparator_eq hsame] at h
    obtain hrun | ⟨-, halone⟩ := Option.or_eq_some_iff.mp h
    · obtain ⟨code, hsplit, hcode, -⟩ := afterRun?_eq_some hrun
      exact ⟨[] ++ code, hsplit, .code (.inl rfl) hcode⟩
    · split_ifs at halone with hstart
      obtain rfl := Option.some.inj halone
      exact ⟨[], rfl, .alone (Bool.eq_false_iff.mpr hstart)⟩
  · generalize afterSeparator text = behind at htext
    subst htext
    rw [afterCode?_separator hc] at h
    obtain hbehind | ⟨-, hwhole⟩ := Option.or_eq_some_iff.mp h
    · obtain ⟨code, rfl, hcode, -⟩ := afterRun?_eq_some hbehind
      exact ⟨[c] ++ code, rfl, .code (.inr (by simpa using hc)) hcode⟩
    · obtain hwhole | ⟨-, halone⟩ := Option.or_eq_some_iff.mp hwhole
      · obtain ⟨code, hsplit, hcode, -⟩ := afterRun?_eq_some hwhole
        exact ⟨[] ++ code, hsplit, .code (.inl rfl) hcode⟩
      · obtain rfl := Option.some.inj halone
        exact ⟨[], rfl, .alone (isWordCharacter_of_separator hc)⟩

/-- A code that is all there is and ends with a word character is read whole. -/
theorem afterRun?_of_getLast? {code : List Char}
    (hcode : ∀ c ∈ code, isCodeCharacter marks c = true) {last : Char}
    (hlast : code.getLast? = some last) (hword : isWordCharacter last = true) :
    afterRun? marks code = some [] := by
  induction code with
  | nil => cases hlast
  | cons c code ih =>
    obtain ⟨hc, hcode⟩ := List.forall_mem_cons.mp hcode
    rw [afterRun?, ← isCodeCharacter.eq_def, if_pos hc]
    cases code with
    | nil =>
      have hsame : c = last := by simpa using hlast
      have hboundary : isWordBoundary (some c) none = true := by
        simp [Text.isWordBoundary, isWordAt, hsame, hword]
      exact if_pos hboundary
    | cons d code =>
      rw [List.getLast?_cons_cons] at hlast
      rw [ih hcode hlast]
      rfl

/-- A tail that ends with a word character is read whole when it stands alone. -/
theorem afterCode?_of_getLast? {separator code : List Char} (hseparator : IsSeparator separator)
    (hcode : ∀ c ∈ code, isCodeCharacter marks c = true) {last : Char}
    (hlast : code.getLast? = some last) (hword : isWordCharacter last = true) :
    afterCode? marks (separator ++ code) = some [] := by
  have hwhole := afterRun?_of_getLast? hcode hlast hword
  have hbehind {c : Char} (hc : c = '-' ∨ c = ' ') {behind : List Char}
      (h : afterRun? marks behind = some []) : afterCode? marks (c :: behind) = some [] := by
    rw [afterCode?_separator hc, h, Option.some_or]
  obtain rfl | rfl | rfl := hseparator
  · rw [List.nil_append]
    obtain hsame | ⟨c, hc, htext⟩ := afterSeparator_cases code
    · rw [afterCode?_of_afterSeparator_eq hsame, hwhole, Option.some_or]
    · -- The code begins with a separator of its own.
      generalize afterSeparator code = behind at htext
      subst htext
      cases behind with
      | nil =>
        have hsame : c = last := by simpa using hlast
        rw [← hsame, isWordCharacter_of_separator hc] at hword
        cases hword
      | cons d behind =>
        rw [List.getLast?_cons_cons] at hlast
        exact hbehind hc (afterRun?_of_getLast? (List.forall_mem_cons.mp hcode).2 hlast hword)
  · exact hbehind (.inl rfl) hwhole
  · exact hbehind (.inr rfl) hwhole

variable (hmarks : ∀ c ∈ marks, c = '.' ∨ c = '-')

include hmarks

/-- Of the characters of a code the digits are word characters and the marks are not. -/
theorem mem_marks_iff {c : Char} (h : isCodeCharacter marks c = true) :
    c ∈ marks ↔ isWordCharacter c = false := by
  constructor
  · intro hc
    obtain rfl | rfl := hmarks c hc <;> decide
  · intro hword
    rw [isCodeCharacter, Bool.or_eq_true, List.contains_iff_mem] at h
    refine h.resolve_left fun hdigit ↦ ?_
    rw [isWordCharacter_of_isDecimalDigit hdigit] at hword
    cases hword

theorem isDecimalDigit_iff {c : Char} (h : isCodeCharacter marks c = true) :
    isDecimalDigit c = true ↔ isWordCharacter c = true := by
  refine ⟨isWordCharacter_of_isDecimalDigit, fun hword ↦ ?_⟩
  have hmark : c ∉ marks := fun hc ↦ by
    rw [(mem_marks_iff hmarks h).mp hc] at hword
    cases hword
  rw [isCodeCharacter, Bool.or_eq_true, List.contains_iff_mem] at h
  exact h.resolve_right hmark

/-- A code is followed by a word character exactly if its run runs into one. -/
theorem runsInto_iff {text : List Char} :
    RunsInto marks text ↔
      ∃ rest, afterRun? marks text = some rest ∧ isWordAt rest.head? = true := by
  constructor
  · rintro ⟨hword, c, hc, hmark⟩
    have hplain := (mem_marks_iff hmarks (isCodeCharacter_of_mem_run hc)).mp hmark
    cases hsome : afterRun? marks text with
    | none =>
      rw [afterRun?_eq_none hsome c hc, hword] at hplain
      cases hplain
    | some rest =>
      obtain ⟨-, -, -, hrest⟩ := afterRun?_eq_some hsome
      exact ⟨rest, rfl, hrest.trans hword⟩
  · rintro ⟨rest, hsome, hword⟩
    obtain ⟨code, rfl, hcode, hrest⟩ := afterRun?_eq_some hsome
    obtain ⟨c, hc, -, hplain⟩ := hcode.exists_getLast?
    rw [hword] at hplain
    have hrun := hcode.subset_run hc
    exact ⟨hrest ▸ hword, c, hrun,
      (mem_marks_iff hmarks (isCodeCharacter_of_mem_run hrun)).mpr hplain⟩

/-- What is read after an abbreviation is followed by a word character exactly if it is a code that
strays. -/
theorem strays_iff {text : List Char} :
    Strays marks text ↔
      ∃ rest, afterCode? marks text = some rest ∧ isWordAt rest.head? = true := by
  obtain hsame | ⟨c, hc, htext⟩ := afterSeparator_cases text
  · rw [Strays, hsame, or_self, runsInto_iff hmarks, afterCode?_of_afterSeparator_eq hsame]
    cases hrun : afterRun? marks text with
    | some rest => simp
    | none =>
      simp only [reduceCtorEq, false_and, exists_false, Option.none_or, false_iff, not_exists]
      rintro rest ⟨hrest, hword⟩
      split_ifs at hrest with hstart
      obtain rfl := Option.some.inj hrest
      exact hstart hword
  · rw [Strays]
    generalize afterSeparator text = behind at htext ⊢
    subst htext
    rw [afterCode?_separator hc]
    constructor
    · rintro (hbehind | hwhole)
      · obtain ⟨rest, hsome, hword⟩ := (runsInto_iff hmarks).mp hbehind
        exact ⟨rest, by rw [hsome, Option.some_or], hword⟩
      · obtain ⟨rest, hsome, hword⟩ := (runsInto_iff hmarks).mp hwhole
        cases hbehind : afterRun? marks behind with
        | none => exact ⟨rest, by rw [Option.none_or, hsome, Option.some_or], hword⟩
        | some other =>
          -- The separator belongs to the run, so both runs are followed by the same.
          obtain ⟨-, -, -, hother⟩ := afterRun?_eq_some hbehind
          obtain ⟨d, hd, -⟩ := hwhole.2
          refine ⟨other, rfl, ?_⟩
          rw [hother, ← afterRun_cons (isCodeCharacter_of_mem_run_cons hd)]
          exact hwhole.1
    · rintro ⟨rest, hsome, hword⟩
      obtain hbehind | ⟨-, hwhole⟩ := Option.or_eq_some_iff.mp hsome
      · exact .inl ((runsInto_iff hmarks).mpr ⟨rest, hbehind, hword⟩)
      · obtain hwhole | ⟨-, hwhole⟩ := Option.or_eq_some_iff.mp hwhole
        · exact .inr ((runsInto_iff hmarks).mpr ⟨rest, hwhole, hword⟩)
        · obtain rfl := Option.some.inj hwhole
          rw [List.head?_cons, isWordAt, isWordCharacter_of_separator hc] at hword
          cases hword

/-- A code that does not stray stands right behind the separator. -/
theorem isCode_of_not_strays {text rest : List Char} (hstays : ¬Strays marks text)
    (hsome : afterCode? marks text = some rest) :
    isWordAt rest.head? = false ∧
      (text = rest ∨ ∃ code, afterSeparator text = code ++ rest ∧ IsCode marks code rest) := by
  have hrest : isWordAt rest.head? = false :=
    Bool.eq_false_iff.mpr fun hword ↦ hstays ((strays_iff hmarks).mpr ⟨rest, hsome, hword⟩)
  refine ⟨hrest, ?_⟩
  obtain hsame | ⟨c, hc, htext⟩ := afterSeparator_cases text
  · rw [afterCode?_of_afterSeparator_eq hsame] at hsome
    obtain hrun | ⟨-, halone⟩ := Option.or_eq_some_iff.mp hsome
    · obtain ⟨code, hsplit, hcode, -⟩ := afterRun?_eq_some hrun
      exact .inr ⟨code, hsame.trans hsplit, hcode⟩
    · split_ifs at halone
      exact .inl (Option.some.inj halone)
  · generalize afterSeparator text = behind at htext ⊢
    subst htext
    rw [afterCode?_separator hc] at hsome
    obtain hbehind | ⟨hnone, hwhole⟩ := Option.or_eq_some_iff.mp hsome
    · obtain ⟨code, hsplit, hcode, -⟩ := afterRun?_eq_some hbehind
      exact .inr ⟨code, hsplit, hcode⟩
    · obtain hwhole | ⟨-, halone⟩ := Option.or_eq_some_iff.mp hwhole
      · -- Behind the separator all are of the kind that follows, and the last one of a code is not.
        exfalso
        obtain ⟨code, hsplit, hcode, hother⟩ := afterRun?_eq_some hwhole
        obtain ⟨d, hd, -, hlast⟩ := hcode.exists_getLast?
        have hrun := hcode.subset_run hd
        rw [← hsplit] at hrun
        have hmark := isCodeCharacter_of_mem_run_cons hrun
        rw [afterRun_cons hmark] at hother
        rw [run_cons hmark] at hrun
        obtain rfl | hrun := List.mem_cons.mp hrun
        · rw [isWordCharacter_of_separator hc, hrest] at hlast
          cases hlast
        · rw [afterRun?_eq_none hnone d hrun, ← hother, hrest] at hlast
          cases hlast
      · exact .inl (Option.some.inj halone)

end

/-! ### Citations -/

/-- In a list of which no two items give a value, the item that gives one is found. -/
theorem findSome?_eq_some_iff_of_pairwise {α β : Type} {f : α → Option β} {items : List α}
    (h : items.Pairwise fun item other ↦ f item = none ∨ f other = none) {value : β} :
    items.findSome? f = some value ↔ ∃ item ∈ items, f item = some value := by
  refine ⟨fun hsome ↦ List.exists_of_findSome?_eq_some hsome, ?_⟩
  rintro ⟨item, hitem, hvalue⟩
  obtain ⟨before, after, rfl⟩ := List.append_of_mem hitem
  refine List.findSome?_eq_some_iff.mpr ⟨before, item, after, rfl, hvalue, fun other hother ↦ ?_⟩
  have hpair := (List.pairwise_append.mp h).2.2 other hother item List.mem_cons_self
  refine hpair.resolve_right ?_
  rw [hvalue]
  exact Option.some_ne_none value

/-- An abbreviation and its code at the beginning of a text. -/
theorem read_eq_some_iff {abbreviation : Abbreviation} {text rest : List Char} :
    ((afterLetters? abbreviation.letters text).bind (afterCode? abbreviation.codeMarks)).map
        ((), ·) = some ((), rest) ↔
      ∃ letters after, Spells abbreviation letters ∧ text = letters ++ after ∧
        afterCode? abbreviation.codeMarks after = some rest := by
  simp only [Option.map_eq_some_iff, Option.bind_eq_some_iff, afterLetters?_eq_some_iff,
    Prod.mk.injEq, true_and, exists_eq_right]
  constructor
  · rintro ⟨after, ⟨letters, hletters, htext⟩, hcode⟩
    exact ⟨letters, after, hletters, htext, hcode⟩
  · rintro ⟨letters, after, hletters, htext, hcode⟩
    exact ⟨after, ⟨letters, hletters, htext⟩, hcode⟩

/-- A citation begins where no word has begun yet, with an abbreviation, and goes on with its
code. -/
theorem citation_eq_some_iff {before : Option Char} {text rest : List Char} :
    citation before text = some ((), rest) ↔
      isWordAt before = false ∧ ∃ abbreviation ∈ abbreviations, ∃ letters after,
        Spells abbreviation letters ∧ text = letters ++ after ∧
          afterCode? abbreviation.codeMarks after = some rest := by
  have hone : abbreviations.Pairwise fun first second ↦
      ((afterLetters? first.letters text).bind (afterCode? first.codeMarks)).map ((), ·) = none ∨
        ((afterLetters? second.letters text).bind (afterCode? second.codeMarks)).map ((), ·) =
          none := by
    refine pairwise_abbreviations.imp fun hdiffer ↦ ?_
    obtain hnone | hnone := eq_none_of_differ hdiffer text
    · exact .inl (by rw [hnone]; rfl)
    · exact .inr (by rw [hnone]; rfl)
  have hfound := @findSome?_eq_some_iff_of_pairwise _ _ _ _ hone ((), rest)
  simp only [read_eq_some_iff] at hfound
  -- A boundary before a letter has no word character on its other side.
  have hboundary : (∃ abbreviation ∈ abbreviations, ∃ letters after,
      Spells abbreviation letters ∧ text = letters ++ after ∧
        afterCode? abbreviation.codeMarks after = some rest) →
      isWordBoundary before text.head? = !isWordAt before := by
    rintro ⟨abbreviation, hmem, letters, after, hletters, rfl, -⟩
    obtain ⟨c, tail, rfl⟩ := hletters.exists_cons hmem
    have hword : isWordAt (some c) = true := (hletters.kind_of_mem hmem List.mem_cons_self).1
    rw [List.cons_append, List.head?_cons, isWordBoundary, hword]
    cases isWordAt before <;> rfl
  rw [citation]
  constructor
  · intro h
    split_ifs at h with hstart
    have hread := hfound.mp h
    rw [hboundary hread, Bool.not_eq_true'] at hstart
    exact ⟨hstart, hread⟩
  · rintro ⟨hbefore, hread⟩
    have hstart : isWordBoundary before text.head? = true := by rw [hboundary hread, hbefore]; rfl
    rw [if_pos hstart]
    exact hfound.mpr hread

/-- A citation begins with a letter. -/
theorem citation_eq_none {c : Char} (h : isWordCharacter c = true → isDecimalDigit c = true)
    (before : Option Char) (text : List Char) : citation before (c :: text) = none := by
  rw [Option.eq_none_iff_forall_ne_some]
  rintro ⟨⟨⟩, rest⟩ hread
  obtain ⟨-, abbreviation, hmem, letters, after, hletters, htext, -⟩ :=
    citation_eq_some_iff.mp hread
  obtain ⟨d, tail, rfl⟩ := hletters.exists_cons hmem
  obtain ⟨rfl, -⟩ := List.cons.inj htext
  obtain ⟨hword, hdigit⟩ := hletters.kind_of_mem hmem List.mem_cons_self
  rw [h hword] at hdigit
  cases hdigit

/-- A citation does not begin inside of a word. -/
theorem citation_inside_word (before : Option Char) (text : List Char)
    (hbefore : isWordAt before = true) (_ : isWordAt text.head? = true) :
    citation before text = none := by
  rw [Option.eq_none_iff_forall_ne_some]
  rintro ⟨⟨⟩, rest⟩ hread
  rw [(citation_eq_some_iff.mp hread).1] at hbefore
  cases hbefore

/-- The characters after the letters of a citation are digits or no word characters. -/
theorem IsTail.isDecimalDigit_of_mem {marks tail rest : List Char} (h : IsTail marks tail rest)
    (hmarks : ∀ c ∈ marks, c = '.' ∨ c = '-') {c : Char} (hc : c ∈ tail)
    (hword : isWordCharacter c = true) : isDecimalDigit c = true := by
  cases h with
  | alone => cases hc
  | code hseparator hcode =>
    obtain hc | hc := List.mem_append.mp hc
    · have hplain : isWordCharacter c = false := by
        obtain rfl | rfl | rfl := hseparator
        · cases hc
        · exact isWordCharacter_of_separator (.inl (List.mem_singleton.mp hc))
        · exact isWordCharacter_of_separator (.inr (List.mem_singleton.mp hc))
      rw [hplain] at hword
      cases hword
    · exact (isDecimalDigit_iff hmarks (hcode.isCodeCharacter c hc)).mpr hword

/-- No citation begins inside of another one. -/
theorem readsApart_citation : ReadsApart citation := by
  intro before text value rest hread
  obtain ⟨-, abbreviation, hmem, letters, after, hletters, rfl, hcode⟩ :=
    citation_eq_some_iff.mp hread
  obtain ⟨tail, rfl, htail⟩ := exists_tail hcode
  obtain ⟨c, word, rfl⟩ := hletters.exists_cons hmem
  have hword : ∀ d ∈ c :: word, isWordCharacter d = true :=
    fun d hd ↦ (hletters.kind_of_mem hmem hd).1
  refine ⟨c, word ++ tail, by simp, declines_append.mpr ⟨?_, ?_⟩⟩
  · have hfirst : isWordAt (some c) = true := hword c List.mem_cons_self
    exact declines_inside_word citation_inside_word hfirst
      (List.all_eq_true.mpr fun d hd ↦ hword d (List.mem_cons_of_mem c hd)) _
  · exact declines_of_forall (fun d hd before text ↦ citation_eq_none
      (htail.isDecimalDigit_of_mem (mark_kind abbreviation hmem) hd) before text) _ _

end Citation

end CalculatorCatalog
