import CalculatorCatalog.Proofs.Citation.Reading
import CalculatorCatalog.Text.LetterCase

/-!
# The shape of citations

A citation `IsWellFormed` if it is one of the five abbreviations in any letter case, alone or with a
code that starts and ends with a digit behind at most one hyphen or space. What is cited from a text
always ascends, stands in the text between word boundaries and begins with an abbreviation, but its
code may also start or end with a mark. `citations_exact` says for which texts this does not happen:
no abbreviation that begins a word of the text has a run of digits and marks after it that runs into
a word character, or that starts with a mark behind its separator.

A citation that ends with a mark is not found again in its own text, because no word ends there;
every other citation is.
-/

set_option autoImplicit false
set_option relaxedAutoImplicit false

namespace CalculatorCatalog.Citation

open CalculatorCatalog.Text

/-! ### Well-formed citations -/

/-- The five abbreviations. -/
def names : List String := ["ГЭСН", "ФЕР", "СНиП", "СП", "ГОСТ"]

/-- One of the five abbreviations, in any letter case. -/
def IsAbbreviation (letters : List Char) : Prop :=
  ∃ name ∈ names, letters.flatMap uppercase = name.toList.flatMap uppercase

/-- Digits with dots and hyphens. -/
def IsMarked (code : List Char) : Prop :=
  ∀ c ∈ code, isDecimalDigit c = true ∨ c = '.' ∨ c = '-'

/-- Digits with dots and hyphens only between them. -/
structure IsNumber (code : List Char) : Prop where
  isMarked : IsMarked code
  opens : ∃ c, code.head? = some c ∧ isDecimalDigit c = true
  closes : ∃ c, code.getLast? = some c ∧ isDecimalDigit c = true

/-- An abbreviation alone, or with something after at most one hyphen or space. -/
def HasShape (isCode : List Char → Prop) (citation : List Char) : Prop :=
  ∃ letters tail, citation = letters ++ tail ∧ IsAbbreviation letters ∧
    (tail = [] ∨ ∃ separator code, IsSeparator separator ∧ tail = separator ++ code ∧ isCode code)

/-- An abbreviation alone, or with a code that starts and ends with a digit. -/
def IsWellFormed (citation : List Char) : Prop :=
  HasShape IsNumber citation

theorem uppercase_letters : ∀ abbreviation ∈ abbreviations, ∃ name ∈ names,
    List.Forall₂ (fun forms capital ↦ forms.all (uppercase · == uppercase capital) = true)
      abbreviation.letters name.toList := by
  decide +kernel

/-- A spelling of an abbreviation is the abbreviation in some letter case. -/
theorem Spells.isAbbreviation {abbreviation : Abbreviation} {letters : List Char}
    (h : Spells abbreviation letters) (hmem : abbreviation ∈ abbreviations) :
    IsAbbreviation letters := by
  obtain ⟨name, hname, hcapitals⟩ := uppercase_letters abbreviation hmem
  refine ⟨name, hname, ?_⟩
  unfold Spells at h
  generalize abbreviation.letters = forms at h hcapitals
  generalize name.toList = capitals at hcapitals
  induction h generalizing capitals with
  | nil =>
    cases hcapitals
    rfl
  | cons hc _ ih =>
    cases hcapitals with
    | cons hcapital hcapitals =>
      have hsame := eq_of_beq (List.all_eq_true.mp hcapital _ hc)
      rw [List.flatMap_cons, List.flatMap_cons, hsame, ih _ hcapitals]

/-- An abbreviation holds no mark and no separator. -/
theorem IsAbbreviation.not_mem {letters : List Char} (h : IsAbbreviation letters) {c : Char}
    (hc : c = '.' ∨ c = '-' ∨ c = ' ') : c ∉ letters := by
  intro hmem
  obtain ⟨name, hname, hsame⟩ := h
  have hplain : (names.all fun name ↦ ['.', '-', ' '].all fun d ↦
      !(uppercase d).all (name.toList.flatMap uppercase).contains) = true := by
    decide +kernel
  have hupper : (uppercase c).all (name.toList.flatMap uppercase).contains = true := by
    rw [← hsame, List.all_eq_true]
    exact fun d hd ↦ List.contains_iff_mem.mpr (List.mem_flatMap_of_mem hmem hd)
  have hno := List.all_eq_true.mp (List.all_eq_true.mp hplain name hname) c (by simpa using hc)
  rw [hupper] at hno
  cases hno

/-! ### The places of citations -/

/-- An abbreviation that begins a word of a text, and what follows it. -/
structure BeginsWord (text : List Char) (abbreviation : Abbreviation) (letters after : List Char) :
    Prop where
  mem : abbreviation ∈ abbreviations
  spells : Spells abbreviation letters
  place : ∃ passed, text = passed ++ (letters ++ after) ∧ isWordAt passed.getLast? = false

/-- The citations of a text are the abbreviations that begin its words, with their codes. -/
theorem mem_citations_iff {text : List Char} {cited : String} :
    cited ∈ citations text ↔
      ∃ abbreviation letters tail rest, BeginsWord text abbreviation letters (tail ++ rest) ∧
        afterCode? abbreviation.codeMarks (tail ++ rest) = some rest ∧
          cited.toList = letters ++ tail := by
  have hfound : cited ∈ citations text ↔ .found cited.toList () ∈ pieces citation text := by
    rw [citations, mem_sortedSet, List.mem_filterMap]
    constructor
    · rintro ⟨_ | ⟨matched, ⟨⟩⟩, hpiece, hsome⟩
      · cases hsome
      · obtain rfl := Option.some.inj hsome
        rwa [String.toList_ofList]
    · exact fun hpiece ↦ ⟨_, hpiece, congrArg some String.ofList_toList⟩
  rw [hfound, pieces, found_mem_piecesFrom_iff readsApart_citation]
  simp only [lastOr_none, citation_eq_some_iff]
  constructor
  · rintro ⟨passed, rest, htext, hpassed, abbreviation, hmem, letters, after, hspells, hsplit,
      hcode⟩
    obtain ⟨tail, rfl, -⟩ := exists_tail hcode
    refine ⟨abbreviation, letters, tail, rest,
      ⟨hmem, hspells, passed, by rw [htext, hsplit], hpassed⟩, hcode, ?_⟩
    rw [← List.append_assoc] at hsplit
    exact List.append_cancel_right hsplit
  · rintro ⟨abbreviation, letters, tail, rest, ⟨hmem, hspells, passed, rfl, hpassed⟩, hcode, hcited⟩
    exact ⟨passed, rest, by rw [hcited, List.append_assoc], hpassed, abbreviation, hmem, letters, _,
      hspells, by rw [hcited, List.append_assoc], hcode⟩

theorem isTail_of_afterCode? {marks tail rest : List Char}
    (h : afterCode? marks (tail ++ rest) = some rest) : IsTail marks tail rest := by
  obtain ⟨tail', hsplit, htail⟩ := exists_tail h
  obtain rfl := List.append_cancel_right hsplit
  exact htail

/-- A citation with a code ends as the code does. -/
theorem getLast?_append_code (letters separator : List Char) {code : List Char} (h : code ≠ []) :
    (letters ++ (separator ++ code)).getLast? = code.getLast? := by
  rw [List.getLast?_append_of_ne_nil _ (by simp [h]), List.getLast?_append_of_ne_nil _ h]

/-- A citation stands in a text, between two word boundaries. -/
def StandsIn (text cited : List Char) : Prop :=
  ∃ before after, text = before ++ (cited ++ after) ∧
    isWordBoundary before.getLast? cited.head? = true ∧
      isWordBoundary cited.getLast? after.head? = true

namespace BeginsWord

variable {text letters after : List Char} {abbreviation : Abbreviation}

/-- What is read after an abbreviation makes it a citation. -/
theorem exists_citation {tail rest : List Char}
    (h : BeginsWord text abbreviation letters (tail ++ rest))
    (hcode : afterCode? abbreviation.codeMarks (tail ++ rest) = some rest) :
    ∃ cited ∈ citations text, cited.toList = letters ++ tail :=
  ⟨String.ofList (letters ++ tail),
    mem_citations_iff.mpr ⟨abbreviation, letters, tail, rest, h, hcode, String.toList_ofList⟩,
    String.toList_ofList⟩

theorem isWordCharacter_of_mem (h : BeginsWord text abbreviation letters after) {c : Char}
    (hc : c ∈ letters) : isWordCharacter c = true :=
  (h.spells.kind_of_mem h.mem hc).1

theorem exists_getLast? (h : BeginsWord text abbreviation letters after) :
    ∃ c, letters.getLast? = some c ∧ isWordCharacter c = true := by
  obtain ⟨c, rest, rfl⟩ := h.spells.exists_cons h.mem
  rw [List.getLast?_eq_some_getLast (List.cons_ne_nil c rest)]
  exact ⟨_, rfl, h.isWordCharacter_of_mem (List.getLast_mem _)⟩

theorem isWordBoundary_left (h : BeginsWord text abbreviation letters after)
    {passed : List Char} (hpassed : isWordAt passed.getLast? = false) (tail : List Char) :
    isWordBoundary passed.getLast? (letters ++ tail).head? = true := by
  obtain ⟨c, rest, rfl⟩ := h.spells.exists_cons h.mem
  have hword : isWordAt (some c) = true := h.isWordCharacter_of_mem List.mem_cons_self
  rw [List.cons_append, List.head?_cons, isWordBoundary, hpassed, hword]
  rfl

theorem isWordBoundary_right (h : BeginsWord text abbreviation letters after)
    {marks tail rest : List Char} (htail : IsTail marks tail rest) :
    isWordBoundary (letters ++ tail).getLast? rest.head? = true := by
  cases htail with
  | alone hrest =>
    obtain ⟨c, hlast, hword⟩ := h.exists_getLast?
    rw [List.append_nil, hlast, isWordBoundary, hrest, isWordAt, hword]
    rfl
  | code hseparator hcode =>
    rw [getLast?_append_code _ _ hcode.ne_nil]
    exact hcode.isWordBoundary

end BeginsWord

/-- The marks of a code are dots and hyphens. -/
theorem isMarked_of_forall {abbreviation : Abbreviation} (hmem : abbreviation ∈ abbreviations)
    {code : List Char} (h : ∀ c ∈ code, isCodeCharacter abbreviation.codeMarks c = true) :
    IsMarked code := by
  intro c hc
  have hkind := h c hc
  rw [isCodeCharacter, Bool.or_eq_true, List.contains_iff_mem] at hkind
  exact hkind.imp_right (mark_kind abbreviation hmem c)

/-- Every citation stands in its text between word boundaries. -/
theorem standsIn_of_mem {text : List Char} {cited : String} (h : cited ∈ citations text) :
    StandsIn text cited.toList := by
  obtain ⟨abbreviation, letters, tail, rest, hplace, hcode, hcited⟩ := mem_citations_iff.mp h
  obtain ⟨passed, htext, hpassed⟩ := hplace.place
  rw [hcited]
  exact ⟨passed, rest, by rw [htext, List.append_assoc], hplace.isWordBoundary_left hpassed _,
    hplace.isWordBoundary_right (isTail_of_afterCode? hcode)⟩

/-- Every citation is an abbreviation with a code of digits, dots and hyphens at most. -/
theorem hasShape_of_mem {text : List Char} {cited : String} (h : cited ∈ citations text) :
    HasShape (fun code ↦ code ≠ [] ∧ IsMarked code) cited.toList := by
  obtain ⟨abbreviation, letters, tail, rest, hplace, hcode, hcited⟩ := mem_citations_iff.mp h
  refine ⟨letters, tail, hcited, hplace.spells.isAbbreviation hplace.mem, ?_⟩
  cases isTail_of_afterCode? hcode with
  | alone => exact .inl rfl
  | code hseparator hcode =>
    exact .inr ⟨_, _, hseparator, rfl, hcode.ne_nil,
      isMarked_of_forall hplace.mem hcode.isCodeCharacter⟩

/-! ### Codes that end or start with a mark -/

/-- A citation that is found in its own text ends with a word character. -/
theorem isWordAt_getLast?_of_rescanned {cited : String} (h : cited ∈ citations cited.toList) :
    isWordAt cited.toList.getLast? = true := by
  obtain ⟨abbreviation, letters, tail, rest, hplace, hcode, hcited⟩ := mem_citations_iff.mp h
  obtain ⟨passed, htext, -⟩ := hplace.place
  have hrest : rest = [] := by
    have hlength := congrArg List.length (htext.symm.trans hcited)
    simp only [List.length_append] at hlength
    exact List.eq_nil_of_length_eq_zero (by omega)
  have hend := hplace.isWordBoundary_right (isTail_of_afterCode? hcode)
  rw [hrest, List.head?_nil, isWordBoundary, isWordAt, Bool.bne_false] at hend
  rw [hcited]
  exact hend

/-- Where a code strays a citation ends with a mark. -/
theorem BeginsWord.exists_of_strays {text letters after : List Char} {abbreviation : Abbreviation}
    (h : BeginsWord text abbreviation letters after)
    (hstrays : Strays abbreviation.codeMarks after) :
    ∃ cited ∈ citations text, ∃ c, (c = '.' ∨ c = '-') ∧ cited.toList.getLast? = some c := by
  have hmarks := mark_kind abbreviation h.mem
  obtain ⟨rest, hcode, hword⟩ := (strays_iff hmarks).mp hstrays
  obtain ⟨tail, rfl, htail⟩ := exists_tail hcode
  obtain ⟨cited, hmem, hcited⟩ := h.exists_citation hcode
  refine ⟨cited, hmem, ?_⟩
  cases htail with
  | alone hrest =>
    rw [hword] at hrest
    cases hrest
  | code hseparator hcode =>
    obtain ⟨c, hc, hlast, hplain⟩ := hcode.exists_getLast?
    rw [hword] at hplain
    refine ⟨c, hmarks c ((mem_marks_iff hmarks (hcode.isCodeCharacter c hc)).mpr hplain), ?_⟩
    rw [hcited, getLast?_append_code _ _ hcode.ne_nil, hlast]

/-! ### Separators -/

theorem afterSeparator_append {text : List Char} (h : text ≠ []) (rest : List Char) :
    afterSeparator (text ++ rest) = afterSeparator text ++ rest := by
  obtain ⟨c, text, rfl⟩ := List.exists_cons_of_ne_nil h
  rw [List.cons_append, afterSeparator, afterSeparator]
  split_ifs <;> rfl

/-- A number is what stands behind its separator. -/
theorem IsNumber.afterSeparator_append {code separator : List Char} (h : IsNumber code)
    (hseparator : IsSeparator separator) : afterSeparator (separator ++ code) = code := by
  obtain rfl | rfl | rfl := hseparator
  · obtain ⟨c, hhead, hdigit⟩ := h.opens
    obtain ⟨rest, rfl⟩ := List.head?_eq_some_iff.mp hhead
    have hplain : ¬(c = '-' ∨ c = ' ') := by
      rintro (rfl | rfl) <;> exact absurd hdigit (by decide)
    rw [List.nil_append, afterSeparator, if_neg hplain]
  · rfl
  · rfl

theorem head?_separator_append {separator code : List Char} (h : IsSeparator separator) {c : Char}
    (hc : (separator ++ code).head? = some c) : c = '-' ∨ c = ' ' ∨ code.head? = some c := by
  obtain rfl | rfl | rfl := h
  · exact .inr (.inr hc)
  · exact .inl (Option.some.inj hc).symm
  · exact .inr (.inl (Option.some.inj hc).symm)

/-- Two ways to cut a text are the same if neither rest begins with a character of the other one's
first part. -/
theorem append_inj_of_head? {first rest first' rest' : List Char}
    (h : first ++ rest = first' ++ rest') (hrest : ∀ c, rest.head? = some c → c ∉ first')
    (hrest' : ∀ c, rest'.head? = some c → c ∉ first) : first = first' ∧ rest = rest' := by
  obtain ⟨between, rfl, rfl⟩ | ⟨between, rfl, rfl⟩ := List.append_eq_append_iff.mp h
  · cases between with
    | nil => exact ⟨by simp, rfl⟩
    | cons c between => exact absurd (by simp) (hrest c rfl)
  · cases between with
    | nil => exact ⟨by simp, rfl⟩
    | cons c between => exact absurd (by simp) (hrest' c rfl)

namespace BeginsWord

variable {text letters after : List Char} {abbreviation : Abbreviation}

/-- Where a code starts with a mark there is a citation that is not well formed. -/
theorem exists_of_opensWithMark (h : BeginsWord text abbreviation letters after)
    (hstays : ¬Strays abbreviation.codeMarks after)
    (hopens : OpensWithMark abbreviation.codeMarks (afterSeparator after)) :
    ∃ cited ∈ citations text, ¬IsWellFormed cited.toList := by
  obtain ⟨code, rest, hread, hbehind, hcode⟩ := exists_code_of_opensWithMark hstays hopens
  obtain ⟨⟨c, hc, hhead⟩, -⟩ := hopens
  replace hc := mark_kind abbreviation h.mem c hc
  obtain ⟨separator, hseparator, hafter⟩ := exists_separator after
  rw [hbehind, ← List.append_assoc] at hafter
  subst hafter
  have hne : separator ++ code ≠ [] := by simp [hcode.ne_nil]
  rw [afterSeparator_append hne] at hbehind
  replace hbehind := List.append_cancel_right hbehind
  replace hhead : code.head? = some c := by
    rwa [afterSeparator_append hne, hbehind, List.head?_append_of_ne_nil _ hcode.ne_nil] at hhead
  obtain ⟨cited, hmem, hcited⟩ := h.exists_citation hread
  refine ⟨cited, hmem, fun hwell ↦ ?_⟩
  obtain ⟨letters', tail, hsplit, hletters, htail⟩ := hwell
  rw [hcited] at hsplit
  -- The letters end in the same place, as neither tail begins with a letter.
  obtain ⟨-, rfl⟩ := append_inj_of_head? hsplit
    (fun d hd ↦ hletters.not_mem (by
      obtain hd | hd | hd := head?_separator_append hseparator hd
      · exact .inr (.inl hd)
      · exact .inr (.inr hd)
      · obtain rfl := Option.some.inj (hhead.symm.trans hd)
        exact hc.imp_right .inl))
    (fun d hd hletter ↦ by
      obtain ⟨hword, hdigit⟩ := h.spells.kind_of_mem h.mem hletter
      obtain rfl | ⟨separator', number, hseparator', rfl, hnumber⟩ := htail
      · cases hd
      · obtain hd | hd | hd := head?_separator_append hseparator' hd
        · exact absurd hword (by rw [isWordCharacter_of_separator (.inl hd)]; decide)
        · exact absurd hword (by rw [isWordCharacter_of_separator (.inr hd)]; decide)
        · obtain ⟨e, he, hopen⟩ := hnumber.opens
          obtain rfl := Option.some.inj (he.symm.trans hd)
          rw [hopen] at hdigit
          cases hdigit)
  obtain hnil | ⟨separator', number, hseparator', hsame, hnumber⟩ := htail
  · exact hne hnil
  · rw [hsame, hnumber.afterSeparator_append hseparator'] at hbehind
    subst hbehind
    obtain ⟨e, he, hopen⟩ := hnumber.opens
    obtain rfl := Option.some.inj (he.symm.trans hhead)
    obtain rfl | rfl := hc <;> exact absurd hopen (by decide)

/-- A citation whose code does not stray has a code that ends with a digit, if it has one. -/
theorem cases_of_not_strays {tail rest : List Char}
    (h : BeginsWord text abbreviation letters (tail ++ rest))
    (hstays : ¬Strays abbreviation.codeMarks (tail ++ rest))
    (hread : afterCode? abbreviation.codeMarks (tail ++ rest) = some rest) :
    tail = [] ∨ ∃ separator code last, IsSeparator separator ∧ tail = separator ++ code ∧
      afterSeparator (tail ++ rest) = code ++ rest ∧ IsCode abbreviation.codeMarks code rest ∧
        code.getLast? = some last ∧ isDecimalDigit last = true := by
  have hmarks := mark_kind abbreviation h.mem
  obtain ⟨hrest, halone | ⟨code, hbehind, hcode⟩⟩ := isCode_of_not_strays hmarks hstays hread
  · exact .inl (List.append_left_eq_self.mp halone)
  · obtain ⟨separator, hseparator, hsplit⟩ := exists_separator (tail ++ rest)
    rw [hbehind, ← List.append_assoc] at hsplit
    obtain ⟨last, hlast, hend, hword⟩ := hcode.exists_getLast?
    rw [hrest] at hword
    exact .inr ⟨separator, code, last, hseparator, List.append_cancel_right hsplit, hbehind, hcode,
      hend, (isDecimalDigit_iff hmarks (hcode.isCodeCharacter last hlast)).mpr hword⟩

/-- A citation is well formed if its code neither strays nor starts with a mark. -/
theorem isWellFormed {tail rest : List Char}
    (h : BeginsWord text abbreviation letters (tail ++ rest))
    (hstays : ¬Strays abbreviation.codeMarks (tail ++ rest))
    (hopens : ¬OpensWithMark abbreviation.codeMarks (afterSeparator (tail ++ rest)))
    (hread : afterCode? abbreviation.codeMarks (tail ++ rest) = some rest) :
    IsWellFormed (letters ++ tail) := by
  refine ⟨letters, tail, rfl, h.spells.isAbbreviation h.mem, ?_⟩
  obtain hnil | ⟨separator, code, last, hseparator, htail, hbehind, hcode, hend, hdigit⟩ :=
    h.cases_of_not_strays hstays hread
  · exact .inl hnil
  · refine .inr ⟨separator, code, hseparator, htail,
      isMarked_of_forall h.mem hcode.isCodeCharacter, ?_, last, hend, hdigit⟩
    obtain ⟨c, behind, rfl⟩ := List.exists_cons_of_ne_nil hcode.ne_nil
    refine ⟨c, rfl, ?_⟩
    have hkind := hcode.isCodeCharacter c List.mem_cons_self
    rw [isCodeCharacter, Bool.or_eq_true, List.contains_iff_mem] at hkind
    refine hkind.resolve_right fun hmark ↦ hopens ?_
    rw [hbehind]
    exact ⟨⟨c, hmark, rfl⟩, last, hcode.subset_run (List.mem_of_getLast? hend), hdigit⟩

/-- A citation whose code does not stray is the one citation in its own text. -/
theorem citations_self {tail rest : List Char}
    (h : BeginsWord text abbreviation letters (tail ++ rest))
    (hstays : ¬Strays abbreviation.codeMarks (tail ++ rest))
    (hread : afterCode? abbreviation.codeMarks (tail ++ rest) = some rest) :
    citations (letters ++ tail) = [String.ofList (letters ++ tail)] := by
  have hwhole : afterCode? abbreviation.codeMarks tail = some [] := by
    obtain rfl | ⟨separator, code, last, hseparator, rfl, -, hcode, hend, hdigit⟩ :=
      h.cases_of_not_strays hstays hread
    · rfl
    · exact afterCode?_of_getLast? hseparator hcode.isCodeCharacter hend
        (isWordCharacter_of_isDecimalDigit hdigit)
  have hread : citation none (letters ++ tail ++ []) = some ((), []) :=
    citation_eq_some_iff.mpr
      ⟨rfl, abbreviation, h.mem, letters, tail, h.spells, List.append_nil _, hwhole⟩
  have hne : letters ++ tail ≠ [] := by
    obtain ⟨c, rest, rfl⟩ := h.spells.exists_cons h.mem
    exact List.cons_ne_nil c _
  have hpieces := piecesFrom_of_found hne hread
  rw [List.append_nil] at hpieces
  rw [citations, pieces, hpieces]
  rfl

end BeginsWord

/-! ### The citations of a text -/

/-- What is expected of the citations of a text. -/
structure CitesWell (text : List Char) : Prop where
  ascends : (citations text).Pairwise (· < ·)
  standsIn : ∀ cited ∈ citations text, StandsIn text cited.toList
  isWellFormed : ∀ cited ∈ citations text, IsWellFormed cited.toList
  rescanned : ∀ cited ∈ citations text, citations cited.toList = [cited]

theorem BeginsWord.not_strays_of_rescanned {text letters after : List Char}
    {abbreviation : Abbreviation}
    (h : ∀ cited ∈ citations text, citations cited.toList = [cited])
    (hplace : BeginsWord text abbreviation letters after) :
    ¬Strays abbreviation.codeMarks after := by
  intro hstrays
  obtain ⟨cited, hmem, c, hc, hlast⟩ := hplace.exists_of_strays hstrays
  have hword : isWordAt cited.toList.getLast? = true :=
    isWordAt_getLast?_of_rescanned (by rw [h cited hmem]; exact List.mem_singleton_self cited)
  rw [hlast] at hword
  obtain rfl | rfl := hc <;> exact absurd hword (by decide)

theorem rescanned_of_not_strays {text : List Char}
    (h : ∀ abbreviation letters after, BeginsWord text abbreviation letters after →
      ¬Strays abbreviation.codeMarks after) {cited : String} (hmem : cited ∈ citations text) :
    citations cited.toList = [cited] := by
  obtain ⟨abbreviation, letters, tail, rest, hplace, hread, hcited⟩ := mem_citations_iff.mp hmem
  rw [hcited, hplace.citations_self (h _ _ _ hplace) hread, ← hcited, String.ofList_toList]

/-- The citations of a text ascend, stand in it between word boundaries, and are abbreviations with
codes of digits and marks at most. All of them are well formed exactly if no code strays or starts
with a mark, and each is the one citation in its own text exactly if no code strays. -/
theorem citations_exact (text : List Char) :
    (citations text).Pairwise (· < ·) ∧
      (∀ cited ∈ citations text, StandsIn text cited.toList ∧
        HasShape (fun code ↦ code ≠ [] ∧ IsMarked code) cited.toList) ∧
      (CitesWell text ↔ ∀ abbreviation letters after, BeginsWord text abbreviation letters after →
        ¬Strays abbreviation.codeMarks after ∧
          ¬OpensWithMark abbreviation.codeMarks (afterSeparator after)) ∧
      ((∀ cited ∈ citations text, citations cited.toList = [cited]) ↔
        ∀ abbreviation letters after, BeginsWord text abbreviation letters after →
          ¬Strays abbreviation.codeMarks after) := by
  refine ⟨pairwise_sortedSet _, fun cited hmem ↦ ⟨standsIn_of_mem hmem, hasShape_of_mem hmem⟩,
    ⟨fun h abbreviation letters after hplace ↦ ?_, fun h ↦ ?_⟩,
    fun h _ _ _ hplace ↦ hplace.not_strays_of_rescanned h,
    fun h cited hmem ↦ rescanned_of_not_strays h hmem⟩
  · have hstays := hplace.not_strays_of_rescanned h.rescanned
    refine ⟨hstays, fun hopens ↦ ?_⟩
    obtain ⟨cited, hmem, hill⟩ := hplace.exists_of_opensWithMark hstays hopens
    exact hill (h.isWellFormed cited hmem)
  · refine ⟨pairwise_sortedSet _, fun cited ↦ standsIn_of_mem, fun cited hmem ↦ ?_,
      fun cited hmem ↦ rescanned_of_not_strays (fun _ _ _ hplace ↦ (h _ _ _ hplace).1) hmem⟩
    obtain ⟨abbreviation, letters, tail, rest, hplace, hread, hcited⟩ := mem_citations_iff.mp hmem
    obtain ⟨hstays, hopens⟩ := h _ _ _ hplace
    rw [hcited]
    exact hplace.isWellFormed hstays hopens hread

/-- A letter behind a year: the code is cut at the hyphen, and then at the digits before it. -/
theorem not_citesWell_letterBehindYear : ¬CitesWell "ГОСТ 31357-2007г".toList := by
  intro h
  have hcut := h.rescanned "ГОСТ 31357-" (by decide +kernel)
  exact absurd hcut (by decide +kernel)

end CalculatorCatalog.Citation
