import CalculatorCatalog.Proofs.Definition.Reading
import CalculatorCatalog.Proofs.Text.TopLevel

/-!
# Searching for attributes around a literal

The value of an attribute is read from behind its colon, and no reading but that of a quoted value
goes past the colon of the next attribute (`EndsAtColon`); a quoted value goes no further than the
next quote. So where a literal opens as the value of an attribute, everything that the search for
another attribute reads before it is settled (`SettlesAtLiteral`): it does not depend on what the
literal holds. `ReadsAttribute.first?_append` divides the search into what is found up to the opening
quote and what is found behind it.
-/

set_option autoImplicit false
set_option relaxedAutoImplicit false

namespace CalculatorCatalog.Definition

open CalculatorCatalog.Number CalculatorCatalog.Text

variable {α : Type} {read : List Char → Option (α × List Char)}

/-! ### Readings that end at a colon -/

/-- A reading takes no colon and does not look behind one. -/
def EndsAtColon (read : List Char → Option (α × List Char)) : Prop :=
  ∀ text rest, read (text ++ ':' :: rest) =
    (read text).map fun (value, left) ↦ (value, left ++ ':' :: rest)

/-- A reading is settled where a literal opens behind a later colon: it is the same whatever the
literal holds. -/
def SettlesAtLiteral (read : List Char → Option (α × List Char)) : Prop :=
  ∀ text gap quote rest, isBlank gap = true → isQuote quote = true →
    read (text ++ ':' :: (gap ++ quote :: rest)) =
      (read (text ++ ':' :: (gap ++ [quote]))).map fun (value, left) ↦ (value, left ++ rest)

theorem EndsAtColon.settlesAtLiteral (h : EndsAtColon read) : SettlesAtLiteral read := by
  intro text gap quote rest _ _
  rw [h, h, Option.map_map]
  refine congrArg (Option.map · (read text)) (funext fun result ↦ ?_)
  simp

theorem afterWholeWord?_append_colon {word : List Char} (hword : ':' ∉ word)
    (text rest : List Char) :
    afterWholeWord? word (text ++ ':' :: rest) =
      (afterWholeWord? word text).map (· ++ ':' :: rest) := by
  rw [afterWholeWord?, afterWholeWord?, afterWord?_append_barrier hword]
  cases afterWord? word text with
  | none => rfl
  | some left =>
    have hhead : isWordAt (left ++ ':' :: rest).head? = isWordAt left.head? := by
      cases left <;> rfl
    simp only [Option.map_some, Option.bind_eq_bind, Option.bind_some, hhead]
    split_ifs <;> rfl

theorem endsAtColon_flag : EndsAtColon fun text ↦
    ((afterWholeWord? "true".toList text).map (true, ·)) <|>
      ((afterWholeWord? "false".toList text).map (false, ·)) := by
  intro text rest
  simp only [afterWholeWord?_append_colon (by decide : ':' ∉ "true".toList),
    afterWholeWord?_append_colon (by decide : ':' ∉ "false".toList)]
  cases afterWholeWord? "true".toList text <;> cases afterWholeWord? "false".toList text <;> rfl

theorem endsAtColon_callName? : EndsAtColon callName? := by
  intro text rest
  have hcolon : isWordCharacter ':' = false := rfl
  simp only [callName?, takeWhile_append_barrier hcolon, dropWhile_append_barrier hcolon,
    skipWhite_append_cons (by decide : isWhiteSpace ':' = false),
    afterWord?_append_barrier (by decide : ':' ∉ ['('])]
  split_ifs
  · rfl
  · cases afterWord? ['('] (skipWhite (text.dropWhile isWordCharacter)) <;> rfl

theorem endsAtColon_computation : EndsAtColon fun text ↦
    (afterConst? text >>= callName?) <|> callName? text := by
  intro text rest
  simp only [afterConst?_append_barrier (by decide : ':' ∉ constWord)
    (by decide : isWhiteSpace ':' = false), endsAtColon_callName? text rest]
  cases afterConst? text with
  | none => cases callName? text <;> rfl
  | some marked =>
    simp only [Option.map_some, Option.bind_eq_bind, Option.bind_some,
      endsAtColon_callName? marked rest]
    cases callName? marked <;> cases callName? text <;> rfl

theorem endsAtColon_bracket {bracket : Char} (hbracket : bracket ≠ ':') :
    EndsAtColon fun text ↦
      ((afterWord? constWord text).bind (fun rest ↦ afterWord? [bracket] (skipWhite rest)) <|>
        afterWord? [bracket] text).map ((), ·) := by
  intro text rest
  have hword : ':' ∉ [bracket] := by simpa using hbracket.symm
  simp only [afterWord?_append_barrier (by decide : ':' ∉ constWord),
    afterWord?_append_barrier hword]
  cases afterWord? constWord text with
  | none => cases afterWord? [bracket] text <;> rfl
  | some marked =>
    simp only [Option.map_some, Option.bind_some,
      skipWhite_append_cons (by decide : isWhiteSpace ':' = false),
      afterWord?_append_barrier hword]
    cases afterWord? [bracket] (skipWhite marked) <;> cases afterWord? [bracket] text <;> rfl

/-! ### Numbers -/

theorem head?_append_colon {c : Char} (hc : c ≠ ':') (text rest : List Char) :
    (text ++ ':' :: rest).head? = some c ↔ text.head? = some c := by
  cases text with
  | nil => simp [hc.symm]
  | cons d text => rfl

theorem readExponent_append_colon (text rest : List Char) :
    readExponent (text ++ ':' :: rest) =
      ((readExponent text).1, (readExponent text).2 ++ ':' :: rest) := by
  cases text with
  | nil => rfl
  | cons mark tail =>
    have hminus := head?_append_colon (by decide : '-' ≠ ':') tail rest
    have hplus := head?_append_colon (by decide : '+' ≠ ':') tail rest
    have hunsigned : (if tail.head? = some '-' ∨ tail.head? = some '+' then
        (tail ++ ':' :: rest).drop 1 else tail ++ ':' :: rest) =
        (if tail.head? = some '-' ∨ tail.head? = some '+' then tail.drop 1 else tail) ++
          ':' :: rest := by
      split_ifs with hsign
      · cases tail with
        | nil => simp at hsign
        | cons c tail => rfl
      · rfl
    have hdigit : Char.isDigit ':' = false := rfl
    by_cases hmark : mark = 'e' ∨ mark = 'E'
    · simp only [readExponent, List.cons_append, if_pos hmark, hminus, hplus, hunsigned,
        takeWhile_append_barrier hdigit, dropWhile_append_barrier hdigit]
      generalize (if tail.head? = some '-' ∨ tail.head? = some '+' then tail.drop 1 else tail) =
        unsigned
      cases unsigned.takeWhile Char.isDigit <;> rfl
    · simp [readExponent, hmark]

theorem readMantissa?_append_colon (text rest : List Char) :
    readMantissa? (text ++ ':' :: rest) =
      (readMantissa? text).map fun (whole, fraction, left) ↦
        (whole, fraction, left ++ ':' :: rest) := by
  have hdigit : Char.isDigit ':' = false := rfl
  have htake := takeWhile_append_barrier hdigit text rest
  have hdrop := dropWhile_append_barrier hdigit text rest
  by_cases hpoint : (text.dropWhile Char.isDigit).head? = some '.'
  · obtain ⟨after, hleft⟩ : ∃ after, text.dropWhile Char.isDigit = '.' :: after :=
      List.head?_eq_some_iff.mp hpoint
    have hlength : (after.takeWhile Char.isDigit).length ≤ after.length :=
      (List.takeWhile_sublist _).length_le
    simp only [readMantissa?, htake, hdrop, hleft, List.cons_append,
      takeWhile_append_barrier hdigit]
    split_ifs
    · simp only [Option.map_some, List.drop_succ_cons, List.drop_append_of_le_length hlength]
    · rfl
    · rfl
  · have hpoint' : ((text ++ ':' :: rest).dropWhile Char.isDigit).head? ≠ some '.' := by
      rwa [hdrop, ne_eq, head?_append_colon (by decide)]
    rw [readMantissa?_of_head?_ne hpoint, readMantissa?_of_head?_ne hpoint', htake, hdrop]
    split_ifs <;> rfl

theorem endsAtColon_readNumber? : EndsAtColon readNumber? := by
  intro text rest
  have hminus := head?_append_colon (by decide : '-' ≠ ':') text rest
  have hunsigned : (if text.head? = some '-' then (text ++ ':' :: rest).drop 1
      else text ++ ':' :: rest) =
      (if text.head? = some '-' then text.drop 1 else text) ++ ':' :: rest := by
    split_ifs with hsign
    · cases text with
      | nil => simp at hsign
      | cons c text => rfl
    · rfl
  simp only [readNumber?, hminus, hunsigned, readMantissa?_append_colon]
  cases readMantissa? (if text.head? = some '-' then text.drop 1 else text) with
  | none => rfl
  | some result =>
    obtain ⟨whole, fraction, left⟩ := result
    simp only [Option.map_some, Option.bind_eq_bind, Option.bind_some, readExponent_append_colon]
    rfl

/-! ### Quoted values -/

theorem settlesAtLiteral_quotedValue? : SettlesAtLiteral quotedValue? := by
  intro text gap quote rest hgap hquote
  cases text with
  | nil => rfl
  | cons c text =>
    have hsplit (rest : List Char) :
        text ++ ':' :: (gap ++ quote :: rest) = (text ++ ':' :: gap) ++ quote :: rest := by simp
    have htake (rest : List Char) : ((text ++ ':' :: gap) ++ quote :: rest).takeWhile
        (!isQuote ·) = (text ++ ':' :: gap).takeWhile (!isQuote ·) :=
      takeWhile_append_barrier (by simp [hquote]) _ _
    have hdrop (rest : List Char) : ((text ++ ':' :: gap) ++ quote :: rest).dropWhile
        (!isQuote ·) = (text ++ ':' :: gap).dropWhile (!isQuote ·) ++ quote :: rest :=
      dropWhile_append_barrier (by simp [hquote]) _ _
    simp only [List.cons_append, quotedValue?, hsplit, htake, hdrop]
    split_ifs
    · cases (text ++ ':' :: gap).takeWhile (!isQuote ·) with
      | nil => rfl
      | cons d value =>
        cases (text ++ ':' :: gap).dropWhile (!isQuote ·) <;> simp
    · rfl

theorem settlesAtLiteral_string : SettlesAtLiteral fun text ↦
    (quotedValue? text).map fun (value, rest) ↦ (String.ofList value, rest) := by
  intro text gap quote rest hgap hquote
  simp only [settlesAtLiteral_quotedValue? text gap quote rest hgap hquote, Option.map_map]
  rfl

/-! ### The text before a literal -/

/-- The text before a literal that is the value of an attribute: it ends in the name of the
attribute, its colon and white space. -/
structure AttributeFront (name front : List Char) : Prop where
  isWord : IsWord name
  exists_eq : ∃ lead gap gap', isWordAt lead.getLast? = false ∧ isBlank gap = true ∧
    isBlank gap' = true ∧ front = lead ++ (name ++ (gap ++ ':' :: gap'))

/-- A text ends in one way in a run of characters of a kind. -/
theorem eq_of_append_eq_append {kind : Char → Bool} {first run first' run' : List Char}
    (h : first ++ run = first' ++ run') (hrun : run.all kind = true) (hrun' : run'.all kind = true)
    (hfirst : ∀ c, first.getLast? = some c → kind c = false)
    (hfirst' : ∀ c, first'.getLast? = some c → kind c = false) : first = first' ∧ run = run' := by
  have hnone {middle tail before : List Char} (hmiddle : (middle ++ tail).all kind = true)
      (hbefore : ∀ c, (before ++ middle).getLast? = some c → kind c = false) : middle = [] := by
    cases hlast : middle.getLast? with
    | none => exact List.getLast?_eq_none_iff.mp hlast
    | some c =>
      have hkind := hbefore c (by rw [List.getLast?_append, hlast, Option.some_or])
      rw [List.all_append, Bool.and_eq_true] at hmiddle
      rw [List.all_eq_true.mp hmiddle.1 c (List.mem_of_getLast? hlast)] at hkind
      cases hkind
  rcases List.append_eq_append_iff.mp h with ⟨middle, rfl, rfl⟩ | ⟨middle, rfl, rfl⟩
  · obtain rfl := hnone hrun hfirst'
    exact ⟨(List.append_nil first).symm, rfl⟩
  · obtain rfl := hnone hrun' hfirst
    exact ⟨List.append_nil first', rfl⟩

/-- A word before a colon is the name of the attribute, and it stands where the name does. -/
theorem eq_of_word_before_colon {name other lead passed gap gap' : List Char} (hname : IsWord name)
    (hother : IsWord other) (hgap : isBlank gap = true) (hgap' : isBlank gap' = true)
    (hlead : isWordAt lead.getLast? = false) (hpassed : isWordAt passed.getLast? = false)
    (h : passed ++ (other ++ gap') = lead ++ (name ++ gap)) : passed = lead ∧ other = name := by
  have hblank {word before : List Char} (hword : IsWord word) :
      ∀ c, (before ++ word).getLast? = some c → isWhiteSpace c = false := by
    intro c hc
    have hlast := hword.isWordAt_getLast? before
    rw [hc] at hlast
    exact isWhiteSpace_of_isWordCharacter hlast
  have hword {before : List Char} (hbefore : isWordAt before.getLast? = false) :
      ∀ c, before.getLast? = some c → isWordCharacter c = false := by
    intro c hc
    rw [hc] at hbefore
    exact hbefore
  rw [← List.append_assoc, ← List.append_assoc] at h
  have hends := (eq_of_append_eq_append h hgap' hgap (hblank hother) (hblank hname)).1
  exact eq_of_append_eq_append hends hother.word hname.word (hword hpassed) (hword hlead)

/-- Where no name stands before the first colon, no attribute begins. -/
theorem afterAttributeName?_of_first_colon {other before passed : List Char} (hother : IsWord other)
    (hcolon : ':' ∉ before) (h : ∀ gap, isBlank gap = true → isWordAt passed.getLast? = false →
      before ≠ other ++ gap) (tail : List Char) :
    afterAttributeName? other passed.getLast? (before ++ ':' :: tail) = none := by
  refine Option.eq_none_iff_forall_ne_some.mpr fun left hleft ↦ ?_
  obtain ⟨hboundary, gap, tail', hgap, htext, -⟩ := afterAttributeName?_eq_some hleft
  have hfirst : ':' ∉ other ++ gap := by
    rw [List.mem_append, not_or]
    exact ⟨hother.notMem (by decide), notMem_gap hgap (by decide)⟩
  rw [← List.append_assoc] at htext
  have hplace := congrArg (List.idxOf ':') htext
  rw [List.idxOf_append_of_notMem hcolon, List.idxOf_append_of_notMem hfirst,
    List.idxOf_cons_self, List.idxOf_cons_self] at hplace
  obtain rfl := (List.append_inj htext (Nat.add_right_cancel hplace)).1
  rw [List.append_assoc, isWordBoundary, hother.isWordAt_head?, Bool.bne_true,
    Bool.not_eq_true'] at hboundary
  exact h gap hgap hboundary rfl

/-- Before a colon that is not its own, a name is recognised in the same way whatever comes behind
that colon, and the colon comes behind the one that is recognised. -/
theorem afterAttributeName?_before_colon {other before passed : List Char} (hother : IsWord other)
    (h : ':' ∉ before → ∀ gap, isBlank gap = true → isWordAt passed.getLast? = false →
      before ≠ other ++ gap) :
    (∀ tail, afterAttributeName? other passed.getLast? (before ++ ':' :: tail) = none) ∨
    ∃ middle, ∀ tail, afterAttributeName? other passed.getLast? (before ++ ':' :: tail) =
      some (middle ++ ':' :: tail) := by
  by_cases hcolon : ':' ∈ before
  · obtain ⟨first, second, rfl, hfirst⟩ := List.eq_append_cons_of_mem hcolon
    simp only [List.append_assoc, List.cons_append]
    by_cases hstands : ∃ gap, isBlank gap = true ∧ isWordAt passed.getLast? = false ∧
        first = other ++ gap
    · obtain ⟨gap, hgap, hword, rfl⟩ := hstands
      refine .inr ⟨skipWhite second, fun tail ↦ ?_⟩
      rw [List.append_assoc, afterAttributeName?_append hother hword hgap,
        skipWhite_append_cons (by decide)]
    · exact .inl fun tail ↦ afterAttributeName?_of_first_colon hother hfirst
        (fun gap hgap hword heq ↦ hstands ⟨gap, hgap, hword, heq⟩) _
  · exact .inl fun tail ↦ afterAttributeName?_of_first_colon hother hcolon (h hcolon) tail

/-- Before the literal another attribute is recognised in the same way whatever the literal is, and
the colon of the literal comes behind its own. -/
theorem AttributeFront.afterAttributeName? {name other front passed rest : List Char}
    (h : AttributeFront name front) (hother : IsWord other) (hne : other ≠ name)
    (hfront : front = passed ++ rest) :
    (∀ quote tail, isQuote quote = true →
      Text.afterAttributeName? other passed.getLast? (rest ++ quote :: tail) = none) ∨
    ∃ middle gap, isBlank gap = true ∧ ∀ quote tail, isQuote quote = true →
      Text.afterAttributeName? other passed.getLast? (rest ++ quote :: tail) =
        some (middle ++ ':' :: (gap ++ quote :: tail)) := by
  obtain ⟨hname, lead, gap, gap', hlead, hgap, hgap', rfl⟩ := h
  have hsplit : (lead ++ (name ++ gap)) ++ ':' :: gap' = passed ++ rest := by
    rw [← hfront]
    simp
  rcases List.append_eq_append_iff.mp hsplit with ⟨middle, -, hrest⟩ | ⟨before, hbefore, rfl⟩
  · -- What is left begins at the colon or behind it, where no word stands.
    left
    intro quote tail hquote
    refine afterAttributeName?_of_not_word hother ?_
    cases rest with
    | nil => exact isWordCharacter_of_isQuote hquote
    | cons c rest =>
      have hmem : c ∈ ':' :: gap' := by
        rw [hrest]
        simp
      rcases List.mem_cons.mp hmem with rfl | hmem
      · rfl
      · exact isWordCharacter_of_isWhiteSpace (List.all_eq_true.mp hgap' c hmem)
  · simp only [List.append_assoc, List.cons_append]
    have hstands : ':' ∉ before → ∀ inner, isBlank inner = true →
        isWordAt passed.getLast? = false → before ≠ other ++ inner := by
      intro _ inner hinner hword heq
      subst heq
      exact hne (eq_of_word_before_colon hname hother hgap hinner hlead hword hbefore.symm).2
    rcases afterAttributeName?_before_colon hother hstands with hnone | ⟨middle, hsome⟩
    · exact .inl fun quote tail _ ↦ hnone _
    · exact .inr ⟨middle, gap', hgap', fun quote tail _ ↦ hsome _⟩

/-! ### The search -/

section Search

variable {name front : List Char} {wanted : String} {recognize : Recognizer α} {quote : Char}

theorem ReadsAttribute.eq_none_of_quote (h : ReadsAttribute wanted read recognize)
    (hwanted : IsWord wanted.toList) (hquote : isQuote quote = true) (before : Option Char)
    (tail : List Char) : recognize before (quote :: tail) = none :=
  h.eq_none (afterAttributeName?_of_not_word hwanted (isWordCharacter_of_isQuote hquote))

theorem ReadsAttribute.eq_none_of_nil (h : ReadsAttribute wanted read recognize)
    (hwanted : IsWord wanted.toList) (before : Option Char) : recognize before [] = none :=
  h.eq_none (afterAttributeName?_of_not_word hwanted rfl)

/-- What another attribute is before the literal does not depend on what the literal holds. -/
theorem ReadsAttribute.eq_map_of_attributeFront (h : ReadsAttribute wanted read recognize)
    (hread : SettlesAtLiteral read) (hwanted : IsWord wanted.toList)
    (hne : wanted.toList ≠ name) (hquote : isQuote quote = true) {passed rest : List Char}
    (hfront : AttributeFront name (passed ++ rest)) (tail : List Char) :
    recognize passed.getLast? (rest ++ quote :: tail) =
      (recognize passed.getLast? (rest ++ [quote])).map fun (value, left) ↦
        (value, left ++ tail) := by
  rw [h, h]
  rcases hfront.afterAttributeName? hwanted hne rfl with hnone | ⟨middle, gap, hgap, hsome⟩
  · rw [hnone quote tail hquote, hnone quote [] hquote]
    rfl
  · rw [hsome quote tail hquote, hsome quote [] hquote]
    exact hread middle gap quote tail hgap hquote

/-- A search for another attribute finds what it finds up to the opening quote, and behind it
otherwise. -/
theorem ReadsAttribute.first?_append (h : ReadsAttribute wanted read recognize)
    (hread : SettlesAtLiteral read) (hwanted : IsWord wanted.toList)
    (hne : wanted.toList ≠ name) (hquote : isQuote quote = true) {passed rest : List Char}
    (hfront : AttributeFront name (passed ++ rest)) (tail : List Char) :
    first? recognize passed.getLast? (rest ++ quote :: tail) =
      ((first? recognize passed.getLast? (rest ++ [quote])).map fun found ↦
        { found with rest := found.rest ++ tail }).or
      ((first? recognize (some quote) tail).map fun found ↦
        { found with passed := rest ++ quote :: found.passed }) := by
  induction rest generalizing passed with
  | nil =>
    rw [List.nil_append, List.nil_append, first?, first?, first?,
      h.eq_none_of_quote hwanted hquote, h.eq_none_of_quote hwanted hquote,
      h.eq_none_of_nil hwanted]
    rfl
  | cons c rest ih =>
    have hpassed : passed ++ c :: rest = passed ++ [c] ++ rest := by simp
    have hhere := h.eq_map_of_attributeFront hread hwanted hne hquote hfront tail
    rw [List.cons_append, List.cons_append] at hhere ⊢
    rw [hpassed] at hfront
    have hlater := ih hfront
    rw [List.getLast?_concat] at hlater
    rw [first?, first?, hhere, hlater]
    cases recognize passed.getLast? (c :: (rest ++ [quote])) with
    | some result => rfl
    | none =>
      cases first? recognize (some c) (rest ++ [quote]) with
      | some found => rfl
      | none => cases first? recognize (some quote) tail <;> rfl

end Search

end CalculatorCatalog.Definition
