import CalculatorCatalog.Proofs.Text.Lexemes

/-!
# Hiding what is nested

Two scanners count brackets. `maskNested` counts them from the start of a source, where a closing
bracket without a partner changes nothing, and `closingOffset?` counts them from an opening bracket
on. Both are read here off the lexemes of the source, with one depth (`depthFrom`), so that they
agree on every bracket that stands at depth zero: the bracket that is found is the lexeme with which
the depth comes back to zero (`ReturnsAt`), all that stands before it is hidden, and everything up to
the end of the source is if none is found (`BracketScansAgree`). What stands at depth zero and is no
comment is not hidden. `maskNested_exact` puts the parts together.
-/

set_option autoImplicit false
set_option relaxedAutoImplicit false

namespace CalculatorCatalog.Text

/-! ### Lexemes of the masked text -/

/-- What is left of a lexeme at a depth. -/
def Lexeme.masked (depth : Nat) : Lexeme → List Char
  | .code c => if isMasked depth (c, .code) then hidden c else [c]
  | .literal text => if depth = 0 then text else blanks text
  | .comment text => blanks text

/-- What is left of lexemes, given the depth before them. -/
def maskFrom (depth : Nat) : List Lexeme → List Char
  | [] => []
  | lexeme :: lexemes => lexeme.masked depth ++ maskFrom (lexeme.depthAfter depth) lexemes

theorem maskFrom_append (depth : Nat) (first second : List Lexeme) :
    maskFrom depth (first ++ second) =
      maskFrom depth first ++ maskFrom (depthFrom depth first) second := by
  induction first generalizing depth with
  | nil => rfl
  | cons lexeme first ih =>
    rw [List.cons_append, maskFrom, maskFrom, ih, List.append_assoc]
    rfl

theorem Lexes.maskScanned_eq {text : List Char} {lexemes : List Lexeme} (h : Lexes text lexemes)
    (depth : Nat) : maskScanned depth (scan text) = maskFrom depth lexemes := by
  induction h generalizing depth with
  | nil => rfl
  | code hcode _ ih =>
    rw [hcode.scan_cons, maskScanned, ih]
    rfl
  | @literal text rest lexemes hliteral _ ih =>
    rw [hliteral.scan_append, maskFrom, Lexeme.masked, Lexeme.depthAfter, ← ih]
    by_cases hdepth : depth = 0
    · rw [hdepth, if_pos rfl]
      exact maskScanned_literal_append text (scan rest)
    · rw [if_neg hdepth]
      exact maskScanned_append_of_masked (by simp) (fun _ ↦ by simp [isMasked, hdepth]) text _
  | @comment text rest lexemes hcomment _ ih =>
    rw [hcomment.scan_append, maskFrom, Lexeme.masked, Lexeme.depthAfter, ← ih]
    exact maskScanned_append_of_masked (by simp) (fun _ ↦ rfl) text _

theorem Lexes.maskNested_eq {text : List Char} {lexemes : List Lexeme} (h : Lexes text lexemes) :
    maskNested text = maskFrom 0 lexemes :=
  h.maskScanned_eq 0

theorem Lexeme.byteLength_masked (depth : Nat) (lexeme : Lexeme) :
    byteLength (lexeme.masked depth) = byteLength lexeme.text := by
  cases lexeme with
  | code c =>
    rw [masked]
    split_ifs
    · exact byteLength_replicate_space c.utf8Size
    · rfl
  | literal text =>
    rw [masked]
    split_ifs
    · rfl
    · exact byteLength_blanks text
  | comment text => exact byteLength_blanks text

theorem byteLength_maskFrom (depth : Nat) (lexemes : List Lexeme) :
    byteLength (maskFrom depth lexemes) = offsetOf lexemes := by
  induction lexemes generalizing depth with
  | nil => rfl
  | cons lexeme lexemes ih =>
    rw [maskFrom, byteLength_append, lexeme.byteLength_masked, ih, offsetOf_cons]

/-- At depth zero everything is shown that is no comment, and so is the bracket with which the depth
comes back to zero. -/
theorem Lexeme.masked_of_zero {depth : Nat} {lexeme : Lexeme}
    (hlexeme : ∀ comment, lexeme ≠ .comment comment)
    (hzero : depth = 0 ∨ lexeme.depthAfter depth = 0) : lexeme.masked depth = lexeme.text := by
  cases lexeme with
  | code c =>
    refine if_neg ?_
    rw [depthAfter, Text.depthAfter] at hzero
    rw [isMasked]
    cases hopens : isOpening c with
    | true =>
      rw [hopens] at hzero
      simpa [isClosing_eq_false_of_isOpening hopens] using hzero
    | false => cases hcloses : isClosing c <;> simp [hopens, hcloses] at hzero ⊢ <;> omega
  | literal text => exact if_pos (hzero.elim id id)
  | comment text => exact absurd rfl (hlexeme text)

theorem Lexeme.masked_of_ne_zero {depth : Nat} {lexeme : Lexeme} (hdepth : depth ≠ 0)
    (hafter : lexeme.depthAfter depth ≠ 0) : lexeme.masked depth = blanks lexeme.text := by
  cases lexeme with
  | code c =>
    have hmasked : isMasked depth (c, .code) = true := by
      rw [depthAfter, Text.depthAfter] at hafter
      cases hopens : isOpening c with
      | true => simpa [isMasked, isClosing_eq_false_of_isOpening hopens] using hdepth
      | false => cases hcloses : isClosing c <;> simp_all [isMasked]
    rw [masked, if_pos hmasked, text, blanks_cons]
    exact (List.append_nil _).symm
  | literal text => exact if_neg hdepth
  | comment text => rfl

/-- As long as the depth is not zero, everything is hidden. -/
theorem maskFrom_of_ne_zero {depth : Nat} {lexemes : List Lexeme}
    (h : ∀ part, part <+: lexemes → depthFrom depth part ≠ 0) :
    maskFrom depth lexemes = blanks (sourceOf lexemes) := by
  induction lexemes generalizing depth with
  | nil => rfl
  | cons lexeme lexemes ih =>
    have hdepth : depth ≠ 0 := h [] List.nil_prefix
    have hafter : lexeme.depthAfter depth ≠ 0 := h [lexeme] ⟨lexemes, rfl⟩
    have hrest := ih fun part hpart ↦ h (lexeme :: part) (List.cons_prefix_cons.mpr ⟨rfl, hpart⟩)
    rw [maskFrom, Lexeme.masked_of_ne_zero hdepth hafter, hrest, ← blanks_append]
    rfl

/-! ### Bytes -/

theorem getElem?_encode_append {first part rest : List Char} {offset : Nat}
    (hfirst : byteLength first ≤ offset) (hpart : offset < byteLength first + byteLength part) :
    (encode (first ++ (part ++ rest)))[offset]? = (encode part)[offset - byteLength first]? := by
  rw [encode_append, List.getElem?_append_right (by rwa [length_encode]), length_encode,
    encode_append, List.getElem?_append_left (by rw [length_encode]; omega)]

theorem getElem?_encode_blanks {text : List Char} {offset : Nat} (h : offset < byteLength text) :
    (encode (blanks text))[offset]? = some ' '.toUInt8 := by
  rw [blanks, encode_spaces]
  exact List.getElem?_replicate_of_lt h

namespace Lexes

variable {text : List Char} {first part second : List Lexeme} {offset : Nat}

/-- Lexemes of which everything is left keep their bytes. -/
theorem getElem?_kept (h : Lexes text (first ++ (part ++ second)))
    (hkept : maskFrom (depthFrom 0 first) part = sourceOf part) (hfirst : offsetOf first ≤ offset)
    (hpart : offset < offsetOf first + offsetOf part) :
    (encode (maskNested text))[offset]? = (encode text)[offset]? := by
  have hlength := byteLength_maskFrom 0 first
  rw [h.maskNested_eq, maskFrom_append, maskFrom_append, hkept, ← h.sourceOf_eq, sourceOf_append,
    sourceOf_append, getElem?_encode_append (hlength ▸ hfirst) (hlength ▸ hpart),
    getElem?_encode_append hfirst hpart, hlength]
  rfl

/-- Lexemes of which nothing is left have given way to spaces. -/
theorem getElem?_hidden (h : Lexes text (first ++ (part ++ second)))
    (hhidden : maskFrom (depthFrom 0 first) part = blanks (sourceOf part))
    (hfirst : offsetOf first ≤ offset) (hpart : offset < offsetOf first + offsetOf part) :
    (encode (maskNested text))[offset]? = some ' '.toUInt8 := by
  have hlength := byteLength_maskFrom 0 first
  have hblanks : byteLength (blanks (sourceOf part)) = offsetOf part := byteLength_blanks _
  rw [h.maskNested_eq, maskFrom_append, maskFrom_append, hhidden,
    getElem?_encode_append (hlength ▸ hfirst) (hlength.symm ▸ hblanks.symm ▸ hpart)]
  refine getElem?_encode_blanks ?_
  rw [hlength]
  exact Nat.sub_lt_left_of_lt_add hfirst hpart

/-- What stands at depth zero and is no comment keeps its bytes, and so does the bracket with which
the depth comes back to zero. -/
theorem getElem?_lexeme {lexeme : Lexeme} (h : Lexes text (first ++ lexeme :: second))
    (hlexeme : ∀ comment, lexeme ≠ .comment comment)
    (hzero : depthFrom 0 first = 0 ∨ depthFrom 0 (first ++ [lexeme]) = 0)
    (hfirst : offsetOf first ≤ offset) (hoffset : offset < offsetOf (first ++ [lexeme])) :
    (encode (maskNested text))[offset]? = (encode text)[offset]? := by
  rw [depthFrom_append] at hzero
  rw [offsetOf_append] at hoffset
  have hsplit : Lexes text (first ++ ([lexeme] ++ second)) := h
  refine hsplit.getElem?_kept ?_ hfirst hoffset
  rw [maskFrom, Lexeme.masked_of_zero hlexeme hzero]
  rfl

end Lexes

/-! ### Two scanners -/

/-- The depth, counted from the start of a source, comes back to zero for the first time behind an
opening bracket with the lexeme that stands at the offset `closing`. -/
def ReturnsAt (first : List Lexeme) (bracket : Char) (second : List Lexeme) (closing : Nat) : Prop :=
  ∃ inner last rest, second = inner ++ last :: rest ∧
    closing = offsetOf (first ++ .code bracket :: inner) ∧
    depthFrom 0 (first ++ .code bracket :: (inner ++ [last])) = 0 ∧
    ∀ part, part <+: inner → depthFrom 0 (first ++ .code bracket :: part) ≠ 0

/-- What the two scanners say of a bracket that stands behind the lexemes `first`. -/
structure BracketScansAgree (text : List Char) (first : List Lexeme) (bracket : Char)
    (second : List Lexeme) : Prop where
  counted : closingByte? text (offsetOf first) = some (closingOffset? text (offsetOf first))
  returns : ∀ closing,
    closingOffset? text (offsetOf first) = some closing ↔ ReturnsAt first bracket second closing
  opening_kept : (encode (maskNested text))[offsetOf first]? = (encode text)[offsetOf first]?
  closing_kept : ∀ closing, closingOffset? text (offsetOf first) = some closing →
    (encode (maskNested text))[closing]? = (encode text)[closing]?
  hidden_between : ∀ closing, closingOffset? text (offsetOf first) = some closing →
    ∀ offset, offsetOf first < offset → offset < closing →
      (encode (maskNested text))[offset]? = some ' '.toUInt8
  hidden_behind : closingOffset? text (offsetOf first) = none →
    ∀ offset, offsetOf first < offset → offset < byteLength text →
      (encode (maskNested text))[offset]? = some ' '.toUInt8

section Brackets

variable {text : List Char} {first second : List Lexeme} {bracket : Char}

theorem depthFrom_opening (hopens : isOpening bracket = true) (hzero : depthFrom 0 first = 0)
    (part : List Lexeme) :
    depthFrom 0 (first ++ .code bracket :: part) = depthFrom 1 part := by
  have hone : (Lexeme.code bracket).depthAfter 0 = 1 := depthAfter_opening hopens 0
  rw [depthFrom_append, hzero, depthFrom, List.foldl_cons, hone]
  rfl

theorem offsetOf_opening (hopens : isOpening bracket = true) (part : List Lexeme) :
    offsetOf (first ++ .code bracket :: part) = offsetOf first + 1 + offsetOf part := by
  have hone : byteLength (Lexeme.code bracket).text = 1 := utf8Size_of_isOpening hopens
  rw [offsetOf_append, offsetOf_cons, hone, Nat.add_assoc]

theorem returnsAt_iff (hopens : isOpening bracket = true) (hzero : depthFrom 0 first = 0)
    (closing : Nat) :
    ReturnsAt first bracket second closing ↔
      (returnOffset? 1 second).map (offsetOf first + 1 + ·) = some closing := by
  simp only [ReturnsAt, depthFrom_opening hopens hzero, offsetOf_opening hopens,
    Option.map_eq_some_iff, returnOffset?_eq_some_iff Nat.one_ne_zero]
  constructor
  · rintro ⟨inner, last, rest, hsplit, rfl, hreturn, hopen⟩
    exact ⟨offsetOf inner, ⟨inner, last, rest, hsplit, rfl, hreturn, hopen⟩, rfl⟩
  · rintro ⟨offset, ⟨inner, last, rest, hsplit, rfl, hreturn, hopen⟩, rfl⟩
    exact ⟨inner, last, rest, hsplit, rfl, hreturn, hopen⟩

/-- The lexeme with which the depth comes back to zero is a character of code. -/
theorem exists_code_of_return {depth : Nat} {lexeme : Lexeme} (hdepth : depth ≠ 0)
    (hafter : lexeme.depthAfter depth = 0) : ∃ c, lexeme = .code c := by
  cases lexeme with
  | code c => exact ⟨c, rfl⟩
  | literal text => exact absurd hafter hdepth
  | comment text => exact absurd hafter hdepth

/-- Behind an opening bracket at depth zero everything is hidden as long as the depth does not come
back to zero. -/
theorem Lexes.getElem?_inside {part rest : List Lexeme} {offset : Nat}
    (h : Lexes text (first ++ .code bracket :: (part ++ rest))) (hopens : isOpening bracket = true)
    (hzero : depthFrom 0 first = 0)
    (hopen : ∀ piece, piece <+: part → depthFrom 0 (first ++ .code bracket :: piece) ≠ 0)
    (hbehind : offsetOf first < offset) (hoffset : offset < offsetOf first + 1 + offsetOf part) :
    (encode (maskNested text))[offset]? = some ' '.toUInt8 := by
  have hbracket : offsetOf (first ++ [.code bracket]) = offsetOf first + 1 :=
    offsetOf_opening hopens []
  have hone : depthFrom 0 (first ++ [.code bracket]) = 1 := depthFrom_opening hopens hzero []
  have hsplit : first ++ .code bracket :: (part ++ rest) =
      (first ++ [.code bracket]) ++ (part ++ rest) := by simp
  rw [hsplit] at h
  refine h.getElem?_hidden ?_ ?_ ?_
  · rw [hone]
    exact maskFrom_of_ne_zero fun piece hpiece ↦
      depthFrom_opening hopens hzero piece ▸ hopen piece hpiece
  · rw [hbracket]
    exact hbehind
  · rw [hbracket]
    exact hoffset

/-- The two scanners agree on an opening bracket at depth zero. -/
theorem Lexes.bracketScansAgree (h : Lexes text (first ++ .code bracket :: second))
    (hopens : isOpening bracket = true) (hzero : depthFrom 0 first = 0) :
    BracketScansAgree text first bracket second := by
  have hclosing := h.closingOffset?_eq hopens
  have hreturns (closing : Nat) : closingOffset? text (offsetOf first) = some closing ↔
      ReturnsAt first bracket second closing := by
    rw [hclosing, returnsAt_iff hopens hzero]
  refine ⟨h.closingByte?_eq, hreturns, ?_, ?_, ?_, ?_⟩
  · refine h.getElem?_lexeme (by simp) (.inl hzero) (Nat.le_refl _) ?_
    rw [offsetOf_opening hopens]
    exact Nat.lt_succ_self _
  · intro closing hfound
    obtain ⟨inner, last, rest, rfl, rfl, hreturn, hopen⟩ := (hreturns closing).mp hfound
    have hsplit : first ++ .code bracket :: (inner ++ last :: rest) =
        (first ++ .code bracket :: inner) ++ last :: rest := by simp
    have hwhole : first ++ .code bracket :: (inner ++ [last]) =
        (first ++ .code bracket :: inner) ++ [last] := by simp
    rw [hwhole] at hreturn
    obtain ⟨c, rfl⟩ : ∃ c, last = .code c := by
      rw [depthFrom_append] at hreturn
      exact exists_code_of_return (hopen inner List.prefix_rfl) hreturn
    rw [hsplit] at h
    refine h.getElem?_lexeme (by simp) (.inr hreturn) (Nat.le_refl _) ?_
    rw [offsetOf_append _ [.code c], offsetOf_cons]
    have hsize : 0 < byteLength (Lexeme.code c).text := c.utf8Size_pos
    omega
  · intro closing hfound offset hbehind hbefore
    obtain ⟨inner, last, rest, rfl, rfl, -, hopen⟩ := (hreturns closing).mp hfound
    rw [offsetOf_opening hopens] at hbefore
    exact h.getElem?_inside hopens hzero hopen hbehind hbefore
  · intro hnone offset hbehind hbefore
    rw [hclosing, Option.map_eq_none_iff] at hnone
    rw [← h.sourceOf_eq] at hbefore
    rw [← List.append_nil second] at h
    refine h.getElem?_inside hopens hzero (fun piece hpiece ↦ ?_) hbehind ?_
    · rw [depthFrom_opening hopens hzero]
      exact depthFrom_ne_zero_of_returnOffset?_eq_none Nat.one_ne_zero hnone hpiece
    · rw [← offsetOf_opening hopens]
      exact hbefore

end Brackets

/-- Hiding what is nested is exact, and it agrees with the search for closing brackets. The bytes
that are left are a text of the same length. Against any reading of the source, what stands at depth
zero and is no comment keeps its bytes, and every opening bracket that stands there is closed where
the depth comes back to zero, with nothing but spaces up to that place, or up to the end. -/
theorem maskNested_exact (text : List Char) :
    maskBytes? text = some (maskNested text) ∧
      byteLength (maskNested text) = byteLength text ∧
      (∃ lexemes, Lexes text lexemes) ∧
      ∀ lexemes, Lexes text lexemes →
        (∀ first lexeme second, lexemes = first ++ lexeme :: second → depthFrom 0 first = 0 →
          (∀ comment, lexeme ≠ .comment comment) →
          ∀ offset, offsetOf first ≤ offset → offset < offsetOf (first ++ [lexeme]) →
            (encode (maskNested text))[offset]? = (encode text)[offset]?) ∧
        ∀ first bracket second, lexemes = first ++ .code bracket :: second →
          isOpening bracket = true → depthFrom 0 first = 0 →
          BracketScansAgree text first bracket second := by
  refine ⟨maskBytes?_eq text, byteLength_maskNested text, exists_lexes text,
    fun lexemes h ↦ ⟨?_, ?_⟩⟩
  · rintro first lexeme second rfl hzero hlexeme offset hfirst hoffset
    exact h.getElem?_lexeme hlexeme (.inl hzero) hfirst hoffset
  · rintro first bracket second rfl hopens hzero
    exact h.bracketScansAgree hopens hzero

/-- A bracket that is closed at once. -/
theorem maskNested_exact_brackets : BracketScansAgree "(])".toList [] '(' [.code ']', .code ')'] := by
  have h : Lexes "(])".toList [.code '(', .code ']', .code ')'] :=
    .code ⟨rfl, by decide⟩ (.code ⟨rfl, by decide⟩ (.code ⟨rfl, by decide⟩ .nil))
  exact ((maskNested_exact _).2.2.2 _ h).2 [] '(' _ rfl rfl rfl

end CalculatorCatalog.Text
