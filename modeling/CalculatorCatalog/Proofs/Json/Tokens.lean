import CalculatorCatalog.Json.Printer
import CalculatorCatalog.Json.Token
import CalculatorCatalog.Proofs.Files.Addresses
import CalculatorCatalog.Proofs.Text.Layout

/-!
# The tokens of texts that are written

What is written as a string, a whole number or a literal is read back as one token with that value
(`tokens_quote`, `tokens_integerText`, `tokens_boolText`, `tokens_null`), and every number with a
fraction or an exponent is one token too (`tokens_signText`). Reading goes on right after it,
because no token takes more than it is made of (`tokens_cons`).
-/

set_option autoImplicit false
set_option relaxedAutoImplicit false

namespace CalculatorCatalog.Json

open CalculatorCatalog.Files CalculatorCatalog.Text

/-! ### One token after the other -/

theorem length_rest_readString (mode : StringMode) (text : List Char) :
    (readString mode text).2.2.length ≤ text.length := by
  induction text generalizing mode with
  | nil => cases mode <;> simp [readString]
  | cons c text ih =>
    have hnext : ∀ mode, (readString mode text).2.2.length ≤ text.length + 1 :=
      fun mode ↦ Nat.le_succ_of_le (ih mode)
    cases mode with
    | plain =>
      simp only [readString, List.length_cons]
      split_ifs
      · simp
      · exact hnext _
      · simp
      · exact hnext _
    | escape =>
      simp only [readString, List.length_cons]
      split_ifs
      · split
        · simp
        · exact hnext _
      · split
        · simp
        · exact hnext _
    | passing left =>
      simp only [readString, List.length_cons]
      exact hnext _

theorem length_rest_readStringToken (text : List Char) :
    (readStringToken text).2.length ≤ text.length := by
  have hstring := length_rest_readString .plain text
  simp only [readStringToken]
  split
  · exact hstring
  · simp

theorem length_rest_readLiteral (letters : List Char) (token : Token) (text : List Char) :
    (readLiteral letters token text).2.length ≤ text.length := by
  have hletters : ∀ rest, readLetters letters text = .ok rest → rest.length ≤ text.length := by
    induction letters generalizing text with
    | nil =>
      rintro rest ⟨⟩
      exact Nat.le_refl _
    | cons expected letters ih =>
      intro rest hrest
      cases text with
      | nil => cases hrest
      | cons c text =>
        rw [readLetters] at hrest
        split_ifs at hrest
        exact Nat.le_succ_of_le (ih text rest hrest)
  rw [readLiteral]
  split
  · exact hletters _ ‹_›
  · simp

/-- Digits are read up to the first character that is none. -/
theorem someDigits_eq_ok_iff {text digits rest : List Char} :
    someDigits text = .ok (digits, rest) ↔
      digits = text.takeWhile Char.isDigit ∧ rest = text.dropWhile Char.isDigit ∧ digits ≠ [] := by
  unfold someDigits
  cases hdigits : text.takeWhile Char.isDigit with
  | nil => cases text <;> simp +contextual
  | cons c taken =>
    simp only [Except.ok.injEq, Prod.mk.injEq]
    constructor
    · rintro ⟨rfl, rfl⟩
      exact ⟨rfl, rfl, List.cons_ne_nil c taken⟩
    · rintro ⟨rfl, rfl, -⟩
      exact ⟨rfl, rfl⟩

theorem length_lt_of_someDigits {text digits rest : List Char}
    (h : someDigits text = .ok (digits, rest)) : rest.length < text.length := by
  obtain ⟨rfl, rfl, hne⟩ := someDigits_eq_ok_iff.mp h
  have hsplit := congrArg List.length (text.takeWhile_append_dropWhile (p := Char.isDigit))
  have hpos := List.length_pos_iff.mpr hne
  rw [List.length_append] at hsplit
  omega

theorem length_lt_of_readWhole {text digits rest : List Char}
    (h : readWhole text = .ok (digits, rest)) : rest.length < text.length := by
  obtain ⟨⟨taken, after⟩, htaken, h⟩ := bind_eq_ok_iff.mp h
  dsimp only at h
  split at h
  · cases h
  · cases h
    exact length_lt_of_someDigits htaken

theorem length_le_of_readFraction {text rest : List Char} {fraction : Option (List Char)}
    (h : readFraction text = .ok (fraction, rest)) : rest.length ≤ text.length := by
  unfold readFraction at h
  split at h
  · obtain ⟨⟨digits, after⟩, hdigits, h⟩ := bind_eq_ok_iff.mp h
    cases h
    exact Nat.le_succ_of_le (Nat.le_of_lt (length_lt_of_someDigits hdigits))
  · cases h
    exact Nat.le_refl _

theorem length_le_of_readExponent {text rest : List Char} {exponent : Option (Bool × List Char)}
    (h : readExponent text = .ok (exponent, rest)) : rest.length ≤ text.length := by
  unfold readExponent at h
  split at h
  · cases h
    exact Nat.le_refl _
  · rename_i mark after
    by_cases hmark : mark = 'e' ∨ mark = 'E'
    · rw [if_pos hmark] at h
      obtain ⟨⟨digits, rest⟩, hdigits, h⟩ := bind_eq_ok_iff.mp h
      cases h
      have hlt := length_lt_of_someDigits hdigits
      split_ifs at hlt
      · rw [List.length_drop] at hlt
        rw [List.length_cons]
        omega
      · exact Nat.le_succ_of_le (Nat.le_of_lt hlt)
    · rw [if_neg hmark] at h
      cases h
      exact Nat.le_refl _

theorem length_lt_of_readParts {text : List Char} {parts : NumberParts}
    (h : readParts text = .ok parts) : parts.rest.length < text.length := by
  obtain ⟨⟨whole, afterWhole⟩, hwhole, h⟩ := bind_eq_ok_iff.mp h
  obtain ⟨⟨fraction, afterFraction⟩, hfraction, h⟩ := bind_eq_ok_iff.mp h
  obtain ⟨⟨exponent, rest⟩, hexponent, h⟩ := bind_eq_ok_iff.mp h
  cases h
  exact Nat.lt_of_le_of_lt (length_le_of_readExponent hexponent)
    (Nat.lt_of_le_of_lt (length_le_of_readFraction hfraction) (length_lt_of_readWhole hwhole))

theorem length_rest_readNumber (c : Char) (text : List Char) :
    (readNumber (c :: text)).2.length ≤ text.length := by
  simp only [readNumber]
  split
  · rename_i parts hparts
    have hlt := length_lt_of_readParts hparts
    split_ifs at hlt
    · exact Nat.le_of_lt hlt
    · exact Nat.le_of_lt_succ hlt
  · simp

theorem length_rest_readToken (c : Char) (text : List Char) :
    (readToken c text).2.length ≤ text.length := by
  have hbranch : ∀ {p : Prop} [Decidable p] (read other : Token × List Char),
      read.2.length ≤ text.length → other.2.length ≤ text.length →
        (if p then read else other).2.length ≤ text.length := by
    intro p _ read other hread hother
    split_ifs
    · exact hread
    · exact hother
  -- Punctuation, strings, literals, numbers, and what is none of them.
  refine hbranch _ _ (Nat.le_refl _) (hbranch _ _ (Nat.le_refl _) (hbranch _ _ (Nat.le_refl _) ?_))
  refine hbranch _ _ (Nat.le_refl _) (hbranch _ _ (Nat.le_refl _) (hbranch _ _ (Nat.le_refl _) ?_))
  refine hbranch _ _ (length_rest_readStringToken text) ?_
  refine hbranch _ _ (length_rest_readLiteral _ _ text) ?_
  refine hbranch _ _ (length_rest_readLiteral _ _ text) ?_
  refine hbranch _ _ (length_rest_readLiteral _ _ text) ?_
  exact hbranch _ _ (length_rest_readNumber c text) (Nat.zero_le _)

/-- More steps than there are characters change nothing. -/
theorem tokensWithin_eq_tokens {count : Nat} {text : List Char} (h : text.length ≤ count) :
    tokensWithin count text = tokens text := by
  have hany : ∀ count count' : Nat, ∀ text : List Char, text.length ≤ count →
      text.length ≤ count' → tokensWithin count text = tokensWithin count' text := by
    intro count
    induction count with
    | zero =>
      intro count' text htext _
      obtain rfl := List.length_eq_zero_iff.mp (Nat.le_zero.mp htext)
      cases count' <;> rfl
    | succ count ih =>
      intro count' text htext htext'
      cases text with
      | nil => cases count' <;> rfl
      | cons c text =>
        obtain ⟨count', rfl⟩ := Nat.exists_eq_add_one_of_ne_zero
          (Nat.ne_of_gt (Nat.lt_of_lt_of_le (Nat.succ_pos _) htext'))
        rw [List.length_cons] at htext htext'
        have hrest := length_rest_readToken c text
        simp only [tokensWithin]
        rw [ih count' text (by omega) (by omega),
          ih count' (readToken c text).2 (by omega) (by omega)]
  exact hany count text.length text h (Nat.le_refl _)

theorem tokens_space {c : Char} (h : isSpace c = true) (text : List Char) :
    tokens (c :: text) = tokens text := by
  rw [tokens, List.length_cons, tokensWithin, if_pos h, tokensWithin_eq_tokens (Nat.le_refl _)]

/-- The first token, and then those of what it leaves. -/
theorem tokens_cons {c : Char} (h : isSpace c = false) (text : List Char) :
    tokens (c :: text) = (readToken c text).1 :: tokens (readToken c text).2 := by
  rw [tokens, List.length_cons, tokensWithin, if_neg (by simp [h]),
    ← tokensWithin_eq_tokens (length_rest_readToken c text)]

/-! ### Blanks -/

theorem tokens_lineBreak (level : Nat) (text : List Char) :
    tokens (lineBreak level ++ text) = tokens text := by
  rw [lineBreak, List.cons_append, tokens_space (by decide)]
  induction 2 * level with
  | zero => rfl
  | succ count ih => rw [List.replicate_succ, List.cons_append, tokens_space (by decide), ih]

/-! ### Strings -/

/-- A hexadecimal digit is read back. -/
theorem hexValue?_hexDigit : ∀ value < 16, hexValue? (hexDigit value) = some value := by
  decide

/-- The escape of a control character is read back. -/
theorem codeUnit_escape {value : Nat} (h : value < 256) (text : List Char) :
    codeUnit ('0' :: '0' :: hexDigit (value / 16) :: hexDigit (value % 16) :: text) =
      .ok (value, text) := by
  have hlength : ¬byteLength (List.take 4
      ('0' :: '0' :: hexDigit (value / 16) :: hexDigit (value % 16) :: text)) < 4 := by
    have hpos := fun c : Char ↦ c.utf8Size_pos
    simp only [List.take_succ_cons, List.take_zero, byteLength_cons, byteLength_nil]
    have h1 := hpos '0'
    have h2 := hpos (hexDigit (value / 16))
    have h3 := hpos (hexDigit (value % 16))
    omega
  have hzero : hexValue? '0' = some 0 := by decide
  rw [codeUnit, if_neg hlength]
  simp only [hzero, hexValue?_hexDigit (value / 16) (by omega),
    hexValue?_hexDigit (value % 16) (by omega)]
  rw [show ((0 * 16 + 0) * 16 + value / 16) * 16 + value % 16 = value by omega]

/-- A control character that has been written by its code is read back. -/
theorem readString_control {c : Char} (h : c.toNat < 32) (text : List Char) :
    readString .plain ('\\' :: 'u' :: '0' :: '0' :: hexDigit (c.toNat / 16)
        :: hexDigit (c.toNat % 16) :: text) =
      (prependCharacter (.ok c) (readString .plain text).1, (readString .plain text).2) := by
  have hcharacter : characterOfUnit c.toNat text = .ok c := by
    unfold characterOfUnit
    rw [if_neg (by omega), if_neg (by omega), Char.ofNat_toNat]
  have hunpaired : decide (0xD800 ≤ c.toNat) = false := decide_eq_false (by omega)
  have hslash : ∀ rest, readString .plain ('\\' :: rest) = readString .escape rest := fun _ ↦ rfl
  rw [hslash, readString, if_pos rfl, codeUnit_escape (by omega)]
  simp only [hcharacter, hunpaired, Bool.false_and]
  rfl

/-- A character that has been written in a string is read back. -/
theorem readString_escapeCharacter (c : Char) (text : List Char) :
    readString .plain (escapeCharacter c ++ text) =
      (prependCharacter (.ok c) (readString .plain text).1, (readString .plain text).2) := by
  unfold escapeCharacter
  split
  · rename_i hc
    subst hc
    rfl
  split
  · rename_i hc
    subst hc
    rfl
  split
  · rename_i hc
    subst hc
    rfl
  split
  · rename_i hc
    subst hc
    rfl
  split
  · rename_i hc
    subst hc
    rfl
  split
  · rename_i hc
    obtain rfl : c = '\x08' := Char.toNat_inj.mp hc
    rfl
  split
  · rename_i hc
    obtain rfl : c = '\x0c' := Char.toNat_inj.mp hc
    rfl
  split
  · rename_i hc
    exact readString_control hc text
  · rename_i hquote hslash _ _ _ _ _ hcontrol
    rw [List.singleton_append, readString, if_neg hquote, if_neg hslash, if_neg hcontrol]

/-- What has been written between quotes is read back. -/
theorem readString_flatMap_escapeCharacter (characters rest : List Char) :
    readString .plain (characters.flatMap escapeCharacter ++ '\x22' :: rest) =
      (.ok characters, .ok (), rest) := by
  induction characters with
  | nil => rfl
  | cons c characters ih =>
    rw [List.flatMap_cons, List.append_assoc, readString_escapeCharacter, ih]
    rfl

theorem tokens_quote (text : String) (rest : List Char) :
    tokens (quote text ++ rest) = .string (.ok text) (.ok ()) :: tokens rest := by
  have htoken : readToken '\x22' (text.toList.flatMap escapeCharacter ++ '\x22' :: rest) =
      (.string (.ok text) (.ok ()), rest) := by
    have hread := readString_flatMap_escapeCharacter text.toList rest
    have hquote : readToken '\x22' (text.toList.flatMap escapeCharacter ++ '\x22' :: rest) =
        readStringToken (text.toList.flatMap escapeCharacter ++ '\x22' :: rest) := rfl
    rw [hquote, readStringToken, hread]
    simp only [Except.map, String.ofList_toList]
  rw [quote, List.cons_append, List.cons_append, List.append_assoc, List.singleton_append,
    tokens_cons (by decide), htoken]

/-! ### Digits -/

/-- No decimal digits of a number that is not zero begin with a zero. -/
theorem head?_toDigits_ne {value : Nat} (h : value ≠ 0) :
    (Nat.toDigits 10 value).head? ≠ some '0' := by
  induction value using Nat.strong_induction_on with
  | _ value ih =>
    by_cases hsmall : value < 10
    · rw [Nat.toDigits_of_lt_base hsmall]
      have hdigit : ∀ digit < 10, digit ≠ 0 → some (Nat.digitChar digit) ≠ some '0' := by decide
      exact hdigit value hsmall h
    · rw [Nat.toDigits_of_base_le (by decide) (by omega),
        List.head?_append_of_ne_nil _ Nat.toDigits_ne_nil]
      exact ih (value / 10) (by omega) (by omega)

/-- Digits do not make less of what stands before them. -/
theorem le_ofDigitChars (digits : List Char) (start : Nat) :
    start ≤ Nat.ofDigitChars 10 digits start := by
  rw [Nat.ofDigitChars_eq_ofDigitChars_zero]
  exact Nat.le_add_right_of_le (Nat.le_mul_of_pos_left _ (Nat.pow_pos (by decide)))

/-- Digits whose value fits 64 bits are accumulated exactly. -/
theorem foldl_addWhole {digits : List Char} {start : Nat}
    (h : Nat.ofDigitChars 10 digits start ≤ maxSignificand) :
    digits.foldl Significand.addWhole ⟨start, 0, false⟩ =
      ⟨Nat.ofDigitChars 10 digits start, 0, false⟩ := by
  induction digits generalizing start with
  | nil => rfl
  | cons c digits ih =>
    rw [Nat.ofDigitChars_cons, Nat.mul_comm 10 start] at h ⊢
    have hnext := (le_ofDigitChars digits _).trans h
    have hadd : Significand.addWhole ⟨start, 0, false⟩ c =
        ⟨start * 10 + (c.toNat - '0'.toNat), 0, false⟩ := by
      rw [Significand.addWhole, if_neg]
      · rfl
      · exact fun hfull ↦ hfull.elim Bool.false_ne_true (Nat.not_lt.mpr hnext)
    rw [List.foldl_cons, hadd, ih h]

/-! ### Numbers -/

/-- What ends a number: the end of the text, or a character that could not belong to one. -/
def EndsNumber (text : List Char) : Prop :=
  ∀ c, text.head? = some c → c.isDigit = false ∧ c ≠ '.' ∧ c ≠ 'e' ∧ c ≠ 'E'

theorem endsNumber_cons {c : Char} (h : c.isDigit = false ∧ c ≠ '.' ∧ c ≠ 'e' ∧ c ≠ 'E')
    (text : List Char) : EndsNumber (c :: text) := by
  rintro d ⟨⟩
  exact h

/-- Decimal digits, at least one. -/
def IsDigits (text : List Char) : Prop :=
  text ≠ [] ∧ text.all Char.isDigit = true

theorem isDigits_toDigits (value : Nat) : IsDigits (Nat.toDigits 10 value) :=
  ⟨Nat.toDigits_ne_nil, isDigit_toDigits value⟩

section Parts

variable {rest : List Char}

theorem someDigits_append {digits : List Char} (h : IsDigits digits)
    (hstop : ∀ c, rest.head? = some c → c.isDigit = false) :
    someDigits (digits ++ rest) = .ok (digits, rest) := by
  rw [someDigits_eq_ok_iff, takeWhile_append_of_stop h.2 hstop, dropWhile_append_of_stop h.2 hstop]
  exact ⟨rfl, rfl, h.1⟩

theorem readWhole_append {digits : List Char} (h : IsDigits digits)
    (hzero : digits.head? = some '0' → digits = ['0'])
    (hstop : ∀ c, rest.head? = some c → c.isDigit = false) :
    readWhole (digits ++ rest) = .ok (digits, rest) := by
  rw [readWhole, someDigits_append h hstop]
  simp only [bind, Except.bind]
  split
  · cases hzero rfl
  · rfl

theorem readFraction_append {fraction : Option (List Char)}
    (h : ∀ digits, fraction = some digits → IsDigits digits)
    (hstop : ∀ c, rest.head? = some c → c.isDigit = false ∧ c ≠ '.') :
    readFraction (fraction.elim [] ('.' :: ·) ++ rest) = .ok (fraction, rest) := by
  cases fraction with
  | none =>
    rw [Option.elim_none, List.nil_append]
    unfold readFraction
    split
    · exact absurd rfl (hstop '.' rfl).2
    · rfl
  | some digits =>
    have hdigits := someDigits_append (h digits rfl) fun c hc ↦ (hstop c hc).1
    rw [Option.elim_some, List.cons_append, readFraction, hdigits]
    rfl

/-- An exponent as it is written, always with its sign. -/
def exponentText : Option (Bool × List Char) → List Char
  | none => []
  | some (negative, digits) => 'e' :: (if negative then '-' else '+') :: digits

theorem head?_exponentText_append (exponent : Option (Bool × List Char)) (hrest : EndsNumber rest) :
    ∀ c, (exponentText exponent ++ rest).head? = some c → c.isDigit = false ∧ c ≠ '.' := by
  cases exponent with
  | none => exact fun c hc ↦ ⟨(hrest c hc).1, (hrest c hc).2.1⟩
  | some exponent =>
    rintro c ⟨⟩
    decide

theorem readExponent_append {exponent : Option (Bool × List Char)}
    (h : ∀ negative digits, exponent = some (negative, digits) → IsDigits digits)
    (hrest : EndsNumber rest) :
    readExponent (exponentText exponent ++ rest) = .ok (exponent, rest) := by
  cases exponent with
  | none =>
    cases rest with
    | nil => rfl
    | cons c rest =>
      have hmark : ¬(c = 'e' ∨ c = 'E') :=
        fun hc ↦ hc.elim (hrest c rfl).2.2.1 (hrest c rfl).2.2.2
      exact if_neg hmark
  | some exponent =>
    obtain ⟨negative, digits⟩ := exponent
    have hdigits := someDigits_append (h negative digits rfl) fun c hc ↦ (hrest c hc).1
    cases negative <;> simp [exponentText, readExponent, hdigits, bind, Except.bind, pure,
      Except.pure]

end Parts

namespace NumberParts

/-- The parts of a number in their order. -/
def text (parts : NumberParts) : List Char :=
  parts.whole ++ (parts.fraction.elim [] ('.' :: ·) ++ exponentText parts.exponent)

/-- Parts of a number as numbers are written: each that is there has digits, and those before the
point do not begin with a zero unless it is all there is. -/
structure IsProper (parts : NumberParts) : Prop where
  whole : IsDigits parts.whole
  zero : parts.whole.head? = some '0' → parts.whole = ['0']
  fraction : ∀ digits, parts.fraction = some digits → IsDigits digits
  exponent : ∀ negative digits, parts.exponent = some (negative, digits) → IsDigits digits

variable {parts : NumberParts} {rest : List Char}

/-- The parts of a number are read back if the number ends after them. -/
theorem readParts_text (h : parts.IsProper) (hrest : EndsNumber rest) :
    readParts (parts.text ++ rest) =
      .ok ⟨parts.whole, parts.fraction, parts.exponent, rest⟩ := by
  have hexponent := readExponent_append h.exponent hrest
  have hstop := head?_exponentText_append parts.exponent hrest
  have hfraction := readFraction_append h.fraction hstop
  have hpoint : ∀ c, (parts.fraction.elim [] ('.' :: ·) ++
      (exponentText parts.exponent ++ rest)).head? = some c → c.isDigit = false := by
    cases parts.fraction with
    | none => exact fun c hc ↦ (hstop c hc).1
    | some digits =>
      rintro c ⟨⟩
      decide
  have hwhole := readWhole_append h.whole h.zero hpoint
  rw [text, List.append_assoc, List.append_assoc, readParts, hwhole]
  simp only [bind, Except.bind, hfraction, hexponent]
  rfl

theorem IsProper.exists_cons (h : parts.IsProper) :
    ∃ c text, parts.text = c :: text ∧ c.isDigit = true := by
  obtain ⟨c, digits, hdigits⟩ := List.exists_cons_of_ne_nil h.whole.1
  have hdigit := List.all_eq_true.mp h.whole.2 c (hdigits ▸ List.mem_cons_self)
  rw [text, hdigits]
  exact ⟨c, _, rfl, hdigit⟩

end NumberParts

/-- A sign as it is written before a number. -/
def signText (negative : Bool) : List Char :=
  if negative then ['-'] else []

/-- A number that is written with proper parts is read from them. -/
theorem readNumber_signText (negative : Bool) {parts : NumberParts} (h : parts.IsProper)
    {rest : List Char} (hrest : EndsNumber rest) :
    readNumber (signText negative ++ (parts.text ++ rest)) =
      (.number (numeralOfParts negative parts) (.ok ()), rest) := by
  have hparts := NumberParts.readParts_text h hrest
  cases negative with
  | false =>
    obtain ⟨c, text, htext, hdigit⟩ := h.exists_cons
    have hsign : (parts.text ++ rest).head? ≠ some '-' := by
      rw [htext]
      rintro ⟨⟩
      cases hdigit
    have hplain : signText false ++ (parts.text ++ rest) = parts.text ++ rest := rfl
    rw [hplain, readNumber]
    simp only [hsign, if_false, decide_false, hparts]
    rfl
  | true =>
    have hminus : signText true ++ (parts.text ++ rest) = '-' :: (parts.text ++ rest) := rfl
    rw [hminus, readNumber]
    simp only [List.head?_cons, decide_true, if_true, List.drop_succ_cons, List.drop_zero, hparts]
    rfl

/-- The digits of a whole number, as its only part. -/
def wholeParts (value : Nat) : NumberParts :=
  ⟨Nat.toDigits 10 value, none, none, []⟩

theorem isProper_wholeParts (value : Nat) : (wholeParts value).IsProper where
  whole := isDigits_toDigits value
  zero := by
    intro hhead
    -- Only zero itself begins with a zero, and it has one digit.
    by_cases hvalue : value = 0
    · rw [wholeParts, hvalue, Nat.toDigits_zero]
    · exact absurd hhead (head?_toDigits_ne hvalue)
  fraction := nofun
  exponent := nofun

/-- The whole numbers that are kept exactly. -/
def FitsInteger (value : Int) : Prop :=
  -0x8000000000000000 ≤ value ∧ value ≤ 0xFFFFFFFFFFFFFFFF

instance : DecidablePred FitsInteger := fun value ↦
  inferInstanceAs (Decidable (-0x8000000000000000 ≤ value ∧ value ≤ 0xFFFFFFFFFFFFFFFF))

theorem integerText_eq (value : Int) :
    integerText value = signText (decide (value < 0)) ++ (wholeParts value.natAbs).text := by
  have htext : (wholeParts value.natAbs).text = Nat.toDigits 10 value.natAbs :=
    List.append_nil _
  simp only [integerText, signText, htext, decide_eq_true_eq]

/-- A whole number that fits 64 bits is read exactly. -/
theorem numeralOfParts_wholeParts {value : Int} (hvalue : FitsInteger value) :
    numeralOfParts (decide (value < 0)) (wholeParts value.natAbs) = .ok (.integer value) := by
  obtain ⟨hlower, hupper⟩ := hvalue
  have hfits : value.natAbs ≤ maxSignificand := by
    unfold maxSignificand
    omega
  have hfold : (Nat.toDigits 10 value.natAbs).foldl Significand.addWhole ⟨0, 0, false⟩ =
      ⟨Nat.ofDigitChars 10 (Nat.toDigits 10 value.natAbs) 0, 0, false⟩ :=
    foldl_addWhole (Nat.ofDigitChars_ten_toDigits.trans_le hfits)
  rw [Nat.ofDigitChars_ten_toDigits] at hfold
  simp only [numeralOfParts, wholeParts, hfold]
  by_cases hnegative : value < 0
  · rw [decide_eq_true hnegative, wholeNumeral, if_neg Bool.false_ne_true, if_neg (by decide),
      if_pos (by dsimp only; omega)]
    congr 2
    dsimp only
    omega
  · rw [decide_eq_false hnegative, wholeNumeral, if_neg Bool.false_ne_true, if_pos (by decide)]
    congr 2
    dsimp only
    omega

/-- A digit begins a number and nothing else. -/
theorem readToken_of_isDigit {c : Char} (h : c.isDigit = true) (text : List Char) :
    readToken c text = readNumber (c :: text) := by
  have hne : ∀ mark : Char, mark.isDigit = false → c ≠ mark := by
    rintro mark hmark rfl
    rw [h] at hmark
    cases hmark
  unfold readToken
  rw [if_neg (hne _ (by decide)), if_neg (hne _ (by decide)), if_neg (hne _ (by decide)),
    if_neg (hne _ (by decide)), if_neg (hne _ (by decide)), if_neg (hne _ (by decide)),
    if_neg (hne _ (by decide)), if_neg (hne _ (by decide)), if_neg (hne _ (by decide)),
    if_neg (hne _ (by decide)), if_pos (.inr h)]

theorem isSpace_of_isDigit {c : Char} (h : c.isDigit = true) : isSpace c = false := by
  have hne : ∀ mark : Char, mark.isDigit = false → (c == mark) = false := by
    rintro mark hmark
    rw [beq_eq_false_iff_ne]
    rintro rfl
    rw [h] at hmark
    cases hmark
  rw [isSpace, hne _ (by decide), hne _ (by decide), hne _ (by decide), hne _ (by decide)]
  rfl

/-- A number that is written with proper parts is one token. -/
theorem tokens_signText (negative : Bool) {parts : NumberParts} (h : parts.IsProper)
    {rest : List Char} (hrest : EndsNumber rest) :
    tokens (signText negative ++ (parts.text ++ rest)) =
      .number (numeralOfParts negative parts) (.ok ()) :: tokens rest := by
  have hnumber := readNumber_signText negative h hrest
  cases negative with
  | false =>
    obtain ⟨c, text, htext, hdigit⟩ := h.exists_cons
    have hplain : signText false ++ (parts.text ++ rest) = c :: (text ++ rest) := by
      rw [htext]
      rfl
    rw [hplain] at hnumber ⊢
    rw [tokens_cons (isSpace_of_isDigit hdigit), readToken_of_isDigit hdigit, hnumber]
  | true =>
    have hminus : signText true ++ (parts.text ++ rest) = '-' :: (parts.text ++ rest) := rfl
    have htoken : ∀ text, readToken '-' text = readNumber ('-' :: text) := fun _ ↦ rfl
    rw [hminus] at hnumber ⊢
    rw [tokens_cons (by decide), htoken, hnumber]

theorem tokens_integerText {value : Int} (hvalue : FitsInteger value) {rest : List Char}
    (h : EndsNumber rest) :
    tokens (integerText value ++ rest) =
      .number (.ok (.integer value)) (.ok ()) :: tokens rest := by
  rw [integerText_eq, List.append_assoc, tokens_signText _ (isProper_wholeParts _) h,
    numeralOfParts_wholeParts hvalue]

/-! ### Literals -/

theorem tokens_null (rest : List Char) : tokens ("null".toList ++ rest) = .null :: tokens rest := by
  have htoken : readToken 'n' ('u' :: 'l' :: 'l' :: rest) = (.null, rest) := rfl
  have htext : "null".toList ++ rest = 'n' :: 'u' :: 'l' :: 'l' :: rest := rfl
  rw [htext, tokens_cons (by decide), htoken]

theorem tokens_boolText (value : Bool) (rest : List Char) :
    tokens (boolText value ++ rest) = .bool value :: tokens rest := by
  cases value with
  | true =>
    have htoken : readToken 't' ('r' :: 'u' :: 'e' :: rest) = (.bool true, rest) := rfl
    have htext : boolText true ++ rest = 't' :: 'r' :: 'u' :: 'e' :: rest := rfl
    rw [htext, tokens_cons (by decide), htoken]
  | false =>
    have htoken : readToken 'f' ('a' :: 'l' :: 's' :: 'e' :: rest) = (.bool false, rest) := rfl
    have htext : boolText false ++ rest = 'f' :: 'a' :: 'l' :: 's' :: 'e' :: rest := rfl
    rw [htext, tokens_cons (by decide), htoken]

/-! ### Punctuation -/

/-- A character that is a token of its own. -/
theorem tokens_mark {c : Char} {token : Token} (hspace : isSpace c = false)
    (htoken : ∀ text, readToken c text = (token, text)) (rest : List Char) :
    tokens (c :: rest) = token :: tokens rest := by
  rw [tokens_cons hspace, htoken]

theorem tokens_openArray (rest : List Char) : tokens ('[' :: rest) = .openArray :: tokens rest :=
  tokens_mark (by decide) (fun _ ↦ rfl) rest

theorem tokens_closeArray (rest : List Char) :
    tokens (']' :: rest) = .closeArray :: tokens rest :=
  tokens_mark (by decide) (fun _ ↦ rfl) rest

theorem tokens_openObject (rest : List Char) :
    tokens ('\x7b' :: rest) = .openObject :: tokens rest :=
  tokens_mark (by decide) (fun _ ↦ rfl) rest

theorem tokens_closeObject (rest : List Char) :
    tokens ('\x7d' :: rest) = .closeObject :: tokens rest :=
  tokens_mark (by decide) (fun _ ↦ rfl) rest

theorem tokens_comma (rest : List Char) : tokens (',' :: rest) = .comma :: tokens rest :=
  tokens_mark (by decide) (fun _ ↦ rfl) rest

theorem tokens_colon (rest : List Char) : tokens (':' :: rest) = .colon :: tokens rest :=
  tokens_mark (by decide) (fun _ ↦ rfl) rest

end CalculatorCatalog.Json
