import CalculatorCatalog.Definition.Attribute
import CalculatorCatalog.Proofs.Text.Layout

/-!
# Decimals

A `Decimal` is a complete decimal as it is written: an optional minus, digits with an optional
fraction, and an optional exponent. Where white space, a comma or nothing follows it (`Stops`), the
reader of numbers takes it as a whole (`readNumber?_decimalText`). The reader also takes a decimal at
the beginning of a longer text; `BeginsWithDecimal` says of which texts it does
(`readNumber?_eq_none_iff`).
-/

set_option autoImplicit false
set_option relaxedAutoImplicit false

namespace CalculatorCatalog.Definition

open CalculatorCatalog.Number CalculatorCatalog.Text

/-! ### What follows a value -/

/-- What can follow the value of an attribute: white space, a comma or nothing. -/
def Stops (rest : List Char) : Prop :=
  ∀ c, rest.head? = some c → isWhiteSpace c = true ∨ c = ','

theorem Stops.of_kind {rest : List Char} (h : Stops rest) {kind : Char → Bool}
    (hkind : ∀ c, isWhiteSpace c = true → kind c = false) (hcomma : kind ',' = false) :
    ∀ c, rest.head? = some c → kind c = false := by
  intro c hc
  rcases h c hc with hwhite | rfl
  · exact hkind c hwhite
  · exact hcomma

theorem isWordCharacter_of_isDigit {c : Char} (h : c.isDigit = true) :
    isWordCharacter c = true := by
  have hascii : c.toNat < 128 := by
    simp only [Char.isDigit, Bool.and_eq_true, decide_eq_true_eq, UInt32.le_iff_toNat_le] at h
    have hcode : c.toNat = c.val.toNat := rfl
    have hlimit : '9'.val.toNat = 57 := rfl
    omega
  rw [isWordCharacter, if_pos hascii, Char.isAlphanum, h, Bool.or_true, Bool.true_or]

/-- No word character follows a value. -/
theorem Stops.isWordCharacter {rest : List Char} (h : Stops rest) :
    ∀ c, rest.head? = some c → isWordCharacter c = false :=
  h.of_kind (fun _ hwhite ↦ isWordCharacter_of_isWhiteSpace hwhite) (by decide)

/-- No digit follows a value. -/
theorem Stops.isDigit {rest : List Char} (h : Stops rest) :
    ∀ c, rest.head? = some c → c.isDigit = false := by
  intro c hc
  cases hdigit : c.isDigit with
  | false => rfl
  | true => rw [← h.isWordCharacter c hc, isWordCharacter_of_isDigit hdigit]

/-- A character that is neither white space nor a comma does not follow a value. -/
theorem Stops.head?_ne {rest : List Char} (h : Stops rest) {c : Char}
    (hwhite : isWhiteSpace c = false) (hcomma : c ≠ ',') : rest.head? ≠ some c := by
  intro hhead
  rcases h c hhead with hc | hc
  · rw [hc] at hwhite
    cases hwhite
  · exact hcomma hc

/-! ### The grammar -/

/-- The exponent of a decimal: its mark, an optional sign and its digits. -/
structure Exponent where
  mark : Char
  sign : Option Char
  digits : List Char
  isMark : mark = 'e' ∨ mark = 'E'
  isSign : ∀ c, sign = some c → c = '-' ∨ c = '+'
  digits_ne_nil : digits ≠ []
  isDigit_digits : digits.all Char.isDigit = true

namespace Exponent

/-- How an exponent is written. -/
def text (exponent : Exponent) : List Char :=
  exponent.mark :: (exponent.sign.toList ++ exponent.digits)

/-- The number that an exponent stands for. -/
def value (exponent : Exponent) : Int :=
  if exponent.sign = some '-' then -(digitsValue exponent.digits) else digitsValue exponent.digits

end Exponent

/-- A complete decimal: an optional minus, digits, those of a fraction if there are any, and an
optional exponent. -/
structure Decimal where
  negative : Bool
  whole : List Char
  fraction : List Char
  exponent : Option Exponent
  whole_ne_nil : whole ≠ []
  isDigit_whole : whole.all Char.isDigit = true
  isDigit_fraction : fraction.all Char.isDigit = true

namespace Decimal

variable (decimal : Decimal)

/-- How the exponent is written, if there is one. -/
def exponentText : List Char :=
  match decimal.exponent with
  | none => []
  | some exponent => exponent.text

/-- How the digits before and behind the point are written. -/
def mantissaText : List Char :=
  decimal.whole ++ if decimal.fraction = [] then [] else '.' :: decimal.fraction

/-- How a decimal is written. -/
def text : List Char :=
  (if decimal.negative then ['-'] else []) ++ (decimal.mantissaText ++ decimal.exponentText)

/-- The number nearest to what a decimal stands for. -/
def value : Binary64 :=
  .ofDecimal decimal.negative (digitsValue (decimal.whole ++ decimal.fraction))
    ((decimal.exponent.map Exponent.value).getD 0 - decimal.fraction.length)

end Decimal

/-- The signs, the marks of an exponent and the point. -/
def decimalMarks : List Char :=
  ['-', '+', 'e', 'E', '.']

/-- A decimal is written with digits and marks. -/
theorem Decimal.mem_text {decimal : Decimal} {c : Char} (h : c ∈ decimal.text) :
    c.isDigit = true ∨ c ∈ decimalMarks := by
  have hdigits {digits : List Char} (hdigits : digits.all Char.isDigit = true) (hc : c ∈ digits) :
      c.isDigit = true ∨ c ∈ decimalMarks := .inl (List.all_eq_true.mp hdigits c hc)
  rw [text, mantissaText, exponentText] at h
  rcases List.mem_append.mp h with hsign | h
  · split_ifs at hsign
    · rw [List.mem_singleton.mp hsign]
      exact .inr (by decide)
    · cases hsign
  rcases List.mem_append.mp h with hmantissa | hexponent
  · rcases List.mem_append.mp hmantissa with hwhole | hfraction
    · exact hdigits decimal.isDigit_whole hwhole
    · split_ifs at hfraction
      · cases hfraction
      · rcases List.mem_cons.mp hfraction with rfl | hfraction
        · exact .inr (by decide)
        · exact hdigits decimal.isDigit_fraction hfraction
  · cases hpart : decimal.exponent with
    | none =>
      rw [hpart] at hexponent
      cases hexponent
    | some exponent =>
      rw [hpart] at hexponent
      rcases List.mem_cons.mp hexponent with rfl | hexponent
      · rcases exponent.isMark with hmark | hmark <;> rw [hmark] <;> exact .inr (by decide)
      rcases List.mem_append.mp hexponent with hsign | hc
      · rcases exponent.isSign c (Option.mem_toList.mp hsign) with rfl | rfl <;>
          exact .inr (by decide)
      · exact hdigits exponent.isDigit_digits hc

/-- A decimal holds nothing that means anything to the reader of code. -/
theorem Decimal.isPlain_text (decimal : Decimal) : decimal.text.all isPlain = true := by
  have hmarks : decimalMarks.all isPlain = true := rfl
  rw [List.all_eq_true] at hmarks ⊢
  intro c hc
  rcases mem_text hc with hdigit | hmark
  · exact isPlain_of_isWordCharacter (isWordCharacter_of_isDigit hdigit)
  · exact hmarks c hmark

/-- A decimal begins with its minus or with a digit. -/
theorem Decimal.skipWhite_append (decimal : Decimal) (rest : List Char) :
    skipWhite (decimal.text ++ rest) = decimal.text ++ rest := by
  have hwhole := decimal.isDigit_whole
  obtain ⟨d, digits, hdigits⟩ := List.exists_cons_of_ne_nil decimal.whole_ne_nil
  rw [hdigits, List.all_cons, Bool.and_eq_true] at hwhole
  have hdigit := isWhiteSpace_of_isWordCharacter (isWordCharacter_of_isDigit hwhole.1)
  rw [text, mantissaText, hdigits]
  cases decimal.negative with
  | true => exact skipWhite_cons (by decide) _
  | false => exact skipWhite_cons hdigit _

/-! ### Reading a complete decimal -/

/-- Without an exponent mark the exponent is zero. -/
theorem readExponent_of_stops {rest : List Char} (h : Stops rest) :
    readExponent rest = (0, rest) := by
  cases rest with
  | nil => rfl
  | cons c rest =>
    have hmark : ¬(c = 'e' ∨ c = 'E') := by
      rintro (rfl | rfl)
      · exact h.head?_ne (by decide) (by decide) rfl
      · exact h.head?_ne (by decide) (by decide) rfl
    rw [readExponent, if_neg hmark]

theorem readExponent_of_unsigned {mark : Char} (hmark : mark = 'e' ∨ mark = 'E')
    {text unsigned : List Char}
    (hunsigned : (if text.head? = some '-' ∨ text.head? = some '+' then text.drop 1 else text) =
      unsigned) (hne : unsigned.takeWhile Char.isDigit ≠ []) :
    readExponent (mark :: text) =
      (if text.head? = some '-' then -(digitsValue (unsigned.takeWhile Char.isDigit) : Int)
        else digitsValue (unsigned.takeWhile Char.isDigit),
      unsigned.dropWhile Char.isDigit) := by
  simp only [readExponent, if_pos hmark, hunsigned]

/-- A complete exponent is read as a whole. -/
theorem Exponent.readExponent_append (exponent : Exponent) {rest : List Char} (h : Stops rest) :
    readExponent (exponent.text ++ rest) = (exponent.value, rest) := by
  obtain ⟨mark, sign, digits, hmark, hsign, hne, hdigits⟩ := exponent
  have htake := takeWhile_append_of_stop hdigits h.isDigit
  have hdrop := dropWhile_append_of_stop hdigits h.isDigit
  have hread {text : List Char} (hunsigned : (if text.head? = some '-' ∨ text.head? = some '+'
      then text.drop 1 else text) = digits ++ rest) :=
    readExponent_of_unsigned hmark hunsigned (by rwa [htake])
  rw [htake, hdrop] at hread
  rw [text, value, List.cons_append]
  cases sign with
  | some c =>
    have hc := hsign c rfl
    rw [Option.toList_some, List.append_assoc, List.singleton_append, hread]
    · rfl
    · rcases hc with rfl | rfl <;> rfl
  | none =>
    obtain ⟨d, digits, rfl⟩ := List.exists_cons_of_ne_nil hne
    have hd : d ≠ '-' ∧ d ≠ '+' := by
      rw [List.all_cons, Bool.and_eq_true] at hdigits
      constructor <;> (rintro rfl; cases hdigits.1)
    rw [Option.toList_none, List.nil_append, hread]
    · simp [hd.1]
    · simp [hd.1, hd.2]

/-- Without a point there is no fraction. -/
theorem readMantissa?_of_head?_ne {text : List Char}
    (h : (text.dropWhile Char.isDigit).head? ≠ some '.') :
    readMantissa? text =
      if (text.takeWhile Char.isDigit).isEmpty then none
      else some (text.takeWhile Char.isDigit, [], text.dropWhile Char.isDigit) := by
  unfold readMantissa?
  cases hleft : text.dropWhile Char.isDigit with
  | nil => cases text.takeWhile Char.isDigit <;> rfl
  | cons c after =>
    have hc : c ≠ '.' := by
      rintro rfl
      exact h (by rw [hleft]; rfl)
    cases text.takeWhile Char.isDigit <;> simp [hc]

/-- With a point and a digit behind it there is one. -/
theorem readMantissa?_of_point {text after : List Char}
    (h : text.dropWhile Char.isDigit = '.' :: after) (hne : after.takeWhile Char.isDigit ≠ []) :
    readMantissa? text = some (text.takeWhile Char.isDigit, after.takeWhile Char.isDigit,
      after.dropWhile Char.isDigit) := by
  have hempty : (after.takeWhile Char.isDigit).isEmpty = false :=
    List.isEmpty_eq_false_iff.mpr hne
  have hdrop : ('.' :: after).drop ((after.takeWhile Char.isDigit).length + 1) =
      after.dropWhile Char.isDigit := by
    have hleft : (after.takeWhile Char.isDigit ++ after.dropWhile Char.isDigit).drop
        (after.takeWhile Char.isDigit).length = after.dropWhile Char.isDigit := List.drop_left
    rwa [List.takeWhile_append_dropWhile] at hleft
  simp only [readMantissa?, h, hempty, Bool.not_false, if_true, hdrop]

/-- A number is read behind its sign. -/
theorem readNumber?_eq (negative : Bool) {text : List Char}
    (hsign : negative = false → text.head? ≠ some '-') :
    readNumber? ((if negative then ['-'] else []) ++ text) =
      (readMantissa? text).map fun (whole, fraction, rest) ↦
        (.ofDecimal negative (digitsValue (whole ++ fraction))
          ((readExponent rest).1 - fraction.length), (readExponent rest).2) := by
  cases negative with
  | true =>
    simp only [readNumber?, if_true, List.singleton_append, List.head?_cons, List.drop_one,
      List.tail_cons, decide_true]
    cases readMantissa? text <;> rfl
  | false =>
    simp only [readNumber?, Bool.false_eq_true, if_false, List.nil_append, hsign rfl, decide_false]
    cases readMantissa? text <;> rfl

namespace Decimal

variable (decimal : Decimal)

/-- The digits before and behind the point are read as a whole. -/
theorem readMantissa?_append {rest : List Char}
    (hdigit : ∀ c, rest.head? = some c → c.isDigit = false) (hpoint : rest.head? ≠ some '.') :
    readMantissa? (decimal.mantissaText ++ rest) =
      some (decimal.whole, decimal.fraction, rest) := by
  obtain ⟨negative, whole, fraction, exponent, hne, hwhole, hfraction⟩ := decimal
  rw [mantissaText]
  by_cases hempty : fraction = []
  · subst hempty
    have htake := takeWhile_append_of_stop hwhole hdigit
    have hdrop := dropWhile_append_of_stop hwhole hdigit
    rw [if_pos rfl, List.append_nil, readMantissa?_of_head?_ne (by rwa [hdrop]), htake, hdrop,
      if_neg (by simpa using hne)]
  · have hstop : ∀ c, ('.' :: (fraction ++ rest)).head? = some c → c.isDigit = false := by
      intro c hc
      obtain rfl := Option.some.inj hc
      rfl
    have htake := takeWhile_append_of_stop hwhole hstop
    have hdrop := dropWhile_append_of_stop hwhole hstop
    have htake' := takeWhile_append_of_stop hfraction hdigit
    have hdrop' := dropWhile_append_of_stop hfraction hdigit
    rw [if_neg hempty, List.append_assoc, List.cons_append,
      readMantissa?_of_point hdrop (by rwa [htake']), htake, htake', hdrop']

/-- A complete decimal is read as a whole. -/
theorem readNumber?_append {rest : List Char} (h : Stops rest) :
    readNumber? (decimal.text ++ rest) = some (decimal.value, rest) := by
  have hmantissa : readMantissa? (decimal.mantissaText ++ (decimal.exponentText ++ rest)) =
      some (decimal.whole, decimal.fraction, decimal.exponentText ++ rest) := by
    have hhead : ∀ c, (decimal.exponentText ++ rest).head? = some c →
        c.isDigit = false ∧ c ≠ '.' := by
      intro c hc
      rw [exponentText] at hc
      cases hexponent : decimal.exponent with
      | none =>
        rw [hexponent] at hc
        refine ⟨h.isDigit c hc, ?_⟩
        rintro rfl
        exact h.head?_ne (by decide) (by decide) hc
      | some exponent =>
        rw [hexponent] at hc
        obtain rfl : exponent.mark = c := Option.some.inj hc
        rcases exponent.isMark with hmark | hmark <;> rw [hmark] <;> exact ⟨rfl, by decide⟩
    exact decimal.readMantissa?_append (fun c hc ↦ (hhead c hc).1)
      (fun hc ↦ (hhead '.' hc).2 rfl)
  have hexponent : readExponent (decimal.exponentText ++ rest) =
      ((decimal.exponent.map Exponent.value).getD 0, rest) := by
    rw [exponentText]
    cases decimal.exponent with
    | none => exact readExponent_of_stops h
    | some exponent => exact exponent.readExponent_append h
  have hsign : (decimal.mantissaText ++ (decimal.exponentText ++ rest)).head? ≠ some '-' := by
    obtain ⟨d, digits, hwhole⟩ := List.exists_cons_of_ne_nil decimal.whole_ne_nil
    have hdigits := decimal.isDigit_whole
    rw [hwhole, List.all_cons, Bool.and_eq_true] at hdigits
    rw [mantissaText, hwhole]
    intro hd
    obtain rfl : d = '-' := Option.some.inj hd
    cases hdigits.1
  rw [text, List.append_assoc, List.append_assoc, readNumber?_eq _ fun _ ↦ hsign, hmantissa,
    Option.map_some]
  simp only [hexponent, value]

end Decimal

/-! ### What begins with a decimal -/

/-- A text begins with digits, or with a point and a digit. -/
def BeginsWithDigits (text : List Char) : Prop :=
  ∃ d rest, d.isDigit = true ∧ (text = d :: rest ∨ text = '.' :: d :: rest)

/-- A text begins with a decimal, which may lack the digits before its point. -/
def BeginsWithDecimal (text : List Char) : Prop :=
  BeginsWithDigits text ∨ ∃ rest, text = '-' :: rest ∧ BeginsWithDigits rest

/-- A comma is no part of a decimal. -/
theorem beginsWithDigits_append_comma {text rest : List Char} :
    BeginsWithDigits (text ++ ',' :: rest) ↔ BeginsWithDigits text := by
  constructor
  · rintro ⟨d, left, hd, htext | htext⟩
    · cases text with
      | nil =>
        obtain ⟨rfl, -⟩ := List.cons.inj htext
        cases hd
      | cons c text =>
        obtain ⟨rfl, -⟩ := List.cons.inj htext
        exact ⟨c, text, hd, .inl rfl⟩
    · match text with
      | [] => cases (List.cons.inj htext).1
      | [c] =>
        obtain ⟨rfl, -⟩ := List.cons.inj (List.cons.inj htext).2
        cases hd
      | c :: c' :: text =>
        obtain ⟨rfl, hrest⟩ := List.cons.inj htext
        obtain ⟨rfl, -⟩ := List.cons.inj hrest
        exact ⟨c', text, hd, .inr rfl⟩
  · rintro ⟨d, left, hd, rfl | rfl⟩
    · exact ⟨d, left ++ ',' :: rest, hd, .inl rfl⟩
    · exact ⟨d, left ++ ',' :: rest, hd, .inr rfl⟩

theorem beginsWithDecimal_append_comma {text rest : List Char} :
    BeginsWithDecimal (text ++ ',' :: rest) ↔ BeginsWithDecimal text := by
  refine or_congr beginsWithDigits_append_comma ⟨?_, ?_⟩
  · rintro ⟨left, htext, hleft⟩
    cases text with
    | nil => cases (List.cons.inj htext).1
    | cons c text =>
      obtain ⟨rfl, rfl⟩ := List.cons.inj htext
      exact ⟨text, rfl, beginsWithDigits_append_comma.mp hleft⟩
  · rintro ⟨left, rfl, hleft⟩
    exact ⟨left ++ ',' :: rest, rfl, beginsWithDigits_append_comma.mpr hleft⟩

theorem readMantissa?_eq_none_iff {text : List Char} :
    readMantissa? text = none ↔ ¬BeginsWithDigits text := by
  rw [BeginsWithDigits]
  cases text with
  | nil => simp [readMantissa?]
  | cons c text =>
    by_cases hdigit : c.isDigit = true
    · have hread : readMantissa? (c :: text) ≠ none := by
        simp only [readMantissa?, List.takeWhile_cons, hdigit, if_true, List.isEmpty_cons]
        split_ifs <;> simp_all
      exact iff_of_false hread fun h ↦ h ⟨c, text, hdigit, .inl rfl⟩
    · rw [Bool.not_eq_true] at hdigit
      have hwhole : (c :: text).takeWhile Char.isDigit = [] := by simp [hdigit]
      have hdrop : (c :: text).dropWhile Char.isDigit = c :: text := by simp [hdigit]
      by_cases hpoint : c = '.'
      · subst hpoint
        by_cases hfraction : text.takeWhile Char.isDigit = []
        · have hread : readMantissa? ('.' :: text) = none := by
            simp only [readMantissa?, hwhole, hdrop, hfraction, List.isEmpty_nil, Bool.not_true,
              Bool.false_eq_true, if_false]
          refine iff_of_true hread ?_
          rintro ⟨d, rest, hd, htext | htext⟩
          · obtain ⟨rfl, -⟩ := List.cons.inj htext
            cases hd
          · obtain ⟨-, rfl⟩ := List.cons.inj htext
            simp [hd] at hfraction
        · obtain ⟨d, digits, hdigits⟩ := List.exists_cons_of_ne_nil hfraction
          have hall : (text.takeWhile Char.isDigit).all Char.isDigit = true := List.all_takeWhile
          rw [hdigits, List.all_cons, Bool.and_eq_true] at hall
          have hsplit : text = d :: (digits ++ text.dropWhile Char.isDigit) := by
            rw [← List.cons_append, ← hdigits, List.takeWhile_append_dropWhile]
          refine iff_of_false ?_ fun h ↦ h ⟨d, _, hall.1, .inr (congrArg _ hsplit)⟩
          rw [readMantissa?_of_point hdrop hfraction]
          exact Option.some_ne_none _
      · rw [readMantissa?_of_head?_ne (by simpa [hdrop] using hpoint), hwhole]
        refine iff_of_true rfl ?_
        rintro ⟨d, rest, hd, htext | htext⟩
        · obtain ⟨rfl, -⟩ := List.cons.inj htext
          rw [hdigit] at hd
          cases hd
        · exact hpoint (List.cons.inj htext).1

/-- No number is read from a text exactly if it does not begin with one. -/
theorem readNumber?_eq_none_iff {text : List Char} :
    readNumber? text = none ↔ ¬BeginsWithDecimal text := by
  have hminus (text : List Char) : ¬BeginsWithDigits ('-' :: text) := by
    rintro ⟨d, rest, hd, htext | htext⟩
    · obtain ⟨rfl, -⟩ := List.cons.inj htext
      cases hd
    · cases (List.cons.inj htext).1
  rw [BeginsWithDecimal]
  by_cases hsign : text.head? = some '-'
  · obtain ⟨rest, rfl⟩ := List.head?_eq_some_iff.mp hsign
    have hread : readNumber? ('-' :: rest) = _ := readNumber?_eq true (by simp)
    rw [hread, Option.map_eq_none_iff, readMantissa?_eq_none_iff]
    refine not_congr ⟨fun h ↦ .inr ⟨rest, rfl, h⟩, ?_⟩
    rintro (h | ⟨rest', htext, h⟩)
    · exact absurd h (hminus rest)
    · obtain ⟨-, rfl⟩ := List.cons.inj htext
      exact h
  · have hread : readNumber? text = _ := readNumber?_eq false fun _ ↦ hsign
    rw [hread, Option.map_eq_none_iff, readMantissa?_eq_none_iff]
    refine not_congr ⟨.inl, ?_⟩
    rintro (h | ⟨rest, rfl, -⟩)
    · exact h
    · exact absurd rfl hsign

end CalculatorCatalog.Definition
