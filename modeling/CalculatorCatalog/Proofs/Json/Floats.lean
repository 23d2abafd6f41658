import CalculatorCatalog.Proofs.Json.Tokens
import CalculatorCatalog.Proofs.Number.Shortest

/-!
# The text of a number that is not whole

Every finite number of the 64-bit binary format is written as one token
(`tokens_floatText_finite`): a sign and digits, in which no zero stands before other digits, whether
the notation is positional or has an exponent (`exists_denotes_shortest`). What the digits denote is
rounded to the number itself (`writesNearest_of_finite`), so that nothing is lost in the text. What
a reader makes of the token is another matter: one that rounds more than once can end at a
neighbouring number.
-/

set_option autoImplicit false
set_option relaxedAutoImplicit false

namespace CalculatorCatalog.Json

open CalculatorCatalog.Number

/-! ### What digits denote -/

namespace NumberParts

/-- The exponent that is written. -/
def writtenExponent (parts : NumberParts) : Int :=
  match parts.exponent with
  | none => 0
  | some (negative, digits) =>
    if negative then -(Nat.ofDigitChars 10 digits 0 : Int) else Nat.ofDigitChars 10 digits 0

/-- The value of all digits that are written before the exponent. -/
def coefficient (parts : NumberParts) : Nat :=
  Nat.ofDigitChars 10 (parts.whole ++ parts.fraction.getD []) 0

/-- The power of ten by which the coefficient is multiplied. -/
def power (parts : NumberParts) : Int :=
  parts.writtenExponent - (parts.fraction.getD []).length

/-- The number nearest to what the sign and the parts denote. -/
def nearest (negative : Bool) (parts : NumberParts) : Binary64 :=
  .ofDecimal negative parts.coefficient parts.power

/-- The parts are a notation of the decimal. Zeros stand behind its coefficient if its exponent is
not negative, one of them behind the point. -/
structure Denotes (parts : NumberParts) (decimal : Decimal) : Prop where
  proper : parts.IsProper
  notWhole : parts.fraction.isSome ∨ parts.exponent.isSome
  zeros : ∃ count ≤ (decimal.exponent + 1).toNat,
    parts.coefficient = decimal.coefficient * 10 ^ count ∧ parts.power = decimal.exponent - count
  written : parts.writtenExponent = 0 ∨ parts.writtenExponent = decimal.magnitude

end NumberParts

/-- A decimal may move zeros from its coefficient into its exponent. -/
theorem ofDecimal_mul_pow_ten (negative : Bool) (coefficient count : Nat) (exponent : Int) :
    Binary64.ofDecimal negative (coefficient * 10 ^ count) (exponent - count) =
      .ofDecimal negative coefficient exponent := by
  induction count generalizing exponent with
  | zero => simp
  | succ count ih =>
    have hexponent : exponent - (count + 1 : Nat) + 1 = exponent - count := by omega
    rw [Nat.pow_succ, ← Nat.mul_assoc, Binary64.ofDecimal_mul_ten, hexponent, ih]

theorem NumberParts.Denotes.nearest_eq {parts : NumberParts} {decimal : Decimal}
    (h : parts.Denotes decimal) (negative : Bool) :
    parts.nearest negative = .ofDecimal negative decimal.coefficient decimal.exponent := by
  obtain ⟨count, -, hcoefficient, hpower⟩ := h.zeros
  rw [NumberParts.nearest, hcoefficient, hpower, ofDecimal_mul_pow_ten]

/-! ### Notations -/

section Notations

variable {decimal : Decimal}

theorem isDigit_replicate_zero (count : Nat) :
    (List.replicate count '0').all Char.isDigit = true := by
  rw [List.all_eq_true]
  intro c hc
  rw [List.eq_of_mem_replicate hc]
  decide

/-- A decimal whose exponent is not negative is written with zeros before the point. -/
def zerosParts (decimal : Decimal) : NumberParts :=
  ⟨decimal.digits ++ List.replicate decimal.exponent.toNat '0', some ['0'], none, []⟩

theorem denotes_zerosParts (h : decimal.coefficient ≠ 0) (hexponent : 0 ≤ decimal.exponent) :
    (zerosParts decimal).Denotes decimal where
  proper := by
    have hdigits := isDigits_toDigits decimal.coefficient
    refine ⟨⟨List.append_ne_nil_of_left_ne_nil hdigits.1 _, ?_⟩, fun hhead ↦ ?_, ?_, nofun⟩
    · rw [zerosParts, List.all_append, isDigit_replicate_zero, Decimal.digits, hdigits.2]
      rfl
    · rw [zerosParts, Decimal.digits, List.head?_append_of_ne_nil _ hdigits.1] at hhead
      exact absurd hhead (head?_toDigits_ne h)
    · rintro digits ⟨⟩
      exact ⟨List.cons_ne_nil '0' [], by decide⟩
  notWhole := .inl rfl
  zeros := by
    refine ⟨decimal.exponent.toNat + 1, by omega, ?_, ?_⟩
    · change Nat.ofDigitChars 10
        (decimal.digits ++ List.replicate decimal.exponent.toNat '0' ++ ['0']) 0 = _
      rw [Nat.ofDigitChars_append, Nat.ofDigitChars_append, Decimal.digits,
        Nat.ofDigitChars_ten_toDigits, Nat.ofDigitChars_replicate_zero]
      simp [Nat.ofDigitChars_cons]
      ring
    · change (0 : Int) - (1 : Nat) = _
      omega
  written := .inl rfl

/-- The digits of a decimal behind so many zeros that one stands before the given places. -/
def paddedDigits (decimal : Decimal) (places : Nat) : List Char :=
  List.replicate (places + 1 - decimal.digits.length) '0' ++ decimal.digits

theorem lt_length_paddedDigits (decimal : Decimal) (places : Nat) :
    places < (paddedDigits decimal places).length := by
  rw [paddedDigits, List.length_append, List.length_replicate]
  omega

theorem isDigit_paddedDigits (decimal : Decimal) (places : Nat) :
    (paddedDigits decimal places).all Char.isDigit = true := by
  rw [paddedDigits, List.all_append, isDigit_replicate_zero, Decimal.digits,
    (isDigits_toDigits decimal.coefficient).2]
  rfl

/-- Before the places, padded digits begin with a zero only if this is all. -/
theorem take_paddedDigits_of_zero (h : decimal.coefficient ≠ 0) (places : Nat) :
    ((paddedDigits decimal places).take
        ((paddedDigits decimal places).length - places)).head? = some '0' →
      (paddedDigits decimal places).take
        ((paddedDigits decimal places).length - places) = ['0'] := by
  intro hhead
  have hroom := lt_length_paddedDigits decimal places
  by_cases hlong : places < decimal.digits.length
  · have hsame : paddedDigits decimal places = decimal.digits := by
      rw [paddedDigits, Nat.sub_eq_zero_of_le hlong]
      rfl
    rw [List.head?_take, if_neg (by omega), hsame] at hhead
    exact absurd hhead (head?_toDigits_ne h)
  · obtain ⟨count, hcount⟩ : ∃ count, places + 1 - decimal.digits.length = count + 1 :=
      ⟨places - decimal.digits.length, by omega⟩
    have hone : (paddedDigits decimal places).length - places = 1 := by
      rw [paddedDigits, List.length_append, List.length_replicate]
      omega
    rw [hone, paddedDigits, hcount]
    rfl

/-- A decimal with a negative exponent is cut before as many digits as its exponent says. -/
def pointParts (decimal : Decimal) (places : Nat) : NumberParts :=
  ⟨(paddedDigits decimal places).take ((paddedDigits decimal places).length - places),
    some ((paddedDigits decimal places).drop ((paddedDigits decimal places).length - places)),
    none, []⟩

theorem denotes_pointParts (h : decimal.coefficient ≠ 0) {places : Nat} (hplaces : 0 < places)
    (hexponent : decimal.exponent = -places) : (pointParts decimal places).Denotes decimal where
  proper := by
    have hroom := lt_length_paddedDigits decimal places
    obtain ⟨hwhole, hfraction⟩ := Bool.and_eq_true_iff.mp (List.all_append ▸
      (List.take_append_drop ((paddedDigits decimal places).length - places)
        (paddedDigits decimal places)).symm ▸ isDigit_paddedDigits decimal places)
    refine ⟨⟨?_, hwhole⟩, take_paddedDigits_of_zero h places, ?_, nofun⟩
    · rw [← List.length_pos_iff, pointParts, List.length_take]
      omega
    · rintro digits ⟨⟩
      refine ⟨?_, hfraction⟩
      rw [← List.length_pos_iff, List.length_drop]
      omega
  notWhole := .inl rfl
  zeros := by
    have hroom := lt_length_paddedDigits decimal places
    refine ⟨0, Nat.zero_le _, ?_, ?_⟩
    · rw [NumberParts.coefficient, pointParts, Option.getD_some, List.take_append_drop,
        paddedDigits, Nat.ofDigitChars_append, Nat.ofDigitChars_replicate_zero, Nat.mul_zero,
        Decimal.digits, Nat.ofDigitChars_ten_toDigits, Nat.pow_zero, Nat.mul_one]
    · rw [NumberParts.power, pointParts, Option.getD_some, List.length_drop]
      change (0 : Int) - _ = _
      omega
  written := .inl rfl

/-- Positional notation denotes the decimal. -/
theorem exists_denotes_plain (h : decimal.coefficient ≠ 0) :
    ∃ parts : NumberParts, parts.Denotes decimal ∧ decimal.plain = parts.text := by
  by_cases hexponent : 0 ≤ decimal.exponent
  · exact ⟨zerosParts decimal, denotes_zerosParts h hexponent, if_pos hexponent⟩
  · refine ⟨pointParts decimal (-decimal.exponent).toNat,
      denotes_pointParts h (by omega) (by omega), ?_⟩
    rw [Decimal.plain]
    simp only [if_neg hexponent]
    simp [NumberParts.text, exponentText, pointParts, paddedDigits]

/-- The exponent of notation with an exponent. -/
def scientificExponent (decimal : Decimal) : Option (Bool × List Char) :=
  some (decide (decimal.magnitude < 0), Nat.toDigits 10 decimal.magnitude.natAbs)

theorem exponentText_scientificExponent (decimal : Decimal) :
    exponentText (scientificExponent decimal) =
      'e' :: (if 0 ≤ decimal.magnitude then '+' else '-') ::
        Nat.toDigits 10 decimal.magnitude.natAbs := by
  by_cases hnegative : decimal.magnitude < 0
  · simp [scientificExponent, exponentText, hnegative, Int.not_le.mpr hnegative]
  · simp [scientificExponent, exponentText, hnegative, Int.not_lt.mp hnegative]

/-- Digits as a fraction, if there are any. -/
def fractionOf (digits : List Char) : Option (List Char) :=
  if digits = [] then none else some digits

theorem getD_fractionOf (digits : List Char) : (fractionOf digits).getD [] = digits := by
  unfold fractionOf
  split_ifs with hnone
  · exact hnone.symm
  · rfl

/-- One digit before the point and the others after it. -/
def scientificParts (decimal : Decimal) : NumberParts :=
  ⟨decimal.digits.take 1, fractionOf (decimal.digits.drop 1), scientificExponent decimal, []⟩

theorem isProper_scientificParts (decimal : Decimal) : (scientificParts decimal).IsProper := by
  obtain ⟨hne, hall⟩ : IsDigits decimal.digits := isDigits_toDigits decimal.coefficient
  obtain ⟨first, others, hdigits⟩ := List.exists_cons_of_ne_nil hne
  rw [hdigits, List.all_cons, Bool.and_eq_true] at hall
  rw [scientificParts, hdigits]
  refine ⟨⟨List.cons_ne_nil first [], by simpa using hall.1⟩, ?_, ?_, ?_⟩
  · rintro ⟨⟩
    rfl
  · intro digits hfraction
    change (if others = [] then none else some others) = some digits at hfraction
    split_ifs at hfraction with hnone
    obtain rfl := Option.some.inj hfraction
    exact ⟨hnone, hall.2⟩
  · rintro negative digits ⟨⟩
    exact isDigits_toDigits decimal.magnitude.natAbs

theorem writtenExponent_scientificParts (decimal : Decimal) :
    (scientificParts decimal).writtenExponent = decimal.magnitude := by
  simp only [NumberParts.writtenExponent, scientificParts, scientificExponent,
    Nat.ofDigitChars_ten_toDigits, decide_eq_true_eq]
  split_ifs <;> omega

theorem denotes_scientificParts (decimal : Decimal) :
    (scientificParts decimal).Denotes decimal where
  proper := isProper_scientificParts decimal
  notWhole := .inr rfl
  zeros := by
    have hlength : 0 < decimal.digits.length :=
      List.length_pos_iff.mpr (isDigits_toDigits decimal.coefficient).1
    refine ⟨0, Nat.zero_le _, ?_, ?_⟩
    · rw [NumberParts.coefficient, scientificParts, getD_fractionOf, List.take_append_drop,
        Decimal.digits, Nat.ofDigitChars_ten_toDigits, Nat.pow_zero, Nat.mul_one]
    · rw [NumberParts.power, writtenExponent_scientificParts, scientificParts, getD_fractionOf,
        List.length_drop, Decimal.magnitude]
      omega
  written := .inr (writtenExponent_scientificParts decimal)

theorem scientific_eq_text (decimal : Decimal) :
    decimal.scientific = (scientificParts decimal).text := by
  obtain ⟨first, others, hdigits⟩ :=
    List.exists_cons_of_ne_nil (isDigits_toDigits decimal.coefficient).1
  have hdigits : decimal.digits = first :: others := hdigits
  rw [Decimal.scientific, NumberParts.text, scientificParts, ← exponentText_scientificExponent,
    hdigits]
  cases others <;> simp [fractionOf]

end Notations

/-! ### The text of a number -/

/-- The parts that are written for zero. -/
def zeroParts : NumberParts :=
  ⟨['0'], some ['0'], none, []⟩

theorem isProper_zeroParts : zeroParts.IsProper where
  whole := ⟨by decide, by decide⟩
  zero := fun _ ↦ rfl
  fraction := by
    rintro digits ⟨⟩
    exact ⟨by decide, by decide⟩
  exponent := nofun

theorem floatText_zero (negative : Bool) :
    floatText (.finite negative 0) = signText negative ++ zeroParts.text :=
  rfl

/-- The parts that are written for a magnitude. -/
theorem exists_denotes_shortest {units : Nat} (h : units ≠ 0) :
    ∃ parts : NumberParts, parts.Denotes (Binary64.shortest units) ∧
      ∀ negative, floatText (.finite negative units) = signText negative ++ parts.text := by
  have hcoefficient := Binary64.coefficient_shortest_ne_zero h
  by_cases hpositional : isPositional (Binary64.shortest units) = true
  · obtain ⟨parts, hparts, htext⟩ := exists_denotes_plain hcoefficient
    refine ⟨parts, hparts, fun negative ↦ ?_⟩
    rw [floatText, if_neg h, ← htext]
    simp only [hpositional, if_true]
    rfl
  · refine ⟨_, denotes_scientificParts _, fun negative ↦ ?_⟩
    rw [floatText, if_neg h, ← scientific_eq_text]
    simp only [hpositional]
    rfl

/-- A finite number is written as a sign and parts of a number. -/
theorem exists_parts_floatText (negative : Bool) (units : Nat) :
    ∃ parts : NumberParts, parts.IsProper ∧
      floatText (.finite negative units) = signText negative ++ parts.text := by
  obtain rfl | hne := Decidable.eq_or_ne units 0
  · exact ⟨zeroParts, isProper_zeroParts, floatText_zero negative⟩
  · obtain ⟨parts, hparts, htext⟩ := exists_denotes_shortest hne
    exact ⟨parts, hparts.proper, htext negative⟩

/-- The text of the number is a sign and parts of a number that denote something to which the number
is the nearest. -/
def WritesNearest (number : Binary64) : Prop :=
  ∃ (negative : Bool) (parts : NumberParts), parts.IsProper ∧
    floatText number = signText negative ++ parts.text ∧ parts.nearest negative = number

/-- A finite number is the nearest to what is written for it. -/
theorem writesNearest_of_finite (negative : Bool) {units : Nat}
    (hunits : Binary64.IsRepresentable units) : WritesNearest (.finite negative units) := by
  obtain rfl | hne := Decidable.eq_or_ne units 0
  · exact ⟨negative, zeroParts, isProper_zeroParts, floatText_zero negative, rfl⟩
  · obtain ⟨parts, hparts, htext⟩ := exists_denotes_shortest hne
    refine ⟨negative, parts, hparts.proper, htext negative, ?_⟩
    rw [hparts.nearest_eq,
      Binary64.ofDecimal_shortest hunits (Nat.pos_of_ne_zero hne) negative]

/-- A finite number is one token, the same whatever comes after it. -/
theorem tokens_floatText_finite (negative : Bool) (units : Nat) :
    ∃ value, ∀ rest, EndsNumber rest → tokens (floatText (.finite negative units) ++ rest) =
      .number value (.ok ()) :: tokens rest := by
  obtain ⟨parts, hparts, htext⟩ := exists_parts_floatText negative units
  refine ⟨numeralOfParts negative parts, fun rest hrest ↦ ?_⟩
  rw [htext, List.append_assoc, tokens_signText negative hparts hrest]

end CalculatorCatalog.Json
