import CalculatorCatalog.Proofs.Json.Floats

/-!
# Short decimals are read exactly

The reader multiplies or divides the digits of a number by a power of ten. If the digits stay below
2⁵³ and the power below 10²³, both are numbers of the format and only the last step rounds, so that
the reader ends at the number that is nearest to what is written (`numeralOfParts_eq_nearest`).
Together with `Binary64.ofDecimal_shortest` this gives back every number whose shortest decimal is
short (`numeralOfParts_of_isShort`).
-/

set_option autoImplicit false
set_option relaxedAutoImplicit false

namespace CalculatorCatalog.Number

/-- A decimal whose digits stay below 2⁵³, also when it is written with zeros up to the point and
one behind it, and that has no more than 22 places behind the point. -/
def Decimal.IsShort (decimal : Decimal) : Prop :=
  decimal.coefficient * 10 ^ (decimal.exponent + 1).toNat < Nat.pow 2 53 ∧ -22 ≤ decimal.exponent

instance : DecidablePred Decimal.IsShort :=
  fun _ ↦ inferInstanceAs (Decidable (_ ∧ _))

namespace Binary64

/-- A finite number that is zero or has a short decimal. -/
def IsShort : Binary64 → Prop
  | .finite _ units => units ≠ 0 → (shortest units).IsShort
  | _ => False

instance : DecidablePred IsShort
  | .finite _ units => inferInstanceAs (Decidable (units ≠ 0 → (shortest units).IsShort))
  | .infinite _ => .isFalse id
  | .nan => .isFalse id

/-- Powers of ten up to 10²² are numbers of the format. -/
theorem ofDecimal_one_of_le : ∀ exponent < 23,
    ofDecimal false 1 (exponent : Nat) = .finite false (Nat.pow 10 exponent * one) := by
  decide +kernel

/-- In a small range a decimal is the quotient that it says. -/
theorem ofDecimal_eq_ofRatio (negative : Bool) {coefficient : Nat} (h : coefficient ≠ 0)
    {exponent : Int} (hexponent : exponent.natAbs < 23) :
    ofDecimal negative coefficient exponent =
      if 0 ≤ exponent then ofRatio negative (coefficient * Nat.pow 10 exponent.natAbs) 1
      else ofRatio negative coefficient (Nat.pow 10 exponent.natAbs) := by
  rw [ofDecimal, if_neg h, if_neg (by omega), if_neg (by omega)]
  split_ifs with hnonneg
  · rw [← Int.toNat_of_nonneg hnonneg]
    rfl
  · rw [← Int.natAbs_neg, ← Int.toNat_of_nonneg (by omega : 0 ≤ -exponent)]
    rfl

end Binary64

end CalculatorCatalog.Number

namespace CalculatorCatalog.Json

open CalculatorCatalog.Number

/-! ### Scaling -/

/-- Scaling a small significand by a small power of ten rounds once. -/
theorem scale_of_small {significand units : Nat} {exponent : Int} (hne : significand ≠ 0)
    (hsmall : significand < Nat.pow 2 53) (hexponent : exponent.natAbs < 23)
    (hfinite : Binary64.ofDecimal false significand exponent = .finite false units) (count : Nat) :
    scale count (.ofNat significand) exponent = .ok (.finite false units) := by
  have hpower := Binary64.ofDecimal_one_of_le exponent.natAbs hexponent
  have hvalue : Binary64.ofNat significand = .finite false (significand * Binary64.one) :=
    Binary64.ofRatio_of_small false hsmall
  rw [Binary64.ofDecimal_eq_ofRatio false hne hexponent] at hfinite
  unfold scale
  simp only [if_pos (by omega : exponent.natAbs ≤ 308), hpower, hvalue]
  split_ifs at hfinite ⊢ with hnonneg
  · have hproduct : Binary64.multiply (.finite false (significand * Binary64.one))
        (.finite false (Nat.pow 10 exponent.natAbs * Binary64.one)) = .finite false units := by
      have hfactor : significand * Binary64.one * (Nat.pow 10 exponent.natAbs * Binary64.one) =
          significand * Nat.pow 10 exponent.natAbs * (Binary64.one * Binary64.one) := by
        ring
      have hone : Binary64.one * Binary64.one = 1 * (Binary64.one * Binary64.one) :=
        (Nat.one_mul _).symm
      rw [← hfinite, Binary64.multiply, hfactor]
      nth_rewrite 2 [hone]
      exact Binary64.ofRatio_mul false _ 1 (Nat.mul_pos Binary64.one_pos Binary64.one_pos)
    rw [hproduct]
  · have hquotient : Binary64.divide (.finite false (significand * Binary64.one))
        (.finite false (Nat.pow 10 exponent.natAbs * Binary64.one)) = .finite false units := by
      have hpos : 0 < Nat.pow 10 exponent.natAbs * Binary64.one :=
        Nat.mul_pos (Nat.pow_pos (by decide)) Binary64.one_pos
      rw [← hfinite, Binary64.divide, if_neg hpos.ne']
      exact Binary64.ofRatio_mul false _ _ Binary64.one_pos
    rw [hquotient]

theorem scaled_of_small {significand units : Nat} {exponent : Int} (hne : significand ≠ 0)
    (hsmall : significand < Nat.pow 2 53) (hexponent : exponent.natAbs < 23)
    (hfinite : Binary64.ofDecimal false significand exponent = .finite false units)
    (negative : Bool) :
    scaled negative significand exponent = .ok (.float (.finite negative units)) := by
  rw [scaled, scale_of_small hne hsmall hexponent hfinite]
  cases negative <;> rfl

/-! ### Digits -/

theorem digitsValue_eq (digits : List Char) :
    digitsValue digits = Nat.ofDigitChars 10 digits 0 := by
  simp only [digitsValue, Nat.ofDigitChars, Nat.mul_comm]
  rfl

/-- Digits after the point whose value fits 64 bits are accumulated exactly. -/
theorem foldl_addFraction {digits : List Char} {start : Nat} (exponent : Int)
    (h : Nat.ofDigitChars 10 digits start ≤ maxSignificand) :
    digits.foldl Significand.addFraction ⟨start, exponent, false⟩ =
      ⟨Nat.ofDigitChars 10 digits start, exponent - digits.length, false⟩ := by
  induction digits generalizing start exponent with
  | nil => simp
  | cons c digits ih =>
    rw [Nat.ofDigitChars_cons, Nat.mul_comm 10 start] at h ⊢
    have hnext := (le_ofDigitChars digits _).trans h
    have hadd : Significand.addFraction ⟨start, exponent, false⟩ c =
        ⟨start * 10 + (c.toNat - '0'.toNat), exponent - 1, false⟩ := by
      rw [Significand.addFraction, if_neg]
      · rfl
      · exact fun hfull ↦ hfull.elim Bool.false_ne_true (Nat.not_lt.mpr hnext)
    have hlength : exponent - 1 - digits.length = exponent - (c :: digits).length := by
      rw [List.length_cons]
      omega
    rw [List.foldl_cons, hadd, ih (exponent - 1) h, hlength]

/-! ### Numbers -/

variable {parts : NumberParts}

/-- What is accumulated of the digits before and after the point. -/
theorem foldl_digits (h : parts.coefficient ≤ maxSignificand) :
    (parts.fraction.getD []).foldl Significand.addFraction
        { parts.whole.foldl Significand.addWhole ⟨0, 0, false⟩ with saturated := false } =
      ⟨parts.coefficient, -(parts.fraction.getD []).length, false⟩ := by
  have hcoefficient : parts.coefficient = Nat.ofDigitChars 10 (parts.fraction.getD [])
      (Nat.ofDigitChars 10 parts.whole 0) := Nat.ofDigitChars_append ..
  rw [hcoefficient] at h ⊢
  rw [foldl_addWhole ((le_ofDigitChars _ _).trans h)]
  dsimp only
  rw [foldl_addFraction 0 h, Int.zero_sub]

/-- Where digits and power are small, the number that is read is the nearest one. -/
theorem numeralOfParts_eq_nearest {units : Nat}
    (hwhole : parts.fraction.isSome ∨ parts.exponent.isSome) (hne : parts.coefficient ≠ 0)
    (hsmall : parts.coefficient < Nat.pow 2 53) (hpower : parts.power.natAbs < 23)
    (hwritten : parts.writtenExponent.natAbs ≤ maxExponent)
    (hfinite : parts.nearest false = .finite false units) (negative : Bool) :
    numeralOfParts negative parts = .ok (.float (.finite negative units)) := by
  have hdigits := foldl_digits (hsmall.le.trans (by decide) : parts.coefficient ≤ maxSignificand)
  have hscaled := scaled_of_small hne hsmall hpower hfinite negative
  obtain ⟨whole, fraction, exponent, rest⟩ := parts
  cases exponent with
  | none =>
    obtain ⟨digits, rfl⟩ := Option.isSome_iff_exists.mp (hwhole.resolve_right Bool.false_ne_true)
    have hpower : (NumberParts.mk whole (some digits) none rest).power = -digits.length :=
      Int.zero_sub _
    rw [hpower] at hscaled
    simp only [numeralOfParts, hdigits]
    exact hscaled
  | some written =>
    obtain ⟨below, digits⟩ := written
    simp only [NumberParts.writtenExponent] at hwritten
    have hlimit : ¬maxExponent < digitsValue digits := by
      rw [digitsValue_eq]
      split_ifs at hwritten <;> omega
    have hadd : addExponents (-(fraction.getD []).length)
        (if below then -(digitsValue digits : Int) else digitsValue digits) =
          (NumberParts.mk whole fraction (some (below, digits)) rest).power := by
      simp only [NumberParts.power, NumberParts.writtenExponent, ← digitsValue_eq] at hpower ⊢
      unfold addExponents
      omega
    simp only [numeralOfParts, hdigits]
    rw [if_neg hlimit, hadd]
    exact hscaled

theorem numeralOfParts_zeroParts (negative : Bool) :
    numeralOfParts negative zeroParts = .ok (.float (.finite negative 0)) := by
  have hquotient : Binary64.divide (.ofNat 0) (.ofDecimal false 1 1) = .finite false 0 := by
    decide +kernel
  have hscale : scale 4 (.ofNat 0) (-1) = .ok (.finite false 0) := congrArg Except.ok hquotient
  have hparts : numeralOfParts negative zeroParts = scaled negative 0 (-1) := rfl
  rw [hparts, scaled, hscale]
  cases negative <;> rfl

/-! ### Short decimals -/

section Short

variable {decimal : Decimal}

theorem exponent_lt_of_isShort (hne : decimal.coefficient ≠ 0) (h : decimal.IsShort) :
    decimal.exponent < 15 := by
  have hpower : 10 ^ (decimal.exponent + 1).toNat < 10 ^ 16 := by
    calc
      10 ^ (decimal.exponent + 1).toNat ≤
          decimal.coefficient * 10 ^ (decimal.exponent + 1).toNat :=
        Nat.le_mul_of_pos_left _ (Nat.pos_of_ne_zero hne)
      _ < Nat.pow 2 53 := h.1
      _ < 10 ^ 16 := by decide
  have hexponent := (Nat.pow_lt_pow_iff_right (by decide)).mp hpower
  omega

theorem magnitude_of_isShort (h : decimal.IsShort) :
    decimal.exponent ≤ decimal.magnitude ∧ decimal.magnitude < decimal.exponent + 16 := by
  have hlower : 0 < decimal.digits.length :=
    List.length_pos_iff.mpr (isDigits_toDigits decimal.coefficient).1
  have hupper : decimal.digits.length ≤ 16 := by
    rw [Decimal.digits, Nat.length_toDigits_le_iff (by decide) (by decide)]
    calc
      decimal.coefficient ≤ decimal.coefficient * 10 ^ (decimal.exponent + 1).toNat :=
        Nat.le_mul_of_pos_right _ (Nat.pow_pos (by decide))
      _ < Nat.pow 2 53 := h.1
      _ < 10 ^ 16 := by decide
  rw [Decimal.magnitude]
  omega

/-- A number whose shortest decimal is short is read from any notation of this decimal. -/
theorem numeralOfParts_of_isShort {units : Nat} (hunits : Binary64.IsRepresentable units)
    (hne : units ≠ 0) (hshort : (Binary64.shortest units).IsShort)
    (hparts : parts.Denotes (Binary64.shortest units)) (negative : Bool) :
    numeralOfParts negative parts = .ok (.float (.finite negative units)) := by
  have hcoefficient := Binary64.coefficient_shortest_ne_zero hne
  have hupper := exponent_lt_of_isShort hcoefficient hshort
  have hmagnitude := magnitude_of_isShort hshort
  have hfinite : parts.nearest false = .finite false units := by
    rw [hparts.nearest_eq, Binary64.ofDecimal_shortest hunits (Nat.pos_of_ne_zero hne)]
  have hwritten : parts.writtenExponent.natAbs ≤ maxExponent := by
    obtain ⟨-, hlower⟩ := hshort
    unfold maxExponent
    obtain hnone | hsome := hparts.written <;> omega
  obtain ⟨count, hcount, hdigits, hpower⟩ := hparts.zeros
  refine numeralOfParts_eq_nearest hparts.notWhole ?_ ?_ ?_ hwritten hfinite negative
  · rw [hdigits]
    exact Nat.mul_ne_zero hcoefficient (Nat.pow_pos (by decide)).ne'
  · rw [hdigits]
    exact (Nat.mul_le_mul_left _ (Nat.pow_le_pow_right (by decide) hcount)).trans_lt hshort.1
  · obtain ⟨-, hlower⟩ := hshort
    rw [hpower]
    omega

end Short

end CalculatorCatalog.Json
