import CalculatorCatalog.Number.Binary64
import Mathlib.Data.List.Basic

/-!
# Whole numbers of the binary format

A whole number below 2⁵³ has at most 53 significant bits, so no rounding takes place:
`ofDecimal_of_small` says that its decimal is read as the number itself.
-/

set_option autoImplicit false
set_option relaxedAutoImplicit false

namespace CalculatorCatalog.Number.Binary64

theorem nearest_mul (quotient : Nat) {denominator : Nat} (hpos : 0 < denominator) :
    nearest (quotient * denominator) denominator = quotient := by
  have hdivide : quotient * denominator / denominator = quotient :=
    Nat.mul_div_cancel quotient hpos
  have hrest : 2 * (quotient * denominator % denominator) < denominator := by
    rw [Nat.mul_mod_left]
    exact hpos
  rw [nearest, hdivide]
  exact if_pos (Or.inl hrest)

/-- A multiple of the distance between its neighbours is not rounded. -/
theorem roundUnits_eq_self {units : Nat} (h : spacing units ∣ units) :
    roundUnits units 1 = units := by
  obtain ⟨quotient, hquotient⟩ := h
  have hpos : 0 < spacing units := Nat.pow_pos (by decide)
  rw [roundUnits, Nat.div_one]
  simp only [Nat.one_mul]
  have hmul : units = quotient * spacing units := by rw [Nat.mul_comm, ← hquotient]
  calc
    nearest units (spacing units) * spacing units =
        nearest (quotient * spacing units) (spacing units) * spacing units := by rw [← hmul]
    _ = quotient * spacing units := by rw [nearest_mul quotient hpos]
    _ = units := hmul.symm

section Units

variable {value exponent : Nat}

/-- A whole number below 2⁵³ has at most 53 binary digits more when counted in smaller units. -/
theorem mul_pow_lt (h : value < Nat.pow 2 53) :
    value * Nat.pow 2 exponent < Nat.pow 2 (53 + exponent) := by
  have hpos : 0 < Nat.pow 2 exponent := Nat.pow_pos (by decide)
  calc
    value * Nat.pow 2 exponent < Nat.pow 2 53 * Nat.pow 2 exponent :=
      Nat.mul_lt_mul_of_pos_right h hpos
    _ = Nat.pow 2 (53 + exponent) := (Nat.pow_add 2 53 exponent).symm

theorem log2_mul_pow_lt (h : value < Nat.pow 2 53) :
    (value * Nat.pow 2 exponent).log2 < 53 + exponent := by
  by_cases hzero : value * Nat.pow 2 exponent = 0
  · rw [hzero, Nat.log2_zero]
    omega
  · exact (Nat.log2_lt hzero).mpr (mul_pow_lt h)

/-- Whole numbers below 2⁵³ are multiples of the distance between their neighbours. -/
theorem spacing_dvd_mul_pow (h : value < Nat.pow 2 53) :
    spacing (value * Nat.pow 2 exponent) ∣ value * Nat.pow 2 exponent := by
  have hexponent : (value * Nat.pow 2 exponent).log2 + 1 - 53 ≤ exponent := by
    have hlog : (value * Nat.pow 2 exponent).log2 < 53 + exponent := log2_mul_pow_lt h
    omega
  have hdivides : spacing (value * Nat.pow 2 exponent) ∣ Nat.pow 2 exponent :=
    Nat.pow_dvd_pow 2 hexponent
  exact Nat.dvd_mul_left_of_dvd hdivides value

end Units

/-- There is room for 53 digits above one. -/
theorem exists_exponents :
    ∃ exponent top, one = Nat.pow 2 exponent ∧ limit = Nat.pow 2 top ∧ 53 + exponent ≤ top :=
  ⟨1074, 2098, rfl, rfl, by decide⟩

/-- A whole number below 2⁵³ is not rounded. -/
theorem ofRatio_of_small (negative : Bool) {value : Nat} (h : value < Nat.pow 2 53) :
    ofRatio negative value 1 = .finite negative (value * one) := by
  obtain ⟨exponent, top, hone, hlimit, hroom⟩ := exists_exponents
  have hbelow : value * Nat.pow 2 exponent < Nat.pow 2 top :=
    Nat.lt_of_lt_of_le (mul_pow_lt h) (Nat.pow_le_pow_right (by decide) hroom)
  rw [ofRatio, hone, roundUnits_eq_self (spacing_dvd_mul_pow h), ofUnits, hlimit, if_pos hbelow]

/-- The decimal of a whole number below 2⁵³ is read as the number itself. -/
theorem ofDecimal_of_small (negative : Bool) {value : Nat} (h : value < Nat.pow 2 53) :
    ofDecimal negative value 0 = .finite negative (value * one) := by
  have hsmall : ¬(0 : Int) + (Nat.toDigits 10 value).length < -330 := by omega
  have hpower : value * Nat.pow 10 (0 : Int).toNat = value := Nat.mul_one value
  unfold ofDecimal
  by_cases hzero : value = 0
  · rw [if_pos hzero, hzero, Nat.zero_mul]
  · rw [if_neg hzero, if_neg (by decide), if_neg hsmall, if_pos (Int.le_refl 0), hpower,
      ofRatio_of_small negative h]

end CalculatorCatalog.Number.Binary64
