import CalculatorCatalog.Proofs.Number.Whole
import Mathlib.Algebra.Order.Ring.Nat
import Mathlib.Tactic.Ring.RingNF

/-!
# Rounding to the nearest number

A magnitude of the 64-bit binary format is a multiple of the distance between its neighbours
(`IsRepresentable`). Whatever is closer to it than one part in 2 · 10¹⁶ is rounded to it
(`roundUnits_of_close`), since 2⁵³ < 10¹⁶. A quotient counts here, not the way in which it is given
(`ofRatio_mul`), so that a decimal may move zeros between its coefficient and its exponent
(`ofDecimal_mul_ten`).
-/

set_option autoImplicit false
set_option relaxedAutoImplicit false

namespace CalculatorCatalog.Number.Binary64

/-- A magnitude of the format. -/
def IsRepresentable (units : Nat) : Prop :=
  units < limit ∧ spacing units ∣ units

/-! ### Nearest whole numbers -/

/-- The nearest whole number is at most half away. -/
theorem two_mul_nearest (numerator : Nat) {denominator : Nat} (hpos : 0 < denominator) :
    2 * (nearest numerator denominator * denominator) ≤ 2 * numerator + denominator ∧
      2 * numerator ≤ 2 * (nearest numerator denominator * denominator) + denominator := by
  have hsplit := Nat.div_add_mod' numerator denominator
  have hrest := Nat.mod_lt numerator hpos
  simp only [nearest]
  split_ifs with hlower
  · omega
  · rw [Nat.succ_mul (numerator / denominator)]
    omega

theorem div_le_nearest (numerator denominator : Nat) :
    numerator / denominator ≤ nearest numerator denominator := by
  simp only [nearest]
  split_ifs
  · exact Nat.le_refl _
  · exact Nat.le_succ _

/-- A whole number that is less than half away is the nearest. -/
theorem nearest_eq_of_close {numerator denominator whole : Nat}
    (hbelow : 2 * (whole * denominator) < 2 * numerator + denominator)
    (habove : 2 * numerator < 2 * (whole * denominator) + denominator) :
    nearest numerator denominator = whole := by
  have hpos : 0 < denominator := by omega
  have hsplit := Nat.div_add_mod' numerator denominator
  have hrest := Nat.mod_lt numerator hpos
  have hlow : numerator / denominator < whole + 1 := by
    refine Nat.lt_of_mul_lt_mul_right (a := denominator) ?_
    rw [Nat.succ_mul whole]
    omega
  have hhigh : whole < numerator / denominator + 2 := by
    refine Nat.lt_of_mul_lt_mul_right (a := denominator) ?_
    rw [Nat.add_mul (numerator / denominator)]
    omega
  obtain heq | heq : numerator / denominator = whole ∨ numerator / denominator + 1 = whole := by
    omega
  · rw [heq] at hsplit
    simp only [nearest]
    rw [if_pos (.inl (by omega)), heq]
  · rw [← heq, Nat.succ_mul (numerator / denominator)] at hbelow
    simp only [nearest]
    rw [if_neg (by omega), heq]

/-! ### Distances -/

theorem spacing_pos (units : Nat) : 0 < spacing units :=
  Nat.pow_pos (by decide)

theorem spacing_dvd_of_log2_le {units other : Nat} (h : units.log2 ≤ other.log2) :
    spacing units ∣ spacing other :=
  Nat.pow_dvd_pow 2 (by omega)

/-- A magnitude has at most 53 significant bits above the distance of its neighbours. -/
theorem lt_mul_spacing (units : Nat) : units < 9007199254740992 * spacing units := by
  have hlog : units < 2 ^ (units.log2 + 1) := Nat.lt_log2_self
  have hpower : 2 ^ (units.log2 + 1) ≤ 2 ^ (53 + (units.log2 + 1 - 53)) :=
    Nat.pow_le_pow_right (by decide) (by omega)
  rw [Nat.pow_add 2 53] at hpower
  exact hlog.trans_le hpower

/-- There is room for one more distance below the next power of two. -/
theorem add_spacing_le {units : Nat} (h : spacing units ∣ units) :
    units + spacing units ≤ 2 ^ (units.log2 + 1) := by
  have hpower : spacing units ∣ 2 ^ (units.log2 + 1) := Nat.pow_dvd_pow 2 (by omega)
  obtain ⟨quotient, hquotient⟩ := h
  obtain ⟨room, hroom⟩ := hpower
  have hlog : units < 2 ^ (units.log2 + 1) := Nat.lt_log2_self
  have hlt : quotient < room := by
    refine Nat.lt_of_mul_lt_mul_left (a := spacing units) ?_
    rwa [← hquotient, ← hroom]
  calc
    units + spacing units = spacing units * (quotient + 1) := by rw [Nat.mul_succ, ← hquotient]
    _ ≤ spacing units * room := Nat.mul_le_mul_left _ hlt
    _ = 2 ^ (units.log2 + 1) := hroom.symm

/-! ### Rounding -/

section Rounding

variable {units numerator denominator : Nat}

/-- Close to a magnitude, a quotient lies below the same power of two. -/
theorem log2_le_of_close (hunits : spacing units ∣ units) (hpos : 0 < denominator)
    (habove : 20000000000000000 * numerator ≤ 20000000000000001 * (units * denominator)) :
    (numerator / denominator).log2 ≤ units.log2 := by
  have hbits := Nat.mul_lt_mul_of_pos_right (lt_mul_spacing units) hpos
  have hlt : numerator / denominator < units + spacing units := by
    rw [Nat.div_lt_iff_lt_mul hpos, Nat.add_mul]
    rw [Nat.mul_assoc] at hbits
    omega
  by_cases hzero : numerator / denominator = 0
  · rw [hzero, Nat.log2_zero]
    exact Nat.zero_le _
  · exact Nat.le_of_lt_succ
      ((Nat.log2_lt hzero).mpr (hlt.trans_le (add_spacing_le hunits)))

/-- Close to a magnitude, the distance at a quotient divides the magnitude, and the magnitude has no
more than 53 bits above it. -/
theorem spacing_of_close (hunits : spacing units ∣ units) (hpos : 0 < denominator)
    (hbelow : 19999999999999999 * (units * denominator) ≤ 20000000000000000 * numerator)
    (habove : 20000000000000000 * numerator ≤ 20000000000000001 * (units * denominator)) :
    spacing (numerator / denominator) ∣ units ∧
      units ≤ 9007199254740992 * spacing (numerator / denominator) := by
  have hdvd : spacing (numerator / denominator) ∣ units :=
    (spacing_dvd_of_log2_le (log2_le_of_close hunits hpos habove)).trans hunits
  have hfloor := (Nat.div_lt_iff_lt_mul hpos).mp (lt_mul_spacing (numerator / denominator))
  refine ⟨hdvd, Nat.not_lt.mp fun hgreater ↦ ?_⟩
  generalize spacing (numerator / denominator) = step at *
  -- The magnitude would be a whole step above the power of two that the quotient stays below.
  have hstep : 9007199254740993 * step ≤ units := by
    obtain ⟨quotient, rfl⟩ := hdvd
    rw [Nat.mul_comm step] at hgreater ⊢
    exact Nat.mul_le_mul_right step (Nat.lt_of_mul_lt_mul_right hgreater)
  have hgap := Nat.mul_le_mul_right denominator hstep
  rw [Nat.mul_assoc] at hgap hfloor
  omega

/-- Whatever is closer to a magnitude than one part in 2 · 10¹⁶ is rounded to it. -/
theorem roundUnits_of_close (hunits : spacing units ∣ units) (hpos : 0 < denominator)
    (hbelow : 19999999999999999 * (units * denominator) ≤ 20000000000000000 * numerator)
    (habove : 20000000000000000 * numerator ≤ 20000000000000001 * (units * denominator)) :
    roundUnits numerator denominator = units := by
  obtain ⟨hdvd, hbits⟩ := spacing_of_close hunits hpos hbelow habove
  have hstep := Nat.mul_pos hpos (spacing_pos (numerator / denominator))
  simp only [roundUnits]
  generalize spacing (numerator / denominator) = step at *
  have hbits := Nat.mul_le_mul_right denominator hbits
  obtain ⟨quotient, rfl⟩ := hdvd
  have hproduct : quotient * (denominator * step) = step * quotient * denominator := by
    ring
  have hscale : 9007199254740992 * step * denominator =
      9007199254740992 * (denominator * step) := by
    ring
  rw [hscale] at hbits
  have hnearest : nearest numerator (denominator * step) = quotient := by
    refine nearest_eq_of_close ?_ ?_ <;>
      rw [hproduct] <;>
      omega
  rw [hnearest, Nat.mul_comm]

/-- A quotient may be given with any common factor. -/
theorem ofRatio_mul (negative : Bool) (numerator denominator : Nat) {factor : Nat}
    (hpos : 0 < factor) :
    ofRatio negative (numerator * factor) (denominator * factor) =
      ofRatio negative numerator denominator := by
  have hround : ∀ numerator : Nat, roundUnits (numerator * factor) (denominator * factor) =
      roundUnits numerator denominator := by
    intro numerator
    have hnearest : ∀ step, nearest (numerator * factor) (denominator * factor * step) =
        nearest numerator (denominator * step) := by
      intro step
      have hfactor : denominator * factor * step = denominator * step * factor := by ring
      simp only [nearest]
      rw [hfactor, Nat.mul_div_mul_right _ _ hpos, Nat.mul_mod_mul_right, ← Nat.mul_assoc]
      simp only [Nat.mul_lt_mul_right hpos, Nat.mul_left_inj hpos.ne']
    rw [roundUnits, roundUnits, Nat.mul_div_mul_right _ _ hpos]
    simp only [hnearest]
  rw [ofRatio, ofRatio, Nat.mul_right_comm, hround]

/-- What is far beyond the finite magnitudes becomes an infinity. -/
theorem ofRatio_eq_infinite (negative : Bool) {numerator : Nat}
    (h : 2 * limit ≤ numerator * one) : ofRatio negative numerator 1 = .infinite negative := by
  have hpos : 0 < limit := by
    obtain ⟨_, top, -, hlimit, -⟩ := exists_exponents
    rw [hlimit]
    exact Nat.pow_pos (by decide)
  have hstep : spacing (numerator * one) ≤ numerator * one := by
    have hlog : 2 ^ (numerator * one).log2 ≤ numerator * one := Nat.log2_self_le (by omega)
    have hpower : spacing (numerator * one) ≤ 2 ^ (numerator * one).log2 :=
      Nat.pow_le_pow_right (by decide) (by omega)
    exact hpower.trans hlog
  have hnearest := (two_mul_nearest (numerator * one) (spacing_pos (numerator * one))).2
  rw [ofRatio, ofUnits, if_neg]
  simp only [roundUnits, Nat.div_one, Nat.one_mul]
  omega

end Rounding

/-! ### Results of rounding -/

/-- What rounding gives is a multiple of the distance between its neighbours. -/
theorem spacing_dvd_roundUnits (numerator : Nat) {denominator : Nat} (hpos : 0 < denominator) :
    spacing (roundUnits numerator denominator) ∣ roundUnits numerator denominator := by
  obtain ⟨shift, hshift⟩ : ∃ shift, spacing (numerator / denominator) = Nat.pow 2 shift :=
    ⟨_, rfl⟩
  have hstep := Nat.mul_pos hpos (spacing_pos (numerator / denominator))
  have hfloor := (Nat.div_lt_iff_lt_mul hpos).mp (lt_mul_spacing (numerator / denominator))
  have hnearest := (two_mul_nearest numerator hstep).1
  simp only [roundUnits]
  rw [hshift] at hstep hfloor hnearest ⊢
  have hle : nearest numerator (denominator * Nat.pow 2 shift) ≤ Nat.pow 2 53 := by
    refine Nat.le_of_lt_succ (Nat.lt_of_mul_lt_mul_right (a := denominator * Nat.pow 2 shift) ?_)
    have hscale : 9007199254740992 * Nat.pow 2 shift * denominator =
        9007199254740992 * (denominator * Nat.pow 2 shift) := by
      ring
    have hnext : (Nat.pow 2 53).succ = 9007199254740993 := rfl
    rw [hscale] at hfloor
    rw [hnext]
    omega
  obtain hlt | heq := hle.lt_or_eq
  · exact spacing_dvd_mul_pow hlt
  · -- With all 53 bits and one more, only a power of two is left.
    have hpower : Nat.pow 2 53 * Nat.pow 2 shift = 1 * Nat.pow 2 (53 + shift) := by
      rw [Nat.one_mul]
      exact (Nat.pow_add 2 53 shift).symm
    rw [heq, hpower]
    exact spacing_dvd_mul_pow (by decide)

/-- The numbers that a quotient can be rounded to. -/
inductive IsRounded : Binary64 → Prop where
  | finite (negative : Bool) {units : Nat} (hunits : IsRepresentable units) :
      IsRounded (.finite negative units)
  | infinite (negative : Bool) : IsRounded (.infinite negative)

theorem isRounded_zero (negative : Bool) : IsRounded (.finite negative 0) := by
  refine .finite negative ⟨?_, Nat.dvd_zero _⟩
  obtain ⟨_, top, -, hlimit, -⟩ := exists_exponents
  rw [hlimit]
  exact Nat.pow_pos (by decide)

theorem isRounded_ofRatio (negative : Bool) (numerator : Nat) {denominator : Nat}
    (hpos : 0 < denominator) : IsRounded (ofRatio negative numerator denominator) := by
  unfold ofRatio ofUnits
  split_ifs with hfits
  · exact .finite negative ⟨hfits, spacing_dvd_roundUnits _ hpos⟩
  · exact .infinite negative

/-! ### Decimals -/

/-- What a decimal is read as. -/
theorem isRounded_ofDecimal (negative : Bool) (coefficient : Nat) (exponent : Int) :
    IsRounded (ofDecimal negative coefficient exponent) := by
  unfold ofDecimal
  split_ifs
  · exact isRounded_zero negative
  · exact .infinite negative
  · exact isRounded_zero negative
  · exact isRounded_ofRatio negative _ Nat.one_pos
  · exact isRounded_ofRatio negative _ (Nat.pow_pos (by decide))

/-- A power of ten that is beyond the format. -/
theorem limit_le_pow_ten : 2 * limit ≤ 10 * Nat.pow 10 310 * one := by
  decide +kernel

/-- A decimal whose exponent is out of range is infinite. -/
theorem ofDecimal_of_large (negative : Bool) {coefficient : Nat} (hcoefficient : coefficient ≠ 0)
    {exponent : Int} (hexponent : 310 ≤ exponent) :
    ofDecimal negative (coefficient * 10) exponent = .infinite negative := by
  have hten : coefficient * 10 ≠ 0 := by omega
  rw [ofDecimal, if_neg hten]
  by_cases hlarge : 310 < exponent
  · rw [if_pos hlarge]
  · obtain rfl : exponent = 310 := by omega
    have hfits : 2 * limit ≤ coefficient * 10 * Nat.pow 10 310 * one := by
      calc
        2 * limit ≤ 10 * Nat.pow 10 310 * one := limit_le_pow_ten
        _ ≤ coefficient * (10 * Nat.pow 10 310 * one) :=
          Nat.le_mul_of_pos_left _ (Nat.pos_of_ne_zero hcoefficient)
        _ = coefficient * 10 * Nat.pow 10 310 * one := by
          rw [← Nat.mul_assoc, ← Nat.mul_assoc]
    rw [if_neg hlarge, if_neg (by omega), if_pos (by omega)]
    exact ofRatio_eq_infinite negative hfits

/-- A decimal may move a zero from its coefficient into its exponent. -/
theorem ofDecimal_mul_ten (negative : Bool) (coefficient : Nat) (exponent : Int) :
    ofDecimal negative (coefficient * 10) exponent =
      ofDecimal negative coefficient (exponent + 1) := by
  by_cases hzero : coefficient = 0
  · simp [ofDecimal, hzero]
  by_cases hlarge : 310 ≤ exponent
  · rw [ofDecimal_of_large negative hzero hlarge, ofDecimal, if_neg hzero, if_pos (by omega)]
  have hten : coefficient * 10 ≠ 0 := by omega
  have hlength : (Nat.toDigits 10 (coefficient * 10)).length =
      (Nat.toDigits 10 coefficient).length + 1 := by
    rw [Nat.toDigits_of_base_le (by decide) (by omega), Nat.mul_div_cancel _ (by decide),
      List.length_append]
    rfl
  have hlow : exponent + (Nat.toDigits 10 (coefficient * 10)).length < -330 ↔
      exponent + 1 + (Nat.toDigits 10 coefficient).length < -330 := by
    rw [hlength]
    omega
  have hrange : ¬310 < exponent := by omega
  have hrange' : ¬310 < exponent + 1 := by omega
  rw [ofDecimal, if_neg hten, if_neg hrange, ofDecimal, if_neg hzero, if_neg hrange']
  refine if_congr hlow rfl ?_
  obtain hnonneg | rfl | hnegative : 0 ≤ exponent ∨ exponent = -1 ∨ exponent < -1 := by omega
  · have hpower : Nat.pow 10 (exponent + 1).toNat = 10 * Nat.pow 10 exponent.toNat := by
      rw [Int.toNat_add hnonneg (by decide)]
      exact Nat.pow_succ'
    rw [if_pos hnonneg, if_pos (by omega), hpower, Nat.mul_assoc]
  · have hten : Nat.pow 10 (-(-1 : Int)).toNat = 1 * 10 := rfl
    have hone : coefficient * Nat.pow 10 (-1 + 1 : Int).toNat = coefficient := Nat.mul_one _
    rw [if_neg (by decide), if_pos (by decide), hten, hone, ofRatio_mul negative _ _ (by decide)]
  · have hpower : Nat.pow 10 (-exponent).toNat = Nat.pow 10 (-(exponent + 1)).toNat * 10 := by
      have hsplit : (-exponent).toNat = (-(exponent + 1)).toNat + 1 := by omega
      rw [hsplit]
      exact Nat.pow_succ 10 _
    rw [if_neg (by omega), if_neg (by omega), hpower, ofRatio_mul negative _ _ (by decide)]

end CalculatorCatalog.Number.Binary64
