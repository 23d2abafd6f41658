import CalculatorCatalog.Number.Shortest
import CalculatorCatalog.Proofs.Number.Nearest

/-!
# Shortest decimals read back

The decimal that `shortest` finds for a magnitude of the 64-bit binary format is rounded to this
magnitude (`ofDecimal_shortest`). What has been found reads back because it has been tried, so that
the point is that the search always succeeds: with seventeen digits the nearest decimal is closer
than one part in 2 · 10¹⁶, which is close enough to be rounded to the magnitude
(`exists_atPrecision?_seventeen`).
-/

set_option autoImplicit false
set_option relaxedAutoImplicit false

namespace CalculatorCatalog.Number

/-- Moving trailing zeros into the exponent leaves more than zeros. -/
theorem Decimal.coefficient_trim_ne_zero {decimal : Decimal} (h : decimal.coefficient ≠ 0)
    (count : Nat) : (decimal.trim count).coefficient ≠ 0 := by
  induction count generalizing decimal with
  | zero => exact h
  | succ count ih =>
    rw [trim]
    split_ifs with hzero
    · refine ih ?_
      dsimp only
      omega
    · exact h

namespace Binary64

/-- Trailing zeros that are moved into the exponent do not change what is read. -/
theorem ofDecimal_trim (negative : Bool) (decimal : Decimal) (count : Nat) :
    ofDecimal negative (decimal.trim count).coefficient (decimal.trim count).exponent =
      ofDecimal negative decimal.coefficient decimal.exponent := by
  induction count generalizing decimal with
  | zero => rfl
  | succ count ih =>
    rw [Decimal.trim]
    split_ifs with hzero
    · rw [ih, ← ofDecimal_mul_ten, Nat.div_mul_cancel (Nat.dvd_of_mod_eq_zero hzero)]
    · rfl

theorem ofRatio_sign {numerator denominator units : Nat}
    (h : ofRatio false numerator denominator = .finite false units) (negative : Bool) :
    ofRatio negative numerator denominator = .finite negative units := by
  unfold ofRatio ofUnits at h ⊢
  split_ifs at h ⊢
  cases h
  rfl

/-- Only the sign of what is read depends on the sign. -/
theorem ofDecimal_sign {coefficient units : Nat} {exponent : Int}
    (h : ofDecimal false coefficient exponent = .finite false units) (negative : Bool) :
    ofDecimal negative coefficient exponent = .finite negative units := by
  unfold ofDecimal at h ⊢
  split_ifs at h ⊢
  · cases h
    rfl
  · cases h
    rfl
  · exact ofRatio_sign h negative
  · exact ofRatio_sign h negative

/-! ### The first digit -/

/-- The magnitude is at least a power of ten. -/
def Reaches (units : Nat) (exponent : Int) : Prop :=
  if 0 ≤ exponent then one * Nat.pow 10 exponent.toNat ≤ units
  else one ≤ units * Nat.pow 10 (-exponent).toNat

/-- The search for the first digit ends at a power of ten that is reached. -/
theorem reaches_decimalMagnitude {units count : Nat} {exponent least : Int}
    (hleast : Reaches units least) (hle : least ≤ exponent) (hcount : exponent - count ≤ least) :
    Reaches units (decimalMagnitude units count exponent) ∧
      least ≤ decimalMagnitude units count exponent ∧
        decimalMagnitude units count exponent ≤ exponent := by
  induction count generalizing exponent with
  | zero =>
    obtain rfl : least = exponent := by omega
    exact ⟨hleast, le_rfl, le_rfl⟩
  | succ count ih =>
    by_cases hreached : Reaches units exponent
    · have hfound : decimalMagnitude units (count + 1) exponent = exponent := if_pos hreached
      rw [hfound]
      exact ⟨hreached, hle, le_rfl⟩
    · have hnext : decimalMagnitude units (count + 1) exponent =
          decimalMagnitude units count (exponent - 1) := if_neg hreached
      have hne : least ≠ exponent := by
        rintro rfl
        exact hreached hleast
      obtain ⟨hreaches, hlower, hupper⟩ := @ih (exponent - 1) (by omega) (by omega)
      rw [hnext]
      exact ⟨hreaches, hlower, by omega⟩

/-- Every magnitude that is not zero is at least 10⁻³²⁴. -/
theorem reaches_of_pos {units : Nat} (h : 0 < units) : Reaches units (-324) := by
  have hleast : one ≤ Nat.pow 10 324 := by decide +kernel
  rw [Reaches, if_neg (by decide)]
  exact hleast.trans (Nat.le_mul_of_pos_left (Nat.pow 10 324) h)

/-! ### Seventeen digits -/

/-- A magnitude is the quotient of this and `gridDenominator` steps of the grid of the decimals with
the given exponent. -/
def gridNumerator (units : Nat) (exponent : Int) : Nat :=
  if 0 ≤ exponent then units else units * Nat.pow 10 (-exponent).toNat

/-- The size of a step of the grid in the unit in which `gridNumerator` counts. -/
def gridDenominator (exponent : Int) : Nat :=
  if 0 ≤ exponent then one * Nat.pow 10 exponent.toNat else one

theorem one_pos : 0 < one := by
  obtain ⟨exponent, _, hone, -, -⟩ := exists_exponents
  rw [hone]
  exact Nat.pow_pos (by decide)

theorem gridDenominator_pos (exponent : Int) : 0 < gridDenominator exponent := by
  unfold gridDenominator
  split_ifs
  · exact Nat.mul_pos one_pos (Nat.pow_pos (by decide))
  · exact one_pos

/-- A magnitude has seventeen digits above the grid that ends sixteen digits below its first. -/
theorem le_gridNumerator {units : Nat} {magnitude : Int} (h : Reaches units magnitude) :
    Nat.pow 10 16 * gridDenominator (magnitude - 16) ≤ gridNumerator units (magnitude - 16) := by
  unfold gridDenominator gridNumerator
  unfold Reaches at h
  obtain hlarge | hlarge := Int.lt_or_le (magnitude - 16) 0
  · rw [if_neg (by omega), if_neg (by omega)]
    obtain hmagnitude | hmagnitude := Int.lt_or_le magnitude 0
    · rw [if_neg (by omega)] at h
      have hpower : Nat.pow 10 (-(magnitude - 16)).toNat =
          Nat.pow 10 (-magnitude).toNat * Nat.pow 10 16 := by
        have hsplit : (-(magnitude - 16)).toNat = (-magnitude).toNat + 16 := by omega
        rw [hsplit]
        exact Nat.pow_add 10 _ 16
      rw [hpower, ← Nat.mul_assoc, Nat.mul_comm]
      exact Nat.mul_le_mul_right _ h
    · rw [if_pos hmagnitude] at h
      have hpower : Nat.pow 10 16 =
          Nat.pow 10 magnitude.toNat * Nat.pow 10 (-(magnitude - 16)).toNat := by
        have hsplit : magnitude.toNat + (-(magnitude - 16)).toNat = 16 := by omega
        have hproduct := Nat.pow_add 10 magnitude.toNat (-(magnitude - 16)).toNat
        rwa [hsplit] at hproduct
      rw [hpower, Nat.mul_comm, ← Nat.mul_assoc]
      exact Nat.mul_le_mul_right _ h
  · rw [if_pos hlarge, if_pos hlarge]
    rw [if_pos (by omega)] at h
    have hpower : Nat.pow 10 magnitude.toNat =
        Nat.pow 10 (magnitude - 16).toNat * Nat.pow 10 16 := by
      have hsplit : magnitude.toNat = (magnitude - 16).toNat + 16 := by omega
      rw [hsplit]
      exact Nat.pow_add 10 _ 16
    rwa [hpower, ← Nat.mul_assoc, Nat.mul_comm] at h

theorem ofRatio_of_close {units numerator denominator : Nat} (hunits : IsRepresentable units)
    (hpos : 0 < denominator)
    (hbelow : 19999999999999999 * (units * denominator) ≤ 20000000000000000 * (numerator * one))
    (habove : 20000000000000000 * (numerator * one) ≤ 20000000000000001 * (units * denominator)) :
    ofRatio false numerator denominator = .finite false units := by
  rw [ofRatio, roundUnits_of_close hunits.2 hpos hbelow habove, ofUnits, if_pos hunits.1]

/-- A decimal that is close to a magnitude, in steps of its grid, is rounded to it. -/
theorem ofDecimal_of_close {units coefficient : Nat} {exponent : Int}
    (hunits : IsRepresentable units) (hcoefficient : Nat.pow 10 16 ≤ coefficient)
    (hlow : -347 ≤ exponent) (hhigh : exponent ≤ 310)
    (hbelow : 19999999999999999 * gridNumerator units exponent ≤
      20000000000000000 * (coefficient * gridDenominator exponent))
    (habove : 20000000000000000 * (coefficient * gridDenominator exponent) ≤
      20000000000000001 * gridNumerator units exponent) :
    ofDecimal false coefficient exponent = .finite false units := by
  have hzero : coefficient ≠ 0 := by
    rintro rfl
    exact absurd hcoefficient (by decide)
  have hlength : ¬(Nat.toDigits 10 coefficient).length ≤ 16 := by
    rw [Nat.length_toDigits_le_iff (by decide) (by decide)]
    exact Nat.not_lt.mpr hcoefficient
  rw [ofDecimal, if_neg hzero, if_neg (by omega), if_neg (by omega)]
  unfold gridNumerator gridDenominator at hbelow habove
  by_cases hexponent : 0 ≤ exponent
  · simp only [if_pos hexponent] at hbelow habove ⊢
    have hscale : coefficient * (one * Nat.pow 10 exponent.toNat) =
        coefficient * Nat.pow 10 exponent.toNat * one := by
      rw [Nat.mul_comm one, Nat.mul_assoc]
    rw [hscale] at hbelow habove
    have hsame : units * 1 = units := Nat.mul_one units
    exact ofRatio_of_close hunits Nat.one_pos ((Nat.mul_le_mul_left _ hsame.le).trans hbelow)
      (habove.trans (Nat.mul_le_mul_left _ hsame.ge))
  · simp only [if_neg hexponent] at hbelow habove ⊢
    exact ofRatio_of_close hunits (Nat.pow_pos (by decide)) hbelow habove

/-- With seventeen digits the search succeeds. -/
theorem exists_atPrecision?_seventeen {units : Nat} {magnitude : Int}
    (hunits : IsRepresentable units) (hreaches : Reaches units magnitude)
    (hlow : -324 ≤ magnitude) (hhigh : magnitude ≤ 308) :
    ∃ decimal, atPrecision? units magnitude 17 = some decimal := by
  have hpos := gridDenominator_pos (magnitude - 16)
  have hdigits := le_gridNumerator hreaches
  have hnearest := two_mul_nearest (gridNumerator units (magnitude - 16)) hpos
  have hcoefficient : Nat.pow 10 16 ≤
      nearest (gridNumerator units (magnitude - 16)) (gridDenominator (magnitude - 16)) :=
    ((Nat.le_div_iff_mul_le hpos).mpr hdigits).trans (div_le_nearest _ _)
  have hten : Nat.pow 10 16 = 10000000000000000 := rfl
  rw [hten] at hdigits
  have hread : ofDecimal false
      (nearest (gridNumerator units (magnitude - 16)) (gridDenominator (magnitude - 16)))
      (magnitude - 16) = .finite false units :=
    ofDecimal_of_close hunits hcoefficient (by omega) (by omega) (by omega) (by omega)
  refine ⟨⟨nearest (gridNumerator units (magnitude - 16)) (gridDenominator (magnitude - 16)),
    magnitude - 16⟩, ?_⟩
  exact if_pos (beq_iff_eq.mpr hread)

/-- A decimal that has been found for a magnitude reads back as it. -/
theorem ofDecimal_of_atPrecision? {units precision : Nat} {magnitude : Int} {decimal : Decimal}
    (h : atPrecision? units magnitude precision = some decimal) :
    ofDecimal false decimal.coefficient decimal.exponent = .finite false units := by
  unfold atPrecision? at h
  extract_lets exponent numerator denominator below twice readsBack lowerFirst first second at h
  split_ifs at h with hfirst hsecond
  · obtain rfl := Option.some.inj h
    exact eq_of_beq hfirst
  · obtain rfl := Option.some.inj h
    exact eq_of_beq hsecond

/-- The shortest decimal of a magnitude that is not zero has digits other than zeros. -/
theorem coefficient_shortest_ne_zero {units : Nat} (h : units ≠ 0) :
    (shortest units).coefficient ≠ 0 := by
  refine Decimal.coefficient_trim_ne_zero ?_ 17
  cases hfound : ((List.range 17).map (· + 1)).findSome?
      (atPrecision? units (decimalMagnitude units 640 308)) with
  | none => exact h
  | some decimal =>
    obtain ⟨precision, -, hprecision⟩ := List.exists_of_findSome?_eq_some hfound
    have hreads := ofDecimal_of_atPrecision? hprecision
    rw [Option.getD_some]
    intro hzero
    rw [ofDecimal, if_pos hzero] at hreads
    cases hreads
    exact h rfl

/-- The shortest decimal of a magnitude is rounded to it. -/
theorem ofDecimal_shortest {units : Nat} (hunits : IsRepresentable units) (hpos : 0 < units)
    (negative : Bool) :
    ofDecimal negative (shortest units).coefficient (shortest units).exponent =
      .finite negative units := by
  have hmagnitude := @reaches_decimalMagnitude units 640 308 (-324) (reaches_of_pos hpos)
    (by decide) (by decide)
  rw [shortest]
  generalize decimalMagnitude units 640 308 = magnitude at *
  obtain ⟨hreaches, hlow, hhigh⟩ := hmagnitude
  obtain ⟨widest, hwidest⟩ := exists_atPrecision?_seventeen hunits hreaches hlow hhigh
  have hfound : (((List.range 17).map (· + 1)).findSome?
      (atPrecision? units magnitude)).isSome = true := by
    rw [List.findSome?_isSome_iff]
    exact ⟨17, by decide, by rw [hwidest]; rfl⟩
  obtain ⟨decimal, hdecimal⟩ := Option.isSome_iff_exists.mp hfound
  obtain ⟨precision, -, hprecision⟩ := List.exists_of_findSome?_eq_some hdecimal
  simp only [hdecimal, Option.getD_some]
  rw [ofDecimal_trim]
  exact ofDecimal_sign (ofDecimal_of_atPrecision? hprecision) negative

end Binary64

end CalculatorCatalog.Number
