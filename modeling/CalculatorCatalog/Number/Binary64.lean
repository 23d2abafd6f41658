/-!
# Binary floating point

`Binary64` holds the numbers of the 64-bit binary format. A finite number is a sign and a whole
number of *units* of size 2⁻¹⁰⁷⁴, the smallest positive number of the format, so that values
compare, multiply and divide as natural numbers and zero keeps its sign. `ofRatio` rounds an exact
quotient to the nearest number with 53 significant bits, an exact half to the even neighbour, and
gives an infinity from 2¹⁰²⁴ on.
-/

set_option autoImplicit false
set_option relaxedAutoImplicit false

namespace CalculatorCatalog.Number

/-- A number of the 64-bit binary format; a finite one counts units of 2⁻¹⁰⁷⁴. -/
inductive Binary64 where
  | finite (negative : Bool) (units : Nat)
  | infinite (negative : Bool)
  | nan
  deriving DecidableEq, Repr

namespace Binary64

/-- The number of units in one. -/
def one : Nat := Nat.pow 2 1074

/-- The units of 2¹⁰²⁴, the first magnitude beyond the finite numbers. -/
def limit : Nat := Nat.pow 2 2098

/-- The natural number nearest to a quotient; an exact half goes to the even neighbour. -/
def nearest (numerator denominator : Nat) : Nat :=
  let quotient := numerator / denominator
  let twice := 2 * (numerator % denominator)
  if twice < denominator ∨ (twice = denominator ∧ quotient % 2 = 0) then quotient
  else quotient + 1

/-- The distance, in units, between neighbouring numbers near a magnitude: 53 significant bits
count, and no distance is smaller than one unit. -/
def spacing (units : Nat) : Nat :=
  Nat.pow 2 (units.log2 + 1 - 53)

/-- The magnitude nearest to a quotient of units. -/
def roundUnits (numerator denominator : Nat) : Nat :=
  let step := spacing (numerator / denominator)
  nearest numerator (denominator * step) * step

/-- The number with the given sign and units, or the infinity if they are too many. -/
def ofUnits (negative : Bool) (units : Nat) : Binary64 :=
  if units < limit then .finite negative units else .infinite negative

/-- The number nearest to a quotient of natural numbers. -/
def ofRatio (negative : Bool) (numerator denominator : Nat) : Binary64 :=
  ofUnits negative (roundUnits (numerator * one) denominator)

/-- The number nearest to a natural number. -/
def ofNat (value : Nat) : Binary64 :=
  ofRatio false value 1

/-- The number nearest to `coefficient · 10 ^ exponent`. Exponents that lead far beyond the format
are answered without computing the power. -/
def ofDecimal (negative : Bool) (coefficient : Nat) (exponent : Int) : Binary64 :=
  if coefficient = 0 then .finite negative 0
  else if 310 < exponent then .infinite negative
  else if exponent + (Nat.toDigits 10 coefficient).length < -330 then .finite negative 0
  else if 0 ≤ exponent then ofRatio negative (coefficient * Nat.pow 10 exponent.toNat) 1
  else ofRatio negative coefficient (Nat.pow 10 (-exponent).toNat)

/-- The product of two finite magnitudes, rounded once. -/
def multiply : Binary64 → Binary64 → Binary64
  | .finite negative units, .finite negative' units' =>
    ofRatio (negative != negative') (units * units') (one * one)
  | _, _ => .nan

/-- The quotient of two finite magnitudes, rounded once. -/
def divide : Binary64 → Binary64 → Binary64
  | .finite negative units, .finite negative' units' =>
    if units' = 0 then .nan else ofRatio (negative != negative') units units'
  | _, _ => .nan

/-- The number with the opposite sign. -/
def negate : Binary64 → Binary64
  | .finite negative units => .finite (!negative) units
  | .infinite negative => .infinite (!negative)
  | .nan => .nan

end Binary64

end CalculatorCatalog.Number
