import CalculatorCatalog.Number.Binary64

/-!
# Shortest decimals

`shortest` gives the decimal with the fewest digits that reads back as a given binary magnitude,
and of the decimals with that many digits the one nearest to it. For one digit, two digits and so
on it tests the two neighbours of the value on that decimal grid in exact arithmetic; seventeen
digits always suffice. `Decimal.plain` and `Decimal.scientific` are the two ways to write it down.
-/

set_option autoImplicit false
set_option relaxedAutoImplicit false

namespace CalculatorCatalog.Number

/-- The value `coefficient · 10 ^ exponent`. -/
structure Decimal where
  coefficient : Nat
  exponent : Int
  deriving DecidableEq, Repr

namespace Decimal

/-- The decimal digits of the coefficient. -/
def digits (decimal : Decimal) : List Char :=
  Nat.toDigits 10 decimal.coefficient

/-- The exponent of the first digit: the value is at least that power of ten and below the next. -/
def magnitude (decimal : Decimal) : Int :=
  decimal.exponent + decimal.digits.length - 1

/-- Moves trailing zeros of the coefficient into the exponent, at most `count` of them. -/
def trim : Nat → Decimal → Decimal
  | 0, decimal => decimal
  | count + 1, decimal =>
    if decimal.coefficient % 10 = 0 then trim count ⟨decimal.coefficient / 10, decimal.exponent + 1⟩
    else decimal

/-- Positional notation, with a fraction of at least one digit. -/
def plain (decimal : Decimal) : List Char :=
  let digits := decimal.digits
  if 0 ≤ decimal.exponent then digits ++ List.replicate decimal.exponent.toNat '0' ++ ['.', '0']
  else
    let places := (-decimal.exponent).toNat
    let padded := List.replicate (places + 1 - digits.length) '0' ++ digits
    padded.take (padded.length - places) ++ '.' :: padded.drop (padded.length - places)

/-- One digit before the point, none after it if there is only one, and a signed exponent. -/
def scientific (decimal : Decimal) : List Char :=
  let mantissa := match decimal.digits with
    | first :: second :: rest => first :: '.' :: second :: rest
    | digits => digits
  let sign := if 0 ≤ decimal.magnitude then '+' else '-'
  mantissa ++ 'e' :: sign :: Nat.toDigits 10 decimal.magnitude.natAbs

end Decimal

namespace Binary64

/-- The exponent of the first decimal digit of a magnitude that is not zero, searched downwards
from 10³⁰⁸ in at most `count` steps. -/
def decimalMagnitude (units : Nat) : Nat → Int → Int
  | 0, exponent => exponent
  | count + 1, exponent =>
    let reached :=
      if 0 ≤ exponent then one * Nat.pow 10 exponent.toNat ≤ units
      else one ≤ units * Nat.pow 10 (-exponent).toNat
    if reached then exponent else decimalMagnitude units count (exponent - 1)

/-- The decimal with at most the given number of digits that reads back as the magnitude and is
nearest to it; of two equally near ones the even. -/
def atPrecision? (units : Nat) (magnitude : Int) (precision : Nat) : Option Decimal :=
  let exponent := magnitude - (precision - 1)
  let numerator := if 0 ≤ exponent then units else units * Nat.pow 10 (-exponent).toNat
  let denominator := if 0 ≤ exponent then one * Nat.pow 10 exponent.toNat else one
  let below := numerator / denominator
  let twice := 2 * (numerator % denominator)
  let readsBack (coefficient : Nat) : Bool :=
    ofDecimal false coefficient exponent == .finite false units
  let lowerFirst := twice < denominator ∨ (twice = denominator ∧ below % 2 = 0)
  let first := if lowerFirst then below else below + 1
  let second := if lowerFirst then below + 1 else below
  if readsBack first then some ⟨first, exponent⟩
  else if readsBack second then some ⟨second, exponent⟩
  else none

/-- The shortest decimal for a magnitude that is not zero. -/
def shortest (units : Nat) : Decimal :=
  let magnitude := decimalMagnitude units 640 308
  let found := ((List.range 17).map (· + 1)).findSome? (atPrecision? units magnitude)
  (found.getD ⟨units, 0⟩).trim 17

end Binary64

end CalculatorCatalog.Number
