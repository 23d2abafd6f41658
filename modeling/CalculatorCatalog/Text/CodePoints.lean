/-!
# Sets of code points

Character classes above the ASCII range are tables: closed intervals of code points in ascending
order, read by `covered`, or runs with a step, read by `coveredByRuns`, where every second code
point of an alphabet belongs to the class.
-/

set_option autoImplicit false
set_option relaxedAutoImplicit false

namespace CalculatorCatalog.Text

/-- Whether a code point lies in one of the intervals `(first, last)`, which ascend; the search
ends at the first interval that starts beyond it. -/
def covered (code : Nat) : List (Nat × Nat) → Bool
  | [] => false
  | (first, last) :: ranges =>
    if code < first then false else if code ≤ last then true else covered code ranges

/-- Whether a code point lies on one of the runs `(first, last, step)`. -/
def coveredByRuns (code : Nat) : List (Nat × Nat × Nat) → Bool
  | [] => false
  | (first, last, step) :: runs =>
    (first ≤ code && code ≤ last && (code - first) % step == 0) || coveredByRuns code runs

end CalculatorCatalog.Text
