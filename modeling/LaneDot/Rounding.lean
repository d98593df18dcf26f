/-!
# Rounding to the nearest integer

The quotient of two naturals rounded to the nearest natural, with a tie going
to the even one.
-/

namespace LaneDot

/-- The natural nearest to `numerator / denominator`; a tie goes to the even neighbour. -/
def halfEven (numerator denominator : Nat) : Nat :=
  let quotient := numerator / denominator
  let remainder := numerator % denominator
  if 2 * remainder < denominator then quotient
  else if denominator < 2 * remainder then quotient + 1
  else quotient + quotient % 2

/-- An exact quotient is not changed by rounding. -/
theorem halfEven_mul_left (quotient : Nat) {denominator : Nat} (positive : 0 < denominator) :
    halfEven (quotient * denominator) denominator = quotient := by
  simp [halfEven, positive]

end LaneDot
