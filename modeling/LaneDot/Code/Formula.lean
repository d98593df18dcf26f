import LaneDot.Code.Basic
import LaneDot.Double

/-!
# Decoding by the formula

The definition of the format, computed in doubles: the sign, times a power of
two, times the mantissa field as a fraction with or without a leading one.  The
product is rounded to a single at the end.
-/

namespace LaneDot.Code

def magnitude (code : Code) : Float :=
  let fraction := (UInt16.ofNat code.mantissaField).toFloat / 1024.0
  if code.exponentField = 0 then fraction * Double.powInt 2.0 (-14)
  else (1.0 + fraction) * Double.powInt 2.0 (code.exponentField - 15)

/-- Decode one code by the definition of the format. -/
def formula (code : Code) : Single :=
  let sign := if code.isNegative then -1.0 else 1.0
  Double.toSingle (sign * code.magnitude)

end LaneDot.Code
