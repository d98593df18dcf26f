import LaneDot.Single.Arithmetic

/-!
# Binary64 values

A `Float` is a binary64 value, and its sums, products and quotients are rounded
to nearest, ties to even.  This module adds integer powers and the rounding of
a double to the nearest single.
-/

namespace LaneDot.Double

open Float.Model (UnpackedFloat)

def powNat (base : Float) : Nat → Float
  | 0 => 1.0
  | exponent + 1 => powNat base exponent * base

/-- A power with an integer exponent; a negative one inverts the power. -/
def powInt (base : Float) : Int → Float
  | .ofNat exponent => powNat base exponent
  | .negSucc exponent => 1.0 / powNat base (exponent + 1)

/--
The number of low bits of a count of units of `2 ^ -1074` that a single cannot
hold: all that are worth less than `2 ^ -149`, and all but the leading 24.
-/
def droppedBits (units : Nat) : Nat :=
  max 925 (units.log2 - 23)

def nearestPlace (units : Nat) : Nat :=
  let dropped := droppedBits units
  (dropped - 925) * 0x800000 + halfEven units (1 <<< dropped)

def isNegative : UnpackedFloat.Sign → Bool
  | .negative => true
  | .positive => false

/-- The single nearest to a double; past the last magnitude lies infinity. -/
def toSingle (double : Float) : Single :=
  match double.toModel.unpack with
  | .notANumber => .nan
  | .infinity sign => .inf (isNegative sign)
  | .zero sign => .ofPlace (isNegative sign) 0
  | .finite sign digits exponent _ =>
      .ofPlace (isNegative sign) (nearestPlace (digits <<< (exponent + 1074).toNat))

end LaneDot.Double
