import LaneDot.Rounding
import LaneDot.Single.Exact

/-!
# Rounded arithmetic

Every operation is an exact result followed by one rounding to the nearest
single, ties to even, with gradual underflow and overflow to infinity.
-/

namespace LaneDot

namespace Single

/--
The number of low bits of a count of units that a single cannot hold: all that
are worth less than `2 ^ -149`, and all but the leading 24.
-/
def droppedBits (units : Nat) : Nat :=
  max 149 (units.log2 - 23)

/--
The place of the magnitude nearest to a number of units of `2 ^ -298`.  The
kept bits are added to the start of their block, so a carry out of them moves
to the next block by itself.
-/
def nearestPlace (units : Nat) : Nat :=
  let dropped := droppedBits units
  (dropped - 149) * 0x800000 + halfEven units (1 <<< dropped)

end Single

/-- The single nearest to an exact result; past the last magnitude lies infinity. -/
def Exact.round : Exact → Single
  | .nan => .nan
  | .inf negative => .inf negative
  | .finite negative units => .ofPlace negative (Single.nearestPlace units)

namespace Single

def add (a b : Single) : Single :=
  ((Exact.ofSingle a).add (.ofSingle b)).round

def sub (a b : Single) : Single :=
  a.add b.neg

def mul (a b : Single) : Single :=
  (Exact.product a b).round

/-- The fused multiply-add `a * b + c`: exact product, exact sum, one rounding. -/
def mulAdd (a b c : Single) : Single :=
  ((Exact.product a b).add (.ofSingle c)).round

end Single

end LaneDot
