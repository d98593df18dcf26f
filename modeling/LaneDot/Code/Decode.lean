import LaneDot.Code.Basic
import LaneDot.Layout

/-!
# Branchless decoding

The decoder widens a code without looking at its value.  It computes two
candidates, one by moving the fields of a normal number into place and one by
letting a subtraction from a magic number normalise a subnormal, and picks
between them with a mask.  `decode` does this to one code, `decodeLanes` does
each step to a vector of codes before the next step.
-/

namespace LaneDot

namespace Code

def signMask : UInt32 := 0x80000000

/-- The difference of the two exponent biases, at the exponent field of a single. -/
def exponentOffset : UInt32 := 0x38000000

/-- The high half of the pattern of one quarter. -/
def magicMask : UInt16 := 0x3E80

/-- Shifted fields below this bound belong to a subnormal or a zero. -/
def subnormalCutoff : UInt32 := 0x00800000

def widen (half : UInt16) : UInt32 :=
  half.toUInt32 <<< 16

/-- The fields of a widened lane without its sign, at the place of the fields of a single. -/
def shiftFields (widened : UInt32) : UInt32 :=
  (widened + widened) >>> 4

def subnormalMask (shifted : UInt32) : UInt32 :=
  if shifted < subnormalCutoff then 0xFFFFFFFF else 0

/-- A mantissa field put under the exponent of one quarter, less one quarter. -/
def subnormalCandidate (doubled : UInt16) : UInt32 :=
  ((Single.ofBits (widen magicMask ||| doubled.toUInt32)).sub .quarter).toBits

def pick (mask whenSet whenClear : UInt32) : UInt32 :=
  (whenSet &&& mask) ||| (whenClear &&& ~~~mask)

def decode (code : Code) : Single :=
  let widened := widen code.bits
  let sign := widened &&& signMask
  let shifted := shiftFields widened
  let normal := shifted + exponentOffset
  let subnormal := subnormalCandidate (code.bits + code.bits)
  .ofBits (pick (subnormalMask shifted) subnormal normal ||| sign)

def decodeLanes {width : Nat} (codes : Vector Code width) : Vector Single width :=
  let halves := codes.map Code.bits
  let widened := halves.map widen
  let sign := widened.map (· &&& signMask)
  let shifted := widened.map shiftFields
  let normal := shifted.map (· + exponentOffset)
  let subnormal := (halves.map fun half => half + half).map subnormalCandidate
  let mask := shifted.map subnormalMask
  Vector.ofFn fun lane =>
    .ofBits (pick (mask.get lane) (subnormal.get lane) (normal.get lane) ||| sign.get lane)

def decodeHalves (codes : Vector Code 8) : Vector Single 8 :=
  Layout.join (decodeLanes (Layout.low codes)) (decodeLanes (Layout.high codes))

end Code

end LaneDot
