import LaneDot.Single.Arithmetic

/-!
# Alternate-half codes

A code has the layout of an IEEE binary16 pattern: a sign bit, a 5-bit exponent
field with bias 15 and a 10-bit mantissa field.  Exponent field 31 is an
ordinary exponent, so every code is a finite number and the largest magnitude
is 131008.
-/

namespace LaneDot

structure Code where
  bits : UInt16
  deriving DecidableEq

namespace Code

def zero : Code := ⟨0x0000⟩

def negZero : Code := ⟨0x8000⟩

def one : Code := ⟨0x3C00⟩

/-- The largest code, 131008. -/
def max : Code := ⟨0x7FFF⟩

def min : Code := ⟨0xFFFF⟩

/-- The smallest positive code, `2 ^ -24`. -/
def minPositiveSubnormal : Code := ⟨0x0001⟩

instance : Inhabited Code := ⟨zero⟩

def isNegative (code : Code) : Bool :=
  0x8000 ≤ code.bits.toNat

def exponentField (code : Code) : Nat :=
  code.bits.toNat / 0x400 % 0x20

def mantissaField (code : Code) : Nat :=
  code.bits.toNat % 0x400

def isSubnormal (code : Code) : Bool :=
  code.exponentField = 0 && code.mantissaField ≠ 0

/-- The magnitude in units of `2 ^ -24`. -/
def units (code : Code) : Nat :=
  if code.exponentField = 0 then code.mantissaField
  else (0x400 + code.mantissaField) <<< (code.exponentField - 1)

def exact (code : Code) : Exact :=
  .finite code.isNegative (code.units <<< 274)

/-- The single that holds the value of a code. -/
def value (code : Code) : Single :=
  code.exact.round

def neg (code : Code) : Code :=
  ⟨code.bits ^^^ 0x8000⟩

/-- The binary16 pattern of the same number; exponent field 31 has none. -/
def toHalf? (code : Code) : Option UInt16 :=
  if code.exponentField = 31 then none else some code.bits

/-- The code of a binary16 pattern; infinities and NaNs have none. -/
def ofHalf? (half : UInt16) : Option Code :=
  let code : Code := ⟨half⟩
  if code.exponentField = 31 then none else some code

/-- The code that holds a natural number without rounding. -/
def ofNat? (number : Nat) : Option Code :=
  let exponent := number.log2 + 15
  let scaled := number <<< 10 >>> number.log2
  let code : Code :=
    if number = 0 then zero else ⟨.ofNat (exponent * 0x400 + (scaled - 0x400))⟩
  if exponent < 32 && code.units = number <<< 24 then some code else none

end Code

end LaneDot
