import LaneDot.Code.Decode

/-!
# Decoding in vector registers

The same decoding on 128-bit registers of eight 16-bit words.  A code reaches
its 32-bit lane by interleaving words, with zero for the normal candidate and
with the magic word for the subnormal one, so a step never moves bits between
neighbouring codes.  Wide decoding first copies each half of the register to
the low half of a register of its own.
-/

namespace LaneDot

/-- A 128-bit register as eight 16-bit words, the lowest first. -/
abbrev WordRegister := Vector UInt16 8

abbrev DoubleRegister := Vector UInt32 4

namespace WordRegister

def zero : WordRegister := Vector.replicate 8 0

def splat (word : UInt16) : WordRegister := Vector.replicate 8 word

def ofCodes (codes : Vector Code 8) : WordRegister := codes.map Code.bits

/-- The words of four codes in the low half, zero bits above. -/
def ofLowCodes (codes : Vector Code 4) : WordRegister :=
  Layout.join (codes.map Code.bits) (Vector.replicate 4 0)

def ofCode (code : Code) : WordRegister :=
  #v[code.bits, 0, 0, 0, 0, 0, 0, 0]

def add (first second : WordRegister) : WordRegister :=
  Vector.zipWith (· + ·) first second

/-- The low four words of two registers in turn, the first register's word lowest. -/
def interleaveLow (first second : WordRegister) : WordRegister :=
  Layout.interleave (Layout.low first) (Layout.low second)

/-- The same bits as 32-bit words: each pair of words with the lower word low. -/
def toDoubles (words : WordRegister) : DoubleRegister :=
  Vector.zipWith (fun lower upper => lower.toUInt32 ||| Code.widen upper)
    (Layout.evens words) (Layout.odds words)

def duplicateLow (words : WordRegister) : WordRegister :=
  Layout.join (Layout.low words) (Layout.low words)

def duplicateHigh (words : WordRegister) : WordRegister :=
  Layout.join (Layout.high words) (Layout.high words)

end WordRegister

namespace DoubleRegister

def splat (word : UInt32) : DoubleRegister := Vector.replicate 4 word

def add (first second : DoubleRegister) : DoubleRegister :=
  Vector.zipWith (· + ·) first second

def and (first second : DoubleRegister) : DoubleRegister :=
  Vector.zipWith (· &&& ·) first second

def or (first second : DoubleRegister) : DoubleRegister :=
  Vector.zipWith (· ||| ·) first second

def shiftRight (words : DoubleRegister) (count : UInt32) : DoubleRegister :=
  words.map (· >>> count)

/-- Lane-wise comparison of signed words: all ones where the first is greater. -/
def greaterThan (first second : DoubleRegister) : DoubleRegister :=
  Vector.zipWith (fun a b => if b.toInt32 < a.toInt32 then 0xFFFFFFFF else 0) first second

/-- Lane-wise choice by the top bit of the mask: the second where it is set. -/
def blend (first second mask : DoubleRegister) : DoubleRegister :=
  Vector.ofFn fun lane : Fin 4 =>
    if mask.get lane &&& 0x80000000 ≠ 0 then second.get lane else first.get lane

def subSingles (first second : DoubleRegister) : DoubleRegister :=
  Vector.zipWith (fun a b => ((Single.ofBits a).sub (.ofBits b)).toBits) first second

def toSingles (words : DoubleRegister) : Vector Single 4 :=
  words.map Single.ofBits

end DoubleRegister

namespace WordRegister

def decodeLow (words : WordRegister) : Vector Single 4 :=
  let widened := (zero.interleaveLow words).toDoubles
  let doubled := words.add words
  let sign := widened.and (.splat Code.signMask)
  let shifted := (widened.add widened).shiftRight 4
  let normal := shifted.add (.splat Code.exponentOffset)
  let raw := (doubled.interleaveLow (splat Code.magicMask)).toDoubles
  let subnormal := raw.subSingles (.splat Single.quarter.toBits)
  let mask := DoubleRegister.greaterThan (.splat Code.subnormalCutoff) shifted
  ((normal.blend subnormal mask).or sign).toSingles

def decode (words : WordRegister) : Vector Single 8 :=
  Layout.join words.duplicateLow.decodeLow words.duplicateHigh.decodeLow

end WordRegister

end LaneDot
