import LaneDot.Kernel

/-!
# Extents

A checked dot product is refused unless its buffers cover the task.  Offsets
are counted in codes, in unbounded arithmetic with a check that every
intermediate result fits an address.
-/

namespace LaneDot

def maxFusion : Nat := 8

def addressSpace : Nat := 0x10000000000000000

inductive DotError where
  | fusionFactor (fusion max : Nat)
  | inputTooShort (length required : Nat)
  | rowsTooShort (row length required : Nat)
  | outputTooShort (length required : Nat)
  | strideOverflow (stride : UInt64) (fusion : Nat)
  deriving DecidableEq

def DotError.message : DotError → String
  | .fusionFactor fusion max => s!"unsupported fusion factor {fusion} (expected 1..={max})"
  | .inputTooShort length required => s!"x too short: {length} < {required}"
  | .rowsTooShort row length required =>
      s!"y does not cover row {row}: {length} < {required}"
  | .outputTooShort length required => s!"sum too short: {length} < {required}"
  | .strideOverflow stride fusion =>
      s!"row offset overflow: stride {stride} with fusion factor {fusion}"

def fitting? (number : Nat) : Option Nat :=
  if number < addressSpace then some number else none

/-- The offset of a row in codes, if no step to it is too large; row zero takes no steps. -/
def rowOffset? (stride : UInt64) (row : Nat) : Option Nat := do
  if row = 0 then
    return 0
  let doubled ← fitting? (stride.toNat * 2)
  fitting? (doubled * row)

/-- The sizes that decide whether a dot product is accepted. -/
structure Extents where
  fusion : Nat
  xLength : Nat
  yLength : Nat
  stride : UInt64
  sumLength : Nat
  length : Nat

namespace Extents

def required? (extents : Extents) (row : Nat) : Option Nat := do
  let offset ← rowOffset? extents.stride row
  fitting? (offset + extents.length)

def checkRow (extents : Extents) (row : Nat) : Except DotError Unit :=
  match extents.required? row with
  | none => .error (.strideOverflow extents.stride extents.fusion)
  | some required =>
      if extents.yLength < required then .error (.rowsTooShort row extents.yLength required)
      else .ok ()

/-- Refuse the first of some consecutive rows that the codes do not cover. -/
def checkRows (extents : Extents) : Nat → Nat → Except DotError Unit
  | 0, _ => .ok ()
  | count + 1, row => do
      extents.checkRow row
      extents.checkRows count (row + 1)

/-- Refuse a task that the buffers do not cover; an empty task reads no rows. -/
def check (extents : Extents) : Except DotError Unit :=
  if extents.fusion = 0 ∨ maxFusion < extents.fusion then
    .error (.fusionFactor extents.fusion maxFusion)
  else if extents.sumLength < extents.fusion then
    .error (.outputTooShort extents.sumLength extents.fusion)
  else if extents.xLength < extents.length then
    .error (.inputTooShort extents.xLength extents.length)
  else if extents.length = 0 then .ok ()
  else extents.checkRows extents.fusion 0

end Extents

def Task.extents (task : Task) (fusion sumLength : Nat) : Extents where
  fusion := fusion
  xLength := task.x.size
  yLength := task.y.codes.size
  stride := task.stride
  sumLength := sumLength
  length := task.length

end LaneDot
