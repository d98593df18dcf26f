import LaneDot.Layout
import LaneDot.Single.Arithmetic

/-!
# Lanes of singles

Vectors of singles with lane-wise operations, and the two ways of adding up
eight lanes.  Both fold the upper four lanes onto the lower four and then add
neighbours twice.
-/

namespace LaneDot

abbrev Lanes (width : Nat) := Vector Single width

namespace Lanes

def zero {width : Nat} : Lanes width := Vector.replicate width .zero

def first (value : Single) : Lanes 8 :=
  #v[value, .zero, .zero, .zero, .zero, .zero, .zero, .zero]

def add {width : Nat} (a b : Lanes width) : Lanes width :=
  Vector.zipWith Single.add a b

def mulAdd {width : Nat} (a b acc : Lanes width) : Lanes width :=
  Vector.ofFn fun lane => (a.get lane).mulAdd (b.get lane) (acc.get lane)

/-- Fused multiply-add into the first lane, the others as they were. -/
def mulAddFirst (a b : Single) (acc : Lanes 8) : Lanes 8 :=
  Layout.modifyLowest (a.mulAdd b) acc

/-- Each upper lane added to the lane four places below it. -/
def fold (lanes : Lanes 8) : Lanes 4 :=
  add (Layout.low lanes) (Layout.high lanes)

def treeSum (lanes : Lanes 8) : Single :=
  Layout.pairwise Single.add lanes.fold

/-- Sums of neighbours: of the first vector in the lower lanes, of the second in the upper ones. -/
def addNeighbours (a b : Lanes 4) : Lanes 4 :=
  let both := Layout.join a b
  add (Layout.evens both) (Layout.odds both)

/-- The sum of all lanes: two passes of adding neighbours bring it to the lowest one. -/
def halvingSum (lanes : Lanes 8) : Single :=
  let paired := addNeighbours lanes.fold lanes.fold
  Layout.lowest (addNeighbours paired paired)

/-- The two ways of adding up the lanes form the same sums. -/
theorem halvingSum_eq_treeSum (lanes : Lanes 8) : lanes.halvingSum = lanes.treeSum := by
  simp [halvingSum, treeSum, addNeighbours, add, Layout.lowest, Layout.join, Layout.evens,
    Layout.odds, Layout.pairwise]

end Lanes

end LaneDot
