import LaneDot.Code.Register
import LaneDot.Lanes
import LaneDot.Level

/-!
# Backends

A backend is the small set of lane operations that the kernels are written in.
The two backends decode to the same singles and differ in the step that adds
one product: the portable one touches the first lane only, while the vector
one multiplies and adds in all eight lanes, with zeros in the other seven.
-/

namespace LaneDot

structure Backend where
  decodeWide : Vector Code 8 → Lanes 8
  decodeNarrow : Vector Code 4 → Lanes 4
  /-- Add the product of one single and one code to an accumulator. -/
  addProduct : Single → Code → Lanes 8 → Lanes 8
  total : Lanes 8 → Single

namespace Backend

def portable : Backend where
  decodeWide := Code.decodeHalves
  decodeNarrow := Code.decodeLanes
  addProduct x code acc := Lanes.mulAddFirst x code.decode acc
  total := Lanes.treeSum

/-- Vector registers: a lone code is decoded in a register of zeros. -/
def avx2 : Backend where
  decodeWide codes := (WordRegister.ofCodes codes).decode
  decodeNarrow codes := (WordRegister.ofLowCodes codes).decodeLow
  addProduct x code acc := Lanes.mulAdd (Lanes.first x) (WordRegister.ofCode code).decode acc
  total := Lanes.halvingSum

end Backend

def Level.backend : Level → Backend
  | .portable => .portable
  | .avx2 => .avx2

end LaneDot
