/-!
# Instruction levels

A level names the instructions that a backend is written for.  Every machine
runs the portable level; the other one takes features that a machine may lack.
-/

namespace LaneDot

/-- The two levels: plain lane arrays, and 256-bit vectors with a fused multiply-add. -/
inductive Level where
  | portable
  | avx2
  deriving DecidableEq

def Level.name : Level → String
  | .portable => "portable"
  | .avx2 => "avx2"

structure Machine where
  avx2 : Bool
  fma : Bool

namespace Machine

def supports (machine : Machine) : Level → Bool
  | .portable => true
  | .avx2 => machine.avx2 && machine.fma

def detected (machine : Machine) : Level :=
  if machine.supports .avx2 then .avx2 else .portable

theorem supports_detected (machine : Machine) : machine.supports machine.detected = true := by
  unfold detected
  split
  · assumption
  · rfl

theorem detected_of_supports {machine : Machine} (vectors : machine.supports .avx2 = true) :
    machine.detected = .avx2 :=
  if_pos vectors

def full : Machine := ⟨true, true⟩

end Machine

end LaneDot
