import LaneDot.Demo

/-!
# The demonstration program

Prints the demonstration under the override in the environment, for a machine
whose features are named on the command line.
-/

def main (features : List String) : IO Unit := do
  let machine : LaneDot.Machine := ⟨features.contains "avx2", features.contains "fma"⟩
  let override ← IO.getEnv LaneDot.overrideVariable
  for line in LaneDot.Demo.lines machine override do
    IO.println line
