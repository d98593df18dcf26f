import LaneDot.Level
import LaneDot.Text.WhiteSpace

/-!
# The level override

An environment variable may force a level by name.  White space around the name
and the case of its ASCII letters do not matter; an empty value and `auto` force
nothing.
-/

namespace LaneDot

def overrideVariable : String := "SHDOT_ISA"

/-- A value that names no level, without the white space around it. -/
structure InvalidOverride where
  value : String
  deriving DecidableEq

def InvalidOverride.message (invalid : InvalidOverride) : String :=
  let value := invalid.value
  s!"invalid {overrideVariable} override: {value}"

namespace Override

def sameName (text name : List Char) : Bool :=
  text.map Char.toLower = name.map Char.toLower

def ofTrimmed (text : List Char) : Except InvalidOverride (Option Level) :=
  if text.isEmpty || sameName text "auto".toList then .ok none
  else if sameName text "portable".toList || sameName text "scalar".toList then
    .ok (some .portable)
  else if sameName text "avx2".toList then .ok (some .avx2)
  else .error ⟨.ofList text⟩

/-- The level that a value forces, or `none` when it forces nothing. -/
def parse (value : String) : Except InvalidOverride (Option Level) :=
  ofTrimmed (Text.trim value.toList)

end Override

end LaneDot
