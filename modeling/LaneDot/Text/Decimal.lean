import LaneDot.Single.Basic

/-!
# Decimal text of singles

A finite single has a finite decimal expansion, and its text writes all of it
in positional notation.
-/

namespace LaneDot.Text

/-- How a whole number ends: bare, or with a point and a zero. -/
inductive WholeStyle where
  | bare
  | pointZero
  deriving DecidableEq

def unitsInOne : Nat := 1 <<< 149

def fractionDigits : Nat → Nat → List Nat
  | 0, _ => []
  | count + 1, remainder =>
      if remainder = 0 then []
      else
        let scaled := 10 * remainder
        scaled / unitsInOne :: fractionDigits count (scaled % unitsInOne)

/-- The text of a magnitude; 149 digits after the point are always enough. -/
def magnitudeText (style : WholeStyle) (magnitude : Magnitude) : String :=
  let whole := toString (magnitude.units / unitsInOne)
  match fractionDigits 149 (magnitude.units % unitsInOne) with
  | [] => if style = .pointZero then whole ++ ".0" else whole
  | digits => whole ++ "." ++ .join (digits.map toString)

def singleText (style : WholeStyle) : Single → String
  | .nan => "NaN"
  | .inf false => "inf"
  | .inf true => "-inf"
  | .finite false magnitude => magnitudeText style magnitude
  | .finite true magnitude => "-" ++ magnitudeText style magnitude

def listText (values : List Single) : String :=
  "[" ++ ", ".intercalate (values.map (singleText .pointZero)) ++ "]"

end LaneDot.Text
