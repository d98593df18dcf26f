import LaneDot.Code.Formula
import LaneDot.Proofs.Code.Decoding
import LaneDot.Proofs.Double.Arithmetic

/-!
# The formula in doubles

The formula of the format, computed in doubles, never rounds: a code has eleven
digits and an exponent near zero, and every step is exact, the last one to a
single included.  So it gives the value of the code.
-/

namespace LaneDot.Code

open Float.Model (UnpackedFloat)
open Double (fits_of_small fits_one_iff)

def sign (code : Code) : UnpackedFloat.Sign :=
  if code.isNegative then .negative else .positive

theorem isNegative_sign (code : Code) : Double.isNegative code.sign = code.isNegative := by
  unfold sign
  cases code.isNegative with
  | false => rfl
  | true => rfl

theorem signedUnit_eq (code : Code) :
    (if code.isNegative then -1.0 else 1.0) = Double.nearest code.sign 1 0 := by
  have minusOne : (-1.0 : Float) = Double.nearest .negative 1 0 := by decide +kernel
  unfold sign
  cases code.isNegative with
  | false => exact Double.one_eq_nearest
  | true => exact minusOne

theorem fraction_eq (code : Code) :
    (UInt16.ofNat code.mantissaField).toFloat / 1024.0 =
      Double.nearest .positive code.mantissaField (-10) := by
  have small : code.mantissaField < 2 ^ 11 := Nat.lt_trans code.mantissaField_lt (by decide)
  have field : (UInt16.ofNat code.mantissaField).toNat = code.mantissaField :=
    Nat.mod_eq_of_lt (Nat.lt_trans small (by decide))
  have divisor : (1024.0 : Float) = Double.nearest .positive 1 10 := by decide +kernel
  rw [Double.toFloat_eq_nearest, field, divisor, Double.nearest_div_two_pow
    (fits_of_small small (by decide)) (fits_one_iff.mpr (by decide))
    (fits_of_small small (by decide))]
  rfl

/-- The magnitude of a code is computed without rounding: few digits times a power of two. -/
theorem exists_magnitude_eq (code : Code) :
    ∃ digits exponent, Double.Fits digits exponent ∧
      code.magnitude = Double.nearest .positive digits exponent ∧
      digits <<< (exponent + 1074).toNat = code.units <<< 1050 := by
  have mantissa := code.mantissaField_lt
  have field := code.exponentField_lt
  rw [magnitude, fraction_eq]
  by_cases least : code.exponentField = 0
  · have fraction : Double.Fits code.mantissaField (-10) := fits_of_small (by omega) (by decide)
    have scaled : Double.Fits code.mantissaField (-10 + -14) := fits_of_small (by omega) (by decide)
    have power : Double.Fits 1 (-14) := fits_one_iff.mpr (by decide)
    have amount : ((-10 : Int) + -14 + 1074).toNat = 1050 := rfl
    refine ⟨code.mantissaField, -10 + -14, scaled, ?_, ?_⟩
    · rw [if_pos least, Double.powInt_two power, Double.nearest_mul_power fraction power scaled]
    · rw [units_of_subnormal least, amount]
  · have one : (1.0 : Float) = Double.nearest .positive 1024 (-10) := by decide +kernel
    have unit : Double.Fits 1024 (-10) := fits_of_small (by decide) (by decide)
    have fraction : Double.Fits code.mantissaField (-10) := fits_of_small (by omega) (by decide)
    have sum : Double.Fits (1024 + code.mantissaField) (-10) := fits_of_small (by omega) (by decide)
    have power : Double.Fits 1 (code.exponentField - 15) := fits_one_iff.mpr (by omega)
    have scaled : Double.Fits (1024 + code.mantissaField) (-10 + (code.exponentField - 15)) :=
      fits_of_small (by omega) (by omega)
    have amount : (-10 + ((code.exponentField : Int) - 15) + 1074).toNat =
        code.exponentField - 1 + 1050 := by omega
    refine ⟨1024 + code.mantissaField, -10 + (code.exponentField - 15), scaled, ?_, ?_⟩
    · rw [if_neg least, one, Double.nearest_add unit fraction sum, Double.powInt_two power,
        Double.nearest_mul_power sum power scaled]
    · rw [units_of_normal least, amount, ← Nat.shiftLeft_eq, ← Nat.shiftLeft_add]

theorem formula_eq_value (code : Code) : code.formula = code.value := by
  obtain ⟨digits, exponent, fits, magnitude, units⟩ := code.exists_magnitude_eq
  have same : code.units <<< 1050 = code.units <<< 274 <<< 776 := Nat.shiftLeft_add _ 274 776
  rw [formula, signedUnit_eq, magnitude, Double.nearest_unit_mul fits,
    fits.toSingle_nearest, units, same, Double.nearestPlace_shiftLeft, isNegative_sign]
  rfl

end LaneDot.Code
