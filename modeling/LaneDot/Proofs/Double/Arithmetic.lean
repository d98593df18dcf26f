import LaneDot.Proofs.Double.Digits
import LaneDot.Proofs.Single.Nearest

/-!
# Exact binary64 arithmetic

An operation on doubles of few digits whose result has few digits again does
not round.  So they are added, multiplied and scaled as the numbers that they
are, powers of two are exact, and a single is found from the digits themselves.
-/

namespace LaneDot.Double

open Float.Model (Format UnpackedFloat totalExponent)
open Float.Model.UnpackedFloat

/-! ## Arithmetic -/

def nearest (sign : Sign) (digits : Nat) (exponent : Int) : Float :=
  .ofModel (.pack (.round .binary64 sign digits exponent))

theorem Fits.unpack_nearest {digits : Nat} {exponent : Int} (fits : Fits digits exponent)
    (sign : Sign) :
    (nearest sign digits exponent).toModel.unpack =
      UnpackedFloat.round .binary64 sign digits exponent :=
  fits.unpack_pack_round sign

variable {p q : Nat} {e f : Int}

theorem nearest_mul (first : Fits p e) (second : Fits q f) (result : Fits (p * q) (e + f))
    (s t : Sign) : nearest s p e * nearest t q f = nearest (s * t) (p * q) (e + f) := by
  change Float.ofModel (.pack (UnpackedFloat.mul .binary64 (nearest s p e).toModel.unpack
    (nearest t q f).toModel.unpack)) = _
  rw [first.unpack_nearest, second.unpack_nearest, nearest]
  congr 2
  rcases Nat.eq_zero_or_pos p with rfl | positive
  · rw [Nat.zero_mul, round_zero, round_zero]
    rcases Nat.eq_zero_or_pos q with rfl | nonzero
    · rw [round_zero]
      rfl
    · rw [second.round_eq nonzero]
      rfl
  rcases Nat.eq_zero_or_pos q with rfl | nonzero
  · rw [Nat.mul_zero, round_zero, round_zero, first.round_eq positive]
    rfl
  · have exponents : e - padding p + (f - padding q) + (padding p + padding q : Nat) = e + f := by
      omega
    have digits : p * 2 ^ padding p * (q * 2 ^ padding q) = p * q * 2 ^ (padding p + padding q) := by
      ring
    have enough : padding (p * q) ≤ padding p + padding q :=
      (padding_anti (Nat.le_mul_of_pos_right p nonzero)).trans (Nat.le_add_right _ _)
    rw [first.round_eq positive, second.round_eq nonzero, UnpackedFloat.mul, digits, ← exponents]
    rw [← exponents] at result
    exact result.roundWithAccuracy_eq (Nat.mul_pos positive nonzero) enough (s * t)

theorem mul_positive (sign : Sign) : sign * .positive = sign := by
  cases sign with
  | negative => rfl
  | positive => rfl

theorem nearest_mul_power (number : Fits p e) (power : Fits 1 f) (result : Fits p (e + f)) (s : Sign) :
    nearest s p e * nearest .positive 1 f = nearest s p (e + f) := by
  rw [← Nat.mul_one p] at result
  rw [nearest_mul number power result, mul_positive, Nat.mul_one]

theorem nearest_unit_mul (number : Fits p e) (s : Sign) :
    nearest s 1 0 * nearest .positive p e = nearest s p e := by
  have unit : Fits 1 0 := fits_one_iff.mpr (by omega)
  have result : Fits (1 * p) (0 + e) := by rwa [Nat.one_mul, Int.zero_add]
  rw [nearest_mul unit number result, mul_positive, Nat.one_mul, Int.zero_add]

/-- The digits of a quotient by a power of two are those of the dividend, with zeros after them. -/
theorem divCore_two_pow {digits : Nat} (full : digits.log2 = 52) (normal : -1022 ≤ e - f) :
    ∃ zeros : Nat, divCore .binary64 digits e (2 ^ 52) f =
      (digits * 2 ^ zeros, e - f - 52 - zeros, .exact) := by
  have target : Format.binary64.targetExponent
      (totalExponent digits e - totalExponent (2 ^ 52) f) = max (e - f - 53) (-1074) := by
    simp only [Format.targetExponent, totalExponent, Format.mantissaBits, Format.minExponent, full,
      Nat.log2_two_pow]
    omega
  obtain ⟨zeros, amount⟩ : ∃ zeros : Nat,
      (e - f - min (e - f) (max (e - f - 53) (-1074))).toNat = 52 + zeros :=
    ⟨_, (Nat.add_sub_cancel' (by omega)).symm⟩
  have shifted : digits <<< (52 + zeros) = digits * 2 ^ zeros * 2 ^ 52 := by
    rw [Nat.shiftLeft_eq, Nat.pow_add]
    ring
  have exponent : min (e - f) (max (e - f - 53) (-1074)) = e - f - 52 - zeros := by omega
  refine ⟨zeros, ?_⟩
  rw [divCore, target, amount, shifted, Nat.mul_div_cancel _ (Nat.two_pow_pos 52),
    Nat.mul_mod_left, exponent]
  rfl

theorem nearest_div_two_pow (dividend : Fits p e) (divisor : Fits 1 f) (result : Fits p (e - f))
    (s t : Sign) : nearest s p e / nearest t 1 f = nearest (s / t) p (e - f) := by
  change Float.ofModel (.pack (UnpackedFloat.div .binary64 (nearest s p e).toModel.unpack
    (nearest t 1 f).toModel.unpack)) = _
  rw [dividend.unpack_nearest, divisor.unpack_nearest, nearest, divisor.round_eq Nat.one_pos]
  congr 2
  rcases Nat.eq_zero_or_pos p with rfl | positive
  · rw [round_zero, round_zero]
    rfl
  have filled := dividend.log2_add_padding
  have lower := result.lower
  have one : 1 * 2 ^ padding 1 = 2 ^ 52 := rfl
  have unit : (padding 1 : Int) = 52 := rfl
  have normal : -1022 ≤ e - padding p - (f - padding 1) := by omega
  obtain ⟨zeros, quotient⟩ := divCore_two_pow (dividend.log2_filled positive) normal
  have exponents : e - padding p - (f - padding 1) - 52 - zeros + (padding p + zeros : Nat) = e - f := by
    omega
  rw [dividend.round_eq positive, UnpackedFloat.div, one, quotient, Nat.mul_assoc, ← Nat.pow_add,
    ← exponents]
  rw [← exponents] at result
  exact result.roundWithAccuracy_eq positive (Nat.le_add_right _ _) (s / t)

/-- Filled digits moved to a lower exponent get zeros instead. -/
theorem decreaseExponent_padding {digits depth : Nat} (deep : padding digits ≤ depth) :
    (decreaseExponent (digits * 2 ^ padding digits) (e - padding digits) (e - depth)).1 =
      digits * 2 ^ depth := by
  obtain ⟨more, rfl⟩ := Nat.exists_eq_add_of_le deep
  have amount : (e - padding digits - (e - (padding digits + more : Nat))).toNat = more := by omega
  rw [decreaseExponent, amount, Nat.shiftLeft_eq, Nat.mul_assoc, Nat.pow_add]

theorem normalize_natCast {digits : Nat} (positive : 0 < digits) (exponent : Int) (sign : Sign) :
    normalize .binary64 digits exponent sign =
      UnpackedFloat.round .binary64 .positive digits exponent := by
  have compared : compare (digits : Int) 0 = .gt := Int.compare_eq_gt.mpr (by omega)
  rw [UnpackedFloat.normalize, compared]
  rfl

/-- A sum of numbers that fit is exact if it fits at their exponent. -/
theorem nearest_add (first : Fits p e) (second : Fits q e) (result : Fits (p + q) e) :
    nearest .positive p e + nearest .positive q e = nearest .positive (p + q) e := by
  change Float.ofModel (.pack (UnpackedFloat.add .binary64 (nearest .positive p e).toModel.unpack
    (nearest .positive q e).toModel.unpack)) = _
  rw [first.unpack_nearest, second.unpack_nearest, nearest]
  congr 2
  rcases Nat.eq_zero_or_pos p with rfl | positive
  · rw [Nat.zero_add, round_zero]
    rcases Nat.eq_zero_or_pos q with rfl | nonzero
    · rw [round_zero]
      rfl
    · rw [second.round_eq nonzero]
      rfl
  rcases Nat.eq_zero_or_pos q with rfl | nonzero
  · rw [Nat.add_zero, round_zero, first.round_eq positive]
    rfl
  · -- both addends move to the lower of their exponents
    let depth := max (padding p) (padding q)
    have least : min (e - padding p) (e - padding q) = e - depth := by omega
    have sum : (p * 2 ^ depth : Nat) + (q * 2 ^ depth : Nat) = ((p + q) * 2 ^ depth : Nat) := by
      ring
    have exponents : e - depth + depth = e := sub_add_cancel e depth
    have deepFirst : padding p ≤ depth := le_max_left _ _
    have deepSecond : padding q ≤ depth := le_max_right _ _
    have enough : padding (p + q) ≤ depth := (padding_anti (Nat.le_add_right p q)).trans deepFirst
    have whole : 0 < p + q := Nat.add_pos_left positive q
    have rounded := Fits.round_mul_two_pow (exponents.symm ▸ result) whole enough .positive
    rw [first.round_eq positive, second.round_eq nonzero, UnpackedFloat.add]
    simp only [least, decreaseExponent_padding deepFirst, decreaseExponent_padding deepSecond,
      Sign.apply]
    rw [← Nat.cast_add, sum, normalize_natCast (Nat.mul_pos whole (Nat.two_pow_pos _)), rounded,
      exponents]

/-! ## Integers and powers of two -/

theorem toFloat_eq_nearest (number : UInt16) :
    number.toFloat = nearest .positive number.toNat 0 := by
  change Float.ofModel (.pack (UnpackedFloat.normalize .binary64 number.toNat 0 .positive)) = _
  rw [nearest]
  congr 2
  rcases Nat.eq_zero_or_pos number.toNat with zero | positive
  · rw [zero, round_zero]
    rfl
  · exact normalize_natCast positive 0 .positive

theorem one_eq_nearest : (1.0 : Float) = nearest .positive 1 0 := by decide +kernel

theorem two_eq_nearest : (2.0 : Float) = nearest .positive 1 1 := by decide +kernel

theorem powNat_two {exponent : Nat} (fits : Fits 1 exponent) :
    powNat 2.0 exponent = nearest .positive 1 exponent := by
  induction exponent with
  | zero => exact one_eq_nearest
  | succ exponent ih =>
      have upper := (fits_one_iff.mp fits).2
      have smaller : Fits 1 exponent := fits_one_iff.mpr (by omega)
      have two : Fits 1 1 := fits_one_iff.mpr (by omega)
      rw [powNat, ih smaller, two_eq_nearest, nearest_mul_power smaller two fits]
      rfl

/-- A power of two in the normal range is exact, also as the inverse of one. -/
theorem powInt_two {exponent : Int} (fits : Fits 1 exponent) :
    powInt 2.0 exponent = nearest .positive 1 exponent := by
  cases exponent with
  | ofNat exponent => exact powNat_two fits
  | negSucc exponent =>
      have lower := (fits_one_iff.mp fits).1
      have opposite : (0 : Int) - (exponent + 1 : Nat) = .negSucc exponent := by omega
      have one : Fits 1 0 := fits_one_iff.mpr (by omega)
      have inverse : Fits 1 (exponent + 1 : Nat) := fits_one_iff.mpr (by omega)
      rw [← opposite] at fits
      rw [powInt, powNat_two inverse, one_eq_nearest, nearest_div_two_pow one inverse fits, opposite]
      rfl

/-! ## Rounding to a single -/

/-- Zeros after both numbers do not change a rounded quotient. -/
theorem halfEven_shiftLeft (numerator denominator zeros : Nat) :
    halfEven (numerator <<< zeros) (denominator <<< zeros) = halfEven numerator denominator := by
  have positive : 0 < 2 ^ zeros := Nat.two_pow_pos zeros
  have quotient := Nat.mul_div_mul_right numerator denominator positive
  have remainder := Nat.mul_mod_mul_right (2 ^ zeros) numerator denominator
  simp only [halfEven, Nat.shiftLeft_eq, quotient, remainder, ← Nat.mul_assoc,
    Nat.mul_lt_mul_right positive]

theorem droppedBits_shiftLeft (units : Nat) :
    droppedBits (units <<< 776) = Single.droppedBits units + 776 := by
  rcases Nat.eq_zero_or_pos units with rfl | positive
  · rw [Nat.zero_shiftLeft]
    rfl
  · rw [droppedBits, Single.droppedBits, log2_shiftLeft positive]
    omega

/-- Counted in units of `2 ^ -1074` or of `2 ^ -298`, a number is nearest to the same place. -/
theorem nearestPlace_shiftLeft (units : Nat) :
    nearestPlace (units <<< 776) = Single.nearestPlace units := by
  have block : Single.droppedBits units + 776 - 925 = Single.droppedBits units - 149 :=
    Nat.add_sub_add_right _ 776 149
  rw [nearestPlace, Single.nearestPlace, droppedBits_shiftLeft, block, Nat.shiftLeft_add,
    halfEven_shiftLeft]

/-- A double that fits is rounded to a single by its own digits. -/
theorem Fits.toSingle_nearest {digits : Nat} {exponent : Int} (fits : Fits digits exponent)
    (sign : Sign) :
    toSingle (nearest sign digits exponent) =
      .ofPlace (isNegative sign) (nearestPlace (digits <<< (exponent + 1074).toNat)) := by
  rw [toSingle, fits.unpack_nearest]
  rcases Nat.eq_zero_or_pos digits with rfl | positive
  · rw [round_zero, Nat.zero_shiftLeft]
    rfl
  · have filled := fits.log2_add_padding
    have lower := fits.lower
    have amount : (exponent + 1074).toNat =
        padding digits + (exponent - padding digits + 1074).toNat := by omega
    rw [fits.round_eq positive, amount, Nat.shiftLeft_add, Nat.shiftLeft_eq digits]

end LaneDot.Double
