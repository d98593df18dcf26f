import Mathlib
import LaneDot.Double

/-!
# Doubles of few digits

A number of at most 53 digits with an exponent of the normal range is a double.
Rounding it only fills it up with zeros or drops zeros that it ends with, and
its pattern gives its digits and its exponent back.
-/

namespace LaneDot.Double

open Float.Model (Format UnpackedFloat totalExponent)
open Float.Model.UnpackedFloat

theorem log2_mul_two_pow {digits : Nat} (positive : 0 < digits) (shift : Nat) :
    (digits * 2 ^ shift).log2 = digits.log2 + shift := by
  have nonzero : digits * 2 ^ shift ≠ 0 := (Nat.mul_pos positive (Nat.two_pow_pos shift)).ne'
  have bounds := (Nat.log2_eq_iff positive.ne').mp rfl
  rw [Nat.log2_eq_iff nonzero, Nat.add_right_comm, Nat.pow_add, Nat.pow_add]
  exact ⟨Nat.mul_le_mul_right _ bounds.1, Nat.mul_lt_mul_of_pos_right bounds.2 (Nat.two_pow_pos _)⟩

theorem log2_shiftLeft {digits : Nat} (positive : 0 < digits) (shift : Nat) :
    (digits <<< shift).log2 = digits.log2 + shift := by
  rw [Nat.shiftLeft_eq, log2_mul_two_pow positive]

theorem log2_lt_of_lt {digits width : Nat} (wide : 0 < width) (short : digits < 2 ^ width) :
    digits.log2 < width := by
  rcases Nat.eq_zero_or_pos digits with rfl | positive
  · exact wide
  · exact (Nat.log2_lt positive.ne').mpr short

/-! ## Rounding that drops zeros -/

/-- Zeros are shifted out without a trace in the round and sticky bits. -/
theorem shiftRight_mul_two_pow (digits shift : Nat) :
    ExtendedMantissa.mk (digits * 2 ^ shift) false false >>> shift = ⟨digits, false, false⟩ := by
  change shift.repeat ExtendedMantissa.shiftRightOne _ = _
  induction shift generalizing digits with
  | zero =>
      rw [Nat.pow_zero, Nat.mul_one]
      rfl
  | succ shift ih =>
      have step : digits * 2 ^ (shift + 1) = digits * 2 * 2 ^ shift := by ring
      rw [Nat.repeat, step, ih]
      simp [ExtendedMantissa.shiftRightOne]

theorem targetExponent_of_normal {digits : Nat} {exponent : Int}
    (normal : -1022 ≤ digits.log2 + exponent) :
    Format.binary64.targetExponent (totalExponent digits exponent) =
      digits.log2 + exponent - 52 := by
  simp only [Format.targetExponent, totalExponent, Format.mantissaBits, Format.minExponent]
  omega

/-- Moving a number of 53 digits and trailing zeros to its own exponent drops the zeros. -/
theorem shiftToTargetExponent_of_full {digits : Nat} (full : digits.log2 = 52) (shift : Nat)
    {exponent : Int} (normal : -1074 ≤ exponent + shift) :
    shiftToTargetExponent .binary64 (digits * 2 ^ shift) exponent .exact =
      (⟨digits, false, false⟩, exponent + shift) := by
  have positive : 0 < digits := Nat.pos_of_ne_zero (by rintro rfl; simp at full)
  have length : (digits * 2 ^ shift).log2 = 52 + shift := by
    rw [log2_mul_two_pow positive, full]
  have target : Format.binary64.targetExponent (totalExponent (digits * 2 ^ shift) exponent) =
      exponent + shift := by
    rw [targetExponent_of_normal (by omega), length]
    omega
  have amount : (exponent + shift - exponent).toNat = shift := by omega
  rw [shiftToTargetExponent, target, shiftToExponent, amount]
  exact congrArg (·, _) (shiftRight_mul_two_pow digits shift)

theorem roundWithAccuracy_of_full (sign : Sign) {digits : Nat} (positive : 0 < digits)
    (full : digits.log2 = 52) (shift : Nat) {exponent : Int} (normal : -1074 ≤ exponent + shift) :
    roundWithAccuracy .binary64 sign (digits * 2 ^ shift) exponent .exact =
      .finite sign digits (exponent + shift) positive := by
  have again : shiftToTargetExponent .binary64 digits (exponent + shift) .exact =
      (⟨digits, false, false⟩, exponent + shift) := by
    have kept : -1074 ≤ exponent + shift + (0 : Nat) := by omega
    simpa using shiftToTargetExponent_of_full full 0 kept
  rw [roundWithAccuracy, shiftToTargetExponent_of_full full shift normal]
  simp [ExtendedMantissa.roundedMantissa, ExtendedMantissa.accuracy, Accuracy.roundToNearestEven,
    again, positive.ne']

def padding (digits : Nat) : Nat := 52 - digits.log2

/-- At most 53 digits, and the leading one at an exponent of the normal range. -/
structure Fits (digits : Nat) (exponent : Int) : Prop where
  short : digits < 2 ^ 53
  lower : -1022 ≤ digits.log2 + exponent
  upper : digits.log2 + exponent ≤ 1023

theorem Fits.log2_add_padding {digits : Nat} {exponent : Int} (fits : Fits digits exponent) :
    digits.log2 + padding digits = 52 :=
  Nat.add_sub_cancel' (Nat.le_of_lt_succ (log2_lt_of_lt (Nat.succ_pos 52) fits.short))

theorem Fits.log2_filled {digits : Nat} {exponent : Int} (fits : Fits digits exponent)
    (positive : 0 < digits) : (digits * 2 ^ padding digits).log2 = 52 := by
  rw [log2_mul_two_pow positive, fits.log2_add_padding]

/-- Few digits fit at an exponent far from the ends of the range. -/
theorem fits_of_small {digits : Nat} {exponent : Int} (small : digits < 2 ^ 11)
    (near : exponent.natAbs ≤ 1000) : Fits digits exponent := by
  have length : digits.log2 < 11 := log2_lt_of_lt (Nat.succ_pos 10) small
  exact ⟨small.trans (Nat.pow_lt_pow_right Nat.one_lt_two (by omega)), by omega, by omega⟩

theorem fits_one_iff {exponent : Int} : Fits 1 exponent ↔ -1022 ≤ exponent ∧ exponent ≤ 1023 := by
  have length : ((1 : Nat).log2 : Int) + exponent = exponent := Int.zero_add exponent
  constructor
  · rintro ⟨-, lower, upper⟩
    rw [length] at lower upper
    exact ⟨lower, upper⟩
  · rintro ⟨lower, upper⟩
    rw [← length] at lower upper
    exact ⟨Nat.one_lt_two_pow (Nat.succ_ne_zero 52), lower, upper⟩

theorem padding_anti {digits more : Nat} (le : digits ≤ more) : padding more ≤ padding digits := by
  rcases Nat.eq_zero_or_pos digits with rfl | positive
  · exact Nat.sub_le_sub_left (Nat.zero_le _) 52
  · have longer : digits.log2 ≤ more.log2 :=
      (Nat.le_log2 (positive.trans_le le).ne').mpr ((Nat.log2_self_le positive.ne').trans le)
    exact Nat.sub_le_sub_left longer 52

/-- Rounding a number that fits fills it up and does nothing else. -/
theorem Fits.round_eq {digits : Nat} {exponent : Int} (fits : Fits digits exponent)
    (positive : 0 < digits) (sign : Sign) :
    UnpackedFloat.round .binary64 sign digits exponent =
      .finite sign (digits * 2 ^ padding digits) (exponent - padding digits)
        (Nat.mul_pos positive (Nat.two_pow_pos _)) := by
  have filled := fits.log2_add_padding
  have lower := fits.lower
  have amount : (exponent - (digits.log2 + exponent - 52)).toNat = padding digits := by omega
  have least : -1074 ≤ exponent - padding digits + (0 : Nat) := by omega
  have kept := roundWithAccuracy_of_full sign (Nat.mul_pos positive (Nat.two_pow_pos _))
    (fits.log2_filled positive) 0 least
  rw [UnpackedFloat.round, targetExponent_of_normal lower, decreaseExponent, amount,
    Nat.shiftLeft_eq]
  simpa using kept

/-- A number that fits, with enough trailing zeros, loses zeros only. -/
theorem Fits.roundWithAccuracy_eq {digits shift : Nat} {exponent : Int}
    (fits : Fits digits (exponent + shift)) (positive : 0 < digits)
    (enough : padding digits ≤ shift) (sign : Sign) :
    roundWithAccuracy .binary64 sign (digits * 2 ^ shift) exponent .exact =
      UnpackedFloat.round .binary64 sign digits (exponent + shift) := by
  obtain ⟨dropped, rfl⟩ := Nat.exists_eq_add_of_le enough
  have filled := fits.log2_add_padding
  have lower := fits.lower
  have least : -1074 ≤ exponent + dropped := by omega
  have kept := roundWithAccuracy_of_full sign (Nat.mul_pos positive (Nat.two_pow_pos _))
    (fits.log2_filled positive) dropped least
  rw [fits.round_eq positive, Nat.pow_add, ← Nat.mul_assoc, kept]
  congr 1
  omega

/-- Trailing zeros and an exponent lower by their number round to the same. -/
theorem Fits.round_mul_two_pow {digits shift : Nat} {exponent : Int}
    (fits : Fits digits (exponent + shift)) (positive : 0 < digits)
    (enough : padding digits ≤ shift) (sign : Sign) :
    UnpackedFloat.round .binary64 sign (digits * 2 ^ shift) exponent =
      UnpackedFloat.round .binary64 sign digits (exponent + shift) := by
  have filled := fits.log2_add_padding
  have lower := fits.lower
  have length := log2_mul_two_pow positive shift
  have amount : (exponent - ((digits * 2 ^ shift).log2 + exponent - 52)).toNat = 0 := by omega
  have kept := fits.roundWithAccuracy_eq positive enough sign
  rw [UnpackedFloat.round, targetExponent_of_normal (by omega), decreaseExponent, amount]
  simpa using kept

theorem shiftToTargetExponent_zero (exponent : Int) :
    (shiftToTargetExponent .binary64 0 exponent .exact).1 = ⟨0, false, false⟩ := by
  have zeros := shiftRight_mul_two_pow 0
  simp only [Nat.zero_mul] at zeros
  exact zeros _

theorem round_zero (sign : Sign) (exponent : Int) :
    UnpackedFloat.round .binary64 sign 0 exponent = .zero sign := by
  simp [UnpackedFloat.round, decreaseExponent, roundWithAccuracy, shiftToTargetExponent_zero,
    ExtendedMantissa.roundedMantissa, ExtendedMantissa.accuracy, Accuracy.roundToNearestEven]

/-! ## Packing -/

theorem ofBitVec_toBitVec (sign : Sign) : Sign.ofBitVec sign.toBitVec = sign := by
  cases sign <;> rfl

theorem unpackSign_packComponents {spec : Format} (sign : Sign)
    (exponent : BitVec spec.exponentBits) (digits : BitVec spec.mantissaBitsWithoutImplicit) :
    unpackSign (packComponents spec sign exponent digits) = sign.toBitVec := by
  ext place inside
  obtain rfl : place = 0 := Nat.lt_one_iff.mp inside
  simp [unpackSign, packComponents, BitVec.getLsbD_append, BitVec.getElem_append]

/-- The leading one is left out of the pattern and put back. -/
theorem toNat_one_append {digits : Nat} (full : digits.log2 = 52) :
    (1#1 ++ BitVec.ofNat 52 digits).toNat = digits := by
  have bounds := (Nat.log2_eq_iff (by rintro rfl; simp at full)).mp full
  have low : digits % 2 ^ 52 < 2 ^ 52 := Nat.mod_lt _ (Nat.two_pow_pos 52)
  have one : (1#1).toNat = 1 := rfl
  have rest : (BitVec.ofNat 52 digits).toNat = digits % 2 ^ 52 := BitVec.toNat_ofNat ..
  rw [BitVec.toNat_append, one, rest, ← Nat.shiftLeft_add_eq_or_of_lt low, Nat.shiftLeft_eq]
  omega

theorem unpack_pack_zero (sign : Sign) :
    UnpackedFloat.unpack .binary64 (UnpackedFloat.pack .binary64 (.zero sign)) = .zero sign := by
  cases sign <;> rfl

/-- A number of 53 digits keeps them, and its exponent, in a pattern. -/
theorem unpack_pack_of_full (sign : Sign) {digits : Nat} {exponent : Int} (positive : 0 < digits)
    (full : digits.log2 = 52) (lower : -1074 ≤ exponent) (upper : exponent ≤ 971) :
    UnpackedFloat.unpack .binary64
        (UnpackedFloat.pack .binary64 (.finite sign digits exponent positive)) =
      .finite sign digits exponent positive := by
  obtain ⟨field, rfl⟩ : ∃ field : Nat, exponent = field - 1075 :=
    ⟨(exponent + 1075).toNat, by omega⟩
  have biased : ((field : Int) - 1075 + Format.binary64.exponentBias +
      Format.binary64.mantissaBitsWithoutImplicit).toNat = field := by
    simp only [Format.exponentBias]
    omega
  have inside : ¬ 2 ^ Format.binary64.exponentBits ≤ field + 1 := by
    simp only [Nat.reducePow]
    omega
  have normal : digits.log2 + 1 = Format.binary64.mantissaBits := by
    rw [full]
    rfl
  have written : (BitVec.ofNat 11 field).toNat = field := by
    rw [BitVec.toNat_ofNat]
    omega
  have top : (-1#11).toNat = 2047 := rfl
  have least : (0#11).toNat = 0 := rfl
  have notTop : BitVec.ofNat 11 field ≠ -1#11 := by
    rw [ne_eq, ← BitVec.toNat_inj, written, top]
    omega
  have notLeast : BitVec.ofNat 11 field ≠ 0#11 := by
    rw [ne_eq, ← BitVec.toNat_inj, written, least]
    omega
  rw [UnpackedFloat.pack]
  dsimp only
  rw [biased, if_neg inside, if_pos normal, UnpackedFloat.unpack]
  simp only [unpackMantissa_packComponents, unpackExponent_packComponents,
    unpackSign_packComponents, ofBitVec_toBitVec, if_neg notTop, if_neg notLeast, written,
    toNat_one_append full]
  congr 1

theorem Fits.unpack_pack_round {digits : Nat} {exponent : Int} (fits : Fits digits exponent)
    (sign : Sign) :
    UnpackedFloat.unpack .binary64
        (UnpackedFloat.pack .binary64 (UnpackedFloat.round .binary64 sign digits exponent)) =
      UnpackedFloat.round .binary64 sign digits exponent := by
  have filled := fits.log2_add_padding
  have lower := fits.lower
  have upper := fits.upper
  rcases Nat.eq_zero_or_pos digits with rfl | positive
  · rw [round_zero, unpack_pack_zero]
  · rw [fits.round_eq positive]
    exact unpack_pack_of_full sign _ (fits.log2_filled positive) (by omega) (by omega)

end LaneDot.Double
