import LaneDot.Code.Decode
import LaneDot.Proofs.Single.Nearest

/-!
# Decoding is exact

The branchless decoder returns the value that the format gives to a code.  A
normal code needs no arithmetic beyond moving its fields, and for a subnormal
one the subtraction from one quarter cancels without rounding.
-/

namespace LaneDot

/-- Taking one part away from a sum leaves the other part, which is never a negative zero. -/
theorem Exact.addFinite_cancel (part rest : Nat) :
    addFinite false (part + rest) true part = .finite false rest := by
  rw [addFinite, if_neg Bool.false_ne_true]
  rcases Nat.eq_zero_or_pos rest with zero | positive
  · rw [zero, Nat.add_zero, if_neg (Nat.lt_irrefl part), if_neg (Nat.lt_irrefl part)]
  · rw [if_pos (Nat.lt_add_of_pos_right positive), Nat.add_sub_cancel_left]

namespace Code

/-! ## Fields -/

theorem mantissaField_lt (code : Code) : code.mantissaField < 0x400 :=
  Nat.mod_lt _ (by decide)

theorem exponentField_lt (code : Code) : code.exponentField < 0x20 :=
  Nat.mod_lt _ (by decide)

/-- The bits below the sign are the exponent field followed by the mantissa field. -/
theorem toNat_bits_mod (code : Code) :
    code.bits.toNat % 0x8000 = code.exponentField * 0x400 + code.mantissaField := by
  unfold exponentField mantissaField
  omega

theorem units_of_subnormal {code : Code} (least : code.exponentField = 0) :
    code.units = code.mantissaField :=
  if_pos least

theorem units_of_normal {code : Code} (normal : code.exponentField ≠ 0) :
    code.units = (0x400 + code.mantissaField) * 2 ^ (code.exponentField - 1) := by
  rw [units, if_neg normal, Nat.shiftLeft_eq]

/-! ## Widened lanes -/

theorem toNat_widen (half : UInt16) : (widen half).toNat = half.toNat * 0x10000 := by
  have bound := half.toNat_lt
  have shift : (widen half).toNat = half.toNat <<< 16 % 2 ^ 32 := rfl
  rw [shift, Nat.shiftLeft_eq]
  omega

/-- Doubling pushes the sign out, and the shift brings the fields to the place of a single's. -/
theorem toNat_shiftFields_widen (code : Code) :
    (shiftFields (widen code.bits)).toNat =
      (code.exponentField * 0x400 + code.mantissaField) * 0x2000 := by
  have fields := code.toNat_bits_mod
  have shift : (shiftFields (widen code.bits)).toNat =
      (((widen code.bits).toNat + (widen code.bits).toNat) % 2 ^ 32) >>> 4 := rfl
  rw [shift, toNat_widen, Nat.shiftRight_eq_div_pow]
  omega

theorem toNat_sign (code : Code) :
    (widen code.bits &&& signMask).toNat = Single.signWeight code.isNegative := by
  have bound := code.bits.toNat_lt
  rw [UInt32.toNat_and, toNat_widen, show signMask.toNat = 2 ^ 31 by rfl, Nat.and_two_pow,
    Nat.testBit_eq_decide_div_mod_eq, isNegative]
  rcases Nat.lt_or_ge code.bits.toNat 0x8000 with positive | negative
  · rw [decide_eq_false (by omega : ¬ 0x8000 ≤ code.bits.toNat), decide_eq_false (by omega)]
    rfl
  · rw [decide_eq_true negative, decide_eq_true (by omega)]
    rfl

/-- Setting the sign bit of a pattern without one gives the value at that place with the sign. -/
theorem ofBits_or_sign {place : Nat} (inside : place < finiteMagnitudes) {nonsign sign : UInt32}
    {negative : Bool} (low : nonsign.toNat = place)
    (high : sign.toNat = Single.signWeight negative) :
    Single.ofBits (nonsign ||| sign) = .finite negative ⟨place, inside⟩ := by
  have top : place < 2 ^ 31 := Nat.lt_trans inside (by decide)
  have joined : place ||| Single.signWeight negative = Single.signWeight negative + place := by
    cases negative with
    | false => exact (Nat.or_zero place).trans (Nat.zero_add place).symm
    | true => rw [Nat.or_comm]; exact (Nat.two_pow_add_eq_or_of_lt (i := 31) top 1).symm
  have whole : Single.signWeight negative + place < 2 ^ 32 := by
    cases negative <;> simp only [Single.signWeight] <;> omega
  have pattern : nonsign ||| sign = (Single.finite negative ⟨place, inside⟩).toBits := by
    rw [← UInt32.toNat_inj, UInt32.toNat_or, low, high, joined]
    exact (Nat.mod_eq_of_lt whole).symm
  rw [pattern, Single.ofBits_toBits]

/-! ## The two candidates -/

theorem subnormalMask_of_subnormal {code : Code} (least : code.exponentField = 0) :
    subnormalMask (shiftFields (widen code.bits)) = 0xFFFFFFFF := by
  have bound := code.mantissaField_lt
  have fields := code.toNat_shiftFields_widen
  rw [least] at fields
  refine if_pos (UInt32.lt_iff_toNat_lt.mpr ?_)
  rw [fields, show subnormalCutoff.toNat = 0x800000 by rfl]
  omega

theorem subnormalMask_of_normal {code : Code} (normal : code.exponentField ≠ 0) :
    subnormalMask (shiftFields (widen code.bits)) = 0 := by
  apply if_neg
  intro small
  have below := UInt32.lt_iff_toNat_lt.mp small
  rw [code.toNat_shiftFields_widen, show subnormalCutoff.toNat = 0x800000 by rfl] at below
  omega

theorem pick_set (whenSet whenClear : UInt32) : pick 0xFFFFFFFF whenSet whenClear = whenSet := by
  have none : ~~~(0xFFFFFFFF : UInt32) = 0 := rfl
  have all : (0xFFFFFFFF : UInt32) = -1 := rfl
  rw [pick, none, UInt32.and_zero, UInt32.or_zero, all, UInt32.and_neg_one]

theorem pick_clear (whenSet whenClear : UInt32) : pick 0 whenSet whenClear = whenClear := by
  have all : ~~~(0 : UInt32) = -1 := rfl
  rw [pick, all, UInt32.and_zero, UInt32.zero_or, UInt32.and_neg_one]

def normalPlace (code : Code) : Nat :=
  (code.exponentField + 0x70) * 0x800000 + code.mantissaField * 0x2000

theorem normalPlace_lt (code : Code) : code.normalPlace < finiteMagnitudes := by
  have exponent := code.exponentField_lt
  have mantissa := code.mantissaField_lt
  have top : finiteMagnitudes = 0x7F800000 := rfl
  unfold normalPlace
  omega

theorem toNat_normalCandidate (code : Code) :
    (shiftFields (widen code.bits) + exponentOffset).toNat = code.normalPlace := by
  have exponent := code.exponentField_lt
  have mantissa := code.mantissaField_lt
  rw [UInt32.toNat_add, toNat_shiftFields_widen, show exponentOffset.toNat = 0x38000000 by rfl]
  unfold normalPlace
  omega

/-- The normal candidate of a normal code has the code's magnitude. -/
theorem placeUnits_normalPlace {code : Code} (normal : code.exponentField ≠ 0) :
    placeUnits code.normalPlace = code.units * 2 ^ 125 := by
  have mantissa := code.mantissaField_lt
  obtain ⟨block, exponent⟩ := Nat.exists_eq_succ_of_ne_zero normal
  have opening : code.normalPlace =
      (block + 112 + 1) * 0x800000 + code.mantissaField * 0x2000 := by
    rw [normalPlace, exponent]
  rw [opening, placeUnits_block _ (by omega), units_of_normal normal, exponent,
    Nat.succ_sub_one]
  ring

/-- One quarter lies under the exponent field that the magic word puts a mantissa field to. -/
def magicPlace (code : Code) : Nat := 0x3E800000 + 2 * code.mantissaField

theorem magicPlace_lt (code : Code) : code.magicPlace < finiteMagnitudes := by
  have mantissa := code.mantissaField_lt
  have top : finiteMagnitudes = 0x7F800000 := rfl
  unfold magicPlace
  omega

theorem ofBits_magic {code : Code} (least : code.exponentField = 0) :
    Single.ofBits (widen magicMask ||| (code.bits + code.bits).toUInt32) =
      .finite false ⟨code.magicPlace, code.magicPlace_lt⟩ := by
  have fields := code.toNat_bits_mod
  have mantissa := code.mantissaField_lt
  have doubled : (code.bits + code.bits).toNat = 2 * code.mantissaField := by
    rw [UInt16.toNat_add]
    omega
  have low : (widen magicMask ||| (code.bits + code.bits).toUInt32).toNat = code.magicPlace := by
    rw [UInt32.toNat_or, UInt16.toNat_toUInt32, doubled, toNat_widen,
      show magicMask.toNat * 0x10000 = 0x3E80 <<< 16 by rfl,
      ← Nat.shiftLeft_add_eq_or_of_lt (by omega), magicPlace, show 0x3E80 <<< 16 = 0x3E800000 by rfl]
  have positive : (0 : UInt32).toNat = Single.signWeight false := rfl
  have unsigned := ofBits_or_sign code.magicPlace_lt low positive
  rwa [UInt32.or_zero] at unsigned

/-- The subtraction from one quarter leaves the mantissa field, and no rounding takes place. -/
theorem exact_magic_sub_quarter (code : Code) :
    (Exact.ofSingle (.finite false ⟨code.magicPlace, code.magicPlace_lt⟩)).add
      (Exact.ofSingle Single.quarter.neg) =
        .finite false (code.mantissaField * 2 ^ 125 * 2 ^ 149) := by
  have mantissa := code.mantissaField_lt
  have magic : placeUnits code.magicPlace = (0x800000 + 2 * code.mantissaField) * 2 ^ 124 :=
    placeUnits_block 124 (by omega : 2 * code.mantissaField < 0x800000)
  have quarter : placeUnits 0x3E800000 = (0x800000 + 0) * 2 ^ 124 :=
    @placeUnits_block 124 0 (by decide)
  have split : (0x800000 + 2 * code.mantissaField) * 2 ^ 124 * 2 ^ 149 =
      (0x800000 + 0) * 2 ^ 124 * 2 ^ 149 + code.mantissaField * 2 ^ 125 * 2 ^ 149 := by ring
  simp only [Exact.ofSingle, Single.quarter, Single.neg, Bool.not_false, Exact.add,
    Magnitude.units, Nat.shiftLeft_eq, magic, quarter, split]
  exact Exact.addFinite_cancel _ _

/-- The subnormal candidate of a subnormal code has the code's magnitude. -/
theorem exists_subnormalCandidate {code : Code} (least : code.exponentField = 0) :
    ∃ magnitude : Magnitude, magnitude.units = code.units * 2 ^ 125 ∧
      (subnormalCandidate (code.bits + code.bits)).toNat = magnitude.val := by
  have mantissa := code.mantissaField_lt
  obtain ⟨magnitude, value, rounded⟩ := Exact.round_finite_of_short false 125
    (by omega : code.mantissaField ≤ 0x1000000) (by
      calc code.mantissaField * 2 ^ 125 < 0x800000 * 2 ^ 125 :=
            Nat.mul_lt_mul_of_pos_right (by omega) (Nat.two_pow_pos 125)
        _ ≤ 0x800000 * 2 ^ 254 := Nat.mul_le_mul_left _ (Nat.pow_le_pow_right (by decide) (by decide)))
  refine ⟨magnitude, by rw [value, units_of_subnormal least], ?_⟩
  have small : magnitude.val < 2 ^ 32 := Nat.lt_trans magnitude.isLt (by decide)
  rw [subnormalCandidate, ofBits_magic least, Single.sub, Single.add, exact_magic_sub_quarter,
    rounded, Single.toBits, Single.signWeight, Nat.zero_add]
  exact Nat.mod_eq_of_lt small

/-! ## The decoded value -/

/-- The decoder returns a finite single with the code's sign and magnitude. -/
theorem exists_decode_eq (code : Code) :
    ∃ magnitude : Magnitude, magnitude.units = code.units * 2 ^ 125 ∧
      code.decode = .finite code.isNegative magnitude := by
  rcases Nat.eq_zero_or_pos code.exponentField with least | positive
  · obtain ⟨magnitude, value, place⟩ := exists_subnormalCandidate least
    refine ⟨magnitude, value, ?_⟩
    unfold decode
    dsimp only
    rw [subnormalMask_of_subnormal least, pick_set]
    exact ofBits_or_sign magnitude.isLt place code.toNat_sign
  · have normal : code.exponentField ≠ 0 := Nat.pos_iff_ne_zero.mp positive
    refine ⟨⟨code.normalPlace, code.normalPlace_lt⟩, placeUnits_normalPlace normal, ?_⟩
    unfold decode
    dsimp only
    rw [subnormalMask_of_normal normal, pick_clear]
    exact ofBits_or_sign code.normalPlace_lt code.toNat_normalCandidate code.toNat_sign

theorem ofSingle_decode (code : Code) : Exact.ofSingle code.decode = code.exact := by
  obtain ⟨magnitude, value, decoded⟩ := code.exists_decode_eq
  rw [decoded, Exact.ofSingle, value, exact, ← Nat.shiftLeft_eq, ← Nat.shiftLeft_add]

theorem decode_eq_value (code : Code) : code.decode = code.value :=
  (Exact.round_eq_of_ofSingle_eq code.ofSingle_decode).symm

theorem ofSingle_value (code : Code) : Exact.ofSingle code.value = code.exact := by
  rw [← decode_eq_value, ofSingle_decode]

end Code

end LaneDot
