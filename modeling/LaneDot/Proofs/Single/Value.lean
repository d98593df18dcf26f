import LaneDot.Proofs.Code.Decoding
import LaneDot.Proofs.Single.SignedZero

/-!
# Real values

The real number that a finite single or a code stands for.  The two zeros are
the only finite singles that share a value.
-/

namespace LaneDot

namespace Single

/-- The real value of a finite single, and zero for the others. -/
noncomputable def toReal : Single → ℝ
  | .finite negative magnitude => signed negative magnitude.units * 2 ^ (-149 : ℤ)
  | _ => 0

noncomputable def extended : Single → Option EReal
  | .nan => none
  | .inf true => some ⊥
  | .inf false => some ⊤
  | .finite negative magnitude => some (toReal (.finite negative magnitude))

theorem toReal_negZero : negZero.toReal = 0 := by
  have zero : signed true (Magnitude.units ⟨0, by decide⟩) = 0 := rfl
  rw [negZero, Single.zero, neg, toReal, Bool.not_false, zero, Int.cast_zero, zero_mul]

theorem toReal_zero : zero.toReal = 0 := by
  have zero : signed false (Magnitude.units ⟨0, by decide⟩) = 0 := rfl
  rw [Single.zero, toReal, zero, Int.cast_zero, zero_mul]

theorem extended_clearZeroSign (value : Single) : value.clearZeroSign.extended = value.extended := by
  by_cases zero : value = negZero
  · have same : (Single.zero.toReal : EReal) = negZero.toReal := by rw [toReal_negZero, toReal_zero]
    rw [zero]
    exact congrArg some same
  · rw [clearZeroSign_of_ne zero]

theorem ClearsTo.extended_eq {value cleared : Single} (related : value.ClearsTo cleared) :
    value.extended = cleared.extended := by
  rcases related with same | other
  · rw [same]
  · rw [other, extended_clearZeroSign]

end Single

noncomputable def Code.toReal (code : Code) : ℝ :=
  signed code.isNegative code.units * 2 ^ (-24 : ℤ)

/-- The relative error of a rounding that keeps 24 digits. -/
noncomputable def roundoff : ℝ := 2 ^ (-24 : ℤ)

/-- Half of the smallest magnitude. -/
noncomputable def underflow : ℝ := 2 ^ (-150 : ℤ)

theorem unit_pos : (0 : ℝ) < 2 ^ (-298 : ℤ) := zpow_pos two_pos _

theorem two_pow_mul_zpow {shift : Nat} {exponent total : ℤ} (sum : shift + exponent = total) :
    (2 : ℝ) ^ shift * 2 ^ exponent = 2 ^ total := by
  rw [← zpow_natCast, ← zpow_add₀ two_ne_zero, sum]

/-! ## Exact values as real numbers -/

noncomputable def Exact.extended : Exact → Option EReal
  | .nan => none
  | .inf true => some ⊥
  | .inf false => some ⊤
  | .finite negative units => some (signed negative units * 2 ^ (-298 : ℤ) : ℝ)

def Exact.Holds (exact : Exact) (number : ℝ) : Prop :=
  ∃ units : ℤ, exact.units? = some units ∧ number = units * 2 ^ (-298 : ℤ)

/-- Equal signed numbers have equal parts, unless they are zeros of either sign. -/
theorem signed_eq_signed {s t : Bool} {first second : Nat} (same : signed s first = signed t second) :
    first = second ∧ (s = t ∨ first = 0) := by
  cases s <;> cases t <;> simp only [signed] at same <;> simp <;> omega

theorem signed_mul (s t : Bool) (first second : Nat) :
    signed (s ^^ t) (first * second) = signed s first * signed t second := by
  cases s <;> cases t <;> simp [signed]

namespace Single

/-- The single that stands for a real number: finite, and positive if the number is zero. -/
structure Encodes (single : Single) (number : ℝ) : Prop where
  finite : single.isFinite
  value : single.toReal = number
  sign : single ≠ negZero

theorem encodes_zero : zero.Encodes 0 := ⟨rfl, toReal_zero, by decide⟩

/-- Of the two zeros only the positive one is not the negative zero. -/
theorem eq_zero_of_ne_negZero {negative : Bool} {magnitude : Magnitude}
    (other : Single.finite negative magnitude ≠ negZero) (vanishes : magnitude.units = 0) :
    Single.finite negative magnitude = .zero := by
  obtain rfl : magnitude = ⟨0, by decide⟩ := Fin.ext (Magnitude.units_eq_zero_iff.mp vanishes)
  cases negative with
  | false => rfl
  | true => exact absurd rfl other

theorem Encodes.unique {a b : Single} {number : ℝ} (left : a.Encodes number)
    (right : b.Encodes number) : a = b := by
  obtain ⟨finite, leftValue, leftSign⟩ := left
  obtain ⟨other, rightValue, rightSign⟩ := right
  cases a with
  | nan => cases finite
  | inf negative => cases finite
  | finite s m =>
      cases b with
      | nan => cases other
      | inf negative => cases other
      | finite t n =>
          have scaled := mul_right_cancel₀ (zpow_ne_zero (-149) two_ne_zero)
            (leftValue.trans rightValue.symm)
          obtain ⟨magnitude, signs⟩ := signed_eq_signed (Int.cast_injective scaled)
          obtain rfl : m = n := Magnitude.units_injective magnitude
          rcases signs with rfl | vanishes
          · rfl
          · rw [eq_zero_of_ne_negZero leftSign vanishes, eq_zero_of_ne_negZero rightSign vanishes]

/-- The value of a finite single in the units of exact results. -/
theorem toReal_finite (negative : Bool) (magnitude : Magnitude) :
    (finite negative magnitude).toReal =
      signed negative (magnitude.units * 2 ^ 149) * 2 ^ (-298 : ℤ) := by
  have scaled : signed negative (magnitude.units * 2 ^ 149) =
      signed negative magnitude.units * 2 ^ 149 := by
    cases negative <;> simp [signed]
  have scale : (2 : ℝ) ^ 149 * 2 ^ (-298 : ℤ) = 2 ^ (-149 : ℤ) := two_pow_mul_zpow rfl
  rw [scaled, toReal, Int.cast_mul, Int.cast_pow, Int.cast_ofNat, mul_assoc, scale]

/-- A single with an exact number of units stands for that number of units. -/
theorem encodes_of_units? {single : Single} {units : Int}
    (holds : (Exact.ofSingle single).units? = some units) (sign : single ≠ negZero) :
    single.Encodes (units * 2 ^ (-298 : ℤ)) := by
  cases single with
  | nan => cases holds
  | inf negative => cases holds
  | finite negative magnitude =>
      cases holds
      exact ⟨rfl, by rw [toReal_finite, Nat.shiftLeft_eq], sign⟩

end Single

namespace Exact

theorem holds_ofSingle {single : Single} (isFinite : single.isFinite) :
    (ofSingle single).Holds single.toReal := by
  cases single with
  | nan => cases isFinite
  | inf negative => cases isFinite
  | finite negative magnitude =>
      exact ⟨_, rfl, by rw [Single.toReal_finite, Nat.shiftLeft_eq]⟩

theorem holds_product {single : Single} (isFinite : single.isFinite) (code : Code) :
    (product single code.value).Holds (single.toReal * code.toReal) := by
  obtain ⟨magnitude, value, decoded⟩ := code.exists_decode_eq
  rw [Code.decode_eq_value] at decoded
  cases single with
  | nan => cases isFinite
  | inf negative => cases isFinite
  | finite negative first =>
      refine ⟨_, by rw [decoded]; rfl, ?_⟩
      have scaled : signed code.isNegative magnitude.units =
          signed code.isNegative code.units * 2 ^ 125 := by
        rw [value]
        cases code.isNegative <;> simp [signed]
      have scale : (2 : ℝ) ^ (-149 : ℤ) * 2 ^ (-24 : ℤ) = 2 ^ 125 * 2 ^ (-298 : ℤ) := by
        rw [two_pow_mul_zpow (rfl : ((125 : Nat) : ℤ) + -298 = -173), ← zpow_add₀ two_ne_zero]
        rfl
      rw [signed_mul, scaled, Single.toReal, Code.toReal]
      push_cast
      linear_combination (signed negative first.units * signed code.isNegative code.units : ℝ) * scale

end Exact

end LaneDot
