import LaneDot.Proofs.Single.Grid
import LaneDot.Proofs.Single.Value

/-!
# The error of one rounding

A rounding that keeps 24 digits errs by a relative `2 ^ -24` at most.  One that
drops what is worth less than the smallest magnitude errs by half of that at
most, and not at all on sums of singles, which have nothing to drop.  A
rounding overflows only far from the numbers below `2 ^ 127`.
-/

namespace LaneDot

/-! ## Rounded units -/

/-- A rounded quotient is off by half a denominator at most. -/
theorem halfEven_error (numerator : Nat) {denominator : Nat} (positive : 0 < denominator) :
    2 * |(halfEven numerator denominator * denominator : ℤ) - numerator| ≤ denominator := by
  have below : numerator % denominator < denominator := Nat.mod_lt numerator positive
  have parts : (numerator : ℤ) = (numerator / denominator : Nat) * denominator +
      (numerator % denominator : Nat) := by
    exact_mod_cast (Nat.div_add_mod' numerator denominator).symm
  rcases halfEven_eq_or numerator denominator with ⟨down, small⟩ | ⟨up, large⟩
  · have off : (halfEven numerator denominator * denominator : ℤ) - numerator =
        -(numerator % denominator : Nat) := by
      rw [down]
      linarith
    rw [off, abs_neg, Nat.abs_cast]
    exact_mod_cast small
  · have off : (halfEven numerator denominator * denominator : ℤ) - numerator =
        (denominator - numerator % denominator : Nat) := by
      rw [up, Nat.cast_sub below.le]
      push_cast at parts ⊢
      linarith
    rw [off, Nat.abs_cast]
    omega

namespace Single

theorem lt_two_pow_droppedBits (units : Nat) : units < 2 ^ 24 * 2 ^ droppedBits units := by
  rw [← Nat.pow_add]
  apply Nat.lt_of_lt_of_le (Nat.lt_log2_self (n := units))
  apply Nat.pow_le_pow_right (by decide)
  unfold droppedBits
  omega

theorem two_pow_droppedBits_le {units : Nat} (large : droppedBits units ≠ 149) :
    2 ^ 23 * 2 ^ droppedBits units ≤ units := by
  have length : 23 + droppedBits units = units.log2 := by
    unfold droppedBits at large ⊢
    omega
  have nonzero : units ≠ 0 := by
    rintro rfl
    exact large rfl
  rw [← Nat.pow_add, length]
  exact Nat.log2_self_le nonzero

/-- The nearest single to a number of units, in the same units and without a bound on its size. -/
def roundedUnits (units : Nat) : Nat :=
  placeUnits (nearestPlace units) * 2 ^ 149

/-- The kept digits are those of the rounded quotient, also after a carry into the next block. -/
theorem roundedUnits_eq (units : Nat) :
    roundedUnits units = halfEven units (2 ^ droppedBits units) * 2 ^ droppedBits units := by
  have positive : 0 < 2 ^ droppedBits units := Nat.two_pow_pos _
  have short : halfEven units (2 ^ droppedBits units) ≤ 0x1000000 :=
    halfEven_le positive (lt_two_pow_droppedBits units)
  have normal : droppedBits units - 149 = 0 ∨ 0x800000 ≤ halfEven units (2 ^ droppedBits units) := by
    by_cases kept : droppedBits units = 149
    · exact Or.inl (Nat.sub_eq_zero_of_le kept.le)
    · exact Or.inr (le_halfEven positive (two_pow_droppedBits_le kept))
  have least : droppedBits units - 149 + 149 = droppedBits units :=
    Nat.sub_add_cancel (le_max_left _ _)
  unfold roundedUnits nearestPlace
  dsimp only
  rw [Nat.one_shiftLeft, placeUnits_of_digits short normal, Nat.mul_assoc, ← Nat.pow_add, least]

theorem roundedUnits_error (units : Nat) :
    2 * |(roundedUnits units : ℤ) - units| ≤ 2 ^ droppedBits units := by
  rw [roundedUnits_eq]
  exact_mod_cast halfEven_error units (Nat.two_pow_pos (droppedBits units))

/-- Dropping more than the smallest magnitude keeps 24 digits. -/
theorem roundedUnits_error_of_large {units : Nat} (large : droppedBits units ≠ 149) :
    2 ^ 24 * |(roundedUnits units : ℤ) - units| ≤ units := by
  have half := roundedUnits_error units
  have digits : (2 ^ 23 * 2 ^ droppedBits units : ℤ) ≤ units := by
    exact_mod_cast two_pow_droppedBits_le large
  linarith

theorem roundedUnits_error_of_small {units : Nat} (small : droppedBits units = 149) :
    |(roundedUnits units : ℤ) - units| ≤ 2 ^ 148 := by
  have half := roundedUnits_error units
  rw [small] at half
  omega

theorem roundedUnits_of_dvd {units : Nat} (small : droppedBits units = 149)
    (whole : 2 ^ 149 ∣ units) : roundedUnits units = units := by
  obtain ⟨count, rfl⟩ := exists_eq_mul_left_of_dvd whole
  rw [roundedUnits_eq, small, halfEven_mul_left _ (Nat.two_pow_pos 149)]

theorem nearestPlace_lt {units : Nat} (small : units < 2 ^ 425) :
    nearestPlace units < finiteMagnitudes := by
  apply placeUnits_strictMono.lt_iff_lt.mp
  apply Nat.lt_of_mul_lt_mul_right (a := 2 ^ 149)
  rw [placeUnits_finiteMagnitudes]
  change roundedUnits units < _
  by_cases kept : droppedBits units = 149
  · have error := roundedUnits_error_of_small kept
    rw [abs_le] at error
    omega
  · have error := roundedUnits_error_of_large kept
    have upper := le_abs_self ((roundedUnits units : ℤ) - units)
    omega

end Single

/-! ## Rounding real numbers -/

theorem roundoff_pos : 0 < roundoff := zpow_pos two_pos _

theorem underflow_pos : 0 < underflow := zpow_pos two_pos _

theorem abs_signed_sub (negative : Bool) (first second : Nat) :
    |signed negative first - signed negative second| = |(first : ℤ) - second| := by
  cases negative with
  | false => rfl
  | true =>
      rw [signed, signed, neg_sub_neg]
      exact abs_sub_comm _ _

namespace Exact

def isFinite : Exact → Bool
  | .finite _ _ => true
  | _ => false

/-- The rounding of a finite result, where it does not overflow, in the units of the result. -/
theorem toReal_round {negative : Bool} {units : Nat}
    (isFinite : (Exact.finite negative units).round.isFinite) :
    (Exact.finite negative units).round.toReal =
      signed negative (Single.roundedUnits units) * 2 ^ (-298 : ℤ) := by
  have place : (Exact.finite negative units).round = .ofPlace negative (Single.nearestPlace units) :=
    rfl
  by_cases inRange : Single.nearestPlace units < finiteMagnitudes
  · rw [place, Single.ofPlace, dif_pos inRange, Single.toReal_finite]
    rfl
  · rw [place, Single.ofPlace, dif_neg inRange] at isFinite
    cases isFinite

theorem abs_round_sub {negative : Bool} {units : Nat}
    (isFinite : (Exact.finite negative units).round.isFinite) :
    |(Exact.finite negative units).round.toReal - signed negative units * 2 ^ (-298 : ℤ)| =
      |(Single.roundedUnits units : ℤ) - units| * 2 ^ (-298 : ℤ) := by
  rw [toReal_round isFinite, ← sub_mul, abs_mul, abs_of_pos unit_pos, ← Int.cast_sub, ← Int.cast_abs,
    abs_signed_sub]

theorem relative_error {units : Nat}
    (relative : 2 ^ 24 * |(Single.roundedUnits units : ℤ) - units| ≤ units) :
    (|(Single.roundedUnits units : ℤ) - units| : ℤ) * (2 : ℝ) ^ (-298 : ℤ) ≤
      roundoff * (units * 2 ^ (-298 : ℤ)) := by
  have scale : roundoff * 2 ^ 24 = 1 := by
    rw [roundoff]
    norm_num
  have scaled : (2 : ℝ) ^ 24 * (|(Single.roundedUnits units : ℤ) - units| : ℤ) ≤ units := by
    exact_mod_cast relative
  rw [← mul_assoc]
  apply mul_le_mul_of_nonneg_right _ unit_pos.le
  calc ((|(Single.roundedUnits units : ℤ) - units| : ℤ) : ℝ)
      = roundoff * (2 ^ 24 * (|(Single.roundedUnits units : ℤ) - units| : ℤ)) := by
        rw [← mul_assoc, scale, one_mul]
    _ ≤ roundoff * units := mul_le_mul_of_nonneg_left scaled roundoff_pos.le

namespace Holds

variable {exact other : Exact} {number addend : ℝ}

theorem unique (holds : exact.Holds number) (held : exact.Holds addend) : number = addend := by
  obtain ⟨units, isUnits, rfl⟩ := holds
  obtain ⟨others, isOthers, rfl⟩ := held
  rw [Option.some.inj (isUnits.symm.trans isOthers)]

theorem isFinite (holds : exact.Holds number) : exact.isFinite := by
  obtain ⟨units, isUnits, -⟩ := holds
  cases exact with
  | nan => cases isUnits
  | inf negative => cases isUnits
  | finite negative units => rfl

theorem add (first : exact.Holds number) (second : other.Holds addend) :
    (exact.add other).Holds (number + addend) := by
  obtain ⟨units, isUnits, rfl⟩ := first
  obtain ⟨others, isOthers, rfl⟩ := second
  refine ⟨units + others, units?_add isUnits isOthers, ?_⟩
  push_cast
  ring

/-- A finite result and its absolute value as a natural number of units. -/
theorem exists_eq_finite (holds : exact.Holds number) :
    ∃ negative units, exact = .finite negative units ∧
      number = signed negative units * 2 ^ (-298 : ℤ) ∧ |number| = units * 2 ^ (-298 : ℤ) := by
  obtain ⟨total, isTotal, rfl⟩ := holds
  cases exact with
  | nan => cases isTotal
  | inf negative => cases isTotal
  | finite negative units =>
      cases isTotal
      refine ⟨negative, units, rfl, rfl, ?_⟩
      rw [abs_mul, abs_of_pos unit_pos, ← Int.cast_abs, abs_signed, Int.cast_natCast]

/-- A rounding errs by a relative and an absolute part at most. -/
theorem round_error (holds : exact.Holds number) (isFinite : exact.round.isFinite) :
    |exact.round.toReal - number| ≤ roundoff * |number| + underflow := by
  have relative : 0 ≤ roundoff * |number| := mul_nonneg roundoff_pos.le (abs_nonneg number)
  obtain ⟨negative, units, rfl, rfl, size⟩ := holds.exists_eq_finite
  rw [size] at relative
  rw [abs_round_sub isFinite, size]
  by_cases small : Single.droppedBits units = 149
  · have error : ((|(Single.roundedUnits units : ℤ) - units| : ℤ) : ℝ) ≤ 2 ^ 148 := by
      exact_mod_cast Single.roundedUnits_error_of_small small
    have half : (2 : ℝ) ^ 148 * 2 ^ (-298 : ℤ) = underflow := two_pow_mul_zpow rfl
    have absolute := mul_le_mul_of_nonneg_right error unit_pos.le
    linarith
  · exact (relative_error (Single.roundedUnits_error_of_large small)).trans
      (le_add_of_nonneg_right underflow_pos.le)

/-- Sums of singles have nothing to drop below the smallest magnitude. -/
theorem round_error_of_onGrid (holds : exact.Holds number) (isFinite : exact.round.isFinite)
    (grid : exact.OnGrid) : |exact.round.toReal - number| ≤ roundoff * |number| := by
  obtain ⟨negative, units, rfl, rfl, size⟩ := holds.exists_eq_finite
  rw [abs_round_sub isFinite, size]
  apply relative_error
  by_cases small : Single.droppedBits units = 149
  · rw [Single.roundedUnits_of_dvd small grid, sub_self, abs_zero, mul_zero]
    exact Nat.cast_nonneg units
  · exact Single.roundedUnits_error_of_large small

theorem isFinite_round (holds : exact.Holds number) (small : |number| < 2 ^ 127) :
    exact.round.isFinite := by
  obtain ⟨negative, units, rfl, rfl, size⟩ := holds.exists_eq_finite
  have scale : (2 : ℝ) ^ 425 * 2 ^ (-298 : ℤ) = 2 ^ 127 :=
    (two_pow_mul_zpow rfl).trans (zpow_natCast 2 127)
  have bounded : units < 2 ^ 425 := by
    rw [size, ← scale] at small
    exact_mod_cast lt_of_mul_lt_mul_right small unit_pos.le
  change (Single.ofPlace negative (Single.nearestPlace units)).isFinite
  rw [Single.ofPlace, dif_pos (Single.nearestPlace_lt bounded)]
  rfl

end Holds

/-! ## Finite results come from finite operands -/

variable {first second : Exact}

theorem isFinite_of_round (rounded : first.round.isFinite) : first.isFinite := by
  cases first with
  | nan => cases rounded
  | inf negative => cases rounded
  | finite negative units => rfl

theorem isFinite_of_add (sum : (first.add second).isFinite) : first.isFinite ∧ second.isFinite := by
  cases first with
  | nan => cases sum
  | inf s =>
      cases second with
      | nan => cases sum
      | inf t =>
          rw [add] at sum
          split at sum <;> cases sum
      | finite t units => cases sum
  | finite s units =>
      cases second with
      | nan => cases sum
      | inf t => cases sum
      | finite t others => exact ⟨rfl, rfl⟩

theorem isFinite_ofSingle (value : Single) : (ofSingle value).isFinite = value.isFinite := by
  cases value <;> rfl

theorem isFinite_of_product {value factor : Single} (product : (product value factor).isFinite) :
    value.isFinite := by
  cases value with
  | nan => cases product
  | inf s =>
      cases factor with
      | nan => cases product
      | inf t => cases product
      | finite t magnitude =>
          rw [Exact.product] at product
          split at product <;> cases product
  | finite s magnitude => rfl

end Exact

end LaneDot
