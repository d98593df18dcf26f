import LaneDot.Proofs.Single.Alike
import LaneDot.Proofs.Single.RoundingError

/-!
# Rounding is monotone

A larger exact result never rounds to a smaller single: the place of the
nearest magnitude grows with the number of units, also where it moves to a
coarser block, and past the last magnitude lies infinity.  Results are compared
as extended real numbers, so the sign of a zero does not count, and a NaN is
compared with nothing.
-/

namespace LaneDot

/-! ## Nearest places in order -/

theorem halfEven_mono {numerator larger denominator : Nat} (positive : 0 < denominator)
    (order : numerator ≤ larger) : halfEven numerator denominator ≤ halfEven larger denominator := by
  rcases Nat.lt_or_eq_of_le (Nat.div_le_div_right (c := denominator) order) with less | same
  · have below : halfEven numerator denominator ≤ numerator / denominator + 1 :=
      halfEven_le positive (Nat.lt_mul_of_div_lt (Nat.lt_succ_self _) positive)
    exact below.trans (le_halfEven positive ((Nat.le_div_iff_mul_le positive).mp less))
  · -- between the same neighbours only the remainders count
    have parts := Nat.div_add_mod numerator denominator
    have others := Nat.div_add_mod larger denominator
    rw [← same] at others
    have remainders : numerator % denominator ≤ larger % denominator := by omega
    simp only [halfEven, ← same]
    split_ifs <;> omega

namespace Single

theorem droppedBits_mono {units larger : Nat} (order : units ≤ larger) :
    droppedBits units ≤ droppedBits larger := by
  have lengths : units.log2 ≤ larger.log2 := by
    simp only [Nat.log2_eq_log_two]
    exact Nat.log_mono_right order
  unfold droppedBits
  omega

theorem nearestPlace_eq (units : Nat) :
    nearestPlace units =
      (droppedBits units - 149) * 0x800000 + halfEven units (2 ^ droppedBits units) := by
  rw [← Nat.one_shiftLeft]
  rfl

/-- A number with more bits to drop lies in a later block, where the places are larger. -/
theorem nearestPlace_mono {units larger : Nat} (order : units ≤ larger) :
    nearestPlace units ≤ nearestPlace larger := by
  have least : 149 ≤ droppedBits units := le_max_left _ _
  rw [nearestPlace_eq, nearestPlace_eq]
  rcases Nat.lt_or_eq_of_le (droppedBits_mono order) with less | same
  · have full : halfEven units (2 ^ droppedBits units) ≤ 0x1000000 :=
      halfEven_le (Nat.two_pow_pos _) (lt_two_pow_droppedBits units)
    have normal : 0x800000 ≤ halfEven larger (2 ^ droppedBits larger) :=
      le_halfEven (Nat.two_pow_pos _) (two_pow_droppedBits_le (by omega))
    omega
  · rw [← same]
    exact Nat.add_le_add_left (halfEven_mono (Nat.two_pow_pos _) order) _

/-- The place of a rounded number, with its sign, grows with the number. -/
theorem signed_nearestPlace_mono {s t : Bool} {first second : Nat}
    (order : signed s first ≤ signed t second) :
    signed s (nearestPlace first) ≤ signed t (nearestPlace second) := by
  have none : nearestPlace 0 = 0 := rfl
  cases s <;> cases t <;> simp only [signed] at order ⊢
  · exact_mod_cast nearestPlace_mono (by omega : first ≤ second)
  · -- a number that is not negative is at most one that is not positive: both are zero
    obtain rfl : first = 0 := by omega
    obtain rfl : second = 0 := by omega
    rw [none]
    rfl
  · omega
  · have larger := nearestPlace_mono (by omega : second ≤ first)
    omega

end Single

/-! ## Extended values -/

namespace Single

/-- The extended value of a place without a sign; past the last magnitude lies infinity. -/
noncomputable def placeValue (place : Nat) : EReal :=
  if inRange : place < finiteMagnitudes then (finite false ⟨place, inRange⟩).toReal else ⊤

theorem toReal_finite_true (magnitude : Magnitude) :
    (finite true magnitude).toReal = -(finite false magnitude).toReal := by
  rw [toReal, toReal, signed, signed, Int.cast_neg, neg_mul]

theorem toReal_finite_mono {first second : Magnitude} (order : first ≤ second) :
    (finite false first).toReal ≤ (finite false second).toReal := by
  have units : first.units ≤ second.units := placeUnits_strictMono.monotone order
  rw [toReal, toReal, signed, signed]
  exact mul_le_mul_of_nonneg_right (by exact_mod_cast units) (zpow_nonneg zero_le_two _)

theorem placeValue_mono : Monotone placeValue := by
  intro place further order
  unfold placeValue
  by_cases inRange : further < finiteMagnitudes
  · rw [dif_pos inRange, dif_pos (order.trans_lt inRange), EReal.coe_le_coe_iff]
    exact toReal_finite_mono (Fin.mk_le_mk.mpr order)
  · rw [dif_neg inRange]
    exact le_top

theorem placeValue_zero : placeValue 0 = 0 :=
  congrArg Real.toEReal toReal_zero

theorem extended_ofPlace (negative : Bool) (place : Nat) :
    (ofPlace negative place).extended =
      some (if negative then -placeValue place else placeValue place) := by
  unfold ofPlace placeValue
  split
  · next inRange =>
      cases negative with
      | false => rfl
      | true =>
          rw [extended, toReal_finite_true, EReal.coe_neg]
          rfl
  · cases negative with
    | false => rfl
    | true => rfl

/-- Places in the order of their signed numbers have values in that order. -/
theorem extended_ofPlace_le {s t : Bool} {first second : Nat}
    (order : signed s first ≤ signed t second) :
    ∀ u ∈ (ofPlace s first).extended, ∀ v ∈ (ofPlace t second).extended, u ≤ v := by
  have nonneg (place : Nat) : 0 ≤ placeValue place :=
    placeValue_zero ▸ placeValue_mono place.zero_le
  simp only [extended_ofPlace, Option.mem_def, Option.some.injEq, forall_eq']
  -- places do not carry signs, so the order of the signs is an argument of its own
  cases s <;> cases t <;> simp only [signed] at order
  · exact placeValue_mono (by omega)
  · obtain rfl : first = 0 := by omega
    obtain rfl : second = 0 := by omega
    simp [placeValue_zero]
  · exact (EReal.neg_le_zero.mpr (nonneg first)).trans (nonneg second)
  · exact EReal.neg_le_neg_iff.mpr (placeValue_mono (by omega))

end Single

namespace Exact

variable {exact first second : Exact} {number : ℝ}

theorem Holds.extended (holds : exact.Holds number) : exact.extended = some (number : EReal) := by
  obtain ⟨negative, units, rfl, rfl, -⟩ := holds.exists_eq_finite
  rfl

theorem holds_finite (negative : Bool) (units : Nat) :
    (finite negative units).Holds (signed negative units * 2 ^ (-298 : ℤ)) :=
  ⟨_, rfl, rfl⟩

theorem extended_ofSingle (value : Single) : (ofSingle value).extended = value.extended := by
  cases value with
  | nan => rfl
  | inf negative => cases negative <;> rfl
  | finite negative magnitude => exact (holds_ofSingle rfl).extended

/-- The value of a sum is the sum of the values; there is none where opposite infinities meet. -/
theorem exists_extended_add {total : EReal} (value : (first.add second).extended = some total) :
    ∃ u v, first.extended = some u ∧ second.extended = some v ∧ total = u + v := by
  cases first with
  | nan => cases value
  | inf s =>
      cases second with
      | nan => cases value
      | inf t =>
          rw [add] at value
          split at value
          · next same =>
              subst same
              cases s <;> cases value <;> exact ⟨_, _, rfl, rfl, rfl⟩
          · cases value
      | finite t units =>
          cases s <;> cases value
          · exact ⟨_, _, rfl, rfl, (EReal.top_add_coe _).symm⟩
          · exact ⟨_, _, rfl, rfl, (EReal.bot_add _).symm⟩
  | finite s units =>
      cases second with
      | nan => cases value
      | inf t =>
          cases t <;> cases value
          · exact ⟨_, _, rfl, rfl, (EReal.coe_add_top _).symm⟩
          · exact ⟨_, _, rfl, rfl, (EReal.add_bot _).symm⟩
      | finite t others =>
          have sum := ((holds_finite s units).add (holds_finite t others)).extended
          rw [value, Option.some.injEq] at sum
          exact ⟨_, _, rfl, rfl, sum.trans (EReal.coe_add _ _)⟩

/-! ## Results in order -/

/-- The first result is at most the second, unless one of them is no value. -/
def AtMost (first second : Exact) : Prop :=
  ∀ u ∈ first.extended, ∀ v ∈ second.extended, u ≤ v

theorem AtMost.add {first' second' : Exact} (left : first.AtMost first')
    (right : second.AtMost second') : (first.add second).AtMost (first'.add second') := by
  intro total isTotal total' isTotal'
  obtain ⟨u, v, isU, isV, rfl⟩ := exists_extended_add isTotal
  obtain ⟨u', v', isU', isV', rfl⟩ := exists_extended_add isTotal'
  exact add_le_add (left u isU u' isU') (right v isV v' isV')

theorem atMost_round_finite {s t : Bool} {units others : Nat}
    (order : (finite s units).AtMost (finite t others)) :
    (ofSingle (finite s units).round).AtMost (ofSingle (finite t others).round) := by
  have values := EReal.coe_le_coe_iff.mp (order _ rfl _ rfl)
  have numbers : signed s units ≤ signed t others := by
    exact_mod_cast le_of_mul_le_mul_right values unit_pos
  simp only [AtMost, extended_ofSingle]
  exact Single.extended_ofPlace_le (Single.signed_nearestPlace_mono numbers)

/-- Infinities are not rounded, and a finite result rounds to nothing beyond them. -/
theorem AtMost.round (order : first.AtMost second) :
    (ofSingle first.round).AtMost (ofSingle second.round) := by
  cases first with
  | nan => exact fun u isU => nomatch isU
  | inf s =>
      cases second with
      | nan => exact fun u isU v isV => nomatch isV
      | inf t => exact order
      | finite t others =>
          cases s with
          | false => exact absurd (order _ rfl _ rfl) (not_le.mpr (EReal.coe_lt_top _))
          | true =>
              rintro _ ⟨⟩ v -
              exact bot_le
  | finite s units =>
      cases second with
      | nan => exact fun u isU v isV => nomatch isV
      | inf t =>
          cases t with
          | false =>
              rintro u - _ ⟨⟩
              exact le_top
          | true => exact absurd (order _ rfl _ rfl) (not_le.mpr (EReal.bot_lt_coe _))
      | finite t others => exact atMost_round_finite order

/-! ## Results of equal value -/

/-- Finite results of one value are alike: they can only differ in the sign of a zero. -/
theorem Holds.alike (holds : first.Holds number) (held : second.Holds number) :
    first.Alike second := by
  obtain ⟨s, units, rfl, value, -⟩ := holds.exists_eq_finite
  obtain ⟨t, others, rfl, other, -⟩ := held.exists_eq_finite
  have numbers : signed s units = signed t others := by
    exact_mod_cast mul_right_cancel₀ unit_pos.ne' (value.symm.trans other)
  obtain ⟨rfl, rfl | rfl⟩ := signed_eq_signed numbers
  · exact .refl _
  · exact Or.inr ⟨isZero_finite s, isZero_finite t⟩

end Exact

namespace Single

theorem IsZero.extended_eq {value : Single} (isZero : value.IsZero) : value.extended = some 0 := by
  rcases isZero with rfl | rfl
  · exact congrArg (fun number : ℝ => some (number : EReal)) toReal_zero
  · exact congrArg (fun number : ℝ => some (number : EReal)) toReal_negZero

theorem Alike.extended_eq {a b : Single} (alike : a.Alike b) : a.extended = b.extended := by
  rcases alike with rfl | ⟨first, second⟩
  · rfl
  · rw [first.extended_eq, second.extended_eq]

theorem exists_extended {value : Single} (isValue : value ≠ .nan) :
    ∃ number, value.extended = some number := by
  cases value with
  | nan => exact absurd rfl isValue
  | inf negative => cases negative <;> exact ⟨_, rfl⟩
  | finite negative magnitude => exact ⟨_, rfl⟩

end Single

end LaneDot
