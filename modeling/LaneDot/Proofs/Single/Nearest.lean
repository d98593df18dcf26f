import LaneDot.Proofs.Single.Place
import LaneDot.Single.Arithmetic

/-!
# Rounding keeps what a single can hold

The exact value of a single rounds back to that single, so an operation whose
exact result is held by some single returns it.  The nearest place is zero only
below half of the smallest magnitude, so no nonzero whole number of the
smallest units disappears.
-/

namespace LaneDot

/-- A rounded quotient is the quotient or the next integer, whichever is no further away. -/
theorem halfEven_eq_or (numerator denominator : Nat) :
    halfEven numerator denominator = numerator / denominator ∧
        2 * (numerator % denominator) ≤ denominator ∨
      halfEven numerator denominator = numerator / denominator + 1 ∧
        denominator ≤ 2 * (numerator % denominator) := by
  unfold halfEven
  dsimp only
  split
  · exact Or.inl ⟨rfl, by omega⟩
  split
  · exact Or.inr ⟨rfl, by omega⟩
  · rcases Nat.mod_two_eq_zero_or_one (numerator / denominator) with even | odd
    · exact Or.inl ⟨by rw [even, Nat.add_zero], by omega⟩
    · exact Or.inr ⟨by rw [odd], by omega⟩

theorem le_halfEven {numerator denominator bound : Nat} (positive : 0 < denominator)
    (large : bound * denominator ≤ numerator) : bound ≤ halfEven numerator denominator := by
  have quotient : bound ≤ numerator / denominator := (Nat.le_div_iff_mul_le positive).mpr large
  rcases halfEven_eq_or numerator denominator with ⟨down, -⟩ | ⟨up, -⟩
  · exact quotient.trans_eq down.symm
  · exact (Nat.le_succ_of_le quotient).trans_eq up.symm

theorem halfEven_le {numerator denominator bound : Nat} (positive : 0 < denominator)
    (small : numerator < bound * denominator) : halfEven numerator denominator ≤ bound := by
  have quotient : numerator / denominator < bound := (Nat.div_lt_iff_lt_mul positive).mpr small
  rcases halfEven_eq_or numerator denominator with ⟨down, -⟩ | ⟨up, -⟩
  · exact down.trans_le quotient.le
  · exact up.trans_le quotient

namespace Single

/-- The values of the first block of places keep all their digits. -/
theorem droppedBits_of_lt {units : Nat} (small : units < 0x1000000) :
    droppedBits (units * 2 ^ 149) = 149 := by
  rcases Nat.eq_zero_or_pos units with rfl | positive
  · rfl
  have nonzero : units * 2 ^ 149 ≠ 0 := by positivity
  have length : (units * 2 ^ 149).log2 < 24 + 149 := by
    rw [Nat.log2_lt nonzero, Nat.pow_add]
    exact Nat.mul_lt_mul_of_pos_right small (Nat.two_pow_pos 149)
  unfold droppedBits
  omega

/-- A number with exactly 24 leading digits drops what follows them. -/
theorem droppedBits_of_normal {digits : Nat} (lower : 0x800000 ≤ digits)
    (upper : digits < 0x1000000) (block : Nat) :
    droppedBits (digits * 2 ^ block * 2 ^ 149) = block + 149 := by
  have nonzero : digits * 2 ^ block * 2 ^ 149 ≠ 0 := by positivity
  have length : (digits * 2 ^ block * 2 ^ 149).log2 = 23 + (block + 149) := by
    rw [Nat.log2_eq_iff nonzero, Nat.mul_assoc, ← Nat.pow_add, Nat.pow_add 2 23, Nat.add_right_comm,
      Nat.pow_add 2 (23 + 1)]
    exact ⟨Nat.mul_le_mul_right _ lower, Nat.mul_lt_mul_of_pos_right upper (Nat.two_pow_pos _)⟩
  unfold droppedBits
  omega

/-- The value of a place lies nearest to that place. -/
theorem nearestPlace_placeUnits (place : Nat) : nearestPlace (placeUnits place * 2 ^ 149) = place := by
  rcases Nat.lt_or_ge place 0x800000 with small | large
  · rw [placeUnits_of_lt small, nearestPlace, droppedBits_of_lt (by omega)]
    simp only [Nat.one_shiftLeft, halfEven_mul_left place (Nat.two_pow_pos 149)]
    omega
  obtain ⟨block, offset, inside, rfl⟩ := exists_block_offset large
  rw [placeUnits_block block inside, nearestPlace,
    droppedBits_of_normal (Nat.le_add_right _ _) (by omega), Nat.mul_assoc, ← Nat.pow_add]
  simp only [Nat.one_shiftLeft, halfEven_mul_left _ (Nat.two_pow_pos (block + 149))]
  omega

/-- A number of at least the smallest unit does not round to zero. -/
theorem nearestPlace_pos {units : Nat} (large : 2 ^ 149 ≤ units) : 0 < nearestPlace units := by
  have nonzero : units ≠ 0 := by
    have unit : 0 < 2 ^ 149 := Nat.two_pow_pos 149
    omega
  have kept : 2 ^ droppedBits units ≤ units := by
    unfold droppedBits
    rcases max_choice 149 (units.log2 - 23) with least | most
    · rwa [least]
    · rw [most]
      calc 2 ^ (units.log2 - 23) ≤ 2 ^ units.log2 := Nat.pow_le_pow_right (by decide) (Nat.sub_le _ _)
        _ ≤ units := Nat.log2_self_le nonzero
  unfold nearestPlace
  dsimp only
  rw [Nat.one_shiftLeft]
  exact Nat.add_pos_right _ (le_halfEven (Nat.two_pow_pos _) (by rwa [Nat.one_mul]))

def negZero : Single := zero.neg

end Single

namespace Exact

theorem round_ofSingle (value : Single) : (ofSingle value).round = value := by
  cases value with
  | nan => rfl
  | inf negative => rfl
  | finite negative magnitude =>
      rw [ofSingle, round, Nat.shiftLeft_eq, Magnitude.units, Single.nearestPlace_placeUnits,
        Single.ofPlace_val]

theorem ofSingle_injective : Function.Injective ofSingle :=
  Function.LeftInverse.injective round_ofSingle

theorem round_eq_of_ofSingle_eq {value : Single} {exact : Exact} (held : ofSingle value = exact) :
    exact.round = value := by
  rw [← held, round_ofSingle]

/-- A number of few digits on the grid of the singles keeps its sign and value. -/
theorem round_finite_of_short (negative : Bool) (shift : Nat) {digits : Nat}
    (short : digits ≤ 0x1000000) (bounded : digits * 2 ^ shift < 0x800000 * 2 ^ 254) :
    ∃ magnitude : Magnitude, magnitude.units = digits * 2 ^ shift ∧
      (finite negative (digits * 2 ^ shift * 2 ^ 149)).round = .finite negative magnitude := by
  obtain ⟨magnitude, value⟩ := exists_magnitude_units_eq shift short bounded
  refine ⟨magnitude, value, round_eq_of_ofSingle_eq ?_⟩
  rw [ofSingle, Nat.shiftLeft_eq, value]

end Exact

end LaneDot
