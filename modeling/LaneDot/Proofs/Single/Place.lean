import Mathlib
import LaneDot.Single.Basic

/-!
# Magnitudes in order

The value of a place grows with the place, and the values of places are the
numbers with at most 24 digits before their trailing zeros.  A magnitude is
therefore known by its value, and a number is the value of a finite magnitude
exactly when it has few digits and lies below the value of infinity's place.
-/

namespace LaneDot

theorem placeUnits_of_lt {place : Nat} (small : place < 0x800000) : placeUnits place = place :=
  if_pos small

/-- A place is an offset in a block, and each block doubles the spacing. -/
theorem placeUnits_block (block : Nat) {offset : Nat} (inside : offset < 0x800000) :
    placeUnits ((block + 1) * 0x800000 + offset) = (0x800000 + offset) * 2 ^ block := by
  have large : ¬ (block + 1) * 0x800000 + offset < 0x800000 := by omega
  have quotient : ((block + 1) * 0x800000 + offset) / 0x800000 - 1 = block := by omega
  have remainder : ((block + 1) * 0x800000 + offset) % 0x800000 = offset := by omega
  rw [placeUnits, if_neg large, quotient, remainder, Nat.shiftLeft_eq]

theorem exists_block_offset {place : Nat} (large : 0x800000 ≤ place) :
    ∃ block offset, offset < 0x800000 ∧ place = (block + 1) * 0x800000 + offset :=
  ⟨place / 0x800000 - 1, place % 0x800000, Nat.mod_lt _ (by decide), by omega⟩

theorem placeUnits_lt_succ (place : Nat) : placeUnits place < placeUnits (place + 1) := by
  rcases Nat.lt_or_ge (place + 1) 0x800000 with small | large
  · rw [placeUnits_of_lt small, placeUnits_of_lt (by omega)]
    exact Nat.lt_succ_self place
  rcases Nat.lt_or_ge place 0x800000 with small | large
  · have last : place = 0x7FFFFF := by omega
    subst last
    decide
  obtain ⟨block, offset, inside, rfl⟩ := exists_block_offset large
  rw [placeUnits_block block inside]
  rcases Nat.lt_or_ge (offset + 1) 0x800000 with within | beyond
  · rw [Nat.add_assoc, placeUnits_block block within]
    exact Nat.mul_lt_mul_of_pos_right (by omega) (Nat.two_pow_pos block)
  · -- the last place of a block: the next one opens a block with twice the spacing
    have next : (block + 1) * 0x800000 + offset + 1 = (block + 1 + 1) * 0x800000 + 0 := by omega
    rw [next, placeUnits_block (block + 1) (by decide), Nat.pow_succ, Nat.mul_comm (2 ^ block),
      ← Nat.mul_assoc]
    exact Nat.mul_lt_mul_of_pos_right (by omega) (Nat.two_pow_pos block)

theorem placeUnits_strictMono : StrictMono placeUnits :=
  strictMono_nat_of_lt_succ placeUnits_lt_succ

theorem placeUnits_eq_zero_iff {place : Nat} : placeUnits place = 0 ↔ place = 0 := by
  have first : placeUnits 0 = 0 := placeUnits_of_lt (by decide)
  nth_rewrite 1 [← first]
  exact placeUnits_strictMono.injective.eq_iff

theorem Magnitude.units_eq_zero_iff {magnitude : Magnitude} :
    magnitude.units = 0 ↔ magnitude.val = 0 :=
  placeUnits_eq_zero_iff

theorem Magnitude.units_injective : Function.Injective Magnitude.units :=
  fun _ _ same => Fin.ext (placeUnits_strictMono.injective same)

/-- Digits added to the start of their block stand for themselves, also where they fill the block. -/
theorem placeUnits_of_digits {block digits : Nat} (short : digits ≤ 0x1000000)
    (normal : block = 0 ∨ 0x800000 ≤ digits) :
    placeUnits (block * 0x800000 + digits) = digits * 2 ^ block := by
  rcases Nat.lt_or_ge digits 0x800000 with small | large
  · obtain rfl : block = 0 := by omega
    rw [Nat.zero_mul, Nat.zero_add, placeUnits_of_lt small, Nat.pow_zero, Nat.mul_one]
  rcases Nat.lt_or_ge digits 0x1000000 with within | top
  · have place : block * 0x800000 + digits = (block + 1) * 0x800000 + (digits - 0x800000) := by omega
    rw [place, placeUnits_block block (by omega), Nat.add_sub_cancel' large]
  · have full : digits = 0x1000000 := by omega
    have place : block * 0x800000 + digits = (block + 1 + 1) * 0x800000 + 0 := by omega
    rw [place, placeUnits_block (block + 1) (by decide), full, Nat.pow_succ]
    omega

/-- Every number with at most 24 digits before its trailing zeros is the value of a place. -/
theorem exists_placeUnits_eq (shift : Nat) {digits : Nat} (short : digits ≤ 0x1000000) :
    ∃ place, placeUnits place = digits * 2 ^ shift := by
  induction shift generalizing digits with
  | zero => exact ⟨_, placeUnits_of_digits short (Or.inl rfl)⟩
  | succ shift ih =>
      rcases Nat.lt_or_ge digits 0x800000 with small | large
      · obtain ⟨place, value⟩ := ih (by omega : digits * 2 ≤ 0x1000000)
        exact ⟨place, by rw [value, Nat.pow_succ, Nat.mul_assoc, Nat.mul_comm 2]⟩
      · exact ⟨_, placeUnits_of_digits short (Or.inr large)⟩

/-- The place of infinity stands for `2 ^ 128`. -/
theorem placeUnits_finiteMagnitudes : placeUnits finiteMagnitudes = 0x800000 * 2 ^ 254 := by
  have opening : finiteMagnitudes = (254 + 1) * 0x800000 + 0 := rfl
  rw [opening, placeUnits_block 254 (by decide)]

/-- A number with few digits below `2 ^ 128` is the value of a finite magnitude. -/
theorem exists_magnitude_units_eq (shift : Nat) {digits : Nat} (short : digits ≤ 0x1000000)
    (bounded : digits * 2 ^ shift < 0x800000 * 2 ^ 254) :
    ∃ magnitude : Magnitude, magnitude.units = digits * 2 ^ shift := by
  obtain ⟨place, value⟩ := exists_placeUnits_eq shift short
  have inside : place < finiteMagnitudes := by
    apply placeUnits_strictMono.lt_iff_lt.mp
    rw [value, placeUnits_finiteMagnitudes]
    exact bounded
  exact ⟨⟨place, inside⟩, value⟩

end LaneDot
