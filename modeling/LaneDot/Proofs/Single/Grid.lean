import LaneDot.Proofs.Single.SignedZero

/-!
# Arithmetic on a grid

The multiples of a power of two, up to `2 ^ 24` of them on either side of zero,
are singles as long as the power is in range.  An operation whose exact result
lies on such a grid does not round, and sums that start at a value other than
negative zero never reach it.
-/

namespace LaneDot

namespace Exact

/-- Adding finite results adds their units. -/
theorem units?_add {first second : Exact} {a b : Int} (left : first.units? = some a)
    (right : second.units? = some b) : (first.add second).units? = some (a + b) := by
  cases first with
  | nan => cases left
  | inf negative => cases left
  | finite s first =>
      cases second with
      | nan => cases right
      | inf negative => cases right
      | finite t second =>
          cases left
          cases right
          exact units?_addFinite s first t second

end Exact

theorem abs_signed (negative : Bool) (units : Nat) : |signed negative units| = units := by
  cases negative with
  | false => exact Nat.abs_cast units
  | true => exact (abs_neg _).trans (Nat.abs_cast units)

/-- A spacing, in units of `2 ^ -298`, at which singles hold all numbers of 24 digits. -/
structure Grid where
  spacing : Nat
  least : 149 ≤ spacing
  most : spacing ≤ 401

namespace Grid

variable (grid : Grid)

def step : Int := 2 ^ grid.spacing

def limit : Int := 2 ^ (grid.spacing + 24)

/-- A result on the grid is held by a single, its sign included. -/
theorem ofSingle_round {exact : Exact} {units : Int} (value : exact.units? = some units)
    (multiple : grid.step ∣ units) (bound : |units| ≤ grid.limit) :
    Exact.ofSingle exact.round = exact := by
  cases exact with
  | nan => rfl
  | inf negative => rfl
  | finite negative total =>
      cases value
      have least := grid.least
      have most := grid.most
      have apart : grid.spacing - 149 + 149 = grid.spacing := Nat.sub_add_cancel least
      rw [← dvd_abs, abs_signed, step] at multiple
      rw [abs_signed, limit] at bound
      obtain ⟨digits, rfl⟩ : 2 ^ grid.spacing ∣ total := by exact_mod_cast multiple
      have small : 2 ^ grid.spacing * digits ≤ 2 ^ (grid.spacing + 24) := by exact_mod_cast bound
      have short : digits ≤ 0x1000000 := by
        rw [Nat.pow_add] at small
        exact Nat.le_of_mul_le_mul_left small (Nat.two_pow_pos _)
      have bounded : digits * 2 ^ (grid.spacing - 149) < 0x800000 * 2 ^ 254 :=
        calc digits * 2 ^ (grid.spacing - 149) ≤ 0x1000000 * 2 ^ 252 :=
              Nat.mul_le_mul short (Nat.pow_le_pow_right (by decide) (by omega))
          _ < 0x800000 * 2 ^ 254 := by decide
      have whole : digits * 2 ^ (grid.spacing - 149) * 2 ^ 149 = 2 ^ grid.spacing * digits := by
        rw [Nat.mul_assoc, ← Nat.pow_add, apart, Nat.mul_comm]
      obtain ⟨magnitude, units, held⟩ := Exact.round_finite_of_short negative _ short bounded
      rw [whole] at held
      rw [held, Exact.ofSingle, units, Nat.shiftLeft_eq, whole]

/--
A single, not a negative zero, that holds a number of the grid whose absolute
value is at most a weight.  The weight of a sum is the sum of the weights.
-/
structure Within (value : Single) (units weight : Int) : Prop where
  holds : (Exact.ofSingle value).units? = some units
  multiple : grid.step ∣ units
  bound : |units| ≤ weight
  sign : value ≠ Single.negZero

variable {grid} {a b : Single} {first second weight other : Int}

theorem within_zero : grid.Within .zero 0 0 where
  holds := rfl
  multiple := dvd_zero _
  bound := Int.le_of_eq abs_zero
  sign := by decide

/-- Adding an exact number of the grid does not round while the weights fit. -/
theorem Within.add_exact (acc : grid.Within a first weight) {exact : Exact}
    (value : exact.units? = some second) (multiple : grid.step ∣ second) (bound : |second| ≤ other)
    (room : weight + other ≤ grid.limit) :
    grid.Within ((Exact.ofSingle a).add exact).round (first + second) (weight + other) := by
  have total : ((Exact.ofSingle a).add exact).units? = some (first + second) :=
    Exact.units?_add acc.holds value
  have multiples : grid.step ∣ first + second := dvd_add acc.multiple multiple
  have size : |first + second| ≤ weight + other :=
    calc |first + second| ≤ |first| + |second| := abs_add_le first second
      _ ≤ weight + other := add_le_add acc.bound bound
  have held := grid.ofSingle_round total multiples (size.trans room)
  refine ⟨by rw [held, total], multiples, size, ?_⟩
  -- the exact sum is a negative zero only if the accumulator already was
  intro negative
  apply acc.sign
  rw [negative, Exact.ofSingle_negZero] at held
  exact Exact.ofSingle_injective (Exact.add_eq_negZero_iff.mp held.symm).1

theorem Within.add (acc : grid.Within a first weight) (addend : grid.Within b second other)
    (room : weight + other ≤ grid.limit) :
    grid.Within (a.add b) (first + second) (weight + other) :=
  acc.add_exact addend.holds addend.multiple addend.bound room

end Grid

end LaneDot
