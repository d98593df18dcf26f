import LaneDot.Proofs.Single.Nearest

/-!
# The sign of zero

A sum of singles is a negative zero only if both addends are, because exact
sums of singles never round to zero.  Adding a negative zero changes nothing,
and adding a positive zero, or a product of positive zeros, changes a negative
zero to a positive one and nothing else.
-/

namespace LaneDot

theorem Single.ofPlace_eq_finite_iff {negative other : Bool} {place : Nat} {magnitude : Magnitude} :
    ofPlace negative place = .finite other magnitude ↔ negative = other ∧ place = magnitude.val := by
  constructor
  · intro same
    unfold ofPlace at same
    split at same
    · cases same
      exact ⟨rfl, rfl⟩
    · cases same
  · rintro ⟨rfl, rfl⟩
    exact ofPlace_val negative magnitude

namespace Exact

/-! ## Exact sums -/

theorem addFinite_comm (s : Bool) (first : Nat) (t : Bool) (second : Nat) :
    addFinite s first t second = addFinite t second s first := by
  unfold addFinite
  by_cases same : s = t
  · rw [if_pos same, if_pos same.symm, same, Nat.add_comm]
  rw [if_neg same, if_neg (Ne.symm same)]
  rcases Nat.lt_trichotomy first second with less | equal | greater
  · rw [if_neg (Nat.lt_asymm less), if_pos less, if_pos less]
  · simp only [equal, Nat.lt_irrefl, if_false]
  · rw [if_pos greater, if_neg (Nat.lt_asymm greater), if_pos greater]

theorem add_comm (first second : Exact) : first.add second = second.add first := by
  cases first with
  | nan => cases second <;> rfl
  | inf s =>
      cases second with
      | nan => rfl
      | inf t =>
          by_cases same : s = t
          · rw [same]
          · exact (if_neg same).trans (if_neg (Ne.symm same)).symm
      | finite t second => rfl
  | finite s first =>
      cases second with
      | nan => rfl
      | inf t => rfl
      | finite t second => exact addFinite_comm s first t second

theorem negZero_add (exact : Exact) : (finite true 0).add exact = exact := by
  cases exact with
  | nan => rfl
  | inf negative => rfl
  | finite negative units =>
      cases negative with
      | true => exact congrArg (finite true) (Nat.zero_add units)
      | false =>
          rw [add, addFinite_comm, addFinite, if_neg Bool.false_ne_true]
          rcases Nat.eq_zero_or_pos units with zero | positive
          · rw [zero, if_neg (Nat.lt_irrefl 0), if_neg (Nat.lt_irrefl 0)]
          · rw [if_pos positive, Nat.sub_zero]

theorem zero_add {exact : Exact} (other : exact ≠ .finite true 0) :
    (finite false 0).add exact = exact := by
  cases exact with
  | nan => rfl
  | inf negative => rfl
  | finite negative units =>
      cases negative with
      | false => exact congrArg (finite false) (Nat.zero_add units)
      | true =>
          have positive : 0 < units := by
            rcases Nat.eq_zero_or_pos units with zero | positive
            · exact absurd (congrArg (finite true) zero) other
            · exact positive
          rw [add, addFinite, if_neg Bool.false_ne_true, if_neg (Nat.not_lt_zero units),
            if_pos positive, Nat.sub_zero]

theorem addFinite_eq_negZero_iff {s : Bool} {first : Nat} {t : Bool} {second : Nat} :
    addFinite s first t second = .finite true 0 ↔
      (s = true ∧ first = 0) ∧ t = true ∧ second = 0 := by
  unfold addFinite
  by_cases same : s = t
  · rw [if_pos same, finite.injEq, same, Nat.add_eq_zero_iff]
    tauto
  rw [if_neg same]
  split
  · rw [finite.injEq]
    omega
  split
  · rw [finite.injEq]
    omega
  · simp only [finite.injEq, Bool.false_eq_true, false_and, false_iff, not_and]
    rintro ⟨rfl, -⟩ rfl
    exact absurd rfl same

/-- An exact sum is a negative zero exactly when both addends are. -/
theorem add_eq_negZero_iff {first second : Exact} :
    first.add second = .finite true 0 ↔ first = .finite true 0 ∧ second = .finite true 0 := by
  cases first with
  | nan => simp [add]
  | inf s =>
      cases second with
      | nan => simp [add]
      | inf t =>
          rw [add]
          split <;> simp
      | finite t second => simp [add]
  | finite s first =>
      cases second with
      | nan => simp [add]
      | inf t => simp [add]
      | finite t second => rw [add, addFinite_eq_negZero_iff, finite.injEq, finite.injEq]

/-! ## Sums of singles before rounding -/

/-- A whole number of the smallest units of a single. -/
def OnGrid : Exact → Prop
  | .finite _ units => 2 ^ 149 ∣ units
  | _ => True

theorem onGrid_ofSingle (value : Single) : (ofSingle value).OnGrid := by
  cases value with
  | nan => trivial
  | inf negative => trivial
  | finite negative magnitude =>
      exact ⟨magnitude.units, by rw [Nat.shiftLeft_eq, Nat.mul_comm]⟩

theorem onGrid_addFinite {s : Bool} {first : Nat} {t : Bool} {second : Nat}
    (left : 2 ^ 149 ∣ first) (right : 2 ^ 149 ∣ second) :
    (addFinite s first t second).OnGrid := by
  unfold addFinite
  split
  · exact Nat.dvd_add left right
  split
  · exact Nat.dvd_sub left right
  split
  · exact Nat.dvd_sub right left
  · exact Nat.dvd_zero _

theorem OnGrid.add {first second : Exact} (left : first.OnGrid) (right : second.OnGrid) :
    (first.add second).OnGrid := by
  cases first with
  | nan => cases second <;> trivial
  | inf s =>
      cases second with
      | nan => trivial
      | inf t => rw [Exact.add]; split <;> trivial
      | finite t second => trivial
  | finite s first =>
      cases second with
      | nan => trivial
      | inf t => trivial
      | finite t second => exact onGrid_addFinite left right

/-- On the grid only an exact negative zero rounds to a negative zero. -/
theorem OnGrid.round_eq_negZero_iff {exact : Exact} (grid : exact.OnGrid) :
    exact.round = Single.negZero ↔ exact = .finite true 0 := by
  constructor
  · intro rounded
    cases exact with
    | nan => cases rounded
    | inf negative => cases rounded
    | finite negative units =>
        obtain ⟨sign, place⟩ := Single.ofPlace_eq_finite_iff.mp rounded
        have vanishes : units = 0 := by
          by_contra nonzero
          have large := Nat.le_of_dvd (Nat.pos_of_ne_zero nonzero) grid
          exact absurd place (Nat.ne_of_gt (Single.nearestPlace_pos large))
        rw [sign, vanishes]
        rfl
  · rintro rfl
    rfl

theorem ofSingle_zero : ofSingle .zero = .finite false 0 := rfl

theorem ofSingle_negZero : ofSingle .negZero = .finite true 0 := rfl

end Exact

namespace Single

/-! ## Rounded sums -/

theorem add_comm (a b : Single) : a.add b = b.add a := by
  rw [add, add, Exact.add_comm]

theorem negZero_add (value : Single) : negZero.add value = value := by
  rw [add, Exact.ofSingle_negZero, Exact.negZero_add, Exact.round_ofSingle]

theorem add_eq_negZero_iff {a b : Single} : a.add b = negZero ↔ a = negZero ∧ b = negZero := by
  have grid := (Exact.onGrid_ofSingle a).add (Exact.onGrid_ofSingle b)
  rw [add, grid.round_eq_negZero_iff, Exact.add_eq_negZero_iff, ← Exact.ofSingle_negZero,
    Exact.ofSingle_injective.eq_iff, Exact.ofSingle_injective.eq_iff]

def clearZeroSign (value : Single) : Single :=
  if value = negZero then zero else value

theorem clearZeroSign_of_ne {value : Single} (other : value ≠ negZero) :
    value.clearZeroSign = value :=
  if_neg other

theorem clearZeroSign_ne_negZero (value : Single) : value.clearZeroSign ≠ negZero := by
  unfold clearZeroSign
  split
  · decide
  · assumption

theorem clearZeroSign_clearZeroSign (value : Single) :
    value.clearZeroSign.clearZeroSign = value.clearZeroSign :=
  clearZeroSign_of_ne value.clearZeroSign_ne_negZero

theorem round_zero_add (value : Single) :
    ((Exact.finite false 0).add (.ofSingle value)).round = value.clearZeroSign := by
  by_cases zero : value = negZero
  · rw [zero]
    rfl
  · have other : Exact.ofSingle value ≠ .finite true 0 := by
      intro same
      exact zero (Exact.ofSingle_injective (same.trans Exact.ofSingle_negZero.symm))
    rw [Exact.zero_add other, Exact.round_ofSingle, clearZeroSign_of_ne zero]

theorem zero_add (value : Single) : zero.add value = value.clearZeroSign := by
  rw [add, Exact.ofSingle_zero, round_zero_add]

/-- A fused step on two positive zeros clears the sign of a zero accumulator. -/
theorem mulAdd_zero_zero (value : Single) : zero.mulAdd zero value = value.clearZeroSign :=
  round_zero_add value

/-! ## Values that differ in the sign of a negative zero -/

/-- The second value is the first one, or the positive zero where the first is a negative zero. -/
def ClearsTo (value cleared : Single) : Prop :=
  cleared = value ∨ cleared = value.clearZeroSign

namespace ClearsTo

variable {a b cleared others : Single}

theorem refl (value : Single) : value.ClearsTo value := Or.inl rfl

theorem clearZeroSign (value : Single) : value.ClearsTo value.clearZeroSign := Or.inr rfl

theorem eq_or (related : a.ClearsTo cleared) :
    cleared = a ∨ a = negZero ∧ cleared = zero := by
  by_cases zero : a = negZero
  · rcases related with same | other
    · exact Or.inl same
    · exact Or.inr ⟨zero, by rw [other, zero]; rfl⟩
  · rcases related with same | other
    · exact Or.inl same
    · exact Or.inl (other.trans (clearZeroSign_of_ne zero))

theorem zero_add (related : b.ClearsTo others) : b.ClearsTo (zero.add others) := by
  rw [Single.zero_add]
  rcases related with same | other
  · rw [same]
    exact clearZeroSign b
  · rw [other, clearZeroSign_clearZeroSign]
    exact clearZeroSign b

/-- Clearing addends can only clear the sum. -/
theorem add (first : a.ClearsTo cleared) (second : b.ClearsTo others) :
    (a.add b).ClearsTo (cleared.add others) := by
  rcases first.eq_or with rfl | ⟨rfl, rfl⟩
  · rcases second.eq_or with rfl | ⟨rfl, rfl⟩
    · exact refl _
    · rw [Single.add_comm cleared, Single.add_comm cleared, negZero_add]
      exact (refl cleared).zero_add
  · rw [negZero_add]
    exact second.zero_add

end ClearsTo

end Single

end LaneDot
