import LaneDot.Proofs.Code.Decoding
import LaneDot.Proofs.Single.Alike
import LaneDot.Proofs.Single.RoundingError

/-!
# Special values show

A NaN or an infinity among the operands of an addition or a rounding is seen in
the result: a NaN as a NaN, and an infinity as itself or as a NaN.  Seeing is
transitive, so it does not matter how many steps follow, and two opposite
infinities can only both be seen in a NaN, wherever they meet.
-/

namespace LaneDot

namespace Exact

/-- What is special about an operand is seen in a result; a finite operand need not be. -/
def Shows (result operand : Exact) : Prop :=
  match operand with
  | .nan => result = .nan
  | .inf negative => result = .nan ∨ result = .inf negative
  | .finite _ _ => True

variable {result operand other : Exact}

theorem Shows.refl (exact : Exact) : exact.Shows exact := by
  cases exact with
  | nan => rfl
  | inf negative => exact Or.inr rfl
  | finite negative units => trivial

theorem Shows.trans (outer : result.Shows operand) (inner : operand.Shows other) :
    result.Shows other := by
  cases other with
  | nan =>
      obtain rfl : operand = .nan := inner
      exact outer
  | inf negative =>
      rcases inner with rfl | rfl
      · exact Or.inl outer
      · exact outer
  | finite negative units => trivial

/-- Results that agree up to the sign of zeros show the same. -/
theorem Alike.shows (alike : result.Alike operand) : result.Shows operand := by
  rcases alike with rfl | ⟨-, rfl | rfl⟩
  · exact .refl _
  · trivial
  · trivial

theorem add_shows_left (first second : Exact) : (first.add second).Shows first := by
  cases first with
  | nan => rfl
  | inf s =>
      cases second with
      | nan => exact Or.inl rfl
      | inf t =>
          rw [add]
          split
          · exact Or.inr rfl
          · exact Or.inl rfl
      | finite t units => exact Or.inr rfl
  | finite s units => trivial

theorem add_shows_right (first second : Exact) : (first.add second).Shows second := by
  rw [add_comm]
  exact add_shows_left second first

theorem round_shows (exact : Exact) : (ofSingle exact.round).Shows exact := by
  cases exact with
  | nan => rfl
  | inf negative => exact Or.inr rfl
  | finite negative units => trivial

/-- Infinities of both signs are only seen in a NaN. -/
theorem Shows.eq_nan_of_opposite {s t : Bool} (opposite : s ≠ t) (first : result.Shows (.inf s))
    (second : result.Shows (.inf t)) : result = .nan := by
  rcases first with nan | isFirst
  · exact nan
  rcases second with nan | isSecond
  · exact nan
  · rw [isFirst] at isSecond
    exact absurd (Exact.inf.inj isSecond) opposite

/-- The product of an infinity and a code is special: it is no value for the codes of zero. -/
theorem product_inf_value (negative : Bool) (code : Code) :
    product (.inf negative) code.value =
      if code.units = 0 then .nan else .inf (negative ^^ code.isNegative) := by
  obtain ⟨magnitude, value, decoded⟩ := code.exists_decode_eq
  rw [← code.decode_eq_value, decoded, product]
  have zeros : magnitude.val = 0 ↔ code.units = 0 := by
    rw [← Magnitude.units_eq_zero_iff, value, Nat.mul_eq_zero]
    exact or_iff_left (Nat.two_pow_pos 125).ne'
  simp only [zeros]

end Exact

namespace Single

def Shows (value : Single) (operand : Exact) : Prop :=
  (Exact.ofSingle value).Shows operand

variable {value : Single}

theorem Shows.trans {result : Single} {operand : Single} {other : Exact}
    (outer : result.Shows (.ofSingle operand)) (inner : operand.Shows other) : result.Shows other :=
  Exact.Shows.trans outer inner

theorem Shows.eq_nan (shown : value.Shows .nan) : value = .nan := by
  cases value with
  | nan => rfl
  | inf negative => cases shown
  | finite negative magnitude => cases shown

theorem Shows.eq_or (negative : Bool) (shown : value.Shows (.inf negative)) :
    value = .nan ∨ value = .inf negative := by
  rcases shown with nan | same
  · exact Or.inl (Shows.eq_nan nan)
  · cases value with
    | nan => cases same
    | inf s => exact Or.inr (congrArg inf (Exact.inf.inj same))
    | finite s magnitude => cases same

/-- A finite single shows only finite operands. -/
theorem Shows.isFinite {operand : Exact} (shown : value.Shows operand) (finite : value.isFinite) :
    operand.isFinite := by
  cases operand with
  | nan =>
      rw [Shows.eq_nan shown] at finite
      cases finite
  | inf negative =>
      rcases Shows.eq_or negative shown with rfl | rfl
      · cases finite
      · cases finite
  | finite negative units => rfl

theorem add_shows_left (a b : Single) : (a.add b).Shows (.ofSingle a) :=
  (Exact.round_shows _).trans (Exact.add_shows_left _ _)

theorem add_shows_right (a b : Single) : (a.add b).Shows (.ofSingle b) :=
  (Exact.round_shows _).trans (Exact.add_shows_right _ _)

theorem mul_shows (a b : Single) : (a.mul b).Shows (.product a b) :=
  Exact.round_shows _

theorem mulAdd_shows_product (a b c : Single) : (a.mulAdd b c).Shows (.product a b) :=
  (Exact.round_shows _).trans (Exact.add_shows_left _ _)

theorem mulAdd_shows_addend (a b c : Single) : (a.mulAdd b c).Shows (.ofSingle c) :=
  (Exact.round_shows _).trans (Exact.add_shows_right _ _)

theorem Alike.shows {a b : Single} (alike : a.Alike b) : a.Shows (.ofSingle b) :=
  alike.exact.shows

end Single

end LaneDot
