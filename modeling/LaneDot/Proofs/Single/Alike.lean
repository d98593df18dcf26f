import LaneDot.Proofs.Single.SignedZero

/-!
# Values alike up to the sign of zeros

Two singles are alike if they are one value, or zeros of whatever signs.  What
a zero is added to shows through it, and what it is multiplied with keeps it a
zero or makes it no value at all, both without regard to its sign.  So no
rounded operation tells alike operands apart, special values included.
-/

namespace LaneDot

def SameOrBoth {α : Type} (property : α → Prop) (first second : α) : Prop :=
  first = second ∨ property first ∧ property second

namespace SameOrBoth

variable {α : Type} {property : α → Prop} {first second third : α}

theorem refl (value : α) : SameOrBoth property value value := Or.inl rfl

theorem symm (alike : SameOrBoth property first second) : SameOrBoth property second first := by
  rcases alike with same | ⟨left, right⟩
  · exact Or.inl same.symm
  · exact Or.inr ⟨right, left⟩

theorem trans (left : SameOrBoth property first second)
    (right : SameOrBoth property second third) : SameOrBoth property first third := by
  rcases left with rfl | ⟨start, middle⟩
  · exact right
  rcases right with rfl | ⟨-, finish⟩
  · exact Or.inr ⟨start, middle⟩
  · exact Or.inr ⟨start, finish⟩

end SameOrBoth

def Exact.IsZero (exact : Exact) : Prop :=
  exact = .finite false 0 ∨ exact = .finite true 0

def Exact.Alike (first second : Exact) : Prop :=
  SameOrBoth IsZero first second

def Single.IsZero (value : Single) : Prop :=
  value = zero ∨ value = negZero

/-- The same value, every NaN being one, or two zeros of either sign. -/
def Single.Alike (first second : Single) : Prop :=
  SameOrBoth IsZero first second

namespace Exact

/-! ## Exact results -/

theorem isZero_finite (negative : Bool) : (finite negative 0).IsZero := by
  cases negative with
  | false => exact Or.inl rfl
  | true => exact Or.inr rfl

/-- A zero of either sign leaves what it is added to, up to the sign of a zero. -/
theorem IsZero.add_alike {zero : Exact} (isZero : zero.IsZero) (exact : Exact) :
    (zero.add exact).Alike exact := by
  rcases isZero with rfl | rfl
  · by_cases negative : exact = .finite true 0
    · rw [negative]
      exact Or.inr ⟨isZero_finite false, isZero_finite true⟩
    · exact Or.inl (zero_add negative)
  · exact Or.inl (negZero_add exact)

theorem Alike.add {first first' second second' : Exact} (left : first.Alike first')
    (right : second.Alike second') : (first.add second).Alike (first'.add second') := by
  -- one operand at a time, since two zeros both leave the other operand
  have replace {zero other : Exact} (exact : Exact) (alike : zero.Alike other) :
      (zero.add exact).Alike (other.add exact) := by
    rcases alike with rfl | ⟨isZero, otherIsZero⟩
    · exact .refl _
    · exact (isZero.add_alike exact).trans (otherIsZero.add_alike exact).symm
  refine (replace second left).trans ?_
  rw [add_comm first' second, add_comm first' second']
  exact replace first' right

theorem IsZero.round {zero : Exact} (isZero : zero.IsZero) : zero.round.IsZero := by
  rcases isZero with rfl | rfl
  · exact Or.inl rfl
  · exact Or.inr rfl

theorem Alike.round {first second : Exact} (alike : first.Alike second) :
    first.round.Alike second.round := by
  rcases alike with rfl | ⟨isZero, otherIsZero⟩
  · exact .refl _
  · exact Or.inr ⟨isZero.round, otherIsZero.round⟩

theorem product_comm (a b : Single) : product a b = product b a := by
  cases a with
  | nan => cases b <;> rfl
  | inf s =>
      cases b with
      | nan => rfl
      | inf t => rw [product, product, Bool.xor_comm]
      | finite t magnitude => rw [product, product, Bool.xor_comm]
  | finite s first =>
      cases b with
      | nan => rfl
      | inf t => rw [product, product, Bool.xor_comm]
      | finite t second => rw [product, product, Bool.xor_comm, Nat.mul_comm]

end Exact

namespace Single

/-! ## Rounded operations -/

theorem IsZero.exact {value : Single} (isZero : value.IsZero) : (Exact.ofSingle value).IsZero := by
  rcases isZero with rfl | rfl
  · exact Or.inl Exact.ofSingle_zero
  · exact Or.inr Exact.ofSingle_negZero

/-- A product with a zero is a zero, or no value when the other factor is special. -/
theorem IsZero.product {factor : Single} (isZero : factor.IsZero) (value : Single) :
    if value.isFinite then (Exact.product factor value).IsZero
    else Exact.product factor value = .nan := by
  obtain ⟨negative, rfl⟩ : ∃ negative, factor = .finite negative ⟨0, by decide⟩ := by
    rcases isZero with rfl | rfl
    · exact ⟨false, rfl⟩
    · exact ⟨true, rfl⟩
  cases value with
  | nan => rfl
  | inf t => rfl
  | finite t magnitude =>
      have vanishes : Exact.product (.finite negative ⟨0, by decide⟩) (.finite t magnitude) =
          .finite (negative ^^ t) 0 := congrArg _ (Nat.zero_mul _)
      rw [vanishes]
      exact Exact.isZero_finite _

namespace Alike

variable {a a' b b' c c' : Single}

theorem exact (alike : a.Alike b) : (Exact.ofSingle a).Alike (.ofSingle b) := by
  rcases alike with rfl | ⟨isZero, otherIsZero⟩
  · exact .refl _
  · exact Or.inr ⟨isZero.exact, otherIsZero.exact⟩

theorem product (left : a.Alike a') (right : b.Alike b') :
    (Exact.product a b).Alike (Exact.product a' b') := by
  have replace {factor other : Single} (value : Single) (alike : factor.Alike other) :
      (Exact.product factor value).Alike (Exact.product other value) := by
    rcases alike with rfl | ⟨isZero, otherIsZero⟩
    · exact .refl _
    have first := isZero.product value
    have second := otherIsZero.product value
    by_cases finite : value.isFinite
    · rw [if_pos finite] at first second
      exact Or.inr ⟨first, second⟩
    · rw [if_neg finite] at first second
      exact Or.inl (first.trans second.symm)
  refine (replace b left).trans ?_
  rw [Exact.product_comm a' b, Exact.product_comm a' b']
  exact replace a' right

theorem add (left : a.Alike a') (right : b.Alike b') : (a.add b).Alike (a'.add b') :=
  (left.exact.add right.exact).round

theorem mul (left : a.Alike a') (right : b.Alike b') : (a.mul b).Alike (a'.mul b') :=
  (left.product right).round

theorem mulAdd (left : a.Alike a') (right : b.Alike b') (addend : c.Alike c') :
    (a.mulAdd b c).Alike (a'.mulAdd b' c') :=
  ((left.product right).add addend.exact).round

end Alike

theorem alike_clearZeroSign (value : Single) : value.Alike value.clearZeroSign := by
  unfold clearZeroSign
  split
  · next negative => exact Or.inr ⟨Or.inr negative, Or.inl rfl⟩
  · exact .refl value

end Single

end LaneDot
