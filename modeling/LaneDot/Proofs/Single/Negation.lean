import LaneDot.Proofs.Single.Alike
import LaneDot.Proofs.Code.Decoding

/-!
# Flipping signs

Products and roundings treat the sign of a value apart from its size, so they
pass a flipped sign on as it is.  A sum of flipped addends is the flipped sum,
except that addends which cancel leave a positive zero either way: sums are
symmetric up to the sign of a zero only.
-/

namespace LaneDot

/-! ## Sign bits -/

/-- Flipping the top bit of a word moves it by the weight of that bit. -/
theorem xor_two_pow_top {number top : Nat} (word : number < 2 ^ top * 2) :
    number ^^^ 2 ^ top = if number < 2 ^ top then number + 2 ^ top else number - 2 ^ top := by
  have weight : 0 < 2 ^ top := Nat.two_pow_pos top
  have low : (number ^^^ 2 ^ top) % 2 ^ top = number % 2 ^ top := by
    rw [Nat.xor_mod_two_pow, Nat.mod_self, Nat.xor_zero]
  have high : (number ^^^ 2 ^ top) / 2 ^ top = number / 2 ^ top ^^^ 1 := by
    rw [Nat.xor_div_two_pow, Nat.div_self weight]
  have whole := Nat.div_add_mod (number ^^^ 2 ^ top) (2 ^ top)
  rw [low, high] at whole
  rcases Nat.lt_or_ge number (2 ^ top) with clear | set
  · rw [if_pos clear, ← whole, Nat.div_eq_of_lt clear, Nat.mod_eq_of_lt clear, Nat.zero_xor,
      Nat.mul_one, Nat.add_comm]
  · have one : number / 2 ^ top = 1 := Nat.div_eq_of_lt_le (by omega) (by omega)
    rw [if_neg (Nat.not_lt.mpr set), ← whole, one, Nat.xor_self, Nat.mul_zero, Nat.zero_add,
      Nat.mod_eq_sub_mod set, Nat.mod_eq_of_lt (by omega)]

namespace Code

theorem toNat_bits_neg (code : Code) :
    code.neg.bits.toNat =
      if code.bits.toNat < 0x8000 then code.bits.toNat + 0x8000 else code.bits.toNat - 0x8000 := by
  have bound : code.bits.toNat < 2 ^ 15 * 2 := code.bits.toNat_lt
  have mask : (0x8000 : UInt16).toNat = 2 ^ 15 := rfl
  rw [neg, UInt16.toNat_xor, mask]
  exact xor_two_pow_top bound

theorem isNegative_neg (code : Code) : code.neg.isNegative = !code.isNegative := by
  have bound := code.bits.toNat_lt
  rw [isNegative, isNegative, toNat_bits_neg, ← decide_not, decide_eq_decide]
  split <;> omega

/-- Flipping the top bit of a code keeps its magnitude. -/
theorem units_neg (code : Code) : code.neg.units = code.units := by
  have exponent : code.neg.exponentField = code.exponentField := by
    rw [exponentField, exponentField, toNat_bits_neg]
    split <;> omega
  have mantissa : code.neg.mantissaField = code.mantissaField := by
    rw [mantissaField, mantissaField, toNat_bits_neg]
    split <;> omega
  rw [units, units, exponent, mantissa]

end Code

namespace Single

/-- The value whose pattern differs in the sign bit; a NaN stays one. -/
def flipSign (value : Single) : Single :=
  .ofBits (value.toBits ^^^ 0x80000000)

theorem ofPlace_not (negative : Bool) (place : Nat) :
    ofPlace (!negative) place = (ofPlace negative place).neg := by
  unfold ofPlace
  split <;> rfl

theorem toNat_flip (bits : UInt32) :
    (bits ^^^ 0x80000000).toNat =
      if bits.toNat < 0x80000000 then bits.toNat + 0x80000000 else bits.toNat - 0x80000000 := by
  have bound : bits.toNat < 2 ^ 31 * 2 := bits.toNat_lt
  have mask : (0x80000000 : UInt32).toNat = 2 ^ 31 := rfl
  rw [UInt32.toNat_xor, mask]
  exact xor_two_pow_top bound

/-- A pattern with its sign bit flipped stands for the negated value. -/
theorem ofBits_flip (bits : UInt32) : ofBits (bits ^^^ 0x80000000) = (ofBits bits).neg := by
  have bound := bits.toNat_lt
  have low : (bits ^^^ 0x80000000).toNat % 0x80000000 = bits.toNat % 0x80000000 := by
    rw [toNat_flip]
    split <;> omega
  have high : decide (0x80000000 ≤ (bits ^^^ 0x80000000).toNat) =
      !decide (0x80000000 ≤ bits.toNat) := by
    rw [toNat_flip, ← decide_not, decide_eq_decide]
    split <;> omega
  simp only [ofBits, low, high, ofPlace_not]
  split <;> rfl

theorem flipSign_eq_neg (value : Single) : value.flipSign = value.neg := by
  rw [flipSign, ofBits_flip, ofBits_toBits]

/-- Negating a value that is not a NaN flips the sign bit of its pattern and no other. -/
theorem toBits_neg {value : Single} (isValue : value ≠ .nan) :
    value.neg.toBits = value.toBits ^^^ 0x80000000 := by
  cases value with
  | nan => exact absurd rfl isValue
  | inf negative => cases negative <;> rfl
  | finite negative magnitude =>
      have bound : magnitude.val < 0x7F800000 := magnitude.isLt
      have pattern (negative : Bool) : (finite negative magnitude).toBits.toNat =
          signWeight negative + magnitude.val :=
        UInt32.toNat_ofNat_of_lt' (by
          rw [UInt32.size]
          cases negative <;> simp only [signWeight] <;> omega)
      rw [← UInt32.toNat_inj, toNat_flip, pattern, neg, pattern]
      cases negative with
      | false =>
          rw [Bool.not_false, signWeight, signWeight, if_pos (by omega)]
          omega
      | true =>
          rw [Bool.not_true, signWeight, signWeight, if_neg (by omega)]
          omega

end Single

/-! ## Exact results -/

namespace Exact

def neg : Exact → Exact
  | .nan => .nan
  | .inf negative => .inf !negative
  | .finite negative units => .finite (!negative) units

theorem ofSingle_neg (value : Single) : ofSingle value.neg = (ofSingle value).neg := by
  cases value <;> rfl

theorem round_neg (exact : Exact) : exact.neg.round = exact.round.neg := by
  cases exact with
  | nan => rfl
  | inf negative => rfl
  | finite negative units => exact Single.ofPlace_not negative _

/-- A product takes the sign of either factor along. -/
theorem product_neg_left (a b : Single) : product a.neg b = (product a b).neg := by
  cases a with
  | nan => rfl
  | inf s =>
      cases b with
      | nan => rfl
      | inf t => rw [Single.neg, product, product, neg, Bool.not_xor]
      | finite t magnitude =>
          rw [Single.neg, product, product, Bool.not_xor]
          split <;> rfl
  | finite s magnitude =>
      cases b with
      | nan => rfl
      | inf t =>
          rw [Single.neg, product, product, Bool.not_xor]
          split <;> rfl
      | finite t other => rw [Single.neg, product, product, neg, Bool.not_xor]

theorem product_neg_right (a b : Single) : product a b.neg = (product a b).neg := by
  rw [product_comm, product_neg_left, product_comm]

/-- Flipped numbers add up to the flipped sum, unless they cancel: a zero is positive both times. -/
theorem addFinite_not_alike (s : Bool) (first : Nat) (t : Bool) (second : Nat) :
    (addFinite (!s) first (!t) second).Alike (addFinite s first t second).neg := by
  unfold addFinite
  simp only [Bool.not_inj_iff]
  split
  · exact .refl _
  split
  · exact .refl _
  split
  · exact .refl _
  · exact Or.inr ⟨Or.inl rfl, Or.inr rfl⟩

theorem neg_add_neg_alike (first second : Exact) :
    (first.neg.add second.neg).Alike (first.add second).neg := by
  cases first with
  | nan => cases second <;> exact .refl _
  | inf s =>
      cases second with
      | nan => exact .refl _
      | inf t => cases s <;> cases t <;> exact .refl _
      | finite t second => exact .refl _
  | finite s first =>
      cases second with
      | nan => exact .refl _
      | inf t => exact .refl _
      | finite t second => exact addFinite_not_alike s first t second

/-- The second result is the first one with its sign flipped, up to the sign of a zero. -/
def Opposite (first second : Exact) : Prop :=
  second.Alike first.neg

theorem Opposite.add {first first' second second' : Exact} (left : first.Opposite first')
    (right : second.Opposite second') : (first.add second).Opposite (first'.add second') :=
  (Alike.add left right).trans (neg_add_neg_alike first second)

theorem Opposite.round {first second : Exact} (opposite : first.Opposite second) :
    (ofSingle first.round).Opposite (ofSingle second.round) := by
  have rounded := (Alike.round opposite).exact
  rwa [round_neg, ofSingle_neg] at rounded

end Exact

theorem Code.exact_neg (code : Code) : code.neg.exact = code.exact.neg := by
  rw [exact, exact, isNegative_neg, units_neg]
  rfl

/-- The value of a code with its top bit flipped is the negated value. -/
theorem Code.value_neg (code : Code) : code.neg.value = code.value.neg := by
  rw [value, value, exact_neg, Exact.round_neg]

/-! ## Results of flipped terms -/

/-- What flipped terms make of a result: a NaN and a zero stay, any other value flips its sign bit. -/
structure Single.Flips (value flipped : Single) : Prop where
  nan : value = .nan → flipped = .nan
  zero : value.IsZero → flipped.IsZero
  bits : value ≠ .nan → ¬ value.IsZero → flipped.toBits = value.toBits ^^^ 0x80000000

theorem Single.IsZero.neg {value : Single} (isZero : value.IsZero) : value.neg.IsZero := by
  rcases isZero with rfl | rfl
  · exact Or.inr rfl
  · exact Or.inl rfl

theorem Single.neg_neg (value : Single) : value.neg.neg = value := by
  cases value <;> simp [neg]

theorem Single.Alike.flips {value flipped : Single} (alike : flipped.Alike value.neg) :
    value.Flips flipped := by
  refine ⟨?_, ?_, ?_⟩
  · rintro rfl
    rcases alike with same | ⟨-, isZero⟩
    · exact same
    · rcases isZero with vanishes | vanishes <;> cases vanishes
  · intro isZero
    rcases alike with rfl | ⟨flippedIsZero, -⟩
    · exact isZero.neg
    · exact flippedIsZero
  · intro isValue nonzero
    rcases alike with rfl | ⟨-, isZero⟩
    · exact toBits_neg isValue
    · have back := isZero.neg
      rw [neg_neg] at back
      exact absurd back nonzero

end LaneDot
