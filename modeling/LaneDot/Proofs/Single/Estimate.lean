import LaneDot.Proofs.Single.RoundingError

/-!
# Estimates through roundings

A result that was formed by sums, products and roundings estimates a real
total.  Each rounding multiplies the relative error by one more factor and may
add an absolute part.  An estimate also says that an infinity or a NaN on the
way is never lost, and that a small total has neither.
-/

namespace LaneDot

/-- The factor by which a number of roundings in a row may grow an absolute value. -/
noncomputable def growth (depth : Nat) : ℝ := (1 + roundoff) ^ depth

theorem growth_zero : growth 0 = 1 := pow_zero _

theorem growth_succ (depth : Nat) : growth (depth + 1) = growth depth * (1 + roundoff) :=
  pow_succ _ _

theorem growth_add (depth more : Nat) : growth (depth + more) = growth depth * growth more :=
  pow_add _ _ _

theorem one_le_growth (depth : Nat) : 1 ≤ growth depth :=
  one_le_pow₀ (le_add_of_nonneg_right roundoff_pos.le)

theorem growth_mono {depth deeper : Nat} (order : depth ≤ deeper) : growth depth ≤ growth deeper :=
  pow_le_pow_right₀ (le_add_of_nonneg_right roundoff_pos.le) order

namespace Exact

/--
A result that estimates a total with a weight, the sum of the absolute values
of its terms.  It is finite only on finite operands.  Then it is off by a
relative error of some roundings in a row, and an absolute error; and it is
finite on finite operands if all this stays below `2 ^ 127`.
-/
structure Estimates (exact : Exact) (operands : Prop) (total weight : ℝ) (depth : Nat)
    (absolute : ℝ) : Prop where
  sound : exact.isFinite → operands
  error : exact.isFinite → ∃ number, exact.Holds number ∧
    |number - total| ≤ (growth depth - 1) * weight + absolute
  isFinite : operands → growth depth * weight + absolute < 2 ^ 127 → exact.isFinite
  bound : |total| ≤ weight
  nonneg : 0 ≤ absolute

theorem estimates_zero : (ofSingle .zero).Estimates True 0 0 0 0 where
  sound _ := trivial
  error _ := ⟨0, Single.toReal_zero ▸ @holds_ofSingle .zero rfl, by simp⟩
  isFinite _ _ := rfl
  bound := abs_zero.le
  nonneg := le_rfl

theorem estimates_product (value : Single) (code : Code) :
    (product value code.value).Estimates value.isFinite (value.toReal * code.toReal)
      |value.toReal * code.toReal| 0 0 where
  sound := isFinite_of_product
  error finite := ⟨_, holds_product (isFinite_of_product finite) code, by simp [growth_zero]⟩
  isFinite finite _ := (holds_product finite code).isFinite
  bound := le_rfl
  nonneg := le_rfl

namespace Estimates

variable {exact other : Exact} {operands others : Prop} {total addend weight more absolute : ℝ}
  {extra : ℝ} {depth deeper : Nat}

theorem weight_nonneg (estimate : exact.Estimates operands total weight depth absolute) :
    0 ≤ weight :=
  (abs_nonneg total).trans estimate.bound

theorem congr (estimate : exact.Estimates operands total weight depth absolute)
    (same : operands ↔ others) : exact.Estimates others total weight depth absolute :=
  propext same ▸ estimate

/-- More roundings and a larger absolute error make an estimate weaker. -/
theorem mono (estimate : exact.Estimates operands total weight depth absolute)
    (order : depth ≤ deeper) (larger : absolute ≤ extra) :
    exact.Estimates operands total weight deeper extra := by
  have wider : growth depth * weight ≤ growth deeper * weight :=
    mul_le_mul_of_nonneg_right (growth_mono order) estimate.weight_nonneg
  refine ⟨estimate.sound, ?_, ?_, estimate.bound, estimate.nonneg.trans larger⟩
  · intro finite
    obtain ⟨number, holds, error⟩ := estimate.error finite
    exact ⟨number, holds, by linarith⟩
  · intro inputs small
    exact estimate.isFinite inputs (by linarith)

/-- The real number of an estimate is at most the grown weight and the absolute error. -/
theorem abs_le (estimate : exact.Estimates operands total weight depth absolute) {number : ℝ}
    (error : |number - total| ≤ (growth depth - 1) * weight + absolute) :
    |number| ≤ growth depth * weight + absolute := by
  have split : |number| ≤ |number - total| + |total| := by
    simpa using abs_add_le (number - total) total
  linarith [estimate.bound]

/-- Exact sums add estimates up. -/
theorem add (first : exact.Estimates operands total weight depth absolute)
    (second : other.Estimates others addend more depth extra) :
    (exact.add other).Estimates (operands ∧ others) (total + addend) (weight + more) depth
      (absolute + extra) where
  sound finite := by
    obtain ⟨left, right⟩ := isFinite_of_add finite
    exact ⟨first.sound left, second.sound right⟩
  error finite := by
    obtain ⟨left, right⟩ := isFinite_of_add finite
    obtain ⟨number, holds, error⟩ := first.error left
    obtain ⟨augend, held, mistake⟩ := second.error right
    refine ⟨number + augend, holds.add held, ?_⟩
    have apart : number + augend - (total + addend) = (number - total) + (augend - addend) := by ring
    rw [apart]
    linarith [abs_add_le (number - total) (augend - addend)]
  isFinite inputs small := by
    have grown : 0 ≤ growth depth := zero_le_one.trans (one_le_growth depth)
    have left := mul_nonneg grown first.weight_nonneg
    have right := mul_nonneg grown second.weight_nonneg
    obtain ⟨number, holds, -⟩ := first.error (first.isFinite inputs.1 (by linarith [second.nonneg]))
    obtain ⟨augend, held, -⟩ := second.error (second.isFinite inputs.2 (by linarith [first.nonneg]))
    exact (holds.add held).isFinite
  bound := (abs_add_le total addend).trans (add_le_add first.bound second.bound)
  nonneg := add_nonneg first.nonneg second.nonneg

/-- A rounding with a known error multiplies the errors by one more factor. -/
theorem round_of_error (estimate : exact.Estimates operands total weight depth absolute)
    (positive : 0 ≤ extra)
    (rounding : ∀ number, exact.Holds number → exact.round.isFinite →
      |exact.round.toReal - number| ≤ roundoff * |number| + extra) :
    (ofSingle exact.round).Estimates operands total weight (depth + 1)
      ((1 + roundoff) * absolute + extra) where
  sound finite := estimate.sound (isFinite_of_round (isFinite_ofSingle exact.round ▸ finite))
  error finite := by
    have rounded : exact.round.isFinite := isFinite_ofSingle exact.round ▸ finite
    obtain ⟨number, holds, error⟩ := estimate.error (isFinite_of_round rounded)
    refine ⟨_, holds_ofSingle rounded, ?_⟩
    have relative := mul_le_mul_of_nonneg_left (estimate.abs_le error) roundoff_pos.le
    have step := rounding number holds rounded
    rw [growth_succ]
    linarith [abs_sub_le exact.round.toReal number total]
  isFinite inputs small := by
    have grown := mul_nonneg (zero_le_one.trans (one_le_growth depth)) estimate.weight_nonneg
    have relative := mul_nonneg roundoff_pos.le (add_nonneg grown estimate.nonneg)
    -- the number before the rounding is below the bound already, so the rounding does not overflow
    have before : growth depth * weight + absolute < 2 ^ 127 := by
      rw [growth_succ] at small
      linarith
    obtain ⟨number, holds, error⟩ := estimate.error (estimate.isFinite inputs before)
    rw [isFinite_ofSingle]
    exact holds.isFinite_round ((estimate.abs_le error).trans_lt before)
  bound := estimate.bound
  nonneg := add_nonneg (mul_nonneg (by linarith [roundoff_pos]) estimate.nonneg) positive

theorem round (estimate : exact.Estimates operands total weight depth absolute) :
    (ofSingle exact.round).Estimates operands total weight (depth + 1)
      ((1 + roundoff) * absolute + underflow) :=
  estimate.round_of_error underflow_pos.le fun _ => Holds.round_error

/-- On the grid of the singles a rounding adds no absolute error. -/
theorem round_onGrid (estimate : exact.Estimates operands total weight depth absolute)
    (grid : exact.OnGrid) :
    (ofSingle exact.round).Estimates operands total weight (depth + 1)
      ((1 + roundoff) * absolute) := by
  have rounded := estimate.round_of_error le_rfl fun number holds finite => by
    rw [add_zero]
    exact holds.round_error_of_onGrid finite grid
  rwa [add_zero] at rounded

end Estimates

end Exact

/-! ## Operations on singles -/

namespace Single

def Estimates (value : Single) (operands : Prop) (total weight : ℝ) (depth : Nat)
    (absolute : ℝ) : Prop :=
  (Exact.ofSingle value).Estimates operands total weight depth absolute

theorem estimates_zero : zero.Estimates True 0 0 0 0 := Exact.estimates_zero

/-- A rounded product is off by the error of one rounding. -/
theorem estimates_mul (value : Single) (code : Code) :
    (value.mul code.value).Estimates value.isFinite (value.toReal * code.toReal)
      |value.toReal * code.toReal| 1 underflow :=
  (Exact.estimates_product value code).round.mono le_rfl (by linarith)

namespace Estimates

variable {a b : Single} {operands others : Prop} {total addend weight more absolute extra : ℝ}
  {depth : Nat}

theorem isFinite (estimate : a.Estimates operands total weight depth absolute) (inputs : operands)
    (small : growth depth * weight + absolute < 2 ^ 127) : a.isFinite :=
  Exact.isFinite_ofSingle a ▸ Exact.Estimates.isFinite estimate inputs small

theorem sound (estimate : a.Estimates operands total weight depth absolute) (finite : a.isFinite) :
    operands :=
  Exact.Estimates.sound estimate (Exact.isFinite_ofSingle a ▸ finite)

theorem error (estimate : a.Estimates operands total weight depth absolute) (finite : a.isFinite) :
    |a.toReal - total| ≤ (growth depth - 1) * weight + absolute := by
  obtain ⟨number, holds, error⟩ :=
    Exact.Estimates.error estimate (Exact.isFinite_ofSingle a ▸ finite)
  rwa [← holds.unique (Exact.holds_ofSingle finite)]

/-- A sum of singles has no absolute error of its own. -/
theorem add (first : a.Estimates operands total weight depth absolute)
    (second : b.Estimates others addend more depth extra) :
    (a.add b).Estimates (operands ∧ others) (total + addend) (weight + more) (depth + 1)
      ((1 + roundoff) * (absolute + extra)) :=
  (Exact.Estimates.add first second).round_onGrid
    ((Exact.onGrid_ofSingle a).add (Exact.onGrid_ofSingle b))

/-- A fused step rounds its product and its sum together. -/
theorem mulAdd (acc : a.Estimates operands total weight depth absolute) (value : Single)
    (code : Code) :
    (value.mulAdd code.value a).Estimates (operands ∧ value.isFinite)
      (total + value.toReal * code.toReal) (weight + |value.toReal * code.toReal|) (depth + 1)
      ((1 + roundoff) * absolute + underflow) := by
  have product := (Exact.estimates_product value code).mono depth.zero_le le_rfl
  have rounded := (Exact.Estimates.add acc product).round
  rwa [add_zero, Exact.add_comm] at rounded

/-- The sign of a zero does not matter to an estimate. -/
theorem clearsTo (estimate : a.Estimates operands total weight depth absolute)
    (related : a.ClearsTo b) : b.Estimates operands total weight depth absolute := by
  rcases related.eq_or with rfl | ⟨rfl, rfl⟩
  · exact estimate
  · obtain ⟨number, holds, error⟩ := Exact.Estimates.error estimate rfl
    exact ⟨fun _ => estimate.sound rfl, fun _ => ⟨number, holds, error⟩, fun _ _ => rfl,
      Exact.Estimates.bound estimate, Exact.Estimates.nonneg estimate⟩

end Estimates

end Single

end LaneDot
