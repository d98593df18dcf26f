import LaneDot.Proofs.Kernel.Comparison
import LaneDot.Proofs.Single.Alike

/-!
# Zeros mask codes

Every code stands for a finite number, so its product with a zero is a zero.
A code at a zero of the stream can therefore only decide the sign of a zero,
whatever the code is: the sum of the row stays the same value, up to the sign
of a zero, in each of the kernels.
-/

namespace LaneDot

instance (value : Single) : Decidable value.IsZero :=
  inferInstanceAs (Decidable (_ ∨ _))

/-! ## Alike products -/

theorem Exact.kept_alike : Kept Alike where
  zero := .refl _
  add := Alike.add
  round alike := alike.round.exact

theorem Single.Alike.of_exact {a b : Single} (alike : (Exact.ofSingle a).Alike (.ofSingle b)) :
    a.Alike b := by
  have zeros {value : Single} (isZero : (Exact.ofSingle value).IsZero) : value.IsZero := by
    rcases isZero with positive | negative
    · exact Or.inl (Exact.ofSingle_injective (positive.trans Exact.ofSingle_zero.symm))
    · exact Or.inr (Exact.ofSingle_injective (negative.trans Exact.ofSingle_negZero.symm))
  rcases alike with same | ⟨first, second⟩
  · exact Or.inl (Exact.ofSingle_injective same)
  · exact Or.inr ⟨zeros first, zeros second⟩

theorem DotKernel.rowSum_alike {x x' : Nat → Single} {codes codes' : Nat → Code} {length : Nat}
    (products : Exact.Kept.Products Exact.Alike x x' codes codes' length) (kernel : DotKernel) :
    (kernel.rowSum x codes length).Alike (kernel.rowSum x' codes' length) :=
  .of_exact (Exact.kept_alike.rowSum products kernel)

theorem Single.IsZero.product_of_isFinite {factor value : Single} (isZero : factor.IsZero)
    (finite : value.isFinite) : (Exact.product factor value).IsZero := by
  have product := isZero.product value
  rwa [if_pos finite] at product

/-- The product of a zero and a code is a zero, since no code is an infinity or a NaN. -/
theorem Single.IsZero.product_value {factor : Single} (isZero : factor.IsZero) (code : Code) :
    (Exact.product factor code.value).IsZero := by
  obtain ⟨magnitude, -, decoded⟩ := code.exists_decode_eq
  rw [← code.decode_eq_value, decoded]
  exact isZero.product_of_isFinite rfl

/-- Codes that agree wherever the stream is not zero have alike products. -/
theorem products_alike_of_masked {x : Nat → Single} {codes codes' : Nat → Code} {length : Nat}
    (same : ∀ index < length, ¬ (x index).IsZero → codes index = codes' index) :
    Exact.Kept.Products Exact.Alike x x codes codes' length := by
  intro index inside
  by_cases isZero : (x index).IsZero
  · exact Or.inr ⟨isZero.product_value _, isZero.product_value _⟩
  · rw [same index inside isZero]
    exact .refl _

/-! ## The law -/

def Task.withCodes (task : Task) (y : CodeBuffer) : Task :=
  { task with y }

/--
A zero of the stream masks whatever code it meets.  On two buffers of codes
that cover the rows and agree, in one row, wherever the stream is not a zero,
every kernel has a result, and its sums of that row are the same bits, or both
NaNs, or zeros of whatever signs.
-/
theorem Task.Covers.zeros_mask_codes {task : Task} {y : CodeBuffer} {fusion : Nat}
    {start start' : Address} {sum sum' : Array Single} (covers : task.Covers fusion start sum.size)
    (covers' : (task.withCodes y).Covers fusion start' sum'.size) {row : Nat} (isRow : row < fusion)
    (same : ∀ index < task.length, ¬ (task.single index).IsZero →
      task.codeAt start row index = (task.withCodes y).codeAt start' row index)
    (kernel : DotKernel) :
    ∃ value value', kernel.Leaves fusion task start sum row value ∧
      kernel.Leaves fusion (task.withCodes y) start' sum' row value' ∧ value.Alike value' :=
  ⟨_, _, kernel.leaves_taskSum covers isRow, kernel.leaves_taskSum covers' isRow,
    kernel.rowSum_alike (products_alike_of_masked same)⟩

/-- Ones at a code of choice where the stream is a zero, in a lane of its own and in the tail. -/
def maskedProducts (masked : Code) : Task where
  x := #[.one, .one, .one, .zero, .one, .one, .one, .one, .negZero]
  y := ⟨#[.one, .one, .one, masked, .one, .one, .one, .one, masked], 0⟩
  stride := 0
  length := 9

/-- The largest code at the zeros leaves the sum that a zero code leaves. -/
theorem Task.Covers.zeros_mask_codes_maskedProducts :
    ((maskedProducts .zero).withCodes (maskedProducts .max).y).Covers 1 0 1 ∧
    ∃ value value',
      (DotKernel.fused .avx2).Leaves 1 (maskedProducts .zero) 0 #[.half] 0 value ∧
      (DotKernel.fused .avx2).Leaves 1 ((maskedProducts .zero).withCodes (maskedProducts .max).y) 0
        #[.one] 0 value' ∧
      value.Alike value' := by
  have covers : (maskedProducts .zero).Covers 1 0 (#[.half] : Array Single).size := by decide
  have covers' : ((maskedProducts .zero).withCodes (maskedProducts .max).y).Covers 1 0
      (#[.one] : Array Single).size := by decide
  exact ⟨covers', Task.Covers.zeros_mask_codes covers covers' Nat.one_pos (by decide) _⟩

end LaneDot
