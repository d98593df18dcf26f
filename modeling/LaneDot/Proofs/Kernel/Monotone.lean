import LaneDot.Proofs.Kernel.Masking
import LaneDot.Proofs.Single.Monotone

/-!
# Sums grow with the products

Exact sums grow with their addends and roundings keep the order, so in each of
the kernels a row with larger products has a larger sum, also where lanes
overflow in one of the rows only.  Rows with equal products have equal sums.
-/

namespace LaneDot

theorem Exact.kept_atMost : Kept AtMost where
  zero _ isU _ isV := (Option.some.inj (isU.symm.trans isV)).le
  add := AtMost.add
  round := AtMost.round

theorem DotKernel.rowSum_atMost {x x' : Nat → Single} {codes codes' : Nat → Code} {length : Nat}
    (products : Exact.Kept.Products Exact.AtMost x x' codes codes' length) (kernel : DotKernel) :
    ∀ u ∈ (kernel.rowSum x codes length).extended,
      ∀ v ∈ (kernel.rowSum x' codes' length).extended, u ≤ v := by
  have order := Exact.kept_atMost.rowSum products kernel
  simpa only [Exact.AtMost, Exact.extended_ofSingle] using order

namespace Task

/-- The product of a finite element of the stream and a code is the real product. -/
theorem holds_realProduct (task : Task) (start : Address) (row : Nat) {index : Nat}
    (finite : (task.single index).isFinite) :
    (Exact.product (task.single index) (task.codeAt start row index).value).Holds
      (task.realProduct start row index) :=
  Exact.holds_product finite _

namespace Covers

variable {task task' : Task} {fusion fusion' : Nat} {start start' : Address}
  {sum sum' : Array Single}

/--
Monotonicity in the products.  Two rows of one length over finite streams have
results in every kernel.  If each real product of the first row is at most that
of the second, then the first sum is at most the second as an extended real
number, unless one of them is a NaN.  If the real products are equal, then the
sums have one value, or both are NaNs.
-/
theorem sums_monotone (covers : task.Covers fusion start sum.size)
    (covers' : task'.Covers fusion' start' sum'.size) {row row' : Nat} (isRow : row < fusion)
    (isRow' : row' < fusion') (length : task.length = task'.length)
    (finite : ∀ index < task.length, (task.single index).isFinite)
    (finite' : ∀ index < task.length, (task'.single index).isFinite) (kernel : DotKernel) :
    ∃ value value', kernel.Leaves fusion task start sum row value ∧
      kernel.Leaves fusion' task' start' sum' row' value' ∧
      ((∀ index < task.length,
          task.realProduct start row index ≤ task'.realProduct start' row' index) →
        value ≠ .nan → value' ≠ .nan →
          ∃ u v, value.extended = some u ∧ value'.extended = some v ∧ u ≤ v) ∧
      ((∀ index < task.length,
          task.realProduct start row index = task'.realProduct start' row' index) →
        value.extended = value'.extended) := by
  have holds (index : Nat) (inside : index < task.length) :=
    task.holds_realProduct start row (finite index inside)
  have holds' (index : Nat) (inside : index < task.length) :=
    task'.holds_realProduct start' row' (finite' index inside)
  have leaves' := kernel.leaves_taskSum covers' isRow'
  rw [DotKernel.taskSum, ← length] at leaves'
  refine ⟨_, _, kernel.leaves_taskSum covers isRow, leaves', ?_, ?_⟩
  · intro order isValue isValue'
    obtain ⟨u, isU⟩ := Single.exists_extended isValue
    obtain ⟨v, isV⟩ := Single.exists_extended isValue'
    refine ⟨u, v, isU, isV, kernel.rowSum_atMost ?_ u isU v isV⟩
    intro index inside
    rw [Exact.AtMost, (holds index inside).extended, (holds' index inside).extended]
    rintro _ ⟨⟩ _ ⟨⟩
    exact EReal.coe_le_coe_iff.mpr (order index inside)
  · intro same
    -- equal values are more than two inequalities here: they also decide which sums are NaNs
    refine (kernel.rowSum_alike ?_).extended_eq
    intro index inside
    exact (same index inside ▸ holds index inside).alike (holds' index inside)

end Covers

def copies (element : Single) : Task where
  x := Array.replicate 9 element
  y := ⟨Array.replicate 9 .one, 0⟩
  stride := 0
  length := 9

def largest : Single := .finite false ⟨0x7F7FFFFF, by decide⟩

/-- The second sum overflows, and the first is at most that infinity. -/
theorem Covers.sums_monotone_copies :
    (DotKernel.fused .avx2).Leaves 1 (copies largest) 0 #[.half] 0 (.inf false) ∧
    ∃ value, (DotKernel.fused .avx2).Leaves 1 (copies Single.one.neg) 0 #[.half] 0 value ∧
      ∃ u v, value.extended = some u ∧ (Single.inf false).extended = some v ∧ u ≤ v := by
  have covers : (copies Single.one.neg).Covers 1 0 (#[.half] : Array Single).size := by decide
  have covers' : (copies largest).Covers 1 0 (#[.half] : Array Single).size := by decide
  have code : 0 ≤ Code.one.toReal := by
    have units : signed Code.one.isNegative Code.one.units = 2 ^ 24 := rfl
    rw [Code.toReal, units]
    positivity
  have order : ∀ index < (copies Single.one.neg).length,
      (copies Single.one.neg).realProduct 0 0 index ≤ (copies largest).realProduct 0 0 index := by
    have codes : ∀ index < 9, (copies Single.one.neg).codeAt 0 0 index = .one ∧
        (copies largest).codeAt 0 0 index = .one := by decide
    have singles : ∀ index < 9, (copies Single.one.neg).single index = Single.one.neg ∧
        (copies largest).single index = largest := by decide
    intro index inside
    obtain ⟨one, other⟩ := codes index inside
    obtain ⟨negative, large⟩ := singles index inside
    rw [realProduct, realProduct, one, other, negative, large]
    have places : signed true 0x3F800000 ≤ signed false 0x7F7FFFFF := by decide
    have below : Single.one.neg.toReal ≤ largest.toReal :=
      EReal.coe_le_coe_iff.mp (Single.extended_ofPlace_le places _ rfl _ rfl)
    exact mul_le_mul_of_nonneg_right below code
  have sums : sumsAfter (Backend.avx2.fused 1 (copies Single.one.neg) 0) #[.half] =
      some #[.ofBits 0xC1100000] := by decide +kernel
  have sums' : sumsAfter (Backend.avx2.fused 1 (copies largest) 0) #[.half] =
      some #[.inf false] := by decide +kernel
  have overflows : (DotKernel.fused .avx2).Leaves 1 (copies largest) 0 #[.half] 0 (.inf false) :=
    ⟨_, sums', rfl⟩
  obtain ⟨value, value', leaves, leaves', monotone, -⟩ := Covers.sums_monotone covers covers'
    Nat.one_pos Nat.one_pos rfl (by decide) (by decide) (.fused .avx2)
  obtain rfl := leaves'.unique overflows
  obtain rfl := leaves.unique ⟨_, sums, rfl⟩
  exact ⟨overflows, _, leaves, monotone order (by decide) (by decide)⟩

end Task

end LaneDot
