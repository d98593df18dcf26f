import LaneDot.Proofs.Kernel.ExactDomain
import LaneDot.Proofs.Single.Estimate

/-!
# The accuracy of the sums

A product enters the fused sum of its row through the fused steps of one lane
and three levels of the tree, and the sequential sum through its own rounding
and one addition for each product from it on.  The number of these roundings
bounds the error of a finite sum, and keeps sums of small products finite.
-/

namespace LaneDot

/-! ## Folds over products -/

section

variable (x : Nat → Single) (codes : Nat → Code)

noncomputable def realTerm (index : Nat) : ℝ :=
  (x index).toReal * (codes index).toReal

/-- A step of a fold that adds one product at the cost of one more rounding in a row. -/
structure AddsProduct (least : Nat) (step : Single → Nat → Single) : Prop where
  estimates {acc : Single} {operands : Prop} {total weight absolute : ℝ} {depth : Nat} (index : Nat)
    (deep : least ≤ depth) (estimate : acc.Estimates operands total weight depth absolute) :
    (step acc index).Estimates (operands ∧ (x index).isFinite) (total + realTerm x codes index)
      (weight + |realTerm x codes index|) (depth + 1) ((1 + roundoff) * (absolute + underflow))

theorem addsProduct_fused :
    AddsProduct x codes 0 fun acc index => (x index).mulAdd (codes index).value acc where
  estimates index _ estimate := by
    have relative := mul_pos roundoff_pos underflow_pos
    exact (estimate.mulAdd (x index) (codes index)).mono le_rfl (by linarith)

/-- A rounded product brings a rounding of its own, so it goes to an estimate with one already. -/
theorem addsProduct_rounded :
    AddsProduct x codes 1 fun acc index => acc.add ((x index).mul (codes index).value) where
  estimates index deep estimate :=
    estimate.add ((Single.estimates_mul (x index) (codes index)).mono deep le_rfl)

variable {x codes}

/-- A fold over products adds as many roundings and absolute errors as it takes steps. -/
theorem AddsProduct.foldl {least : Nat} {step : Single → Nat → Single}
    (adds : AddsProduct x codes least step) (indices : List Nat) {acc : Single} {operands : Prop}
    {total weight absolute : ℝ} {depth : Nat} (deep : least ≤ depth)
    (start : acc.Estimates operands total weight depth absolute) :
    (indices.foldl step acc).Estimates (operands ∧ ∀ index ∈ indices, (x index).isFinite)
      (total + (indices.map (realTerm x codes)).sum)
      (weight + (indices.map fun index => |realTerm x codes index|).sum)
      (depth + indices.length) (growth indices.length * (absolute + indices.length * underflow)) := by
  induction indices generalizing acc operands total weight absolute depth with
  | nil => simpa [growth_zero] using start
  | cons index rest ih =>
      have result := ih (Nat.le_succ_of_le deep) (adds.estimates index deep start)
      have operandsOf : ((operands ∧ (x index).isFinite) ∧ ∀ other ∈ rest, (x other).isFinite) ↔
          operands ∧ ∀ other ∈ index :: rest, (x other).isFinite := by
        rw [List.forall_mem_cons, and_assoc]
      -- the absolute errors of the rest do not pass the first rounding, so there is room to spare
      have slack : 0 ≤ growth rest.length * (roundoff * (rest.length * underflow)) := by
        have grown := one_le_growth rest.length
        have relative := roundoff_pos
        have half := underflow_pos
        positivity
      rw [List.map_cons, List.map_cons, List.sum_cons, List.sum_cons, ← add_assoc, ← add_assoc]
      refine (result.congr operandsOf).mono (by rw [List.length_cons]; omega) ?_
      rw [List.length_cons, growth_succ]
      push_cast
      linarith

end

/-! ## Lanes and the tree -/

theorem length_bulkIndices (length : Nat) (lane : Fin 8) :
    (bulkIndices length lane).length = length / 8 := by
  rw [bulkIndices_eq length lane.isLt, List.length_map, List.length_range]

theorem length_laneIndices_le (length : Nat) (lane : Fin 8) :
    (laneIndices length lane).length ≤ length / 8 + length % 8 := by
  rw [laneIndices, List.length_append, length_bulkIndices]
  apply Nat.add_le_add_left
  split
  · exact List.length_range'.le
  · exact Nat.zero_le _

/-- Every index of a row belongs to a lane. -/
theorem exists_mem_laneIndices {length index : Nat} (inside : index < length) :
    ∃ lane : Fin 8, index ∈ laneIndices length lane := by
  rcases Nat.lt_or_ge index (8 * (length / 8)) with bulk | rest
  · refine ⟨⟨index % 8, Nat.mod_lt _ (by decide)⟩, List.mem_append_left _ ?_⟩
    exact List.mem_filter.mpr ⟨List.mem_range.mpr bulk, decide_eq_true rfl⟩
  · refine ⟨0, List.mem_append_right _ ?_⟩
    rw [Fin.val_zero, if_pos rfl]
    exact List.mem_range'_1.mpr ⟨rest, by omega⟩

theorem forall_lanes_iff {length : Nat} {property : Nat → Prop} :
    (∀ lane : Fin 8, ∀ index ∈ laneIndices length lane, property index) ↔
      ∀ index < length, property index := by
  constructor
  · intro lanes index inside
    obtain ⟨lane, member⟩ := exists_mem_laneIndices inside
    exact lanes lane index member
  · exact fun all lane index member => all index (lt_of_mem_laneIndices member)

/-- The tree rounds three more times and adds the absolute errors of the lanes up. -/
theorem Single.Estimates.laneTree {v : Fin 8 → Single} {operands : Fin 8 → Prop}
    {total weight absolute : Fin 8 → ℝ} {depth : Nat}
    (lanes : ∀ lane, (v lane).Estimates (operands lane) (total lane) (weight lane) depth
      (absolute lane)) :
    (LaneDot.laneTree v).Estimates (∀ lane, operands lane) (∑ lane, total lane)
      (∑ lane, weight lane) (depth + 3) (growth 3 * ∑ lane, absolute lane) := by
  have tree := (((lanes 0).add (lanes 4)).add ((lanes 1).add (lanes 5))).add
    (((lanes 2).add (lanes 6)).add ((lanes 3).add (lanes 7)))
  rw [sum_lanes_eq_tree, sum_lanes_eq_tree, sum_lanes_eq_tree]
  refine (tree.congr lanes_in_tree_iff).mono le_rfl (le_of_eq ?_)
  rw [growth]
  ring

/-! ## The sum of a row -/

/-- The most roundings that a product of a row takes part in on its way into the fused sum. -/
def fusedDepth (length : Nat) : Nat :=
  length / 8 + length % 8 + 3

section

variable (x : Nat → Single) (codes : Nat → Code) (length : Nat)

theorem laneSum_estimates (lane : Fin 8) :
    (laneSum x (fun index => (codes index).value) length lane).Estimates
      (∀ index ∈ laneIndices length lane, (x index).isFinite)
      ((laneIndices length lane).map (realTerm x codes)).sum
      ((laneIndices length lane).map fun index => |realTerm x codes index|).sum
      (length / 8 + length % 8)
      (growth (length / 8 + length % 8) * ((laneIndices length lane).map fun _ => underflow).sum) := by
  have short := length_laneIndices_le length lane
  have folded := (addsProduct_fused x codes).foldl (laneIndices length lane) le_rfl
    Single.estimates_zero
  rw [zero_add, zero_add, zero_add, zero_add] at folded
  rw [List.map_const', List.sum_replicate, nsmul_eq_mul]
  refine (folded.congr (iff_of_eq (true_and _))).mono short ?_
  exact mul_le_mul_of_nonneg_right (growth_mono short)
    (mul_nonneg (Nat.cast_nonneg _) underflow_pos.le)

theorem Backend.portable_estimates :
    (portable.rowSum x codes length).Estimates (∀ index < length, (x index).isFinite)
      (∑ index ∈ Finset.range length, realTerm x codes index)
      (∑ index ∈ Finset.range length, |realTerm x codes index|) (fusedDepth length)
      (growth (fusedDepth length) * (length * underflow)) := by
  have tree := Single.Estimates.laneTree (laneSum_estimates x codes length)
  rw [sum_laneIndices, sum_laneIndices, ← Finset.mul_sum, sum_laneIndices, Finset.sum_const,
    Finset.card_range, nsmul_eq_mul, ← mul_assoc, mul_comm (growth 3), ← growth_add] at tree
  rw [portable_rowSum]
  exact tree.congr forall_lanes_iff

theorem Backend.rowSum_estimates (level : Level) :
    (level.backend.rowSum x codes length).Estimates (∀ index < length, (x index).isFinite)
      (∑ index ∈ Finset.range length, realTerm x codes index)
      (∑ index ∈ Finset.range length, |realTerm x codes index|) (fusedDepth length)
      (growth (fusedDepth length) * (length * underflow)) := by
  have estimates := Backend.portable_estimates x codes length
  cases level with
  | portable => exact estimates
  | avx2 => exact estimates.clearsTo (Backend.rowSum_clearsTo x codes length)

theorem sequentialSum_estimates :
    (sequentialSum x codes length).Estimates (∀ index < length, (x index).isFinite)
      (∑ index ∈ Finset.range length, realTerm x codes index)
      (∑ index ∈ Finset.range length, |realTerm x codes index|) (length + 1)
      (growth length * (length * underflow)) := by
  have start := Single.estimates_zero.mono (Nat.zero_le 1) le_rfl
  have folded := (addsProduct_rounded x codes).foldl (List.range length) le_rfl start
  rw [zero_add, zero_add, zero_add, sum_map_range, sum_map_range, List.length_range,
    Nat.add_comm] at folded
  rw [sequentialSum_eq_foldl]
  exact folded.congr (by simp only [true_and, List.mem_range])

end

/-! ## The law of accuracy -/

namespace Task.Covers

variable {task : Task} {fusion : Nat} {start : Address} {sum : Array Single}

/--
The accuracy of the sums.  With `roundoff` for `2 ^ -24` and `underflow` for
`2 ^ -150`, a finite fused sum at either level has finite factors only and is
off by the growth of `fusedDepth` roundings at most, a finite sequential sum
by that of one rounding more than the products.  A fused sum is finite if its
factors are and the grown absolute values stay below `2 ^ 127`.
-/
theorem accuracy (covers : task.Covers fusion start sum.size) {row : Nat} (isRow : row < fusion) :
    (∀ level : Level, ∃ sums value,
      sumsAfter (level.backend.fused fusion task start) sum = some sums ∧
      sums[row]? = some value ∧
      (value.isFinite → (∀ index < task.length, (task.single index).isFinite) ∧
        |value.toReal - ∑ index ∈ Finset.range task.length, task.realProduct start row index| ≤
          ((1 + roundoff) ^ fusedDepth task.length - 1) *
              ∑ index ∈ Finset.range task.length, |task.realProduct start row index| +
            task.length * (1 + roundoff) ^ fusedDepth task.length * underflow) ∧
      ((∀ index < task.length, (task.single index).isFinite) →
        (1 + roundoff) ^ fusedDepth task.length *
            (∑ index ∈ Finset.range task.length, |task.realProduct start row index| +
              task.length * underflow) < 2 ^ 127 →
        value.isFinite)) ∧
    ∃ sums value, sumsAfter (sequential fusion task start) sum = some sums ∧
      sums[row]? = some value ∧
      (value.isFinite → (∀ index < task.length, (task.single index).isFinite) ∧
        |value.toReal - ∑ index ∈ Finset.range task.length, task.realProduct start row index| ≤
          ((1 + roundoff) ^ (task.length + 1) - 1) *
              ∑ index ∈ Finset.range task.length, |task.realProduct start row index| +
            task.length * (1 + roundoff) ^ task.length * underflow) := by
  constructor
  · intro level
    obtain ⟨sums, ran, -, rows⟩ := covers.exists_fused_sums level.backend
    have estimates := Backend.rowSum_estimates task.single (task.codeAt start row) task.length level
    refine ⟨sums, _, ran, rows row isRow, ?_, ?_⟩
    · intro finite
      refine ⟨estimates.sound finite, (estimates.error finite).trans_eq ?_⟩
      rw [mul_left_comm (growth _), ← mul_assoc]
      rfl
    · intro factors small
      refine estimates.isFinite factors ?_
      rw [← mul_add]
      exact small
  · obtain ⟨sums, ran, -, rows⟩ := covers.exists_sequential_sums
    have estimates := sequentialSum_estimates task.single (task.codeAt start row) task.length
    refine ⟨sums, _, ran, rows row isRow, ?_⟩
    intro finite
    refine ⟨estimates.sound finite, (estimates.error finite).trans_eq ?_⟩
    rw [mul_left_comm (growth _), ← mul_assoc]
    rfl

/-- The sum of nine ones is finite, so the law bounds its error. -/
theorem accuracy_unitProducts :
    ∃ sums value, sumsAfter (Backend.avx2.fused 2 unitProducts unitProducts.y.origin)
        #[.half, .half] = some sums ∧
      sums[1]? = some value ∧ value.isFinite ∧
      |value.toReal - ∑ index ∈ Finset.range unitProducts.length,
          unitProducts.realProduct unitProducts.y.origin 1 index| ≤
        ((1 + roundoff) ^ fusedDepth unitProducts.length - 1) *
            ∑ index ∈ Finset.range unitProducts.length,
              |unitProducts.realProduct unitProducts.y.origin 1 index| +
          unitProducts.length * (1 + roundoff) ^ fusedDepth unitProducts.length * underflow := by
  have covers : unitProducts.Covers 2 unitProducts.y.origin (#[.half, .half] : Array Single).size := by
    decide
  have nines : sumsAfter (Backend.avx2.fused 2 unitProducts unitProducts.y.origin) #[.half, .half] =
      some #[.ofBits 0x41100000, .ofBits 0x41100000] := by decide +kernel
  obtain ⟨fused, -⟩ := Task.Covers.accuracy covers (by decide : 1 < 2)
  obtain ⟨sums, value, ran, atRow, bounded, -⟩ := fused .avx2
  obtain rfl : sums = _ := Option.some.inj (ran.symm.trans nines)
  obtain rfl : .ofBits 0x41100000 = value := Option.some.inj atRow
  exact ⟨_, _, nines, rfl, rfl, (bounded rfl).2⟩

end Task.Covers

end LaneDot
