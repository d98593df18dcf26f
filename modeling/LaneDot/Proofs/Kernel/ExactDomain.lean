import LaneDot.Proofs.Kernel.Agreement
import LaneDot.Proofs.Single.Grid

/-!
# Sums without rounding

When the products of a row lie on a grid of 24 digits, and so does the sum of
their absolute values, no order of summation rounds.  Every accumulator, lane
and tree node then holds the exact partial sum, and all kernels write the same
single for the row.
-/

namespace LaneDot

/-! ## Sums over the lanes -/

section

variable {M : Type*} [AddCommMonoid M]

theorem sum_map_range (f : Nat → M) (length : Nat) :
    ((List.range length).map f).sum = ∑ index ∈ Finset.range length, f index := rfl

theorem sum_filter_lanes (f : Nat → M) (indices : List Nat) :
    ∑ lane : Fin 8, ((indices.filter (· % 8 = lane.val)).map f).sum = (indices.map f).sum := by
  induction indices with
  | nil => simp
  | cons index rest ih =>
      have split (lane : Fin 8) : (((index :: rest).filter (· % 8 = lane.val)).map f).sum =
          (if index % 8 = lane.val then f index else 0) +
            ((rest.filter (· % 8 = lane.val)).map f).sum := by
        by_cases owner : index % 8 = lane.val <;> simp [owner]
      have once : (∑ lane : Fin 8, if index % 8 = lane.val then f index else 0) = f index := by
        rw [Finset.sum_eq_single (⟨index % 8, Nat.mod_lt _ (by decide)⟩ : Fin 8), if_pos rfl]
        · exact fun lane _ other => if_neg fun same => other (Fin.ext same.symm)
        · exact fun absent => absurd (Finset.mem_univ _) absent
      simp only [split, Finset.sum_add_distrib, once, ih, List.map_cons, List.sum_cons]

theorem sum_laneIndices (f : Nat → M) (length : Nat) :
    ∑ lane : Fin 8, ((laneIndices length lane).map f).sum =
      ∑ index ∈ Finset.range length, f index := by
  have rest : ∑ lane : Fin 8, ((if lane.val = 0 then restIndices length else []).map f).sum =
      ((restIndices length).map f).sum := by
    simp [Fin.sum_univ_eight]
  have whole : List.range (8 * (length / 8)) ++ restIndices length = List.range length := by
    have tail := @List.range'_append_1 0 (8 * (length / 8)) (length % 8)
    rw [Nat.zero_add, Nat.div_add_mod] at tail
    rw [restIndices, List.range_eq_range', List.range_eq_range', tail]
  simp only [laneIndices, List.map_append, List.sum_append, Finset.sum_add_distrib, rest, bulkIndices,
    sum_filter_lanes]
  rw [← List.sum_append, ← List.map_append, whole, sum_map_range]

/-- A sum over the lanes in the order of the tree. -/
theorem sum_lanes_eq_tree (f : Fin 8 → M) :
    ∑ lane, f lane = ((f 0 + f 4) + (f 1 + f 5)) + ((f 2 + f 6) + (f 3 + f 7)) := by
  rw [Fin.sum_univ_eight]
  abel

end

/-! ## Folds and trees on a grid -/

namespace Grid

variable {grid : Grid}

structure Carries (grid : Grid) (x d : Nat → Single) (units : Nat → Int) (index : Nat) : Prop where
  holds : (Exact.product (x index) (d index)).units? = some (units index)
  multiple : grid.step ∣ units index

variable {x d : Nat → Single} {units : Nat → Int}

/-- Fused steps over products on a grid hold the exact partial sums while the weights fit. -/
theorem Within.fuse {indices : List Nat} (products : ∀ index ∈ indices, grid.Carries x d units index)
    {acc : Single} {total weight : Int} (start : grid.Within acc total weight)
    (room : weight + (indices.map fun index => |units index|).sum ≤ grid.limit) :
    grid.Within (LaneDot.fuse x d indices acc) (total + (indices.map units).sum)
      (weight + (indices.map fun index => |units index|).sum) := by
  induction indices generalizing acc total weight with
  | nil => simpa [LaneDot.fuse] using start
  | cons index rest ih =>
      have product := products index List.mem_cons_self
      have others : 0 ≤ (rest.map fun index => |units index|).sum :=
        List.sum_nonneg (by simp)
      rw [List.map_cons, List.sum_cons, ← add_assoc] at room
      have step := start.add_exact product.holds product.multiple le_rfl (by linarith)
      rw [Exact.add_comm] at step
      have result := ih (fun other member => products other (List.mem_cons_of_mem index member))
        step room
      rw [List.map_cons, List.map_cons, List.sum_cons, List.sum_cons, ← add_assoc, ← add_assoc]
      exact result

/-- The tree over lanes on a grid holds the exact sum while the weights fit. -/
theorem Within.laneTree {v : Fin 8 → Single} {units weight : Fin 8 → Int}
    (lanes : ∀ lane, grid.Within (v lane) (units lane) (weight lane))
    (room : ∑ lane, weight lane ≤ grid.limit) :
    grid.Within (LaneDot.laneTree v) (∑ lane, units lane) (∑ lane, weight lane) := by
  have positive (lane : Fin 8) : 0 ≤ weight lane := (abs_nonneg _).trans (lanes lane).bound
  rw [sum_lanes_eq_tree] at room
  rw [sum_lanes_eq_tree, sum_lanes_eq_tree]
  refine Within.add
    (Within.add (Within.add (lanes 0) (lanes 4) ?_) (Within.add (lanes 1) (lanes 5) ?_) ?_)
    (Within.add (Within.add (lanes 2) (lanes 6) ?_) (Within.add (lanes 3) (lanes 7) ?_) ?_) room
  all_goals
    linarith [positive 0, positive 1, positive 2, positive 3, positive 4, positive 5, positive 6,
      positive 7]

/-- All products of a row lie on the grid, and so does the sum of their absolute values. -/
structure Fits (grid : Grid) (x d : Nat → Single) (length : Nat) (units : Nat → Int) : Prop where
  carries : ∀ index < length, grid.Carries x d units index
  room : ∑ index ∈ Finset.range length, |units index| ≤ grid.limit

namespace Fits

variable {length : Nat}

theorem laneSum (fits : grid.Fits x d length units) (lane : Fin 8)
    (room : ((laneIndices length lane).map fun index => |units index|).sum ≤ grid.limit) :
    grid.Within (LaneDot.laneSum x d length lane) ((laneIndices length lane).map units).sum
      ((laneIndices length lane).map fun index => |units index|).sum := by
  have folded := Within.fuse
    (fun index member => fits.carries index (lt_of_mem_laneIndices member)) within_zero
    (by rwa [zero_add])
  rwa [zero_add, zero_add] at folded

variable {codes : Nat → Code}

theorem portable (fits : grid.Fits x (fun index => (codes index).value) length units) :
    grid.Within (Backend.portable.rowSum x codes length) (∑ index ∈ Finset.range length, units index)
      (∑ index ∈ Finset.range length, |units index|) := by
  have total := sum_laneIndices (fun index => |units index|) length
  have room := fits.room
  rw [← total] at room
  rw [Backend.portable_rowSum, ← sum_laneIndices, ← sum_laneIndices]
  refine Within.laneTree (fun lane => fits.laneSum lane (le_trans ?_ room)) room
  exact Finset.single_le_sum
    (f := fun lane : Fin 8 => ((laneIndices length lane).map fun index => |units index|).sum)
    (fun lane _ => List.sum_nonneg (by simp)) (Finset.mem_univ lane)

/-- The vector backend writes the same sum, since it is not a negative zero. -/
theorem avx2_eq (fits : grid.Fits x (fun index => (codes index).value) length units) :
    Backend.avx2.rowSum x codes length = Backend.portable.rowSum x codes length :=
  ((Backend.rowSum_eq_iff x codes).mpr (Or.inr fits.portable.sign)).symm

/-- A product on the grid is a single already. -/
theorem ofSingle_mul (fits : grid.Fits x d length units) {index : Nat} (inside : index < length) :
    Exact.ofSingle ((x index).mul (d index)) = Exact.product (x index) (d index) := by
  obtain ⟨holds, multiple⟩ := fits.carries index inside
  refine grid.ofSingle_round holds multiple (le_trans ?_ fits.room)
  exact Finset.single_le_sum (f := fun index => |units index|) (fun _ _ => abs_nonneg _)
    (Finset.mem_range.mpr inside)

end Fits

end Grid

theorem sequentialSum_eq_foldl (x : Nat → Single) (codes : Nat → Code) (length : Nat) :
    sequentialSum x codes length =
      (List.range length).foldl (fun acc index => acc.add ((x index).mul (codes index).value))
        .zero := by
  have steps (count start : Nat) (acc : Single) :
      foldWindows combineRounded x codes count start acc =
        (List.range' start count).foldl
          (fun acc index => acc.add ((x index).mul (codes index).value)) acc := by
    induction count generalizing start acc with
    | zero => rfl
    | succ count ih =>
        rw [foldWindows, ih, List.range'_succ, combineRounded_eq]
        rfl
  rw [sequentialSum, steps, List.range_eq_range']

/-- Where products need no rounding, the sequential kernel takes fused steps. -/
theorem sequentialSum_eq_fuse {x : Nat → Single} {codes : Nat → Code} {length : Nat}
    (exact : ∀ index < length, Exact.ofSingle ((x index).mul (codes index).value) =
      Exact.product (x index) (codes index).value) :
    sequentialSum x codes length =
      fuse x (fun index => (codes index).value) (List.range length) .zero := by
  rw [sequentialSum_eq_foldl, fuse]
  apply List.foldl_ext
  intro acc index member
  rw [Single.add, exact index (List.mem_range.mp member), Exact.add_comm, Single.mulAdd]

namespace Grid.Fits

variable {grid : Grid} {x : Nat → Single} {codes : Nat → Code} {length : Nat} {units : Nat → Int}

theorem sequential (fits : grid.Fits x (fun index => (codes index).value) length units) :
    grid.Within (sequentialSum x codes length) (∑ index ∈ Finset.range length, units index)
      (∑ index ∈ Finset.range length, |units index|) := by
  have products : ∀ index ∈ List.range length,
      grid.Carries x (fun index => (codes index).value) units index :=
    fun index member => fits.carries index (List.mem_range.mp member)
  have folded := Within.fuse products within_zero (by rw [zero_add]; exact fits.room)
  rw [zero_add, zero_add, sum_map_range, sum_map_range] at folded
  rwa [sequentialSum_eq_fuse fun index inside => fits.ofSingle_mul inside]

end Grid.Fits

/-! ## Real products -/

noncomputable def Task.realProduct (task : Task) (start : Address) (row index : Nat) : ℝ :=
  (task.single index).toReal * (task.codeAt start row index).toReal

def Task.productUnits (task : Task) (start : Address) (row index : Nat) : Int :=
  (Exact.product (task.single index) (task.codeAt start row index).value).units?.getD 0

namespace Task

variable {task : Task} {start : Address}

theorem product_units (row : Nat) {index : Nat} (finite : (task.single index).isFinite) :
    (Exact.product (task.single index) (task.codeAt start row index).value).units? =
        some (task.productUnits start row index) ∧
      task.realProduct start row index = task.productUnits start row index * 2 ^ (-298 : ℤ) := by
  obtain ⟨units, holds, value⟩ := Exact.holds_product finite (task.codeAt start row index)
  rw [productUnits, holds]
  exact ⟨rfl, value⟩

theorem sum_realProduct (row : Nat) (finite : ∀ index < task.length, (task.single index).isFinite) :
    ∑ index ∈ Finset.range task.length, task.realProduct start row index =
      (∑ index ∈ Finset.range task.length, task.productUnits start row index : ℤ) * 2 ^ (-298 : ℤ) := by
  rw [Int.cast_sum, Finset.sum_mul]
  apply Finset.sum_congr rfl
  intro index member
  exact (product_units row (finite index (Finset.mem_range.mp member))).2

/-- The products of a row fit a grid when they are multiples of a power of two and small in sum. -/
theorem exists_fits {row : Nat} {exponent : ℤ} (least : -149 ≤ exponent) (most : exponent ≤ 103)
    (finite : ∀ index < task.length, (task.single index).isFinite)
    (multiples : ∀ index < task.length, ∃ factor : ℤ,
      task.realProduct start row index = factor * 2 ^ exponent)
    (bound : ∑ index ∈ Finset.range task.length, |task.realProduct start row index| ≤
      2 ^ (exponent + 24)) :
    ∃ grid : Grid, grid.Fits task.single (fun index => (task.codeAt start row index).value) task.length
      (task.productUnits start row) := by
  obtain ⟨spacing, power⟩ := Int.eq_ofNat_of_zero_le (by omega : 0 ≤ exponent + 298)
  have scale (extra : Nat) :
      (2 : ℝ) ^ (exponent + extra) = 2 ^ (spacing + extra) * 2 ^ (-298 : ℤ) := by
    rw [← zpow_natCast, ← zpow_add₀ two_ne_zero]
    congr 1
    push_cast
    omega
  refine ⟨⟨spacing, by omega, by omega⟩, ?_, ?_⟩
  · intro index inside
    obtain ⟨holds, value⟩ := product_units row (finite index inside)
    obtain ⟨factor, multiple⟩ := multiples index inside
    refine ⟨holds, Dvd.intro_left factor ?_⟩
    have scaled : (factor * 2 ^ spacing * 2 ^ (-298 : ℤ) : ℝ) =
        task.productUnits start row index * 2 ^ (-298 : ℤ) := by
      rw [← value, multiple, mul_assoc]
      simpa using (congrArg (factor * · : ℝ → ℝ) (scale 0)).symm
    have whole := mul_right_cancel₀ unit_pos.ne' scaled
    exact_mod_cast whole
  · have sizes : ∑ index ∈ Finset.range task.length, |task.realProduct start row index| =
        (∑ index ∈ Finset.range task.length, |task.productUnits start row index| : ℤ) *
          2 ^ (-298 : ℤ) := by
      rw [Int.cast_sum, Finset.sum_mul]
      apply Finset.sum_congr rfl
      intro index member
      obtain ⟨-, value⟩ := product_units row (finite index (Finset.mem_range.mp member))
      rw [value, abs_mul, abs_of_pos unit_pos, Int.cast_abs]
    have scaled := scale 24
    push_cast at scaled
    rw [sizes, scaled] at bound
    have whole := le_of_mul_le_mul_right bound unit_pos
    exact_mod_cast whole

end Task

/--
Exact-domain agreement.  If the real products of a row are multiples of a power
of two from `2 ^ -149` to `2 ^ 103`, and their absolute values add up to at most
`2 ^ 24` times that power, then both fused kernels and the sequential kernel
write the single that stands for the exact real sum, positive zero for zero.
-/
theorem Task.Covers.exact_sums {task : Task} {fusion : Nat} {start : Address}
    {sum : Array Single} (covers : task.Covers fusion start sum.size) {row : Nat}
    (isRow : row < fusion)
    (finite : ∀ index < task.length, (task.single index).isFinite) {exponent : ℤ}
    (least : -149 ≤ exponent) (most : exponent ≤ 103)
    (multiples : ∀ index < task.length, ∃ factor : ℤ,
      task.realProduct start row index = factor * 2 ^ exponent)
    (bound : ∑ index ∈ Finset.range task.length, |task.realProduct start row index| ≤
      2 ^ (exponent + 24)) :
    ∃ portable avx2 golden, ∃ value : Single,
      sumsAfter (Backend.portable.fused fusion task start) sum = some portable ∧
      sumsAfter (Backend.avx2.fused fusion task start) sum = some avx2 ∧
      sumsAfter (sequential fusion task start) sum = some golden ∧
      portable[row]? = some value ∧ avx2[row]? = some value ∧ golden[row]? = some value ∧
      value.Encodes (∑ index ∈ Finset.range task.length, task.realProduct start row index) ∧
      (∑ index ∈ Finset.range task.length, task.realProduct start row index = 0 → value = .zero) := by
  obtain ⟨grid, fits⟩ := exists_fits least most finite multiples bound
  obtain ⟨portable, ranPortable, -, portableSums⟩ := covers.exists_fused_sums Backend.portable
  obtain ⟨avx2, ranVector, -, vectorSums⟩ := covers.exists_fused_sums Backend.avx2
  obtain ⟨golden, ranGolden, -, goldenSums⟩ := covers.exists_sequential_sums
  have encodes := Single.encodes_of_units? fits.portable.holds fits.portable.sign
  have sequentialEncodes := Single.encodes_of_units? fits.sequential.holds fits.sequential.sign
  rw [← sum_realProduct row finite] at encodes sequentialEncodes
  refine ⟨portable, avx2, golden, _, ranPortable, ranVector, ranGolden, portableSums row isRow, ?_, ?_,
    encodes, ?_⟩
  · rw [vectorSums row isRow, fits.avx2_eq]
  · rw [goldenSums row isRow, sequentialEncodes.unique encodes]
  · intro vanishes
    exact (vanishes ▸ encodes).unique Single.encodes_zero

/-- The ones lie on the grid of whole numbers, and all kernels write nine. -/
theorem Task.Covers.exact_sums_unitProducts :
    ∃ portable avx2 golden, ∃ value : Single,
      sumsAfter (Backend.portable.fused 2 unitProducts unitProducts.y.origin) #[.half, .half] =
        some portable ∧
      sumsAfter (Backend.avx2.fused 2 unitProducts unitProducts.y.origin) #[.half, .half] =
        some avx2 ∧
      sumsAfter (sequential 2 unitProducts unitProducts.y.origin) #[.half, .half] = some golden ∧
      portable[1]? = some value ∧ avx2[1]? = some value ∧ golden[1]? = some value ∧
      value.Encodes 9 := by
  have covers : unitProducts.Covers 2 unitProducts.y.origin (#[.half, .half] : Array Single).size := by
    decide
  have singles : ∀ index < unitProducts.length, unitProducts.single index = .one := by decide
  have codes : ∀ index < unitProducts.length,
      unitProducts.codeAt unitProducts.y.origin 1 index = .one := by decide
  have single : Single.one.toReal = 1 := by
    have units : signed false (Magnitude.units ⟨0x3F800000, by decide⟩) = 2 ^ 149 := rfl
    rw [Single.one, Single.toReal, units]
    norm_num
  have code : Code.one.toReal = 1 := by
    have units : signed Code.one.isNegative Code.one.units = 2 ^ 24 := rfl
    rw [Code.toReal, units]
    norm_num
  have products : ∀ index < unitProducts.length,
      unitProducts.realProduct unitProducts.y.origin 1 index = 1 := by
    intro index inside
    rw [Task.realProduct, singles index inside, codes index inside, single, code, one_mul]
  have total : ∑ index ∈ Finset.range unitProducts.length,
      unitProducts.realProduct unitProducts.y.origin 1 index = 9 := by
    rw [Finset.sum_congr rfl fun index member => products index (Finset.mem_range.mp member)]
    norm_num [unitProducts]
  have sizes : ∑ index ∈ Finset.range unitProducts.length,
      |unitProducts.realProduct unitProducts.y.origin 1 index| = 9 := by
    rw [← total]
    apply Finset.sum_congr rfl
    intro index member
    rw [products index (Finset.mem_range.mp member), abs_one]
  obtain ⟨portable, avx2, golden, value, ranPortable, ranVector, ranGolden, atPortable, atVector,
    atGolden, encodes, -⟩ := Task.Covers.exact_sums covers (by decide : 1 < 2)
      (fun index inside => by rw [singles index inside]; rfl) (by decide : (-149 : ℤ) ≤ 0) (by decide)
      (fun index inside => ⟨1, by rw [products index inside]; norm_num⟩)
      (by rw [sizes]; norm_num)
  exact ⟨portable, avx2, golden, value, ranPortable, ranVector, ranGolden, atPortable, atVector,
    atGolden, total ▸ encodes⟩

end LaneDot
